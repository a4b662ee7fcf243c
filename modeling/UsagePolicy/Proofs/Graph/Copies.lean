import Mathlib.Data.List.Forall2
import Mathlib.Data.List.Zip
import UsagePolicy.Proofs.Graph.References

/-!
# Copies of values

A copy of a value is the same but for the nodes that it holds, and these are again copies, node for
node. Whether two nodes of the one are the same node has no bearing on the other. A value that has a
copy holds no node that contains itself, and all that can be seen of a value without looking at the
identity of its nodes can be seen of its copies alike.
-/

namespace UsagePolicy

/-- The values of two lists correspond, name for name. -/
def Entrywise {κ α β : Type} (R : α → β → Prop) (es : List (κ × α)) (fs : List (κ × β)) : Prop :=
  List.Forall₂ (fun e f => e.1 = f.1 ∧ R e.2 f.2) es fs

namespace Graph

open Relation

/-- The value of the second graph is a copy of that of the first one: it is the same but for the
nodes that it holds, and these are of the same classes, with copies in the same fields. -/
inductive Copies (g h : Graph) : Value → Value → Prop
  | absent : Copies g h .absent .absent
  | bool (b : Bool) : Copies g h (.bool b) (.bool b)
  | int (i : Int) : Copies g h (.int i) (.int i)
  | float (d : Double) : Copies g h (.float d) (.float d)
  | text (t : Text) : Copies g h (.text t) (.text t)
  | member (m : Member) : Copies g h (.member m) (.member m)
  | tuple {vs ws : List Value} : vs.length = ws.length →
    (∀ {x y}, (x, y) ∈ vs.zip ws → Copies g h x y) → Copies g h (.tuple vs) (.tuple ws)
  | list {vs ws : List Value} : vs.length = ws.length →
    (∀ {x y}, (x, y) ∈ vs.zip ws → Copies g h x y) → Copies g h (.list vs) (.list ws)
  | dict {es fs : List (Text × Value)} : es.length = fs.length →
    (∀ {e f}, (e, f) ∈ es.zip fs → e.1 = f.1) →
    (∀ {e f}, (e, f) ∈ es.zip fs → Copies g h e.2 f.2) → Copies g h (.dict es) (.dict fs)
  | node {r s : Ref} {n m : Node} : g.node? r = some n → h.node? s = some m →
    n.nodeClass = m.nodeClass → n.fields.length = m.fields.length →
    (∀ {e f}, (e, f) ∈ n.fields.zip m.fields → e.1 = f.1) →
    (∀ {e f}, (e, f) ∈ n.fields.zip m.fields → Copies g h e.2 f.2) →
    Copies g h (.node r) (.node s)

end Graph

/-! ## Lists whose items correspond -/

section

variable {κ α β : Type} {R : α → β → Prop} {l : List α} {l' : List β} {es : List (κ × α)}
  {fs : List (κ × β)}

theorem mem_zip_swap {a : α} {b : β} (h : (a, b) ∈ l.zip l') : (b, a) ∈ l'.zip l := by
  rw [← List.zip_swap]
  exact List.mem_map.mpr ⟨_, h, rfl⟩

theorem exists_mem_zip_left (length : l.length = l'.length) {a : α} (h : a ∈ l) :
    ∃ b, (a, b) ∈ l.zip l' := by
  rw [← List.map_fst_zip (Nat.le_of_eq length)] at h
  obtain ⟨⟨_, b⟩, member, rfl⟩ := List.mem_map.mp h
  exact ⟨b, member⟩

theorem isEmpty_eq_of_length (length : l.length = l'.length) : l.isEmpty = l'.isEmpty := by
  cases l <;> cases l' <;> first | rfl | cases length

theorem Entrywise.ofZip (length : es.length = fs.length)
    (names : ∀ {e f}, (e, f) ∈ es.zip fs → e.1 = f.1)
    (values : ∀ {e f}, (e, f) ∈ es.zip fs → R e.2 f.2) : Entrywise R es fs :=
  List.forall₂_iff_zip.mpr ⟨length, fun member => ⟨names member, values member⟩⟩

theorem Entrywise.append {es' : List (κ × α)} {fs' : List (κ × β)} (first : Entrywise R es fs)
    (rest : Entrywise R es' fs') : Entrywise R (es ++ es') (fs ++ fs') :=
  List.rel_append first rest

theorem Entrywise.filter (each : Entrywise R es fs) (keep : κ → Bool) :
    Entrywise R (es.filter fun e => keep e.1) (fs.filter fun f => keep f.1) := by
  induction each with
  | nil => exact .nil
  | @cons e f es fs first _ ih =>
    rw [List.filter_cons, List.filter_cons, ← first.1]
    split
    · exact .cons first ih
    · exact ih

theorem Entrywise.lookup [BEq κ] (each : Entrywise R es fs) (k : κ) :
    Option.Rel R (es.lookup k) (fs.lookup k) := by
  induction each with
  | nil => exact .none
  | cons first _ ih =>
    obtain ⟨name, value⟩ := first
    rw [List.lookup_cons, List.lookup_cons, ← name]
    split
    · exact .some value
    · exact ih

end

namespace Graph

open Relation

variable {g h : Graph} {v w : Value} {r s : Ref}

theorem Copies.symm (c : g.Copies h v w) : h.Copies g w v := by
  induction c with
  | absent => exact .absent
  | bool b => exact .bool b
  | int i => exact .int i
  | float d => exact .float d
  | text t => exact .text t
  | member m => exact .member m
  | tuple length _ ih => exact .tuple length.symm fun member => ih (mem_zip_swap member)
  | list length _ ih => exact .list length.symm fun member => ih (mem_zip_swap member)
  | dict length names _ ih =>
    exact .dict length.symm (fun member => (names (mem_zip_swap member)).symm)
      fun member => ih (mem_zip_swap member)
  | node hn hm kind length names _ ih =>
    exact .node hm hn kind.symm length.symm (fun member => (names (mem_zip_swap member)).symm)
      fun member => ih (mem_zip_swap member)

theorem Copies.ofItems {vs ws : List Value} (each : List.Forall₂ (g.Copies h) vs ws) :
    g.Copies h (.list vs) (.list ws) :=
  .list each.length_eq (List.forall₂_zip each)

theorem Copies.ofEntries {es fs : List (Text × Value)} (each : Entrywise (g.Copies h) es fs) :
    g.Copies h (.dict es) (.dict fs) :=
  .dict each.length_eq (fun pair => (List.forall₂_zip each pair).1)
    fun pair => (List.forall₂_zip each pair).2

/-- A copy is one in every graph that its graph grows to. -/
theorem Copies.mono {h' : Graph} (grown : h.Extends h') (c : g.Copies h v w) :
    g.Copies h' v w := by
  induction c with
  | absent => exact .absent
  | bool b => exact .bool b
  | int i => exact .int i
  | float d => exact .float d
  | text t => exact .text t
  | member m => exact .member m
  | tuple length _ ih => exact .tuple length ih
  | list length _ ih => exact .list length ih
  | dict length names _ ih => exact .dict length names ih
  | node hn hm kind length names _ ih => exact .node hn (grown _ _ hm) kind length names ih

/-! ## Nodes that have copies -/

/-- What every node inherits from the nodes in its fields is true of the nodes that a value with a
copy holds. -/
theorem Copies.forall_holds {P : Ref → Prop}
    (inherits : ∀ r n, g.node? r = some n →
      (∀ e ∈ n.fields, ∀ s, e.2.Holds (.node s) → P s) → P r)
    (c : g.Copies h v w) : ∀ r, v.Holds (.node r) → P r := by
  induction c with
  | absent | bool _ | int _ | float _ | text _ | member _ =>
    rintro r ⟨⟩
  | tuple length _ ih =>
    rintro r (_ | ⟨member, holds⟩)
    obtain ⟨y, pair⟩ := exists_mem_zip_left length member
    exact ih pair r holds
  | list length _ ih =>
    rintro r (_ | _ | ⟨member, holds⟩)
    obtain ⟨y, pair⟩ := exists_mem_zip_left length member
    exact ih pair r holds
  | dict length _ _ ih =>
    rintro r (_ | _ | _ | ⟨member, holds⟩)
    obtain ⟨f, pair⟩ := exists_mem_zip_left length member
    exact ih pair r holds
  | node hn _ _ length _ _ ih =>
    rintro r ⟨⟩
    refine inherits _ _ hn fun e member s holds => ?_
    obtain ⟨f, pair⟩ := exists_mem_zip_left length member
    exact ih pair s holds

/-- The nodes that a value with a copy holds are in the graph. -/
theorem Copies.has (c : g.Copies h v w) : g.Has v :=
  c.forall_holds fun _ _ hn _ => (Array.getElem?_eq_some_iff.mp hn).1

/-- Whoever follows references from a value with a copy comes to an end. -/
theorem Copies.acc (c : g.Copies h v w) :
    ∀ r, v.Holds (.node r) → Acc (fun s q => g.Refers q s) r := by
  refine c.forall_holds fun r n hn inside => .intro r ?_
  rintro s ⟨n', hn', e, member, holds⟩
  obtain rfl := Option.some.inj (hn.symm.trans hn')
  exact inside e member s holds

theorem not_transGen_of_acc (acc : Acc (fun s q => g.Refers q s) r) :
    ¬ TransGen g.Refers r r := by
  induction acc with
  | intro r _ ih =>
    intro back
    obtain ⟨s, first, rest⟩ := TransGen.head'_iff.mp back
    exact ih s first (.tail' rest first)

theorem Copies.not_cyclic (c : g.Copies h v w) (holds : v.Holds (.node r)) :
    ¬ TransGen g.Refers r r :=
  not_transGen_of_acc (c.acc r holds)

/-- A copy of a value without nodes is that very value. -/
theorem Copies.eq_of_plain (c : g.Copies h v w) (plain : ∀ r, ¬ v.Holds (.node r)) : v = w := by
  induction c with
  | absent | bool _ | int _ | float _ | text _ | member _ => rfl
  | tuple length _ ih =>
    have same := List.forall₂_iff_zip.mpr ⟨length, fun pair =>
      ih pair fun r holds => plain r (.tuple (List.of_mem_zip pair).1 holds)⟩
    rw [List.forall₂_eq_eq_eq] at same
    rw [same]
  | list length _ ih =>
    have same := List.forall₂_iff_zip.mpr ⟨length, fun pair =>
      ih pair fun r holds => plain r (.list (List.of_mem_zip pair).1 holds)⟩
    rw [List.forall₂_eq_eq_eq] at same
    rw [same]
  | dict length names _ ih =>
    have same := List.forall₂_iff_zip.mpr ⟨length, fun pair => Prod.ext (names pair)
      (ih pair fun r holds => plain r (.dict (List.of_mem_zip pair).1 holds))⟩
    rw [List.forall₂_eq_eq_eq] at same
    rw [same]
  | node _ _ _ _ _ _ _ => exact absurd (.self _) (plain _)

/-! ## What can be seen of a value -/

theorem Copies.typeName (c : g.Copies h v w) : g.typeName v = h.typeName w := by
  cases c with
  | node hn hm kind => simp [Graph.typeName, hn, hm, kind]
  | _ => rfl

theorem Copies.nodeClass? (c : g.Copies h v w) : g.nodeClass? v = h.nodeClass? w := by
  cases c with
  | node hn hm kind => simp [Graph.nodeClass?, hn, hm, kind]
  | _ => rfl

theorem Copies.text? (c : g.Copies h v w) : v.text? = w.text? := by
  cases c <;> rfl

theorem Copies.isTruthy (c : g.Copies h v w) : v.isTruthy = w.isTruthy := by
  cases c with
  | tuple length _ | list length _ | dict length _ _ =>
    exact congrArg (!·) (isEmpty_eq_of_length length)
  | _ => rfl

/-- The elements of copies are copies one by one. -/
theorem Copies.elements? (c : g.Copies h v w) :
    Option.Rel (List.Forall₂ (g.Copies h)) (g.elements? v) (h.elements? w) := by
  have texts : ∀ {α : Type} (l : List α) (text : α → Text),
      List.Forall₂ (g.Copies h) (l.map fun x => .text (text x)) (l.map fun x => .text (text x)) :=
    fun l text => List.forall₂_map_left_iff.mpr
      (List.forall₂_map_right_iff.mpr (List.forall₂_same.mpr fun _ _ => .text _))
  cases c with
  | absent | bool _ | int _ | float _ => exact .none
  | text t => exact .some (texts t _)
  | member m => exact .some (texts m.value _)
  | tuple length each | list length each => exact .some (List.forall₂_iff_zip.mpr ⟨length, each⟩)
  | dict length names _ =>
    refine .some (List.forall₂_map_left_iff.mpr (List.forall₂_map_right_iff.mpr
      (List.forall₂_iff_zip.mpr ⟨length, fun member => ?_⟩)))
    rw [names member]
    exact .text _
  | node hn hm _ length names each =>
    simp only [Graph.elements?, hn, hm, Option.map_some]
    refine .some (List.forall₂_map_left_iff.mpr (List.forall₂_map_right_iff.mpr
      (List.forall₂_iff_zip.mpr ⟨length, fun member => ?_⟩)))
    rw [names member]
    refine .tuple rfl fun pair => ?_
    rcases List.mem_cons.mp pair with same | pair
    · cases same
      exact .text _
    · cases List.mem_singleton.mp pair
      exact each member

/-- The fields of nodes that are copies are copies one by one. -/
theorem Copies.get? {n m : Node} (c : g.Copies h (.node r) (.node s)) (hn : g.node? r = some n)
    (hm : h.node? s = some m) (f : Field) :
    Option.Rel (g.Copies h) (n.get? f) (m.get? f) := by
  cases c with
  | node hn' hm' _ length names each =>
    obtain rfl := Option.some.inj (hn'.symm.trans hn)
    obtain rfl := Option.some.inj (hm'.symm.trans hm)
    exact (Entrywise.ofZip length names each).lookup f

/-! ## JSON forms -/

theorem toOption_map {ε α β : Type} (f : α → β) (x : Except ε α) :
    (x.map f).toOption = x.toOption.map f := by
  cases x <;> rfl

theorem toOption_toJsonItems (v : Value) (vs : List Value) :
    (Value.toJsonItems (v :: vs)).toOption = v.toJson.toOption.bind fun j =>
      (Value.toJsonItems vs).toOption.map (j :: ·) := by
  rw [Value.toJsonItems]
  cases v.toJson with
  | error r => rfl
  | ok j => exact toOption_map _ _

theorem toOption_toJsonEntries (k : Text) (v : Value) (es : List (Text × Value)) :
    (Value.toJsonEntries ((k, v) :: es)).toOption = v.toJson.toOption.bind fun j =>
      (Value.toJsonEntries es).toOption.map ((k, j) :: ·) := by
  rw [Value.toJsonEntries]
  cases v.toJson with
  | error r => rfl
  | ok j => exact toOption_map _ _

theorem toOption_toJsonItems_congr {vs ws : List Value}
    (each : List.Forall₂ (fun v w => v.toJson.toOption = w.toJson.toOption) vs ws) :
    (Value.toJsonItems vs).toOption = (Value.toJsonItems ws).toOption := by
  induction each with
  | nil => rfl
  | cons first _ ih => rw [toOption_toJsonItems, toOption_toJsonItems, first, ih]

theorem toOption_toJsonEntries_congr {es fs : List (Text × Value)}
    (each : Entrywise (fun v w => v.toJson.toOption = w.toJson.toOption) es fs) :
    (Value.toJsonEntries es).toOption = (Value.toJsonEntries fs).toOption := by
  induction each with
  | nil => rfl
  | @cons e f es fs first _ ih =>
    obtain ⟨k, v⟩ := e
    obtain ⟨k', w⟩ := f
    obtain ⟨rfl, first⟩ := first
    rw [toOption_toJsonEntries, toOption_toJsonEntries, first, ih]

/-- Copies have the same JSON form, or none of them has one. -/
theorem Copies.toJson (c : g.Copies h v w) : v.toJson.toOption = w.toJson.toOption := by
  induction c with
  | absent | bool _ | int _ | float _ | text _ | member _ | node _ _ _ _ _ _ => rfl
  | tuple length _ ih | list length _ ih =>
    rw [Value.toJson, Value.toJson, toOption_map, toOption_map,
      toOption_toJsonItems_congr (List.forall₂_iff_zip.mpr ⟨length, ih⟩)]
  | dict length names _ ih =>
    rw [Value.toJson, Value.toJson, toOption_map, toOption_map,
      toOption_toJsonEntries_congr (.ofZip length names ih)]

/-! ## Texts -/

/-- Two results are the same, or one of them is that a text has no end. -/
def Agree {α : Type} (a b : Except PrintFlaw α) : Prop :=
  a = .error .endless ∨ b = .error .endless ∨ a = b

theorem agree_refl {α : Type} (a : Except PrintFlaw α) : Agree a a := .inr (.inr rfl)

theorem Agree.eq {α : Type} {a b : Except PrintFlaw α} (agree : Agree a b)
    (ha : a ≠ .error .endless) (hb : b ≠ .error .endless) : a = b := by
  rcases agree with endless | endless | same
  · exact absurd endless ha
  · exact absurd endless hb
  · exact same

theorem Agree.bind {α β : Type} {a b : Except PrintFlaw α} (agree : Agree a b)
    {k k' : α → Except PrintFlaw β} (each : ∀ x, Agree (k x) (k' x)) :
    Agree (a.bind k) (b.bind k') := by
  rcases agree with rfl | rfl | rfl
  · exact .inl rfl
  · exact .inr (.inl rfl)
  · cases a with
    | error flaw => exact agree_refl _
    | ok x => exact each x

theorem Agree.map {α β : Type} {a b : Except PrintFlaw α} (agree : Agree a b) (f : α → β) :
    Agree (a.map f) (b.map f) := by
  rcases agree with rfl | rfl | rfl
  · exact .inl rfl
  · exact .inr (.inl rfl)
  · exact agree_refl _

theorem mapM_agree {α β γ : Type} {f : α → Except PrintFlaw γ} {f' : β → Except PrintFlaw γ}
    {l : List α} {l' : List β} (each : List.Forall₂ (fun a b => Agree (f a) (f' b)) l l') :
    Agree (l.mapM f) (l'.mapM f') := by
  induction each with
  | nil => exact agree_refl _
  | cons first _ ih =>
    rw [Except.mapM_cons, Except.mapM_cons]
    exact first.bind fun t => ih.map _

variable {o o' : List Slot} {inner inner' : List Slot → Ref → Except PrintFlaw Text}

/-- The fields that are being printed while a value in a field is. -/
def within (o : List Slot) (r : Ref) (f : Field) (v : Value) : List Slot :=
  if v.note? = none then o else (r, f) :: o

/-- A field is printed as its value if that is not the node itself and the field is not being printed
already. -/
theorem fieldShown_eq {f : Field} (other : v ≠ .node r) (fresh : (r, f) ∉ o) :
    g.fieldShown inner o r f v = v.shownWith (inner (within o r f v)) := by
  cases v with
  | node s =>
    have different : s ≠ r := fun same => other (congrArg _ same)
    simp [fieldShown, different, within, Value.note?, Value.shownWith]
  | tuple vs | list vs | dict es => simp [fieldShown, fresh, within, Value.note?]
  | _ => simp [fieldShown, within, Value.note?]

/-- No field that is being printed is one of a node that the value leads to. -/
def Clear (g : Graph) (o : List Slot) (v : Value) : Prop :=
  ∀ r, v.Holds (.node r) → ∀ slot ∈ o, ¬ ReflTransGen g.Refers r slot.1

theorem clear_nil : g.Clear [] v := by
  rintro _ _ _ ⟨⟩

theorem Copies.not_refers_self (c : g.Copies h (.node r) w) : ¬ g.Refers r r :=
  fun back => c.not_cyclic (.self _) (.single back)

/-- Within a node that does not contain itself the printing of a field is not met again. -/
theorem Clear.within {n : Node} {e : Field × Value} (clear : g.Clear o (.node r))
    (c : g.Copies h (.node r) w) (hn : g.node? r = some n) (member : e ∈ n.fields) :
    g.Clear (within o r e.1 e.2) e.2 := by
  intro s holds slot opened reached
  have step : g.Refers r s := ⟨n, hn, e, member, holds⟩
  unfold Graph.within at opened
  split at opened
  · exact clear r (.self _) slot opened (.head step reached)
  · rcases List.mem_cons.mp opened with rfl | opened
    · exact c.not_cyclic (.self _) (.head' step reached)
    · exact clear r (.self _) slot opened (.head step reached)

theorem Copies.ne_self (c : g.Copies h (.node r) w) {n : Node} (hn : g.node? r = some n)
    {e : Field × Value} (member : e ∈ n.fields) : e.2 ≠ .node r := by
  intro same
  exact c.not_refers_self ⟨n, hn, e, member, same ▸ .self _⟩

/-- The fields of copies are printed alike if their values are. -/
theorem fields_agree {n m : Node} (c : g.Copies h (.node r) (.node s)) (hn : g.node? r = some n)
    (hm : h.node? s = some m) (length : n.fields.length = m.fields.length)
    (names : ∀ {e f}, (e, f) ∈ n.fields.zip m.fields → e.1 = f.1)
    (values : ∀ {e f}, (e, f) ∈ n.fields.zip m.fields →
      Agree (e.2.shownWith (inner (within o r e.1 e.2)))
        (f.2.shownWith (inner' (within o' s f.1 f.2))))
    (clear : g.Clear o (.node r)) (clear' : h.Clear o' (.node s)) :
    Agree (g.fieldsShown inner o r n.fields) (h.fieldsShown inner' o' s m.fields) := by
  rw [fieldsShown_eq_mapM, fieldsShown_eq_mapM]
  refine mapM_agree (List.forall₂_iff_zip.mpr ⟨length, @fun e f pair => ?_⟩)
  obtain ⟨member, member'⟩ := List.of_mem_zip pair
  have printed : Agree (g.fieldShown inner o r e.1 e.2) (h.fieldShown inner' o' s f.1 f.2) := by
    rw [fieldShown_eq (c.ne_self hn member) fun opened => clear r (.self _) _ opened .refl,
      fieldShown_eq (c.symm.ne_self hm member') fun opened => clear' s (.self _) _ opened .refl]
    exact values pair
  rw [names pair] at printed ⊢
  exact printed.map _

/-- Texts of copies are the same, however deep they may be printed, if no field that is being printed
is met again. -/
theorem Copies.shownWith (c : g.Copies h v w) : ∀ m n o o', g.Clear o v → h.Clear o' w →
    Agree (v.shownWith (g.nodeShown m o)) (w.shownWith (h.nodeShown n o')) := by
  induction c with
  | absent | int _ | float _ | text _ | member _ => exact fun _ _ _ _ _ _ => agree_refl _
  | bool b => cases b <;> exact fun _ _ _ _ _ _ => agree_refl _
  | tuple length _ ih =>
    intro m n o o' clear clear'
    rw [Value.shownWith, Value.shownWith, Value.itemsWith_eq_mapM, Value.itemsWith_eq_mapM]
    refine (mapM_agree (List.forall₂_iff_zip.mpr ⟨length, fun pair => ?_⟩)).map _
    obtain ⟨member, member'⟩ := List.of_mem_zip pair
    exact ih pair m n o o' (fun r holds => clear r (.tuple member holds))
      fun r holds => clear' r (.tuple member' holds)
  | list length _ ih =>
    intro m n o o' clear clear'
    rw [Value.shownWith, Value.shownWith, Value.itemsWith_eq_mapM, Value.itemsWith_eq_mapM]
    refine (mapM_agree (List.forall₂_iff_zip.mpr ⟨length, fun pair => ?_⟩)).map _
    obtain ⟨member, member'⟩ := List.of_mem_zip pair
    exact ih pair m n o o' (fun r holds => clear r (.list member holds))
      fun r holds => clear' r (.list member' holds)
  | dict length names _ ih =>
    intro m n o o' clear clear'
    rw [Value.shownWith, Value.shownWith, Value.entriesWith_eq_mapM, Value.entriesWith_eq_mapM]
    refine (mapM_agree (List.forall₂_iff_zip.mpr ⟨length, fun pair => ?_⟩)).map _
    obtain ⟨member, member'⟩ := List.of_mem_zip pair
    rw [names pair]
    exact (ih pair m n o o' (fun r holds => clear r (.dict member holds))
      fun r holds => clear' r (.dict member' holds)).map _
  | @node r s node node' hn hm kind length names each ih =>
    have c : g.Copies h (.node r) (.node s) := .node hn hm kind length names each
    intro m n o o' clear clear'
    cases m with
    | zero => exact .inl rfl
    | succ m =>
      cases n with
      | zero => exact .inr (.inl rfl)
      | succ n =>
        have fields : Agree (g.fieldsShown (g.nodeShown m) o r node.fields)
            (h.fieldsShown (h.nodeShown n) o' s node'.fields) := by
          refine fields_agree c hn hm length names (fun pair => ?_) clear clear'
          obtain ⟨member, member'⟩ := List.of_mem_zip pair
          exact ih pair m n _ _ (clear.within c hn member) (clear'.within c.symm hm member')
        rw [Value.shownWith, Value.shownWith, nodeShown_succ hn, nodeShown_succ hm, kind]
        exact fields.map _

/-- Whatever a value with a copy comes to, it is in no circle. -/
theorem Copies.not_endless (c : g.Copies h v w) : ¬ g.Endless v := by
  rintro ⟨r, s, holds, reached, back⟩
  refine not_transGen_of_acc ?_ (TransGen.mono (fun _ _ step => step.refers) _ _ back)
  clear back
  induction reached with
  | refl => exact c.acc r holds
  | tail _ step ih => exact ih.inv step.refers

theorem Copies.shown_ne_endless (closed : g.Closed) (c : g.Copies h v w) :
    g.shown v ≠ .error .endless := fun endless =>
  c.not_endless (endless_of_shownWithin closed c.has List.nodup_nil (List.nil_subset _) endless)

/-- Copies are printed alike. -/
theorem Copies.shown (hg : g.Closed) (hh : h.Closed) (c : g.Copies h v w) :
    g.shown v = h.shown w :=
  (c.shownWith _ _ [] [] clear_nil clear_nil).eq (c.shown_ne_endless hg)
    (c.symm.shown_ne_endless hh)

/-- Copies are printed plainly alike if no field that is being printed is met again. -/
theorem Copies.plainWithin (hg : g.Closed) (hh : h.Closed) (c : g.Copies h v w)
    (distinct : o.Nodup) (known : o ⊆ g.slots) (clear : g.Clear o v)
    (distinct' : o'.Nodup) (known' : o' ⊆ h.slots) (clear' : h.Clear o' w) :
    g.plainWithin o v = h.plainWithin o' w := by
  have agree : Agree (g.plainWithin o v) (h.plainWithin o' w) := by
    have shown := c.shownWith g.nesting h.nesting o o' clear clear'
    cases c with
    | text _ | member _ => exact agree_refl _
    | @node r s n m hn hm kind length names each =>
      have c : g.Copies h (.node r) (.node s) := .node hn hm kind length names each
      simp only [Graph.plainWithin, hn, hm]
      refine (fields_agree c hn hm length names (fun pair => ?_) clear clear').map _
      obtain ⟨member, member'⟩ := List.of_mem_zip pair
      exact (each pair).shownWith _ _ _ _ (clear.within c hn member)
        (clear'.within c.symm hm member')
    | _ => exact shown
  exact agree.eq
    (fun endless => c.not_endless (endless_of_plainWithin hg c.has distinct known endless))
    fun endless => c.symm.not_endless (endless_of_plainWithin hh c.symm.has distinct' known' endless)

/-! ## Values of fields -/

variable {x y : Value} {f : Field}

theorem nodup_slot : (x.slot f).Nodup := by
  cases x <;> simp [Value.slot]

theorem slot_subset (hv : g.fieldOf x f = .ok v) : x.slot f ⊆ g.slots := by
  cases x with
  | node r =>
    obtain ⟨n, hn, found⟩ := fieldOf_node.mp hv
    obtain ⟨as, bs, split, -⟩ := List.lookup_eq_some_iff.mp found
    refine List.cons_subset.mpr ⟨List.mem_flatMap.mpr ⟨r, List.mem_range.mpr ?_, ?_⟩,
      List.nil_subset _⟩
    · exact (Array.getElem?_eq_some_iff.mp hn).1
    · rw [hn]
      exact List.mem_map.mpr ⟨(f, v), by simp [split], rfl⟩
  | _ => cases hv

theorem Copies.clear_slot (c : g.Copies h x y) (hv : g.fieldOf x f = .ok v) :
    g.Clear (x.slot f) v := by
  intro s holds slot opened reached
  obtain ⟨r, rfl, step⟩ := refers_of_fieldOf hv holds
  obtain rfl := List.mem_singleton.mp opened
  exact c.not_cyclic (.self _) (.head' step reached)

/-- Values that copies have in a field are printed alike. -/
theorem Copies.plain_field (hg : g.Closed) (hh : h.Closed) (around : g.Copies h x y)
    (hv : g.fieldOf x f = .ok v) (hw : h.fieldOf y f = .ok w) (c : g.Copies h v w) :
    g.plainWithin (x.slot f) v = h.plainWithin (y.slot f) w :=
  c.plainWithin hg hh nodup_slot (slot_subset hv) (around.clear_slot hv) nodup_slot
    (slot_subset hw) (around.symm.clear_slot hw)

end Graph

end UsagePolicy
