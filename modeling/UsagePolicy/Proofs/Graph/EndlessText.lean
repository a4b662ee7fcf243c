import Mathlib.Logic.Relation
import Mathlib.Data.Finset.Card
import Mathlib.Data.Nat.Find
import UsagePolicy.Graph.Printer
import UsagePolicy.Proofs.Text.Decimal

/-!
# Texts that do not end

The text of a value holds the texts of the nodes that it holds, and so on. It is cut short where a
field of a node is that very node, and where a tuple, list or dictionary comes within itself. So the
text of a value has no end exactly if it comes to nodes that are each other's fields in a circle.
-/

namespace UsagePolicy

section

variable {ε α β : Type} {x : Except ε α} {e : ε} {f : α → Except ε β} {a : α} {l : List α}

theorem Except.map_eq_error_iff {g : α → β} : x.map g = .error e ↔ x = .error e := by
  cases x <;> simp [Except.map]

theorem Except.bind_eq_error {k : α → Except ε β} (h : x.bind k = .error e) :
    x = .error e ∨ ∃ a, x = .ok a ∧ k a = .error e := by
  cases x with
  | error e' => exact .inl (congrArg _ (Except.error.inj h))
  | ok a => exact .inr ⟨a, rfl, h⟩

theorem Except.mapM_cons : (a :: l).mapM f = (f a).bind fun b => (l.mapM f).map (b :: ·) := by
  rw [List.mapM_cons]
  cases f a with
  | error e => rfl
  | ok b => cases l.mapM f <;> rfl

/-- Items that are taken one by one fail as one of them does. -/
theorem Except.mapM_eq_error (h : l.mapM f = .error e) : ∃ a ∈ l, f a = .error e := by
  induction l with
  | nil => cases h
  | cons a l ih =>
    rw [List.exists_mem_cons_iff]
    rw [mapM_cons] at h
    rcases bind_eq_error h with h | ⟨b, -, h⟩
    · exact .inl h
    · exact .inr (ih (map_eq_error_iff.mp h))

/-- Items that are taken one by one fail if one of them does. -/
theorem Except.exists_mapM_eq_error (member : a ∈ l) (h : f a = .error e) :
    ∃ e', l.mapM f = .error e' := by
  induction l with
  | nil => cases member
  | cons b l ih =>
    rw [mapM_cons]
    cases here : f b with
    | error e' => exact ⟨e', rfl⟩
    | ok c =>
      rcases List.mem_cons.mp member with rfl | later
      · cases here.symm.trans h
      · obtain ⟨e', h⟩ := ih later
        exact ⟨e', by rw [h]; rfl⟩

end

namespace Value

/-- The second value is the first one, or it stands inside its tuples, lists and dictionaries. -/
inductive Holds : Value → Value → Prop
  | self (v : Value) : Holds v v
  | tuple {vs : List Value} {x w : Value} : x ∈ vs → Holds x w → Holds (.tuple vs) w
  | list {vs : List Value} {x w : Value} : x ∈ vs → Holds x w → Holds (.list vs) w
  | dict {es : List (Text × Value)} {e : Text × Value} {w : Value} :
    e ∈ es → Holds e.2 w → Holds (.dict es) w

/-- The integers in the value have at most 4300 digits, which is as many as are printed. -/
def Printable (v : Value) : Prop := ∀ i, v.Holds (.int i) → (Text.decimal i.natAbs).length ≤ 4300

@[simp] theorem printable_absent : Value.absent.Printable := by
  rintro i ⟨⟩

@[simp] theorem printable_member (m : Member) : (Value.member m).Printable := by
  rintro i ⟨⟩

@[simp] theorem printable_node (r : Ref) : (Value.node r).Printable := by
  rintro i ⟨⟩

@[simp] theorem printable_tuple {vs : List Value} :
    (Value.tuple vs).Printable ↔ ∀ x ∈ vs, x.Printable := by
  constructor
  · intro h x member i holds
    exact h i (.tuple member holds)
  · rintro h i (_ | ⟨member, holds⟩)
    exact h _ member i holds

variable {node : Ref → Except PrintFlaw Text} {flaw : PrintFlaw} {v w x : Value}
  {vs : List Value} {es : List (Text × Value)} {r : Ref}

theorem Holds.printable (holds : v.Holds w) (h : v.Printable) : w.Printable := by
  induction holds with
  | self v => exact h
  | tuple member _ ih => exact ih fun i inside => h i (.tuple member inside)
  | list member _ ih => exact ih fun i inside => h i (.list member inside)
  | dict member _ ih => exact ih fun i inside => h i (.dict member inside)

theorem itemsWith_eq_mapM : itemsWith node vs = vs.mapM (shownWith node) := by
  induction vs with
  | nil => rfl
  | cons v vs ih => rw [itemsWith, Except.mapM_cons, ih]

theorem entriesWith_eq_mapM : entriesWith node es = es.mapM fun e =>
    (e.2.shownWith node).map (e.1.quoted ++ (": " : Text) ++ ·) := by
  induction es with
  | nil => rfl
  | cons e es ih =>
    rw [entriesWith, Except.mapM_cons, ih]
    cases e.2.shownWith node <;> rfl

theorem sizeOf_snd_lt_of_mem {e : Text × Value} (member : e ∈ es) : sizeOf e.2 < sizeOf es := by
  have entry := List.sizeOf_lt_of_mem member
  rw [Prod.mk.sizeOf_spec] at entry
  omega

/-- What is wrong with the text of a value is wrong with that of a node that it holds, or it holds an
integer that is not printed. -/
theorem shownWith_eq_error : ∀ v : Value, v.shownWith node = .error flaw →
    (∃ r, v.Holds (.node r) ∧ node r = .error flaw) ∨ (flaw = .digits ∧ ¬ v.Printable)
  | .node r, h => .inl ⟨r, .self _, h⟩
  | .tuple vs, h => by
    rw [shownWith, itemsWith_eq_mapM] at h
    obtain ⟨x, member, h⟩ := Except.mapM_eq_error (Except.map_eq_error_iff.mp h)
    rcases shownWith_eq_error x h with ⟨r, holds, h⟩ | ⟨rfl, long⟩
    · exact .inl ⟨r, .tuple member holds, h⟩
    · exact .inr ⟨rfl, fun h => long ((Holds.tuple member (.self x)).printable h)⟩
  | .list vs, h => by
    rw [shownWith, itemsWith_eq_mapM] at h
    obtain ⟨x, member, h⟩ := Except.mapM_eq_error (Except.map_eq_error_iff.mp h)
    rcases shownWith_eq_error x h with ⟨r, holds, h⟩ | ⟨rfl, long⟩
    · exact .inl ⟨r, .list member holds, h⟩
    · exact .inr ⟨rfl, fun h => long ((Holds.list member (.self x)).printable h)⟩
  | .dict es, h => by
    rw [shownWith, entriesWith_eq_mapM] at h
    obtain ⟨e, member, h⟩ := Except.mapM_eq_error (Except.map_eq_error_iff.mp h)
    have smaller : sizeOf e.2 < sizeOf es := sizeOf_snd_lt_of_mem member
    rcases shownWith_eq_error e.2 (Except.map_eq_error_iff.mp h) with ⟨r, holds, h⟩ | ⟨rfl, long⟩
    · exact .inl ⟨r, .dict member holds, h⟩
    · exact .inr ⟨rfl, fun h => long ((Holds.dict member (.self e.2)).printable h)⟩
  | .int i, h => by
    rw [shownWith] at h
    split at h
    · next long =>
      refine .inr ⟨(Except.error.inj h).symm, fun short => ?_⟩
      exact absurd (short i (.self _)) (Nat.not_le.mpr (Text.isOversized_iff.mp long))
    · cases h
  | .bool b, h => by cases b <;> cases h
  | .absent, h | .float _, h | .text _, h | .member _, h => by cases h

/-- A value that holds a node without a text has no text. -/
theorem Holds.exists_shownWith_eq_error (holds : v.Holds (.node r)) (h : node r = .error flaw) :
    ∃ flaw, v.shownWith node = .error flaw := by
  generalize hw : Value.node r = w at holds
  induction holds with
  | self v =>
    subst hw
    exact ⟨flaw, h⟩
  | tuple member _ ih | list member _ ih =>
    obtain ⟨flaw, h⟩ := ih hw
    simp only [shownWith, itemsWith_eq_mapM, Except.map_eq_error_iff]
    exact Except.exists_mapM_eq_error member h
  | dict member _ ih =>
    obtain ⟨flaw, h⟩ := ih hw
    simp only [shownWith, entriesWith_eq_mapM, Except.map_eq_error_iff]
    exact Except.exists_mapM_eq_error member (Except.map_eq_error_iff.mpr h)

end Value

namespace Graph

open Relation

variable {g : Graph} {r s : Ref} {v : Value}

/-- The nodes that the value holds are in the graph. -/
def Has (g : Graph) (v : Value) : Prop := ∀ r, v.Holds (.node r) → r < g.nodes.size

@[simp] theorem has_absent : g.Has .absent := by
  rintro r ⟨⟩

@[simp] theorem has_member (m : Member) : g.Has (.member m) := by
  rintro r ⟨⟩

@[simp] theorem has_node : g.Has (.node r) ↔ r < g.nodes.size := by
  constructor
  · intro h
    exact h r (.self _)
  · rintro h s ⟨⟩
    exact h

@[simp] theorem has_tuple {vs : List Value} : g.Has (.tuple vs) ↔ ∀ x ∈ vs, g.Has x := by
  constructor
  · intro h x member r holds
    exact h r (.tuple member holds)
  · rintro h r (_ | ⟨member, holds⟩)
    exact h _ member r holds

/-- The nodes that the fields of nodes hold are in the graph. -/
def Closed (g : Graph) : Prop := ∀ n ∈ g.nodes, ∀ e ∈ n.fields, g.Has e.2

/-- A field of the first node is the second one, which is another node. -/
def Wraps (g : Graph) (r s : Ref) : Prop :=
  s ≠ r ∧ ∃ n, g.node? r = some n ∧ ∃ e ∈ n.fields, e.2 = .node s

/-- A tuple, list or dictionary in the field holds the node. -/
def SlotHolds (g : Graph) (o : Slot) (s : Ref) : Prop :=
  ∃ n, g.node? o.1 = some n ∧ ∃ v, (o.2, v) ∈ n.fields ∧ v.note? ≠ none ∧ v.Holds (.node s)

/-- The text of the second node stands in that of the first one. -/
def Prints (g : Graph) (r s : Ref) : Prop := g.Wraps r s ∨ ∃ f, g.SlotHolds (r, f) s

/-- The value holds a node whose text comes to one of nodes that are each other's fields in a
circle. -/
def Endless (g : Graph) (v : Value) : Prop :=
  ∃ r s, v.Holds (.node r) ∧ ReflTransGen g.Prints r s ∧ TransGen g.Wraps s s

/-- Where fields are being printed already, the text of the second node comes next in that of the
first one, and then further fields may be. -/
inductive Enters (g : Graph) : List Slot → Ref → List Slot → Ref → Prop
  | wraps {o : List Slot} {r s : Ref} : g.Wraps r s → Enters g o r o s
  | opens {o : List Slot} {r s : Ref} {f : Field} : (r, f) ∉ o → g.SlotHolds (r, f) s →
    Enters g o r ((r, f) :: o) s

/-- Texts stand inside one another `n` deep in the text of the node. -/
def PrintsDeep (g : Graph) : (n : Nat) → List Slot → Ref → Prop
  | 0, _, _ => True
  | n + 1, o, r => ∃ o' s, g.Enters o r o' s ∧ PrintsDeep g n o' s

variable {f : Field} {o o' : List Slot} {flaw : PrintFlaw}
  {inner : List Slot → Ref → Except PrintFlaw Text}

theorem Prints.lt (closed : g.Closed) (h : g.Prints r s) : s < g.nodes.size := by
  rcases h with ⟨-, n, hn, e, member, value⟩ | ⟨f, n, hn, v, member, -, holds⟩
  · exact closed n (Array.mem_of_getElem? hn) e member s (value ▸ .self _)
  · exact closed n (Array.mem_of_getElem? hn) _ member s holds

theorem Enters.prints (h : g.Enters o r o' s) : g.Prints r s := by
  cases h with
  | wraps h => exact .inl h
  | opens _ h => exact .inr ⟨_, h⟩

theorem Enters.exists_node (h : g.Enters o r o' s) : ∃ node, g.node? r = some node := by
  cases h with
  | wraps h => exact ⟨_, h.2.choose_spec.1⟩
  | opens _ h => exact ⟨_, h.choose_spec.1⟩

/-! ## Texts that nodes have -/

/-- What is wrong with the text of a field is wrong with that of a node that it comes to, or there is
an integer in the field that is not printed. -/
theorem fieldShown_eq_error (h : g.fieldShown inner o r f v = .error flaw) :
    (∃ s, v = .node s ∧ s ≠ r ∧ inner o s = .error flaw) ∨
      ((r, f) ∉ o ∧ v.note? ≠ none ∧
        ∃ s, v.Holds (.node s) ∧ inner ((r, f) :: o) s = .error flaw) ∨
      (flaw = .digits ∧ ¬ v.Printable) := by
  unfold fieldShown at h
  split at h
  · next s =>
    split at h
    · cases h
    · next other => exact .inl ⟨s, rfl, other, h⟩
  · next notNode =>
    split at h
    · next unnoted =>
      rcases Value.shownWith_eq_error v h with ⟨s, holds, -⟩ | long
      · cases holds with
        | self => exact absurd rfl (notNode s)
        | tuple _ _ | list _ _ | dict _ _ => cases unnoted
      · exact .inr (.inr long)
    · next note noted =>
      split at h
      · cases h
      · next fresh =>
        rcases Value.shownWith_eq_error v h with held | long
        · exact .inr (.inl ⟨fresh, by simp [noted], held⟩)
        · exact .inr (.inr long)

theorem fieldsShown_eq_mapM {fs : List (Field × Value)} :
    g.fieldsShown inner o r fs = fs.mapM fun e =>
      (g.fieldShown inner o r e.1 e.2).map (e.1.name ++ 0x3D :: ·) := by
  induction fs with
  | nil => rfl
  | cons e fs ih =>
    rw [fieldsShown, Except.mapM_cons, ih]
    cases g.fieldShown inner o r e.1 e.2 <;> rfl

/-- What is wrong with the fields of a node is wrong with a node that comes next, or there is an
integer in them that is not printed. -/
theorem fields_eq_error {node : Node} (hn : g.node? r = some node)
    (h : g.fieldsShown inner o r node.fields = .error flaw) :
    (∃ o' s, g.Enters o r o' s ∧ inner o' s = .error flaw) ∨
      (flaw = .digits ∧ ∃ e ∈ node.fields, ¬ e.2.Printable) := by
  rw [fieldsShown_eq_mapM] at h
  obtain ⟨⟨f, v⟩, member, h⟩ := Except.mapM_eq_error h
  rcases fieldShown_eq_error (Except.map_eq_error_iff.mp h) with
    ⟨s, rfl, other, h⟩ | ⟨fresh, noted, s, holds, h⟩ | ⟨rfl, long⟩
  · exact .inl ⟨o, s, .wraps ⟨other, node, hn, _, member, rfl⟩, h⟩
  · exact .inl ⟨_, s, .opens fresh ⟨node, hn, v, member, noted, holds⟩, h⟩
  · exact .inr ⟨rfl, _, member, long⟩

theorem nodeShown_succ {n : Nat} {node : Node} (hn : g.node? r = some node) :
    g.nodeShown (n + 1) o r = (g.fieldsShown (g.nodeShown n) o r node.fields).map fun ts =>
      node.nodeClass.name ++ 0x28 :: Text.join ", " ts ++ [0x29] := by
  rw [nodeShown, hn]

/-- A node has a text without end only if texts stand inside one another as deep as is looked. -/
theorem printsDeep_of_nodeShown {n : Nat} (h : g.nodeShown n o r = .error .endless) :
    g.PrintsDeep n o r := by
  induction n generalizing o r with
  | zero => trivial
  | succ n ih =>
    cases hn : g.node? r with
    | none =>
      rw [nodeShown, hn] at h
      cases h
    | some node =>
      rw [nodeShown_succ hn] at h
      rcases fields_eq_error hn (Except.map_eq_error_iff.mp h) with ⟨o', s, enters, h⟩ | ⟨other, -⟩
      · exact ⟨o', s, enters, ih h⟩
      · cases other

/-- The fields of a node have no text if a node that comes next has none. -/
theorem Enters.exists_fields_eq_error {node : Node} {s : Ref} (hn : g.node? r = some node)
    (enters : g.Enters o r o' s) (h : inner o' s = .error flaw) :
    ∃ flaw, g.fieldsShown inner o r node.fields = .error flaw := by
  rw [fieldsShown_eq_mapM]
  cases enters with
  | wraps wraps =>
    obtain ⟨other, node', hn', ⟨f, v⟩, member, rfl⟩ := wraps
    obtain rfl := Option.some.inj (hn.symm.trans hn')
    have field : g.fieldShown inner o r f (.node s) = .error flaw := by
      rw [fieldShown, if_neg other, h]
    exact Except.exists_mapM_eq_error member (Except.map_eq_error_iff.mpr field)
  | @opens _ f fresh slot =>
    obtain ⟨node', hn', v, member, noted, holds⟩ := slot
    obtain rfl := Option.some.inj (hn.symm.trans hn')
    obtain ⟨flaw, h⟩ := holds.exists_shownWith_eq_error h
    have field : g.fieldShown inner o r f v = .error flaw := by
      cases v with
      | tuple vs | list vs | dict es => simp only [fieldShown, Value.note?, if_neg fresh, h]
      | _ => exact absurd rfl noted
    exact Except.exists_mapM_eq_error member (Except.map_eq_error_iff.mpr field)

/-- A node in which texts stand inside one another as deep as is looked has no text. -/
theorem PrintsDeep.exists_nodeShown_eq_error {n : Nat} (deep : g.PrintsDeep n o r) :
    ∃ flaw, g.nodeShown n o r = .error flaw := by
  induction n generalizing o r with
  | zero => exact ⟨.endless, rfl⟩
  | succ n ih =>
    obtain ⟨o', s, enters, deep⟩ := deep
    obtain ⟨flaw, h⟩ := ih deep
    obtain ⟨node, hn⟩ := enters.exists_node
    obtain ⟨flaw, h⟩ := enters.exists_fields_eq_error hn h
    exact ⟨flaw, by rw [nodeShown_succ hn, h]; rfl⟩

/-! ## How deep texts stand inside one another -/

theorem SlotHolds.mem_slots {slot : Slot} (h : g.SlotHolds slot s) : slot ∈ g.slots := by
  obtain ⟨n, hn, v, member, -⟩ := h
  refine List.mem_flatMap.mpr ⟨slot.1, List.mem_range.mpr ?_, ?_⟩
  · exact (Array.getElem?_eq_some_iff.mp hn).1
  · rw [hn]
    exact List.mem_map.mpr ⟨_, member, rfl⟩

/-- Different nodes before one that is in no circle are fewer than all nodes. -/
theorem length_lt_of_before {step : Ref → Ref → Prop} {up : List Ref} (hr : r < g.nodes.size)
    (ends : ¬ TransGen step r r) (nodup : up.Nodup)
    (above : ∀ q ∈ up, q < g.nodes.size ∧ TransGen step q r) : up.length < g.nodes.size := by
  have fresh : r ∉ up := fun member => ends (above r member).2
  have within : r :: up ⊆ List.range g.nodes.size := by
    intro q member
    rcases List.mem_cons.mp member with rfl | member
    · exact List.mem_range.mpr hr
    · exact List.mem_range.mpr (above q member).1
  have distinct : (r :: up).Nodup := List.nodup_cons.mpr ⟨fresh, nodup⟩
  have card := (distinct.subperm within).length_le
  rwa [List.length_cons, List.length_range] at card

/-- One node more before the next one. -/
theorem before_cons {step : Ref → Ref → Prop} {up : List Ref} (hr : r < g.nodes.size)
    (next : step r s) (above : ∀ q ∈ up, q < g.nodes.size ∧ TransGen step q r) :
    ∀ q ∈ r :: up, q < g.nodes.size ∧ TransGen step q s := by
  intro q member
  rcases List.mem_cons.mp member with rfl | member
  · exact ⟨hr, .single next⟩
  · exact ⟨(above q member).1, (above q member).2.tail next⟩

/-- If no nodes are each other's fields in a circle, texts stand inside one another no deeper than
there are nodes, as often as another field can be opened. -/
theorem lt_of_printsDeep (closed : g.Closed) {n : Nat} {up : List Ref}
    (hr : r < g.nodes.size) (deep : g.PrintsDeep n o r)
    (ends : ∀ s, ReflTransGen g.Prints r s → ¬ TransGen g.Wraps s s)
    (distinct : o.Nodup) (known : o ⊆ g.slots) (nodup : up.Nodup)
    (above : ∀ q ∈ up, q < g.nodes.size ∧ TransGen g.Wraps q r) :
    n + up.length < g.nodes.size * (g.slots.length - o.length + 1) := by
  -- by the depth; the nodes in `up`, those since a field was last opened, are all different
  induction n generalizing o r up with
  | zero =>
    rw [Nat.zero_add]
    exact Nat.lt_of_lt_of_le (length_lt_of_before hr (ends r .refl) nodup above)
      (Nat.le_mul_of_pos_right _ (Nat.succ_pos _))
  | succ n ih =>
    have room := length_lt_of_before hr (ends r .refl) nodup above
    obtain ⟨o', s, enters, deep⟩ := deep
    have hs := enters.prints.lt closed
    have ends' : ∀ q, ReflTransGen g.Prints s q → ¬ TransGen g.Wraps q q :=
      fun q reached => ends q (.head enters.prints reached)
    cases enters with
    | wraps wraps =>
      have fresh : r ∉ up := fun member => ends r .refl (above r member).2
      have bound := ih hs deep ends' distinct known (List.nodup_cons.mpr ⟨fresh, nodup⟩)
        (before_cons hr wraps above)
      rw [List.length_cons] at bound
      omega
    | @opens _ f fresh slot =>
      have distinct' : ((r, f) :: o).Nodup := List.nodup_cons.mpr ⟨fresh, distinct⟩
      have known' : (r, f) :: o ⊆ g.slots := List.cons_subset.mpr ⟨slot.mem_slots, known⟩
      have fewer := (distinct'.subperm known').length_le
      have bound := ih hs deep ends' distinct' known' List.nodup_nil (by simp)
      rw [List.length_cons] at fewer bound
      rw [List.length_nil, show g.slots.length - (o.length + 1) + 1 = g.slots.length - o.length by
        omega] at bound
      rw [Nat.mul_succ]
      omega

/-! ## The way to a circle -/

/-- The second node is reached by that many steps from text to text. -/
def StepsTo (g : Graph) : (k : Nat) → Ref → Ref → Prop
  | 0, r, t => r = t
  | k + 1, r, t => ∃ s, g.Prints r s ∧ StepsTo g k s t

theorem exists_stepsTo {t : Ref} (h : ReflTransGen g.Prints r t) : ∃ k, g.StepsTo k r t := by
  induction h using ReflTransGen.head_induction_on with
  | refl => exact ⟨0, rfl⟩
  | head step _ ih =>
    obtain ⟨k, steps⟩ := ih
    exact ⟨k + 1, _, step, steps⟩

theorem printsDeep_of_circle (back : TransGen g.Wraps r r) (n : Nat) : g.PrintsDeep n o r := by
  suffices ∀ s, ReflTransGen g.Wraps s r → g.PrintsDeep n o s from this r .refl
  induction n with
  | zero => exact fun _ _ => trivial
  | succ n ih =>
    intro s reached
    rcases reached.cases_head with rfl | ⟨q, wraps, reached⟩
    · obtain ⟨q, wraps, reached⟩ := TransGen.head'_iff.mp back
      exact ⟨o, q, .wraps wraps, ih q reached⟩
    · exact ⟨o, q, .wraps wraps, ih q reached⟩

/-- Along a shortest way to a circle no field is met that is being printed already, so texts stand
inside one another without end. -/
theorem printsDeep_of_stepsTo {t : Ref} (back : TransGen g.Wraps t t) {k : Nat} (n : Nat)
    (steps : g.StepsTo k r t) (shortest : ∀ j < k, ¬ g.StepsTo j r t)
    (away : ∀ slot ∈ o, ∀ s, g.SlotHolds slot s → ∀ j < k, ¬ g.StepsTo j s t) :
    g.PrintsDeep n o r := by
  induction k generalizing n o r with
  | zero =>
    obtain rfl : r = t := steps
    exact printsDeep_of_circle back n
  | succ k ih =>
    cases n with
    | zero => trivial
    | succ n =>
      obtain ⟨s, prints, steps⟩ := steps
      have shortest' : ∀ q, g.Prints r q → ∀ j < k, ¬ g.StepsTo j q t :=
        fun q prints j less steps => shortest (j + 1) (by omega) ⟨q, prints, steps⟩
      have away' : ∀ slot ∈ o, ∀ q, g.SlotHolds slot q → ∀ j < k, ¬ g.StepsTo j q t :=
        fun slot member q holds j less => away slot member q holds j (by omega)
      rcases prints with wraps | ⟨f, slot⟩
      · exact ⟨o, s, .wraps wraps, ih n steps (shortest' s (.inl wraps)) away'⟩
      · have fresh : (r, f) ∉ o := fun member => away _ member s slot k (Nat.lt_succ_self k) steps
        refine ⟨_, s, .opens fresh slot, ih n steps (shortest' s (.inr ⟨f, slot⟩)) ?_⟩
        intro slot' member q holds
        rcases List.mem_cons.mp member with rfl | member
        · exact shortest' q (.inr ⟨f, holds⟩)
        · exact away' slot' member q holds

/-- If the fields that are being printed are different ones of the graph, texts stand inside one
another so deep only if there are nodes that are each other's fields in a circle. -/
theorem endless_of_printsDeep (closed : g.Closed) (hv : g.Has v) (distinct : o.Nodup)
    (known : o ⊆ g.slots) (holds : v.Holds (.node r)) {n : Nat} (enough : g.nesting ≤ n)
    (deep : g.PrintsDeep n o r) : g.Endless v := by
  by_contra ends
  have bound := lt_of_printsDeep closed (hv r holds) deep
    (fun s hs back => ends ⟨r, s, holds, hs, back⟩) distinct known List.nodup_nil (by simp)
  have most : g.nodes.size * (g.slots.length - o.length + 1) ≤ g.nesting :=
    Nat.mul_le_mul_left _ (by omega)
  rw [List.length_nil] at bound
  omega

theorem endless_of_shownWithin (closed : g.Closed) (hv : g.Has v) (distinct : o.Nodup)
    (known : o ⊆ g.slots) (h : g.shownWithin o v = .error .endless) : g.Endless v := by
  rcases Value.shownWith_eq_error v h with ⟨r, holds, h⟩ | ⟨other, -⟩
  · exact endless_of_printsDeep closed hv distinct known holds (Nat.le_refl _)
      (printsDeep_of_nodeShown h)
  · cases other

theorem endless_of_plainWithin (closed : g.Closed) (hv : g.Has v) (distinct : o.Nodup)
    (known : o ⊆ g.slots) (h : g.plainWithin o v = .error .endless) : g.Endless v := by
  cases v with
  | text t | member m => cases h
  | node r =>
    rw [plainWithin] at h
    cases hn : g.node? r with
    | none =>
      rw [hn] at h
      cases h
    | some node =>
      rw [hn] at h
      have printed : g.nodeShown (g.nesting + 1) o r = .error .endless := by
        rw [nodeShown_succ hn, Except.map_eq_error_iff.mp h]
        rfl
      exact endless_of_printsDeep closed hv distinct known (.self _) (Nat.le_succ _)
        (printsDeep_of_nodeShown printed)
  | _ => exact endless_of_shownWithin closed hv distinct known h

/-- A value that comes to nodes that are each other's fields in a circle has no text. -/
theorem Endless.exists_shown_eq_error (endless : g.Endless v) :
    ∃ flaw, g.shown v = .error flaw := by
  obtain ⟨r, t, holds, reached, back⟩ := endless
  have reaches : ∃ k q, v.Holds (.node q) ∧ g.StepsTo k q t := by
    obtain ⟨k, steps⟩ := exists_stepsTo reached
    exact ⟨k, r, holds, steps⟩
  classical
  obtain ⟨q, holds, steps⟩ := Nat.find_spec reaches
  have deep : g.PrintsDeep g.nesting [] q :=
    printsDeep_of_stepsTo back _ steps
      (fun j less steps => Nat.find_min reaches less ⟨q, holds, steps⟩) (by simp)
  obtain ⟨flaw, h⟩ := deep.exists_nodeShown_eq_error
  exact holds.exists_shownWith_eq_error h

/-- Where all integers are printed, there is nothing wrong with a text but that it has no end. -/
theorem shown_eq_endless (printable : v.Printable)
    (all : ∀ n ∈ g.nodes, ∀ e ∈ n.fields, e.2.Printable) (h : g.shown v = .error flaw) :
    flaw = .endless := by
  have nodes : ∀ n o r, g.nodeShown n o r = .error flaw → flaw = .endless := by
    intro n
    induction n with
    | zero =>
      rintro o r ⟨⟩
      rfl
    | succ n ih =>
      intro o r h
      cases hn : g.node? r with
      | none =>
        rw [nodeShown, hn] at h
        cases h
      | some node =>
        rw [nodeShown_succ hn] at h
        rcases fields_eq_error hn (Except.map_eq_error_iff.mp h) with ⟨o', s, -, h⟩ | ⟨-, e, member, long⟩
        · exact ih o' s h
        · exact absurd (all node (Array.mem_of_getElem? hn) e member) long
  rcases Value.shownWith_eq_error v h with ⟨r, -, h⟩ | ⟨-, long⟩
  · exact nodes _ _ _ h
  · exact absurd printable long

/-- Where all integers are printed, a value has a text without end exactly if it comes to nodes that
are each other's fields in a circle. -/
theorem shown_eq_endless_iff (closed : g.Closed) (hv : g.Has v) (printable : v.Printable)
    (all : ∀ n ∈ g.nodes, ∀ e ∈ n.fields, e.2.Printable) :
    g.shown v = .error .endless ↔ g.Endless v := by
  constructor
  · exact endless_of_shownWithin closed hv List.nodup_nil (List.nil_subset _)
  · intro endless
    obtain ⟨flaw, h⟩ := endless.exists_shown_eq_error
    rw [h, shown_eq_endless printable all h]

end Graph

end UsagePolicy
