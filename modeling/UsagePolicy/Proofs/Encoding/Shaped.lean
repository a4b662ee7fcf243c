import UsagePolicy.Proofs.Encoding.WellTyped
import UsagePolicy.Proofs.Graph.References

/-!
# Graphs of the shape that encodings look into

An encoding asks of most values what they are before it looks into them. Only that all fields are
there, that fields for several values hold sequences, that actions are actions and that literals are
plain values it takes for granted. In graphs of this shape no encoding comes to a value that it
cannot read, whatever else stands in the fields.
-/

namespace UsagePolicy

namespace Graph

/-- The value has the shape that is taken for granted in fields of the type. -/
def HasShape (g : Graph) (v : Value) : FieldType → Prop
  | .literal => v.IsLiteral
  | .tuple _ => ∃ xs, v = .tuple xs ∨ v = .list xs
  | .optional (.node .action) => v = .absent ∨ g.nodeClass? v = some .action
  | _ => True

/-- Every node has all fields of its class, with values of the shape that is taken for granted, and
all nodes that are referred to are there. Otherwise values may be anything. -/
structure Shaped (g : Graph) (v : Value) : Prop where
  closed : g.Closed
  has : g.Has v
  fields : ∀ n ∈ g.nodes, ∀ f ∈ n.nodeClass.fields,
    ∃ x, n.get? f = some x ∧ g.HasShape x (n.nodeClass.fieldType f)
  printable : v.Printable ∧ ∀ n ∈ g.nodes, ∀ e ∈ n.fields, e.2.Printable

variable {g : Graph} {v x y : Value} {s : PathStep} {ss : List PathStep} {c : NodeClass} {f : Field}

/-- A graph is shaped if every node has a value for each field of its class, all of them of the
shape that is taken for granted. -/
theorem shaped_of_nodes (has : g.Has v) (printable : v.Printable)
    (all : ∀ n ∈ g.nodes.toList, n.fields.map Prod.fst = n.nodeClass.fields)
    (each : ∀ n ∈ g.nodes.toList, ∀ e ∈ n.fields,
      g.Has e.2 ∧ e.2.Printable ∧ g.HasShape e.2 (n.nodeClass.fieldType e.1)) : g.Shaped v where
  closed n hn e he := (each n (Array.mem_toList_iff.mpr hn) e he).1
  has := has
  fields := by
    intro n hn f hf
    have hn := Array.mem_toList_iff.mpr hn
    rw [← all n hn] at hf
    cases hx : n.fields.lookup f with
    | none =>
      obtain ⟨e, member, rfl⟩ := List.mem_map.mp hf
      exact absurd (List.lookup_eq_none_iff.mp hx e member) (by simp)
    | some x =>
      obtain ⟨as, bs, split, -⟩ := List.lookup_eq_some_iff.mp hx
      exact ⟨x, hx, (each n hn (f, x) (by simp [split])).2.2⟩
  printable := ⟨printable, fun n hn e he => (each n (Array.mem_toList_iff.mpr hn) e he).2.1⟩

/-! ## References -/

theorem has_of_fieldOf (closed : g.Closed) (hy : g.fieldOf x f = .ok y) : g.Has y := by
  intro r holds
  obtain ⟨q, -, step⟩ := refers_of_fieldOf hy holds
  exact step.lt closed

theorem has_of_elements (closed : g.Closed) (hx : g.Has x) {ys : List Value}
    (hys : g.elements? x = some ys) (hy : y ∈ ys) : g.Has y := by
  intro r holds
  rcases holds_of_elements hys hy holds with inside | ⟨q, -, step⟩
  · exact hx r inside
  · exact step.lt closed

/-- Steps lead to values whose nodes are in the graph. -/
theorem has_of_follow (closed : g.Closed) (hy : g.follow? x s = some y) : g.Has y := by
  cases hi : s.index? with
  | some i =>
    obtain ⟨-, w, ys, hw, hys, hy⟩ := (follow?_of_index hi).mp hy
    exact has_of_elements closed (has_of_fieldOf closed hw) hys (List.mem_of_getElem? hy)
  | none =>
    obtain ⟨-, hw, -⟩ := (follow?_of_single hi).mp hy
    exact has_of_fieldOf closed hw

/-! ## Integers -/

theorem printable_of_fieldOf (all : ∀ n ∈ g.nodes, ∀ e ∈ n.fields, e.2.Printable)
    (hy : g.fieldOf x f = .ok y) : y.Printable := by
  cases x with
  | node r =>
    obtain ⟨n, hn, found⟩ := fieldOf_node.mp hy
    obtain ⟨as, bs, split, -⟩ := List.lookup_eq_some_iff.mp found
    exact all n (Array.mem_of_getElem? hn) (f, y) (by simp [split])
  | _ => cases hy

theorem printable_of_elements (all : ∀ n ∈ g.nodes, ∀ e ∈ n.fields, e.2.Printable)
    (hx : x.Printable) {ys : List Value} (hys : g.elements? x = some ys) (hy : y ∈ ys) :
    y.Printable := by
  have text : ∀ {α : Type} {l : List α} {text : α → Text},
      y ∈ l.map (fun a => Value.text (text a)) → y.Printable := by
    intro α l text member
    obtain ⟨a, -, rfl⟩ := List.mem_map.mp member
    rintro i ⟨⟩
  cases x with
  | tuple items =>
    obtain rfl := Option.some.inj hys
    exact (Value.Holds.tuple hy (.self y)).printable hx
  | list items =>
    obtain rfl := Option.some.inj hys
    exact (Value.Holds.list hy (.self y)).printable hx
  | dict es =>
    obtain rfl := Option.some.inj hys
    exact text hy
  | text t =>
    obtain rfl := Option.some.inj hys
    exact text hy
  | member m =>
    obtain rfl := Option.some.inj hys
    exact text hy
  | node r =>
    obtain ⟨n, hn, rfl⟩ := Option.map_eq_some_iff.mp hys
    obtain ⟨e, member, rfl⟩ := List.mem_map.mp hy
    rw [Value.printable_tuple, List.forall_mem_cons, List.forall_mem_singleton]
    exact ⟨by rintro i ⟨⟩, all n (Array.mem_of_getElem? hn) e member⟩
  | _ => cases hys

/-- Steps lead to values all integers of which are printed. -/
theorem printable_of_follow (all : ∀ n ∈ g.nodes, ∀ e ∈ n.fields, e.2.Printable)
    (hy : g.follow? x s = some y) : y.Printable := by
  cases hi : s.index? with
  | some i =>
    obtain ⟨-, w, ys, hw, hys, hy⟩ := (follow?_of_index hi).mp hy
    exact printable_of_elements all (printable_of_fieldOf all hw) hys (List.mem_of_getElem? hy)
  | none =>
    obtain ⟨-, hw, -⟩ := (follow?_of_single hi).mp hy
    exact printable_of_fieldOf all hw

/-! ## Fields -/

theorem Shaped.field (h : g.Shaped v) (hc : g.nodeClass? x = some c) (hf : f ∈ c.fields) :
    ∃ y, g.fieldOf x f = .ok y ∧ g.HasShape y (c.fieldType f) := by
  cases x with
  | node r =>
    obtain ⟨n, hn, rfl⟩ := Option.map_eq_some_iff.mp hc
    obtain ⟨y, hy, shape⟩ := h.fields n (Array.mem_of_getElem? hn) f hf
    exact ⟨y, by simp [fieldOf, hn, hy], shape⟩
  | _ => simp [nodeClass?] at hc

theorem Shaped.not_error_mem_branches (h : g.Shaped v) (x : Value) (e : Failure) :
    .error e ∉ g.branches x := by
  refine not_error_mem_branches_of_fields (fun c hc f hf => ?_) e
  obtain ⟨w, hw, shape⟩ := h.field hc hf
  refine ⟨w, hw, fun t ht => ?_⟩
  rw [ht] at shape
  obtain ⟨xs, rfl | rfl⟩ := shape
  · rfl
  · rfl

theorem Shaped.nodeClass?_action (h : g.Shaped v) (hy : g.follow? x .action = some y) :
    g.nodeClass? y = some .action := by
  obtain ⟨opens, hw, given⟩ := (follow?_of_single rfl).mp hy
  obtain ⟨c, hc, hf, declared⟩ := declared_of_opens opens
  obtain ⟨w, hw', shape⟩ := h.field hc hf
  obtain rfl := Except.ok.inj (hw.symm.trans hw')
  rw [declared] at shape
  rcases shape with absent | action
  · exact absurd absent (given rfl)
  · exact action

theorem Shaped.stops_literal (h : g.Shaped v) (hx : g.nodeClass? x = some .literalExpression) :
    (Outline.withValue (g.fieldOf x .value) (Outline.literal g (x.slot .value))).stops = [] := by
  obtain ⟨w, hw, shape⟩ := h.field (f := .value) hx (by decide)
  rw [hw]
  exact stops_literal_of_hasType shape

end Graph

end UsagePolicy
