import UsagePolicy.Encoding.Outline
import UsagePolicy.Proofs.Graph.EndlessText
import UsagePolicy.Proofs.Graph.Grown

/-!
# References between nodes

A node refers to the nodes that its fields hold. Whatever is taken from a value, from one of its
fields or as one of its elements, holds nodes that the value holds or that its node refers to.
-/

namespace UsagePolicy

/-! ## References as they occur -/

mutual

/-- The references in a value, as often as they occur. -/
def Value.refs : Value → List Ref
  | .tuple vs => Value.itemRefs vs
  | .list vs => Value.itemRefs vs
  | .dict es => Value.entryRefs es
  | .node r => [r]
  | _ => []

/-- The references in items. -/
def Value.itemRefs : List Value → List Ref
  | [] => []
  | v :: vs => v.refs ++ Value.itemRefs vs

/-- The references in entries. -/
def Value.entryRefs : List (Text × Value) → List Ref
  | [] => []
  | (_, v) :: es => v.refs ++ Value.entryRefs es

end

/-- The references in the fields of a node. -/
def Node.refs (n : Node) : List Ref := n.fields.flatMap fun e => e.2.refs

/-- The references in the nodes of a graph. -/
def Graph.refs (g : Graph) : List Ref := g.nodes.toList.flatMap Node.refs

theorem Value.itemRefs_eq (vs : List Value) : itemRefs vs = vs.flatMap refs := by
  induction vs with
  | nil => rfl
  | cons v vs ih => rw [itemRefs, ih, List.flatMap_cons]

theorem Value.entryRefs_eq (es : List (Text × Value)) :
    entryRefs es = es.flatMap fun e => e.2.refs := by
  induction es with
  | nil => rfl
  | cons e es ih => rw [entryRefs, ih, List.flatMap_cons]

/-- The references in a value are those of the nodes that it holds. -/
theorem Value.mem_refs_of_holds {v : Value} {r : Ref} (holds : v.Holds (.node r)) : r ∈ v.refs := by
  generalize hx : Value.node r = x at holds
  induction holds with
  | self v =>
    subst hx
    exact List.mem_singleton_self r
  | tuple member _ ih | list member _ ih =>
    rw [refs, itemRefs_eq]
    exact List.mem_flatMap_of_mem member (ih hx)
  | dict member _ ih =>
    rw [refs, entryRefs_eq]
    exact List.mem_flatMap_of_mem member (ih hx)

/-! ## References from node to node -/

namespace Graph

open Relation

/-- A field of the first node holds the second one. -/
def Refers (g : Graph) (r s : Ref) : Prop :=
  ∃ n, g.node? r = some n ∧ ∃ e ∈ n.fields, e.2.Holds (.node s)

variable {g : Graph} {x y : Value} {r s : Ref}

/-- The nodes that nodes refer to are in the graph if the references are. -/
theorem closed_of_refs (inside : ∀ q ∈ g.refs, q < g.nodes.size) : g.Closed := by
  intro n hn e member q holds
  exact inside q (List.mem_flatMap.mpr ⟨n, Array.mem_toList_iff.mpr hn,
    List.mem_flatMap.mpr ⟨e, member, Value.mem_refs_of_holds holds⟩⟩)

theorem Refers.mem_refs (step : g.Refers r s) :
    ∃ n, g.node? r = some n ∧ s ∈ n.refs := by
  obtain ⟨n, hn, e, member, holds⟩ := step
  exact ⟨n, hn, List.mem_flatMap.mpr ⟨e, member, Value.mem_refs_of_holds holds⟩⟩

theorem Refers.lt (closed : g.Closed) (step : g.Refers r s) : s < g.nodes.size := by
  obtain ⟨n, hn, e, member, holds⟩ := step
  exact closed n (Array.mem_of_getElem? hn) e member s holds

theorem Wraps.refers (step : g.Wraps r s) : g.Refers r s := by
  obtain ⟨-, n, hn, e, member, value⟩ := step
  exact ⟨n, hn, e, member, value ▸ .self _⟩

theorem SlotHolds.refers {slot : Slot} (held : g.SlotHolds slot s) : g.Refers slot.1 s := by
  obtain ⟨n, hn, v, member, -, holds⟩ := held
  exact ⟨n, hn, _, member, holds⟩

theorem Prints.refers (step : g.Prints r s) : g.Refers r s := by
  rcases step with wraps | ⟨f, held⟩
  · exact wraps.refers
  · exact held.refers

/-- Nodes refer to one another `n` times in a row, from the node on. -/
def RefersDeep (g : Graph) : (n : Nat) → Ref → Prop
  | 0, _ => True
  | n + 1, r => ∃ s, g.Refers r s ∧ RefersDeep g n s

/-- If no node refers to itself by others, nodes refer to one another less often in a row than there
are nodes. -/
theorem lt_of_refersDeep (closed : g.Closed) {n : Nat} {up : List Ref}
    (hr : r < g.nodes.size) (deep : g.RefersDeep n r)
    (ends : ∀ s, ReflTransGen g.Refers r s → ¬ TransGen g.Refers s s) (nodup : up.Nodup)
    (above : ∀ q ∈ up, q < g.nodes.size ∧ TransGen g.Refers q r) :
    n + up.length < g.nodes.size := by
  -- by the depth; the nodes in `up`, from which `r` is reached, are all different
  induction n generalizing r up with
  | zero =>
    rw [Nat.zero_add]
    exact length_lt_of_before hr (ends r .refl) nodup above
  | succ n ih =>
    obtain ⟨s, step, deep⟩ := deep
    have fresh : r ∉ up := fun member => ends r .refl (above r member).2
    have bound := ih (step.lt closed) deep (fun q reached => ends q (.head step reached))
      (List.nodup_cons.mpr ⟨fresh, nodup⟩) (before_cons hr step above)
    rw [List.length_cons] at bound
    omega

/-! ## What is taken from values -/

theorem refers_of_fieldOf {f : Field} (hy : g.fieldOf x f = .ok y) (holds : y.Holds (.node s)) :
    ∃ r, x = .node r ∧ g.Refers r s := by
  cases x with
  | node r =>
    obtain ⟨n, hn, found⟩ := fieldOf_node.mp hy
    obtain ⟨as, bs, split, -⟩ := List.lookup_eq_some_iff.mp found
    exact ⟨r, rfl, n, hn, (f, y), by simp [split], holds⟩
  | _ => cases hy

theorem holds_of_elements {ys : List Value} (hx : g.elements? x = some ys) (hy : y ∈ ys)
    (holds : y.Holds (.node s)) : x.Holds (.node s) ∨ ∃ r, x = .node r ∧ g.Refers r s := by
  have notText : ∀ {α : Type} (l : List α) (text : α → Text),
      y ∉ l.map fun a => Value.text (text a) := by
    intro α l text member
    obtain ⟨a, -, rfl⟩ := List.mem_map.mp member
    cases holds
  cases x with
  | tuple items =>
    obtain rfl := Option.some.inj hx
    exact .inl (.tuple hy holds)
  | list items =>
    obtain rfl := Option.some.inj hx
    exact .inl (.list hy holds)
  | dict es =>
    obtain rfl := Option.some.inj hx
    exact absurd hy (notText es _)
  | text t =>
    obtain rfl := Option.some.inj hx
    exact absurd hy (notText t _)
  | member m =>
    obtain rfl := Option.some.inj hx
    exact absurd hy (notText m.value _)
  | node r =>
    obtain ⟨n, hn, rfl⟩ := Option.map_eq_some_iff.mp hx
    obtain ⟨e, member, rfl⟩ := List.mem_map.mp hy
    refine .inr ⟨r, rfl, n, hn, e, member, ?_⟩
    cases holds with
    | tuple inside holds =>
      rcases List.mem_cons.mp inside with rfl | inside
      · cases holds
      · obtain rfl := List.mem_singleton.mp inside
        exact holds
  | _ => cases hx

end Graph

end UsagePolicy
