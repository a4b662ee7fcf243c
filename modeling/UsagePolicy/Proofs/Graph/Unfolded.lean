import Mathlib.Data.List.Nodup
import UsagePolicy.Proofs.Graph.Copies

/-!
# Graphs unfolded into trees

A value is unfolded by putting a new node in the place of every occurrence of a node, inside of nodes
too. What comes out is a tree: no node is referred to twice. Where no node contains itself this comes
to an end, and the tree holds a copy of the value.
-/

namespace UsagePolicy

/-! ## Unfolding -/

mutual

/-- The value with its nodes unfolded, each occurrence by itself. -/
def Value.unfold (node : Ref → Growing Ref) : Value → Growing Value
  | .tuple vs, h =>
    let (ws, h) := Value.unfoldItems node vs h
    (.tuple ws, h)
  | .list vs, h =>
    let (ws, h) := Value.unfoldItems node vs h
    (.list ws, h)
  | .dict es, h =>
    let (fs, h) := Value.unfoldEntries node es h
    (.dict fs, h)
  | .node r, h =>
    let (s, h) := node r h
    (.node s, h)
  | v, h => (v, h)

/-- Items unfolded one by one. -/
def Value.unfoldItems (node : Ref → Growing Ref) : List Value → Growing (List Value)
  | [], h => ([], h)
  | v :: vs, h =>
    let (w, h) := v.unfold node h
    let (ws, h) := Value.unfoldItems node vs h
    (w :: ws, h)

/-- Entries unfolded one by one. -/
def Value.unfoldEntries (node : Ref → Growing Ref) :
    List (Text × Value) → Growing (List (Text × Value))
  | [], h => ([], h)
  | (k, v) :: es, h =>
    let (w, h) := v.unfold node h
    let (fs, h) := Value.unfoldEntries node es h
    ((k, w) :: fs, h)

end

namespace Node

/-- Fields unfolded one by one. -/
def unfoldFields (node : Ref → Growing Ref) :
    List (Field × Value) → Growing (List (Field × Value))
  | [], h => ([], h)
  | (f, v) :: es, h =>
    let (w, h) := v.unfold node h
    let (fs, h) := unfoldFields node es h
    ((f, w) :: fs, h)

theorem map_fst_unfoldFields (node : Ref → Growing Ref) (es : List (Field × Value)) (h : Graph) :
    (unfoldFields node es h).1.map Prod.fst = es.map Prod.fst := by
  induction es generalizing h with
  | nil => rfl
  | cons e es ih => exact congrArg (e.1 :: ·) (ih _)

/-- The node with its fields unfolded. -/
def unfold (node : Ref → Growing Ref) (n : Node) : Growing Node := fun h =>
  (⟨n.nodeClass, (unfoldFields node n.fields h).1, by
    intro e member
    have name : e.1 ∈ (unfoldFields node n.fields h).1.map Prod.fst := List.mem_map_of_mem member
    rw [map_fst_unfoldFields] at name
    obtain ⟨e', member', same⟩ := List.mem_map.mp name
    exact same ▸ n.mem_fields e' member'⟩,
  (unfoldFields node n.fields h).2)

end Node

namespace Graph

open Relation

/-- A node unfolded; at most `room` nodes may stand inside one another. -/
def unfoldNode (g : Graph) : (room : Nat) → Ref → Growing Ref
  | 0, r, h => (r, h)
  | room + 1, r, h =>
    match g.node? r with
    | none => (r, h)
    | some n =>
      let (m, h) := n.unfold (g.unfoldNode room) h
      let (h, s) := h.add m
      (s, h)

/-- The tree that a value is unfolded into, with its nodes in a graph of their own. -/
def unfolded (g : Graph) (v : Value) : Value × Graph :=
  v.unfold (g.unfoldNode g.nodes.size) .empty

/-- The value of the second graph is an unfolding of that of the first one: a copy in which every
occurrence of a node is a node of its own. -/
structure Unfolds (g : Graph) (v : Value) (h : Graph) (w : Value) : Prop where
  copies : g.Copies h v w
  closed : h.Closed
  /-- No node is referred to twice. -/
  nodup : (w.refs ++ h.refs).Nodup

/-- No node that can be reached from the value contains itself. All nodes that are referred to are
there. -/
structure CycleFree (g : Graph) (v : Value) : Prop where
  closed : g.Closed
  has : g.Has v
  acyclic : ∀ r s, v.Holds (.node r) → ReflTransGen g.Refers r s → ¬ TransGen g.Refers s s

/-! ## Growing by new references -/

/-- Different references, all of them from the first number up to the second one. -/
structure Between (low high : Nat) (refs : List Ref) : Prop where
  nodup : refs.Nodup
  bounds : ∀ q ∈ refs, low ≤ q ∧ q < high

theorem between_nil (low high : Nat) : Between low high [] := ⟨List.nodup_nil, by simp⟩

theorem Between.append {low middle high : Nat} {refs refs' : List Ref}
    (first : Between low middle refs) (rest : Between middle high refs') (below : low ≤ middle)
    (above : middle ≤ high) : Between low high (refs ++ refs') where
  nodup := by
    refine first.nodup.append rest.nodup fun q member member' => ?_
    exact absurd (first.bounds q member).2 (Nat.not_lt.mpr (rest.bounds q member').1)
  bounds := by
    intro q member
    rcases List.mem_append.mp member with member | member
    · exact ⟨(first.bounds q member).1, Nat.lt_of_lt_of_le (first.bounds q member).2 above⟩
    · exact ⟨Nat.le_trans below (rest.bounds q member).1, (rest.bounds q member).2⟩

theorem Between.perm {low high : Nat} {refs refs' : List Ref} (between : Between low high refs)
    (perm : refs.Perm refs') : Between low high refs' :=
  ⟨perm.nodup_iff.mp between.nodup, fun q member => between.bounds q (perm.mem_iff.mpr member)⟩

/-- The second graph has grown from the first one, and the given references and those in its new
nodes are different ones to new nodes. -/
structure GrowsBy (h : Graph) (refs : List Ref) (h' : Graph) : Prop where
  grown : h.Extends h'
  size_le : h.nodes.size ≤ h'.nodes.size
  fresh : ∃ new, h'.refs = h.refs ++ new ∧ Between h.nodes.size h'.nodes.size (refs ++ new)

variable {g h h' h'' : Graph} {refs refs' : List Ref}

theorem growsBy_nil (h : Graph) : h.GrowsBy [] h :=
  ⟨.refl h, Nat.le_refl _, [], by simp, between_nil _ _⟩

theorem GrowsBy.append (first : h.GrowsBy refs h') (rest : h'.GrowsBy refs' h'') :
    h.GrowsBy (refs ++ refs') h'' := by
  obtain ⟨new, grown, fresh⟩ := first.fresh
  obtain ⟨new', grown', fresh'⟩ := rest.fresh
  refine ⟨first.grown.trans rest.grown, Nat.le_trans first.size_le rest.size_le, new ++ new',
    by rw [grown', grown, List.append_assoc], ?_⟩
  refine (fresh.append fresh' first.size_le rest.size_le).perm (List.perm_iff_count.mpr fun q => ?_)
  simp only [List.count_append]
  omega

theorem refs_add (n : Node) : (h.add n).1.refs = h.refs ++ n.refs := by
  simp [Graph.add, refs]

/-- A new node takes up the references in its fields, and there is a new reference to it. -/
theorem GrowsBy.add {n : Node} (fields : h.GrowsBy n.refs h') :
    h.GrowsBy [(h'.add n).2] (h'.add n).1 := by
  obtain ⟨new, grown, fresh⟩ := fields.fresh
  have size : (h'.add n).1.nodes.size = h'.nodes.size + 1 := Array.size_push ..
  have self : Between h'.nodes.size (h'.nodes.size + 1) [h'.nodes.size] :=
    ⟨List.nodup_singleton _, by simp⟩
  refine ⟨fields.grown.trans (extends_add h' n), by have := fields.size_le; omega, new ++ n.refs,
    by rw [refs_add, grown, List.append_assoc], ?_⟩
  rw [size]
  refine (fresh.append self fields.size_le (Nat.le_succ _)).perm
    (List.perm_iff_count.mpr fun q => ?_)
  simp only [List.count_append]
  show _ = List.count q [h'.nodes.size] + _
  omega

/-! ## Copies that grow -/

variable {node : Ref → Growing Ref}

/-- A node is unfolded: its new reference is the only one to it, and it is a copy. -/
def UnfoldsNode (g : Graph) (node : Ref → Growing Ref) (r : Ref) : Prop :=
  ∀ h, h.GrowsBy [(node r h).1] (node r h).2 ∧
    g.Copies (node r h).2 (.node r) (.node (node r h).1)

mutual

theorem unfold_spec : ∀ (v : Value), (∀ r, v.Holds (.node r) → g.UnfoldsNode node r) →
    ∀ h, h.GrowsBy (v.unfold node h).1.refs (v.unfold node h).2 ∧
      g.Copies (v.unfold node h).2 v (v.unfold node h).1
  | .tuple vs, inner, h => by
    obtain ⟨grows, copies⟩ :=
      unfoldItems_spec vs (fun x member r holds => inner r (.tuple member holds)) h
    exact ⟨grows, .tuple copies.length_eq (List.forall₂_zip copies)⟩
  | .list vs, inner, h => by
    obtain ⟨grows, copies⟩ :=
      unfoldItems_spec vs (fun x member r holds => inner r (.list member holds)) h
    exact ⟨grows, .ofItems copies⟩
  | .dict es, inner, h => by
    obtain ⟨grows, copies⟩ :=
      unfoldEntries_spec es (fun e member r holds => inner r (.dict member holds)) h
    exact ⟨grows, .ofEntries copies⟩
  | .node r, inner, h => inner r (.self _) h
  | .absent, _, h => ⟨growsBy_nil h, .absent⟩
  | .bool b, _, h => ⟨growsBy_nil h, .bool b⟩
  | .int i, _, h => ⟨growsBy_nil h, .int i⟩
  | .float d, _, h => ⟨growsBy_nil h, .float d⟩
  | .text t, _, h => ⟨growsBy_nil h, .text t⟩
  | .member m, _, h => ⟨growsBy_nil h, .member m⟩

theorem unfoldItems_spec : ∀ (vs : List Value),
    (∀ v ∈ vs, ∀ r, v.Holds (.node r) → g.UnfoldsNode node r) →
    ∀ h, h.GrowsBy (Value.itemRefs (Value.unfoldItems node vs h).1)
        (Value.unfoldItems node vs h).2 ∧
      List.Forall₂ (g.Copies (Value.unfoldItems node vs h).2) vs (Value.unfoldItems node vs h).1
  | [], _, h => ⟨growsBy_nil h, .nil⟩
  | v :: vs, inner, h => by
    rw [List.forall_mem_cons] at inner
    obtain ⟨grows, copies⟩ := unfold_spec v inner.1 h
    obtain ⟨grows', copies'⟩ := unfoldItems_spec vs inner.2 (v.unfold node h).2
    exact ⟨grows.append grows', .cons (copies.mono grows'.grown) copies'⟩

theorem unfoldEntries_spec : ∀ (es : List (Text × Value)),
    (∀ e ∈ es, ∀ r, e.2.Holds (.node r) → g.UnfoldsNode node r) →
    ∀ h, h.GrowsBy (Value.entryRefs (Value.unfoldEntries node es h).1)
        (Value.unfoldEntries node es h).2 ∧
      Entrywise (g.Copies (Value.unfoldEntries node es h).2) es (Value.unfoldEntries node es h).1
  | [], _, h => ⟨growsBy_nil h, .nil⟩
  | (k, v) :: es, inner, h => by
    rw [List.forall_mem_cons] at inner
    obtain ⟨grows, copies⟩ := unfold_spec v inner.1 h
    obtain ⟨grows', copies'⟩ := unfoldEntries_spec es inner.2 (v.unfold node h).2
    exact ⟨grows.append grows', .cons ⟨rfl, copies.mono grows'.grown⟩ copies'⟩

end

theorem unfoldFields_spec (es : List (Field × Value))
    (inner : ∀ e ∈ es, ∀ r, e.2.Holds (.node r) → g.UnfoldsNode node r) (h : Graph) :
    h.GrowsBy ((Node.unfoldFields node es h).1.flatMap fun e => e.2.refs)
        (Node.unfoldFields node es h).2 ∧
      Entrywise (g.Copies (Node.unfoldFields node es h).2) es (Node.unfoldFields node es h).1 := by
  induction es generalizing h with
  | nil => exact ⟨growsBy_nil h, .nil⟩
  | cons e es ih =>
    rw [List.forall_mem_cons] at inner
    obtain ⟨grows, copies⟩ := unfold_spec e.2 inner.1 h
    obtain ⟨grows', copies'⟩ := ih inner.2 (e.2.unfold node h).2
    exact ⟨grows.append grows', .cons ⟨rfl, copies.mono grows'.grown⟩ copies'⟩

/-! ## Unfolding without end -/

variable {v w : Value} {r s : Ref}

theorem CycleFree.held (free : g.CycleFree v) (holds : v.Holds (.node r)) :
    g.CycleFree (.node r) where
  closed := free.closed
  has := has_node.mpr (free.has r holds)
  acyclic := by
    rintro _ s ⟨⟩ reached
    exact free.acyclic r s holds reached

theorem CycleFree.refers (free : g.CycleFree (.node r)) (step : g.Refers r s) :
    g.CycleFree (.node s) where
  closed := free.closed
  has := has_node.mpr (step.lt free.closed)
  acyclic := by
    rintro _ q ⟨⟩ reached
    exact free.acyclic r q (.self _) (.head step reached)

/-- A node is unfolded if there is room for all nodes that stand inside one another. -/
theorem unfoldNode_spec (room : Nat) (free : g.CycleFree (.node r))
    (shallow : ¬ g.RefersDeep room r) : g.UnfoldsNode (g.unfoldNode room) r := by
  induction room generalizing r with
  | zero => exact absurd trivial shallow
  | succ room ih =>
    intro h
    obtain ⟨n, hn⟩ : ∃ n, g.node? r = some n :=
      ⟨_, Array.getElem?_eq_getElem (has_node.mp free.has)⟩
    have inner : ∀ e ∈ n.fields, ∀ s, e.2.Holds (.node s) →
        g.UnfoldsNode (g.unfoldNode room) s := by
      intro e member s holds
      have step : g.Refers r s := ⟨n, hn, e, member, holds⟩
      exact ih (free.refers step) fun deep => shallow ⟨s, step, deep⟩
    obtain ⟨grows, copies⟩ := unfoldFields_spec n.fields inner h
    have grows' := GrowsBy.add (n := (n.unfold (g.unfoldNode room) h).1) grows
    have found : ((n.unfold (g.unfoldNode room) h).2.add (n.unfold (g.unfoldNode room) h).1).1.node?
        (n.unfold (g.unfoldNode room) h).2.nodes.size =
          some (n.unfold (g.unfoldNode room) h).1 := by
      simp [Graph.add, node?]
    rw [unfoldNode, hn]
    refine ⟨grows', .node hn found rfl copies.length_eq
      (fun pair => (List.forall₂_zip copies pair).1) fun pair => ?_⟩
    exact (List.forall₂_zip copies pair).2.mono (extends_add _ _)

/-- A value below which no node contains itself is unfolded into a tree. -/
theorem CycleFree.unfolds (free : g.CycleFree v) :
    g.Unfolds v (g.unfolded v).2 (g.unfolded v).1 := by
  have inner : ∀ r, v.Holds (.node r) → g.UnfoldsNode (g.unfoldNode g.nodes.size) r := by
    intro r holds
    refine unfoldNode_spec _ (free.held holds) fun deep => ?_
    have bound := lt_of_refersDeep free.closed (free.has r holds) deep
      (fun s reached => free.acyclic r s holds reached) List.nodup_nil (by simp)
    exact Nat.lt_irrefl _ bound
  obtain ⟨grows, copies⟩ := unfold_spec v inner .empty
  obtain ⟨new, refs_eq, fresh⟩ := grows.fresh
  have refs_eq : (g.unfolded v).2.refs = new := refs_eq
  refine ⟨copies, closed_of_refs fun q member => ?_, refs_eq ▸ fresh.nodup⟩
  rw [refs_eq] at member
  exact (fresh.bounds q (List.mem_append_right _ member)).2

end Graph

end UsagePolicy
