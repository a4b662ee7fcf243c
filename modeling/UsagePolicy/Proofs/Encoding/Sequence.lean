import UsagePolicy.Encoding.Walk

/-!
# Steps of a walk in sequence

Filling an outline is a sequence of steps, each of which goes on with what the one before came to and
from where the walk stands then. A failure ends the sequence.
-/

namespace UsagePolicy

namespace Walk

variable {α β : Type}

/-- A step that leaves the walk where it stands. -/
def result (a : α) : Walk α := fun t => (.ok a, t)

/-- Two steps after each other. -/
def andThen (w : Walk α) (k : α → Walk β) : Walk β := fun t =>
  match w t with
  | (.ok a, t) => k a t
  | (.error e, t) => (.error e, t)

/-- A relation between walks that sequences of steps keep, whether they fail or not. -/
structure Sequential (R : (α : Type) → Walk α → Walk α → Prop) : Prop where
  result {α : Type} (a : α) : R α (.result a) (.result a)
  failure (e : Failure) : R Value (fun t => (.error e, t)) (fun t => (.error e, t))
  andThen {α β : Type} {w w' : Walk α} {k k' : α → Walk β} : R α w w' →
    (∀ a, R β (k a) (k' a)) → R β (w.andThen k) (w'.andThen k')

end Walk

namespace Outline

variable (f : Filler)

theorem fill_items (os : List Outline) :
    (items os).fill f = Walk.andThen (fillItems f os) fun vs => .result (.list vs) := by
  funext t
  rw [fill, Walk.andThen]
  cases fillItems f os t with
  | mk out u => cases out <;> rfl

theorem fill_members (ms : List (Text × Outline)) :
    (members ms).fill f = Walk.andThen (fillMembers f ms) fun es => .result (.dict es) := by
  funext t
  rw [fill, Walk.andThen]
  cases fillMembers f ms t with
  | mk out u => cases out <;> rfl

theorem fillItems_cons (o : Outline) (os : List Outline) :
    fillItems f (o :: os) = Walk.andThen (o.fill f) fun v =>
      Walk.andThen (fillItems f os) fun vs => .result (v :: vs) := by
  funext t
  rw [fillItems, Walk.andThen]
  cases o.fill f t with
  | mk out u =>
    cases out with
    | error e => rfl
    | ok v =>
      dsimp only [Walk.andThen]
      cases fillItems f os u with
      | mk out w => cases out <;> rfl

theorem fillMembers_cons (k : Text) (o : Outline) (ms : List (Text × Outline)) :
    fillMembers f ((k, o) :: ms) = Walk.andThen (o.fill f) fun v =>
      Walk.andThen (fillMembers f ms) fun es => .result ((k, v) :: es) := by
  funext t
  rw [fillMembers, Walk.andThen]
  cases o.fill f t with
  | mk out u =>
    cases out with
    | error e => rfl
    | ok v =>
      dsimp only [Walk.andThen]
      cases fillMembers f ms u with
      | mk out w => cases out <;> rfl

variable {R : (α : Type) → Walk α → Walk α → Prop} (f' : Filler)

mutual

/-- An outline is filled in related ways if its places are. -/
theorem fill_related (sequential : Walk.Sequential R)
    (places : ∀ s v p, R Value (f s v p) (f' s v p)) :
    ∀ o : Outline, R Value (o.fill f) (o.fill f')
  | .leaf v => sequential.result v
  | .fault e => sequential.failure e
  | .place s v p => places s v p
  | .items os => by
    rw [fill_items, fill_items]
    exact sequential.andThen (fillItems_related sequential places os) fun _ =>
      sequential.result _
  | .members ms => by
    rw [fill_members, fill_members]
    exact sequential.andThen (fillMembers_related sequential places ms) fun _ =>
      sequential.result _

theorem fillItems_related (sequential : Walk.Sequential R)
    (places : ∀ s v p, R Value (f s v p) (f' s v p)) :
    ∀ os : List Outline, R (List Value) (fillItems f os) (fillItems f' os)
  | [] => sequential.result []
  | o :: os => by
    rw [fillItems_cons, fillItems_cons]
    exact sequential.andThen (fill_related sequential places o) fun _ =>
      sequential.andThen (fillItems_related sequential places os) fun _ => sequential.result _

theorem fillMembers_related (sequential : Walk.Sequential R)
    (places : ∀ s v p, R Value (f s v p) (f' s v p)) :
    ∀ ms : List (Text × Outline),
      R (List (Text × Value)) (fillMembers f ms) (fillMembers f' ms)
  | [] => sequential.result []
  | (k, o) :: ms => by
    rw [fillMembers_cons, fillMembers_cons]
    exact sequential.andThen (fill_related sequential places o) fun _ =>
      sequential.andThen (fillMembers_related sequential places ms) fun _ => sequential.result _

end

end Outline

end UsagePolicy
