import UsagePolicy.Encoding.Walk

/-!
# Stops

How a walk through an outline ends depends on two kinds of parts only: faults, and places that have
to be filled. `Outline.stops` lists them in order and `Stop.pass` goes through such a list. The
encoding of the outline itself is left out, so statements about failures and trails need neither
the tree of an outline nor what it is filled with.
-/

namespace UsagePolicy

/-- A part of an outline that a walk can fail at. -/
inductive Stop
  | fault (e : Failure)
  | place (s : Spot) (v : Value) (p : Path)

/-- How a step of a walk ended and where the walk stands then, without what was encoded. -/
def Walk.ending {α : Type} (x : Except Failure α × Trail) : Except Failure Unit × Trail :=
  (x.1.map fun _ => (), x.2)

@[simp] theorem Walk.ending_ok {α : Type} (a : α) (t : Trail) :
    Walk.ending (Except.ok a, t) = (.ok (), t) := rfl

@[simp] theorem Walk.ending_error {α : Type} (e : Failure) (t : Trail) :
    Walk.ending ((Except.error e : Except Failure α), t) = (.error e, t) := rfl

namespace Outline

mutual

/-- The stops of an outline, in the order in which they are met. -/
def stops : Outline → List Stop
  | .leaf _ => []
  | .fault e => [.fault e]
  | .place s v p => [.place s v p]
  | .items os => itemStops os
  | .members ms => memberStops ms

/-- The stops of items. -/
def itemStops : List Outline → List Stop
  | [] => []
  | o :: os => stops o ++ itemStops os

/-- The stops of members. -/
def memberStops : List (Text × Outline) → List Stop
  | [] => []
  | (_, o) :: ms => stops o ++ memberStops ms

end

theorem itemStops_eq (os : List Outline) : itemStops os = os.flatMap stops := by
  induction os with
  | nil => rfl
  | cons o os ih => simp [itemStops, ih]

theorem memberStops_append (ms ns : List (Text × Outline)) :
    memberStops (ms ++ ns) = memberStops ms ++ memberStops ns := by
  induction ms with
  | nil => rfl
  | cons m ms ih => simp [memberStops, ih]

end Outline

namespace Stop

/-- Goes from stop to stop, up to the first failure. -/
def pass (f : Filler) : List Stop → Walk Unit
  | [], t => (.ok (), t)
  | .fault e :: _, t => (.error e, t)
  | .place s v p :: ss, t =>
    match f s v p t with
    | (.ok _, t) => pass f ss t
    | (.error e, t) => (.error e, t)

theorem pass_append (f : Filler) (as bs : List Stop) (t : Trail) :
    pass f (as ++ bs) t = match pass f as t with
      | (.ok _, t) => pass f bs t
      | (.error e, t) => (.error e, t) := by
  induction as generalizing t with
  | nil => rfl
  | cons a as ih =>
    cases a with
    | fault e => rfl
    | place s v p =>
      simp only [List.cons_append, pass]
      split
      · exact ih _
      · rfl

@[simp] theorem pass_place (f : Filler) (s : Spot) (v : Value) (p : Path) (t : Trail) :
    pass f [.place s v p] t = Walk.ending (f s v p t) := by
  simp only [pass]
  split <;> simp_all

end Stop

namespace Outline

open Stop (pass pass_append pass_place)

mutual

/-- A walk through an outline ends as the way from stop to stop does. -/
theorem ending_fill (f : Filler) : ∀ (o : Outline) (t : Trail),
    Walk.ending (o.fill f t) = pass f o.stops t
  | .leaf _, _ => rfl
  | .fault _, _ => rfl
  | .place s v p, t => (pass_place f s v p t).symm
  | .items os, t => by
    rw [fill, stops, ← ending_fillItems f os t]
    split <;> simp_all
  | .members ms, t => by
    rw [fill, stops, ← ending_fillMembers f ms t]
    split <;> simp_all

theorem ending_fillItems (f : Filler) : ∀ (os : List Outline) (t : Trail),
    Walk.ending (fillItems f os t) = pass f (itemStops os) t
  | [], _ => rfl
  | o :: os, t => by
    rw [itemStops, pass_append, ← ending_fill f o t, fillItems]
    split
    · next e t' h => simp [h]
    · next v t' h =>
      simp only [h, Walk.ending_ok]
      rw [← ending_fillItems f os t']
      split <;> simp_all

theorem ending_fillMembers (f : Filler) : ∀ (ms : List (Text × Outline)) (t : Trail),
    Walk.ending (fillMembers f ms t) = pass f (memberStops ms) t
  | [], _ => rfl
  | (k, o) :: ms, t => by
    rw [memberStops, pass_append, ← ending_fill f o t, fillMembers]
    split
    · next e t' h => simp [h]
    · next v t' h =>
      simp only [h, Walk.ending_ok]
      rw [← ending_fillMembers f ms t']
      split <;> simp_all

end

end Outline

end UsagePolicy
