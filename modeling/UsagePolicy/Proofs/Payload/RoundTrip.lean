import Mathlib
import UsagePolicy.Proofs.Payload.Dumps
import UsagePolicy.Proofs.Payload.Grammar
import UsagePolicy.Proofs.Policy.EqualParts

/-!
# Round trips of payloads

A check gives a part exactly for the values that render it and in which it finds room. A part that
was read from the text of a payload nests so little that all its renderings have room, so each of
them checks as that part again: however its fields are spelled and ordered, and whichever of its
defaults are left out. Its dumps are among them.
-/

namespace UsagePolicy

namespace Part

open Payload (Target referenceLimit)

/-- The value renders a part as what it is to be. Where only one kind of constraint may stand, the
tag may be left out. -/
def Renders : Target → Part → Json → Prop
  | .node .policy, .policy p, v => p.Renders v
  | .node .rule, .rule r, v => r.Renders v
  | .node .permission, .permission p, v => p.Renders v
  | .node .prohibition, .prohibition p, v => p.Renders v
  | .node .duty, .duty d, v => d.Renders v
  | .node .action, .action a, v => a.Renders v
  | .node .atomicConstraint, .constraint (.atomic a), v => a.Renders True v
  | .node .multiplicityConstraint, .constraint (.multiplicity k cs), v =>
    (Constraint.multiplicity k cs).Renders True v
  | .node .literalExpression, .expression e, v => e.Renders v
  | .constraint, .constraint c, v => c.RendersTagged v
  | _, _, _ => False

/-- A part finds room where it is checked as what it is to be. -/
def FitsIn (s : Source) : Target → Part → Prop
  | .node .policy, .policy p => p.FitsIn s referenceLimit
  | .node .rule, .rule r => r.FitsIn s referenceLimit
  | .node .permission, .permission p => p.FitsIn s referenceLimit
  | .node .prohibition, .prohibition p => p.rule.FitsIn s referenceLimit
  | .node .duty, .duty d => Duty.FitsIn s 1 referenceLimit d
  | .node .action, .action a => a.FitsIn s referenceLimit
  | .node .atomicConstraint, _ => s.FitsOperand referenceLimit
  | .node .multiplicityConstraint, .constraint (.multiplicity _ cs) =>
    Constraint.AllFitIn s (referenceLimit - 1) cs
  | .node .literalExpression, _ => s.FitsOperand referenceLimit
  | .constraint, .constraint c => Constraint.FitsIn s 2 referenceLimit c
  | _, _ => False

end Part

namespace Payload

open Checked (map_eq_ok)

/-- A check gives a part exactly for the values that render it, if it finds room. -/
theorem check_eq_ok {s : Source} {t : Target} {v : Json} (distinct : v.Distinct) {p : Part} :
    check s t v = .ok p ↔ p.Renders t v ∧ p.FitsIn s t := by
  cases t with
  | constraint =>
    have accepts := fun c => accepts_constraint s 2 referenceLimit c v distinct
    cases p <;> simp [check, map_eq_ok, Part.Renders, Part.FitsIn, accepts]
  | node c =>
    cases c with
    | policy =>
      have accepts := fun p => accepts_policy s referenceLimit p v distinct
      cases p <;> simp [check, map_eq_ok, Part.Renders, Part.FitsIn, accepts]
    | rule =>
      have accepts := fun p => accepts_rule s referenceLimit p v distinct
      cases p <;> simp [check, map_eq_ok, Part.Renders, Part.FitsIn, accepts]
    | permission =>
      have accepts := fun p => accepts_permission s referenceLimit p v distinct
      cases p <;> simp [check, map_eq_ok, Part.Renders, Part.FitsIn, accepts]
    | prohibition =>
      have accepts := fun p => accepts_prohibition s referenceLimit p v distinct
      cases p <;> simp [check, map_eq_ok, Part.Renders, Part.FitsIn, accepts]
    | duty =>
      have accepts := fun p => accepts_duty s 1 referenceLimit p v distinct
      cases p <;> simp [check, map_eq_ok, Part.Renders, Part.FitsIn, accepts]
    | action =>
      have accepts := fun p => accepts_action s referenceLimit p v distinct
      cases p <;> simp [check, map_eq_ok, Part.Renders, Part.FitsIn, accepts]
    | literalExpression =>
      have accepts := fun p => accepts_expression s referenceLimit p v distinct
      cases p <;> simp [check, map_eq_ok, Part.Renders, Part.FitsIn, accepts]
    | atomicConstraint =>
      cases v with
      | object ms =>
        have accepts := atomicFields_eq_ok distinct s referenceLimit
        rcases p with _ | _ | _ | _ | _ | _ | (_ | _) | _ <;>
          simp [check, map_eq_ok, Part.Renders, Part.FitsIn, accepts]
      | _ =>
        rcases p with _ | _ | _ | _ | _ | _ | (_ | _) | _ <;>
          simp [check, Part.Renders, AtomicConstraint.Renders, not_isNode]
    | multiplicityConstraint =>
      cases v with
      | object ms =>
        have accepts := fun k cs => multiplicityFields_eq_ok (s := s) (k := k) distinct
          fun c (_ : c ∈ cs) => accepts_constraint s 1 (referenceLimit - 1) c
        have other : ∀ a, multiplicityFields s (referenceLimit - 1) ms ≠ .ok (.atomic a) := by
          intro a h
          obtain ⟨k, cs, same⟩ := exists_multiplicity_of_ok h
          cases same
        rcases p with _ | _ | _ | _ | _ | _ | (_ | _) | _ <;>
          simp [check, map_eq_ok, Part.Renders, Part.FitsIn, accepts, other]
      | _ =>
        rcases p with _ | _ | _ | _ | _ | _ | (_ | _) | _ <;>
          simp [check, Part.Renders, Constraint.Renders, not_isNode]

end Payload

/-! ## Kinds of parts -/

namespace Part

/-- The part is of the kind that it is to be. -/
inductive IsA : Payload.Target → Part → Prop
  | policy (p : Policy) : IsA (.node .policy) (.policy p)
  | rule (r : Rule) : IsA (.node .rule) (.rule r)
  | permission (p : Permission) : IsA (.node .permission) (.permission p)
  | prohibition (p : Prohibition) : IsA (.node .prohibition) (.prohibition p)
  | duty (d : Duty) : IsA (.node .duty) (.duty d)
  | action (a : Action) : IsA (.node .action) (.action a)
  | atomic (a : AtomicConstraint) : IsA (.node .atomicConstraint) (.constraint (.atomic a))
  | multiplicity (k : MultiplicityKind) (cs : List Constraint) :
    IsA (.node .multiplicityConstraint) (.constraint (.multiplicity k cs))
  | expression (e : Expression) : IsA (.node .literalExpression) (.expression e)
  | constraint (c : Constraint) : IsA .constraint (.constraint c)

variable {t : Payload.Target} {p : Part} {v : Json}

theorem Renders.isA (h : p.Renders t v) : p.IsA t := by
  unfold Renders at h
  split at h
  · exact .policy _
  · exact .rule _
  · exact .permission _
  · exact .prohibition _
  · exact .duty _
  · exact .action _
  · exact .atomic _
  · exact .multiplicity _ _
  · exact .expression _
  · exact .constraint _
  · cases h

/-- A part that is read from the text of a payload finds room in every rendering. -/
theorem Renders.fitsIn {s : Source} (h : p.Renders t v) (hn : v.nesting ≤ 200) : p.FitsIn s t := by
  have enough : 200 + 2 ≤ Payload.referenceLimit := by decide
  cases h.isA with
  | policy p => exact Policy.Renders.fitsIn h hn (by omega)
  | rule r =>
    obtain ⟨given, fields, below⟩ := Json.IsNode.nestBelow h hn
    exact fields.fitsIn below (by decide) (by decide) (by omega)
  | permission p => exact Permission.Renders.fitsIn h hn (by omega)
  | prohibition p => exact Prohibition.Renders.fitsIn h hn (by omega)
  | duty d => exact Duty.Renders.fitsIn h hn (by omega)
  | action a => exact Action.Renders.fitsIn h hn (by omega)
  | atomic a => exact s.fitsOperand (by decide)
  | multiplicity k cs => exact Constraint.Renders.allFitIn h hn (by decide)
  | expression e => exact s.fitsOperand (by decide)
  | constraint c => exact Constraint.Renders.fitsIn h hn Nat.two_pos (by omega)

theorem Renders.distinct (h : p.Renders t v) : v.Distinct := by
  cases h.isA with
  | policy p => exact (Policy.Renders.conforms h).distinct
  | rule r => exact (Rule.Renders.conforms h).distinct
  | permission p => exact (Permission.Renders.conforms h).distinct
  | prohibition p => exact (Prohibition.Renders.conforms h).distinct
  | duty d => exact (Duty.Renders.conforms h).distinct
  | action a => exact (Action.Renders.conforms h).distinct
  | atomic a => exact (AtomicConstraint.Renders.conforms h).distinct
  | multiplicity k cs =>
    exact (Constraint.Renders.conforms_multiplicity h
      fun _ _ _ => Constraint.RendersTagged.conforms).distinct
  | expression e => exact (Expression.Renders.conforms h).distinct
  | constraint c => exact (Constraint.RendersTagged.conforms h).distinct

/-- A dump of a part renders it. -/
theorem IsA.dumps (h : p.IsA t) (n : Naming) : (p.dump n).Dumps (p.Renders t) := by
  cases h with
  | policy p => exact p.dumps n
  | rule r => exact r.dumps_entries n rfl
  | permission p => exact p.dumps n
  | prohibition p => exact p.dumps n
  | duty d => exact d.dumps n
  | action a => exact a.dumps n
  | atomic a => exact a.dumps n True
  | multiplicity k cs => exact (Constraint.multiplicity k cs).dumps n True
  | expression e => exact e.dumps n
  | constraint c => exact c.dumps n False

end Part

/-! ## Renderings check as what they render -/

namespace Payload

theorem exists_parse_of_checkText {t : Target} {text : Text} {p : Part}
    (h : checkText t text = .ok p) : ∃ v, parse text = .ok v ∧ check .payload t v = .ok p := by
  unfold checkText at h
  cases hv : parse text with
  | error issues =>
    rw [hv] at h
    cases h
  | ok v =>
    rw [hv] at h
    exact ⟨v, rfl, h⟩

/-- A part that the text of a payload gives is given by all its renderings: by each value that
renders it, whether as a payload or as objects, by each text of such a value, and by its dumps under
either of the names of its fields. -/
theorem renderings_check {t : Target} {text : Text} {p : Part}
    (produced : checkText t text = .ok p) :
    (∀ v, p.Renders t v → ∀ s, check s t v = .ok p) ∧
      (∀ text' v, parse text' = .ok v → p.Renders t v → checkText t text' = .ok p) ∧
      ∀ n, (∃ v, (p.dump n).toJson = .ok v ∧ p.Renders t v) ∧ p.roundTrips n t = true := by
  obtain ⟨v₀, parsed, checked⟩ := exists_parse_of_checkText produced
  obtain ⟨readable, shallow⟩ := within_of_parse parsed
  have renders := ((check_eq_ok readable.distinct).mp checked).1
  have accepted : ∀ v, p.Renders t v → ∀ s, check s t v = .ok p :=
    fun v h s => (check_eq_ok h.distinct).mpr ⟨h, renders.fitsIn shallow⟩
  refine ⟨accepted, fun text' v parsed' h => ?_, fun n => ?_⟩
  · rw [checkText, parsed']
    exact accepted v h .payload
  · obtain ⟨v, form, h⟩ := renders.isA.dumps n
    refine ⟨⟨v, form, h⟩, ?_⟩
    have same : p.same p = true := p.sameBy_self fun l => (Literal.same_iff l l).mpr rfl
    simp only [Part.roundTrips, form, accepted v h .objects, same]

/-- A comparison of a count, whose keys are spelled in both ways. -/
def countLimit : Text :=
  "\x7b\x22rightExpression\x22:\x7b\x22value\x22:5\x7d,\x22constraint_type\x22:\x22atomic\x22," ++
    "\x22left_expression\x22:\x7b\x22value\x22:\x22count\x22\x7d,\x22operator\x22:\x22LT\x22\x7d"

/-- The part that the text of the comparison gives. -/
def countLimitPart : Part := .constraint (.atomic ⟨⟨.text "count"⟩, .lt, ⟨.int 5⟩⟩)

theorem checkText_countLimit : checkText .constraint countLimit = .ok countLimitPart := by
  have parsed : parse countLimit = .ok (.object [
      ("rightExpression", .object [("value", .int 5)]), ("constraint_type", .text "atomic"),
      ("left_expression", .object [("value", .text "count")]), ("operator", .text "LT")]) := by
    cbv
  rw [checkText, parsed]
  exact Checked.map_eq_ok.mpr ⟨_, (constraint_object _ _ _ _ _).mpr (.inl ⟨rfl, _, rfl, rfl⟩), rfl⟩

/-- The comparison is given by its dumps as well. -/
theorem countLimit_roundTrips : checkText .constraint countLimit = .ok countLimitPart ∧
    countLimitPart.roundTrips .wire .constraint = true ∧
      countLimitPart.roundTrips .plain .constraint = true :=
  have dumps := (renderings_check checkText_countLimit).2.2
  ⟨checkText_countLimit, (dumps .wire).2, (dumps .plain).2⟩

end Payload

end UsagePolicy
