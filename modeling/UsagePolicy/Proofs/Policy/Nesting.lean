import UsagePolicy.Policy.Basic

/-!
# Nesting of policies

How many rules and constraints stand inside each other in a policy. An action is neither, so its
refinement nests as deep as if it stood in the rule itself.
-/

namespace UsagePolicy

/-- The greatest of the numbers, zero if there are none. -/
def greatest (ns : List Nat) : Nat := ns.foldr max 0

theorem le_greatest {ns : List Nat} {n : Nat} (h : n ∈ ns) : n ≤ greatest ns := by
  induction ns with
  | nil => cases h
  | cons k ns ih =>
    rw [greatest, List.foldr_cons]
    rcases List.mem_cons.mp h with rfl | h
    · exact Nat.le_max_left _ _
    · exact Nat.le_trans (ih h) (Nat.le_max_right _ _)

theorem greatest_eq_zero_or_mem (ns : List Nat) : greatest ns = 0 ∨ greatest ns ∈ ns := by
  induction ns with
  | nil => exact .inl rfl
  | cons k ns ih =>
    have split : greatest (k :: ns) = max k (greatest ns) := rfl
    rcases Nat.le_total (greatest ns) k with h | h
    · exact .inr (by rw [split, Nat.max_eq_left h]; exact List.mem_cons_self)
    · rw [split, Nat.max_eq_right h]
      exact ih.imp_right (List.mem_cons_of_mem _)

mutual

/-- The nesting of a constraint, itself counted. -/
def Constraint.nesting : Constraint → Nat
  | .atomic _ => 1
  | .multiplicity _ cs => Constraint.listNesting cs + 1

/-- The nesting of the deepest constraint. -/
def Constraint.listNesting : List Constraint → Nat
  | [] => 0
  | c :: cs => max c.nesting (Constraint.listNesting cs)

end

theorem Constraint.listNesting_eq (cs : List Constraint) :
    Constraint.listNesting cs = greatest (cs.map Constraint.nesting) := by
  induction cs with
  | nil => rfl
  | cons c cs ih =>
    rw [listNesting, ih]
    rfl

/-- The nesting of what refines an action. -/
def Action.nesting (a : Action) : Nat := (a.refinement.map Constraint.nesting).getD 0

/-- The nesting inside the shared part of a rule. -/
def Rule.nesting (r : Rule) : Nat :=
  max ((r.action.map Action.nesting).getD 0) (Constraint.listNesting r.constraints)

/-- The nesting of a duty, itself counted. -/
def Duty.nesting : Duty → Nat
  | .mk r none => r.nesting + 1
  | .mk r (some d) => max r.nesting d.nesting + 1

theorem Duty.nesting_mk (r : Rule) (o : Option Duty) :
    (Duty.mk r o).nesting = max r.nesting ((o.map Duty.nesting).getD 0) + 1 := by
  cases o with
  | none => rw [Duty.nesting, Option.map_none, Option.getD_none, Nat.max_zero]
  | some d => rw [Duty.nesting, Option.map_some, Option.getD_some]

/-- The nesting of a permission, itself counted. -/
def Permission.nesting (p : Permission) : Nat :=
  max p.rule.nesting (greatest (p.duties.map Duty.nesting)) + 1

/-- The nesting of a prohibition, itself counted. -/
def Prohibition.nesting (p : Prohibition) : Nat := p.rule.nesting + 1

/-- The nesting of the deepest rule of a policy. -/
def Policy.nesting (p : Policy) : Nat :=
  max (max (greatest (p.permissions.map Permission.nesting))
    (greatest (p.prohibitions.map Prohibition.nesting))) (greatest (p.obligations.map Duty.nesting))

end UsagePolicy
