import UsagePolicy.Proofs.Text.Case
import UsagePolicy.Session

/-!
# Configuring the root logger

The level of the root logger is given by a name in any case, which is looked up among constants. The
name of a level stands for that level and a name of nothing for `info`; two names stand for
something that is no level. A configuration by any other name succeeds, whatever the logger was
before, and then its level and its one handler are those that were asked for. A configuration by one
of the two fails when the old handlers are gone already, so it leaves the logger as it was only if
that had no handler.
-/

namespace UsagePolicy

namespace Level

variable {name : Text} {l : Level} {o : Other}

/-- What a name in capitals stands for as a level: the level of that name, or `info` if there is no
constant of that name. -/
inductive Denotes (name : Text) : Level → Prop
  | named {l : Level} : (name, l) ∈ names → Denotes name l
  | unknown : (∀ l, (name, l) ∉ constants) → (∀ o, (name, o) ∉ others) → Denotes name info

/-! ## The tables -/

theorem ofName?_eq_some : ofName? name = some l ↔ (name, l) ∈ names :=
  lookup_eq_some_iff_mem (by decide)

/-- There is a constant for each name of a level, and only for those. -/
theorem constants_perm_names : constants.Perm names := by decide

theorem lookup_constants_eq_some : constants.lookup name = some l ↔ (name, l) ∈ names := by
  rw [← constants_perm_names.mem_iff]
  exact lookup_eq_some_iff_mem (by decide)

theorem lookup_others_eq_some : others.lookup name = some o ↔ (name, o) ∈ others :=
  lookup_eq_some_iff_mem (by decide)

/-- No level has a name that stands for something else. -/
theorem not_mem_others_of_mem_names (h : (name, l) ∈ names) (o : Other) : (name, o) ∉ others := by
  have apart : ∀ e ∈ names, others.lookup e.1 = none := by decide
  intro other
  cases (apart _ h).symm.trans (lookup_others_eq_some.mpr other)

/-- A name stands for a level or for something else. -/
theorem exists_denotes_or_other (name : Text) :
    (∃ l, Denotes name l) ∨ ∃ o, (name, o) ∈ others := by
  by_cases named : ∃ l, (name, l) ∈ names
  · obtain ⟨l, named⟩ := named
    exact .inl ⟨l, .named named⟩
  · by_cases other : ∃ o, (name, o) ∈ others
    · exact .inr other
    · have unnamed : ∀ l, (name, l) ∉ constants := fun l constant =>
        named ⟨l, constants_perm_names.mem_iff.mp constant⟩
      exact .inl ⟨info, .unknown unnamed (not_exists.mp other)⟩

theorem Denotes.not_mem_others (h : Denotes name l) (o : Other) : (name, o) ∉ others := by
  cases h with
  | named named => exact not_mem_others_of_mem_names named o
  | unknown _ apart => exact apart o

/-! ## Looking up a name -/

theorem find_of_denotes (h : Denotes name.upper l) : find name = .ok l := by
  have apart : others.lookup name.upper = none := by
    rw [Option.eq_none_iff_forall_ne_some]
    exact fun o other => h.not_mem_others o (lookup_others_eq_some.mp other)
  rw [find, apart]
  cases h with
  | named named => rw [lookup_constants_eq_some.mpr named, Option.getD_some]
  | unknown unnamed _ =>
    have unknown : constants.lookup name.upper = none := by
      rw [Option.eq_none_iff_forall_ne_some]
      exact fun l found => unnamed l (mem_of_lookup found)
    rw [unknown, Option.getD_none]

theorem find_of_other (h : (name.upper, o) ∈ others) : find name = .error o := by
  rw [find, lookup_others_eq_some.mpr h]

end Level

namespace RootLogger

variable {root : RootLogger} {name : Text} {structured : Bool} {l : Level} {o : Level.Other}

/-- The logger as a configuration is to leave it: it has the level that the name in capitals stands
for, and one handler, which writes JSON exactly if that is asked for. -/
structure Configured (root : RootLogger) (name : Text) (structured : Bool) : Prop where
  level : Level.Denotes name.upper root.level
  handler : ∃ h, root.handlers = [h] ∧ (h = .structured ↔ structured = true)

/-- A configuration of the logger succeeds and leaves it configured, or it fails and leaves it as it
was. -/
def AllOrNothing (root : RootLogger) (name : Text) (structured : Bool) : Prop :=
  match root.configure name structured with
  | (after, none) => after.Configured name structured
  | (after, some _) => after = root

/-- The name is one of the two that stand for something that is no level. -/
def Misleads (name : Text) : Prop := ∃ o, (name.upper, o) ∈ Level.others

theorem configure_of_denotes (h : Level.Denotes name.upper l) :
    root.configure name structured = (⟨l, [handler structured]⟩, none) := by
  rw [configure, Level.find_of_denotes h]

theorem configure_of_other (h : (name.upper, o) ∈ Level.others) :
    root.configure name structured = (⟨root.level, []⟩, some o) := by
  rw [configure, Level.find_of_other h]

theorem configured_of_denotes (h : Level.Denotes name.upper l) :
    Configured ⟨l, [handler structured]⟩ name structured where
  level := h
  handler := ⟨_, rfl, by cases structured <;> simp [handler]⟩

/-- How a configuration of the logger ends. -/
structure Settles (root : RootLogger) (name : Text) (structured : Bool) : Prop where
  /-- It fails exactly for the two misleading names, and says what they stand for. -/
  fails : ∀ o, (root.configure name structured).2 = some o ↔ (name.upper, o) ∈ Level.others
  /-- What it leaves when it succeeds. -/
  configured : ¬ Misleads name → (root.configure name structured).1.Configured name structured
  /-- What it leaves when it fails: the level as it was, and no handler. -/
  emptied : Misleads name → (root.configure name structured).1 = { root with handlers := [] }
  /-- It is all or nothing but for a logger with handlers and a misleading name. -/
  allOrNothing : root.AllOrNothing name structured ↔ (Misleads name → root.handlers = [])

/-- From every state of the logger, a configuration by any name but the two misleading ones is all
or nothing, and one by those is so only if there are no handlers to lose. -/
theorem configure_settles (root : RootLogger) (name : Text) (structured : Bool) :
    root.Settles name structured := by
  rcases Level.exists_denotes_or_other name.upper with ⟨l, denotes⟩ | ⟨o, other⟩
  · have clear : ¬ Misleads name := fun ⟨o, other⟩ => denotes.not_mem_others o other
    have ends : root.configure name structured = _ := configure_of_denotes denotes
    have configured : Configured ⟨l, [handler structured]⟩ name structured :=
      configured_of_denotes denotes
    exact {
      fails := fun o => by simp [ends, denotes.not_mem_others o]
      configured := fun _ => by rw [ends]; exact configured
      emptied := fun misleads => absurd misleads clear
      allOrNothing := by
        simp only [AllOrNothing, ends, clear, false_implies, iff_true]
        exact configured }
  · have misleads : Misleads name := ⟨o, other⟩
    have ends : root.configure name structured = _ := configure_of_other other
    exact {
      fails := fun o' => by
        rw [ends, ← Level.lookup_others_eq_some, Level.lookup_others_eq_some.mpr other]
      configured := fun clear => absurd misleads clear
      emptied := fun _ => by rw [ends]
      allOrNothing := by
        obtain ⟨level, handlers⟩ := root
        simp only [AllOrNothing, ends, misleads, true_implies, mk.injEq, true_and]
        exact eq_comm }

/-- A logger that writes JSON loses its handler to the name of the default format. -/
theorem basicFormat_empties : ¬ AllOrNothing ⟨Level.info, [.structured]⟩ "basic_format" true := by
  have misleads : Misleads "basic_format" := ⟨.format, by decide⟩
  intro kept
  cases (configure_settles _ _ _).allOrNothing.mp kept misleads

end RootLogger

end UsagePolicy
