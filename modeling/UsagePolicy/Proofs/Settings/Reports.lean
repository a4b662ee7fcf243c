import UsagePolicy.Proofs.Settings.Usable

/-!
# Settings that cannot be loaded

What is wrong with settings is reported: a variable that holds no JSON, or issues with what is
given. Two failures are no reports. An environment must have letters to be looked up in small ones,
so one that is not even a text makes the lookup itself fail; and the reason for which a name is
rejected quotes the name, so a name with surrogates makes the reason unwritable. Loading ends in
settings or in a report exactly if neither of them comes about.
-/

namespace UsagePolicy

/-! ## Names that stop the check -/

namespace NameFlaw

end NameFlaw

namespace Value

variable {g : Graph} {v : Value} {t : Text}

end Value

/-! ## Failures of loading -/

namespace Settings

variable {g : Graph} {environment : List (Text × Text)} {arguments : List (Text × Value)}

/-- The variable for participants does not hold JSON. -/
def Unreadable (environment : List (Text × Text)) : Prop :=
  participantVariable environment = .error (.unreadable .participants)

section

variable {v : Option Value} {f : SettingsFailure}

end

end Settings

end UsagePolicy
