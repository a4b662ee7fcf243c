import UsagePolicy.CommandLine.Run
import UsagePolicy.Proofs.Encoding.PlainPolicies
import UsagePolicy.Proofs.Text.Case

/-!
# Names of participants

The options of the command say what participants are named by. The resolver that the command makes
is made exactly if that can be read and is valid, and it names participants by it.
-/

namespace UsagePolicy

namespace Command

/-- What participants are named by: by themselves, by the map in a file that can be read and is
valid, or by the map of the settings. A file without a name is none. -/
inductive Named (i : Inputs) (s : Settings) (o : Options) : (Text → Option Text) → Prop
  | identity : o.identityParticipants = true → Named i s o some
  | file {name t : Text} {m : List (Text × Text)} : o.identityParticipants = false →
    o.participantMap = some name → name ≠ [] → i.file (.ofText name) = .ok t →
    ParticipantMap.ofText t = .ok m → Named i s o fun p => m.lookup p
  | settings : o.identityParticipants = false → (∀ name ∈ o.participantMap, name = []) →
    Named i s o fun p => s.participants.lookup p

variable {i : Inputs} {s : Settings} {o : Options} {names names' : Text → Option Text} {t : Text}

theorem namesBy_identity : Resolver.identity.NamesBy some := fun _ _ => rfl

theorem namesBy_tableOf (m : List (Text × Text)) : (tableOf m).NamesBy fun p => m.lookup p := by
  intro g t
  have found : (m.map fun e => (e.1, Value.text e.2)).lookup t = (m.lookup t).map .text := by
    induction m with
    | nil => rfl
    | cons e m ih =>
      rw [List.map_cons, List.lookup_cons, List.lookup_cons]
      cases t == e.1
      · exact ih
      · rfl
  have looked : (tableOf m).resolve g (.text t) =
      .ok (((m.map fun e => (e.1, Value.text e.2)).lookup t).getD .absent) := rfl
  rw [looked, found]
  dsimp only
  cases m.lookup t <;> rfl

/-- A file that is asked for has a name. -/
theorem participantMap_eq_some {name : Text} : o.participantMap.filter (!·.isEmpty) = some name ↔
    o.participantMap = some name ∧ name ≠ [] := by
  rw [Option.filter_eq_some_iff]
  simp

theorem participantMap_eq_none : o.participantMap.filter (!·.isEmpty) = none ↔
    ∀ name ∈ o.participantMap, name = [] := by
  rw [Option.filter_eq_none_iff]
  simp

theorem named_iff_identity (given : o.identityParticipants = true) :
    Named i s o names ↔ names = some := by
  refine ⟨fun named => ?_, fun same => same ▸ .identity given⟩
  cases named with
  | identity => rfl
  | file given' => rw [given] at given'; cases given'
  | settings given' => rw [given] at given'; cases given'

theorem named_iff_file (given : o.identityParticipants = false) {name : Text}
    (asked : o.participantMap = some name) (nonempty : name ≠ []) :
    Named i s o names ↔ ∃ t m, i.file (.ofText name) = .ok t ∧ ParticipantMap.ofText t = .ok m ∧
      names = fun p => m.lookup p := by
  refine ⟨fun named => ?_, ?_⟩
  · cases named with
    | identity given' => rw [given] at given'; cases given'
    | file _ asked' _ read valid =>
      obtain rfl := Option.some.inj (asked.symm.trans asked')
      exact ⟨_, _, read, valid, rfl⟩
    | settings _ unnamed => exact absurd (unnamed _ asked) nonempty
  · rintro ⟨t, m, read, valid, rfl⟩
    exact .file given asked nonempty read valid

theorem named_iff_settings (given : o.identityParticipants = false)
    (unnamed : ∀ name ∈ o.participantMap, name = []) :
    Named i s o names ↔ names = fun p => s.participants.lookup p := by
  refine ⟨fun named => ?_, fun same => same ▸ .settings given unnamed⟩
  cases named with
  | identity given' => rw [given] at given'; cases given'
  | file _ asked nonempty => exact absurd (unnamed _ asked) nonempty
  | settings => rfl

theorem Named.unique (h : Named i s o names) (h' : Named i s o names') : names = names' := by
  cases h with
  | identity given => exact ((named_iff_identity given).mp h').symm
  | file given asked nonempty read valid =>
    obtain ⟨t', m', read', valid', rfl⟩ := (named_iff_file given asked nonempty).mp h'
    obtain rfl := Except.ok.inj (read.symm.trans read')
    obtain rfl := Except.ok.inj (valid.symm.trans valid')
    rfl
  | settings given unnamed => exact ((named_iff_settings given unnamed).mp h').symm

/-- The resolver is made exactly if there is something that participants are named by. -/
theorem readResolver_cases (i : Inputs) (s : Settings) (o : Options) :
    (∃ f, readResolver i s o = .error f ∧ ∀ names, ¬ Named i s o names) ∨
      ∃ r names, readResolver i s o = .ok r ∧ Named i s o names ∧ r.NamesBy names := by
  unfold readResolver
  cases given : o.identityParticipants with
  | true => exact .inr ⟨_, _, if_pos rfl, .identity given, namesBy_identity⟩
  | false =>
    rw [if_neg Bool.false_ne_true]
    cases hm : o.participantMap.filter (!·.isEmpty) with
    | none =>
      exact .inr ⟨_, _, rfl, .settings given (participantMap_eq_none.mp hm), namesBy_tableOf _⟩
    | some name =>
      obtain ⟨asked, nonempty⟩ := participantMap_eq_some.mp hm
      simp only [named_iff_file given asked nonempty]
      cases read : i.file (.ofText name) with
      | error f => exact .inl ⟨_, rfl, by rintro _ ⟨t, m, ⟨⟩, -⟩⟩
      | ok t =>
        cases valid : ParticipantMap.ofText t with
        | error es =>
          refine .inl ⟨.issues "dict[str,str]" es, by simp only [valid]; rfl, ?_⟩
          rintro _ ⟨_, m, ⟨⟩, valid', -⟩
          cases valid.symm.trans valid'
        | ok m =>
          exact .inr ⟨tableOf m, _, by simp only [valid]; rfl, ⟨t, m, rfl, valid, rfl⟩,
            namesBy_tableOf m⟩

/-! ## Names without surrogates -/

theorem isScalar_of_texts {ms : Json.Members} (readable : ∀ e ∈ ms, e.2.Readable)
    {m : List (Text × Text)} (h : ParticipantMap.texts ms = .ok m) :
    ∀ e ∈ m, e.2.isScalar = true := by
  induction ms generalizing m with
  | nil =>
    obtain rfl := Except.ok.inj h
    exact nofun
  | cons e ms ih =>
    obtain ⟨k, v⟩ := e
    obtain ⟨first, rest⟩ := List.forall_mem_cons.mp readable
    obtain ⟨⟨t, m'⟩, both, rfl⟩ := Checked.map_eq_ok.mp h
    obtain ⟨entry, texts⟩ := Checked.both_eq_ok.mp both
    refine List.forall_mem_cons.mpr ⟨?_, ih rest texts⟩
    cases first with
    | text scalar =>
      obtain rfl := Except.ok.inj (Checked.under_eq_ok.mp entry)
      exact scalar
    | _ => cases Checked.under_eq_ok.mp entry

/-- No entry of a map that was read from a text has a surrogate. -/
theorem isScalar_of_mapText {m : List (Text × Text)} (h : ParticipantMap.ofText t = .ok m) :
    ∀ e ∈ m, e.2.isScalar = true := by
  unfold ParticipantMap.ofText at h
  cases parsed : Payload.parse t with
  | error es => rw [parsed] at h; cases h
  | ok v =>
    rw [parsed] at h
    obtain ⟨readable, -⟩ := Payload.within_of_parse parsed
    cases readable with
    | object _ _ members => exact isScalar_of_texts members h
    | _ => cases h

theorem isScalar_of_lookup {m : List (Text × Text)} (scalars : ∀ e ∈ m, e.2.isScalar = true)
    {u : Text} (h : m.lookup t = some u) : u.isScalar = true :=
  scalars (t, u) (mem_of_lookup h)

theorem Named.isScalar (h : Named i s o names)
    (scalars : ∀ e ∈ s.participants, e.2.isScalar = true) {u : Text} (ht : t.isScalar = true)
    (hu : names t = some u) : u.isScalar = true := by
  cases h with
  | identity => exact Option.some.inj hu ▸ ht
  | file _ _ _ _ valid => exact isScalar_of_lookup (isScalar_of_mapText valid) hu
  | settings => exact isScalar_of_lookup scalars hu

end Command

end UsagePolicy
