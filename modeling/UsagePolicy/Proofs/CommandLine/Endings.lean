import Mathlib
import UsagePolicy.Proofs.CommandLine.Names
import UsagePolicy.Proofs.Encoding.WrittenDocument

/-!
# How the command ends

The command ends in one of three ways. Its inputs are not valid, and it ends with 2; they are, but
the policy is nested too deep, and it ends with 1; or it prints one output and ends normally. Only
in the last case anything is printed, and a fingerprint that is printed is a function of the policy
and of the names of its participants.
-/

namespace UsagePolicy

namespace Command

variable {i : Inputs} {s : Settings} {o : Options} {names names' : Text → Option Text}
  {r : Resolver} {p : Policy} {t : Text}

/-! ## What is printed -/

/-- A document and its normal form are printed alike. -/
theorem printed_normal (o : Options) (v : Value) : printed o v.normal = printed o v := by
  unfold printed Value.compact Value.pretty
  rw [Value.fingerprint_normal, Value.toJson_normal]

/-- The document of a plain policy can be printed in every form. -/
theorem exists_printed {es : List (Text × Value)}
    (plain : Value.PlainEntries Policy.documentKeys es) (o : Options) (id : Text) :
    ∃ t, printed o (.dict ((Term.id, .text id) :: es)) = .ok t ∧
      (id.isScalar = true → t.isScalar = true) := by
  cases hf : o.fingerprint with
  | true =>
    obtain ⟨t, ht, scalar⟩ := (plain.dict (by decide) (by decide)).fingerprint
    refine ⟨t, ?_, fun _ => scalar⟩
    rw [printed, if_pos hf, Value.fingerprint_identified, ht]
    rfl
  | false =>
    obtain ⟨j, hj, plain⟩ := plain.identified id
    cases hp : o.pretty with
    | true =>
      refine ⟨j.pretty, ?_,
        fun scalar => Json.isScalar_write Json.spaced_prettyLayout j (plain scalar) 0⟩
      simp only [printed, hf, hp, Value.pretty, hj]
      rfl
    | false =>
      refine ⟨j.compact, ?_,
        fun scalar => Json.isScalar_write Json.spaced_compactLayout j (plain scalar) 0⟩
      simp only [printed, hf, hp, Value.compact, hj]
      rfl

/-- The printed fingerprint does not depend on the identifier of the document, and on names only for
the participants of the policy. -/
theorem printed_fingerprint {o' : Options} (hf : o.fingerprint = true)
    (hf' : o'.fingerprint = true) (id id' : Text)
    (assignee : p.assignee.bind names = p.assignee.bind names')
    (assigner : p.assigner.bind names = p.assigner.bind names') :
    printed o (p.namedDocument id names) = printed o' (p.namedDocument id' names') := by
  unfold printed Policy.namedDocument
  rw [if_pos hf, if_pos hf', Value.fingerprint_identified, Value.fingerprint_identified, assignee,
    assigner]

/-! ## Runs -/

/-- The policy of the command can be read and is valid, and so can be and is what participants are
named by. -/
structure Valid (i : Inputs) (s : Settings) (o : Options) (p : Policy)
    (names : Text → Option Text) : Prop where
  policy : ∃ t, policyText i o.policy = .ok t ∧ Payload.policyOfText t = .ok p
  named : Named i s o names

theorem readPolicy_eq_ok {name : Text} : readPolicy i name = .ok p ↔
    ∃ t, policyText i name = .ok t ∧ Payload.policyOfText t = .ok p := by
  unfold readPolicy
  cases policyText i name with
  | error f => simp
  | ok t => cases h : Payload.policyOfText t <;> simp [Except.mapError, h]

theorem Valid.unique {q : Policy} (h : Valid i s o p names) (h' : Valid i s o q names') :
    p = q ∧ names = names' := by
  have read := readPolicy_eq_ok.mpr h.policy
  exact ⟨Except.ok.inj (read.symm.trans (readPolicy_eq_ok.mpr h'.policy)),
    h.named.unique h'.named⟩

/-- The inputs are read exactly if they are valid. -/
theorem readInputs_cases (i : Inputs) (s : Settings) (o : Options) :
    (∃ f, readInputs i s o = .error f ∧ ∀ p names, ¬ Valid i s o p names) ∨
      ∃ p r names, readInputs i s o = .ok (p, r) ∧ Valid i s o p names ∧ r.NamesBy names := by
  cases hp : readPolicy i o.policy with
  | error f =>
    refine .inl ⟨f, by rw [readInputs, hp]; rfl, fun p names valid => ?_⟩
    cases hp.symm.trans (readPolicy_eq_ok.mpr valid.policy)
  | ok p =>
    rcases readResolver_cases i s o with ⟨f, hr, unnamed⟩ | ⟨r, names, hr, named, answers⟩
    · exact .inl ⟨f, by rw [readInputs, hp, hr]; rfl,
        fun p names valid => unnamed names valid.named⟩
    · exact .inr ⟨p, r, names, by rw [readInputs, hp, hr]; rfl, ⟨readPolicy_eq_ok.mp hp, named⟩,
        answers⟩

/-- The document of a valid policy has plain entries. -/
theorem Valid.documentEntries (h : Valid i s o p names)
    (scalars : ∀ e ∈ s.participants, e.2.isScalar = true) :
    Value.PlainEntries Policy.documentKeys (p.documentEntries ((p.assignee.bind names).map .text)
      ((p.assigner.bind names).map .text)) := by
  obtain ⟨t, -, valid⟩ := h.policy
  have plain := Payload.plain_of_policyOfText valid
  have named : ∀ {a : Option Text}, (∀ t ∈ a, t.isScalar = true) →
      ∀ v ∈ (a.bind names).map Value.text, v.Plain := by
    intro a scalar
    refine Value.plain_ofOption fun u hu => ?_
    obtain ⟨t, ht, hu⟩ := Option.bind_eq_some_iff.mp hu
    exact .text (h.named.isScalar scalars (scalar t ht) hu)
  exact plain.documentEntries (named plain.assignee) (named plain.assigner)

/-- How an encoding may end, given what its inputs are: they are not valid, or the policy is nested
too deep, or its document is printed. -/
inductive EndsBy (s : Session) (m : Moment) (i : Inputs) (o : Options) (out : Outcome) : Prop
  | invalid : (∀ p names, ¬ Valid i s.settings o p names) → out.ending = .exit 2 →
    out.stdout = [] → EndsBy s m i o out
  | tooDeep {p : Policy} {names : Text → Option Text} : Valid i s.settings o p names →
    s.settings.maxDepth < p.nesting → out.ending = .exit 1 → out.stdout = [] → EndsBy s m i o out
  | printed {p : Policy} {names : Text → Option Text} {t : Text} : Valid i s.settings o p names →
    (p.nesting : Int) ≤ s.settings.maxDepth → out.ending = .exit 0 →
    printed o (p.namedDocument m.id names) = .ok t → (m.id.isScalar = true → t.isScalar = true) →
    out.stdout = t ++ [0x0A] → EndsBy s m i o out

/-- With valid inputs an encoding ends as its policy can be encoded. -/
theorem exists_finish (s : Session) (m : Moment)
    (read : readInputs i s.settings o = .ok (p, r)) :
    ∃ s' spans lines, (encode s m i o).2 = finish s' m o ⟨.ok (Encoding.policyFrom
      (p.grow .empty).2 s.settings.maxDepth r m.id (p.grow .empty).1 .start), spans, lines⟩ := by
  rw [encode, read]
  exact ⟨_, _, _, rfl⟩

theorem encode_endsBy (s : Session) (m : Moment) (i : Inputs) (o : Options)
    (limit : 1 ≤ s.settings.maxDepth)
    (scalars : ∀ e ∈ s.settings.participants, e.2.isScalar = true) :
    EndsBy s m i o (encode s m i o).2 := by
  rcases readInputs_cases i s.settings o with ⟨f, read, invalid⟩ | ⟨p, r, names, read, valid, named⟩
  · have ended : (encode s m i o).2 = ⟨[], say s m (inputRecord m f), .exit 2⟩ := by
      rw [encode, read]
    rw [ended]
    exact .invalid invalid rfl rfl
  · obtain ⟨t, -, checked⟩ := valid.policy
    have plain := Payload.plain_of_policyOfText checked
    obtain ⟨s', spans, lines, ended⟩ := exists_finish s m read
    rw [ended]
    rcases Graph.outcome_of_plain plain named limit rfl with
      ⟨encoded, ok, kept, document⟩ | ⟨e, failed, exceeded⟩
    · obtain ⟨t, ht, scalar⟩ := exists_printed (valid.documentEntries scalars) o m.id
      have written : printed o encoded.document = .ok t := by
        rw [← printed_normal, document]
        exact ht
      simp only [finish, ok, written]
      exact .printed valid kept rfl ht scalar rfl
    · simp only [finish, failed]
      exact .tooDeep valid exceeded rfl rfl

/-- The log can be configured with the name of a level and with one that stands for nothing. -/
theorem exists_configured (s : Session) {name : Text} (h : Level.others.lookup name.upper = none)
    (structured : Bool) :
    ∃ root, s.configureLogging name structured = ({ s with root := root }, none) := by
  have found : ∃ level, Level.find name = .ok level := ⟨_, by rw [Level.find, h]⟩
  obtain ⟨level, found⟩ := found
  exact ⟨_, by rw [Session.configureLogging, RootLogger.configure, found]⟩

/-- A start of the command with a command line that asks for an encoding. The depth limit is at
least one, the level for the log is the name of a level or one that stands for nothing, and the
names of participants in the settings have no surrogates. -/
structure Launch where
  session : Session
  moment : Moment
  correlation : Text
  inputs : Inputs
  arguments : List Text
  options : Options
  accepted : Invocation.ofArguments arguments = .ok (.run options)
  level : Level.others.lookup (options.logLevel.getD session.settings.logLevel).upper = none
  limit : 1 ≤ session.settings.maxDepth
  scalars : ∀ e ∈ session.settings.participants, e.2.isScalar = true

namespace Launch

variable {l l' : Launch}

/-- What the command leaves. -/
def outcome (l : Launch) : Outcome :=
  (run l.session l.moment l.correlation l.inputs l.arguments).2

/-- The inputs of the command are valid. -/
def Valid (l : Launch) : Policy → (Text → Option Text) → Prop :=
  Command.Valid l.inputs l.session.settings l.options

theorem endsBy (l : Launch) : EndsBy l.session l.moment l.inputs l.options l.outcome := by
  obtain ⟨root, configured⟩ := exists_configured l.session l.level
    l.session.settings.structuredLogs
  have ended : l.outcome = (encode (({ l.session with root := root } : Session).setCorrelation
      l.correlation) l.moment l.inputs l.options).2 := by
    rw [outcome, run, l.accepted]
    simp only [configured]
  rw [ended]
  -- neither the log nor the correlation identifier changes the settings
  cases encode_endsBy (({ l.session with root := root } : Session).setCorrelation l.correlation)
    l.moment l.inputs l.options l.limit l.scalars with
  | invalid none ending stdout => exact .invalid none ending stdout
  | tooDeep valid exceeded ending stdout => exact .tooDeep valid exceeded ending stdout
  | printed valid kept ending printed scalar stdout =>
    exact .printed valid kept ending printed scalar stdout

/-- How a launch ends: with 2 exactly if its inputs are not valid, with 1 exactly if they are but
the policy is nested deeper than the settings allow, and normally in all other cases. Then the
document or its fingerprint is printed on standard output, and otherwise nothing is. -/
structure Settled (l : Launch) : Prop where
  ends : l.outcome.ending = .exit 0 ∨ l.outcome.ending = .exit 1 ∨ l.outcome.ending = .exit 2
  invalid : l.outcome.ending = .exit 2 ↔ ∀ p names, ¬ l.Valid p names
  tooDeep : l.outcome.ending = .exit 1 ↔
    ∃ p names, l.Valid p names ∧ l.session.settings.maxDepth < p.nesting
  printed : ∀ p names, l.Valid p names → (p.nesting : Int) ≤ l.session.settings.maxDepth →
    l.outcome.ending = .exit 0 ∧
      ∃ t, Command.printed l.options (p.namedDocument l.moment.id names) = .ok t ∧
        l.outcome.stdout = t ++ [0x0A] ∧ (l.moment.id.isScalar = true → t.isScalar = true)
  silent : l.outcome.ending ≠ .exit 0 → l.outcome.stdout = []

/-- Both launches print a fingerprint, of one policy whose participants have the same names. -/
structure Agrees (l l' : Launch) : Prop where
  fingerprint : l.options.fingerprint = true
  fingerprint' : l'.options.fingerprint = true
  ending : l.outcome.ending = .exit 0
  ending' : l'.outcome.ending = .exit 0
  policy : ∃ p names names', l.Valid p names ∧ l'.Valid p names' ∧
    p.assignee.bind names = p.assignee.bind names' ∧ p.assigner.bind names = p.assigner.bind names'

theorem settled (l : Launch) : l.Settled := by
  cases l.endsBy with
  | invalid none ending stdout =>
    refine ⟨.inr (.inr ending), ⟨fun _ => none, fun _ => ending⟩, ⟨fun failed => ?_, ?_⟩, ?_,
      fun _ => stdout⟩
    · cases ending.symm.trans failed
    · rintro ⟨p, names, valid, -⟩
      exact absurd valid (none p names)
    · exact fun p names valid => absurd valid (none p names)
  | @tooDeep p names valid exceeded ending stdout =>
    refine ⟨.inr (.inl ending), ⟨fun failed => ?_, fun none => absurd valid (none p names)⟩,
      ⟨fun _ => ⟨p, names, valid, exceeded⟩, fun _ => ending⟩, ?_, fun _ => stdout⟩
    · cases ending.symm.trans failed
    · intro q names' valid' kept
      obtain ⟨rfl, -⟩ := Command.Valid.unique valid valid'
      exact absurd kept (Int.not_le.mpr exceeded)
  | @printed p names t valid kept ending ht scalar stdout =>
    refine ⟨.inl ending, ⟨fun failed => ?_, fun none => absurd valid (none p names)⟩,
      ⟨fun failed => ?_, ?_⟩, ?_, fun failed => absurd ending failed⟩
    · cases ending.symm.trans failed
    · cases ending.symm.trans failed
    · rintro ⟨q, names', valid', exceeded⟩
      obtain ⟨rfl, -⟩ := Command.Valid.unique valid valid'
      exact absurd kept (Int.not_le.mpr exceeded)
    · intro q names' valid' _
      obtain ⟨rfl, rfl⟩ := Command.Valid.unique valid valid'
      exact ⟨ending, t, ht, stdout, scalar⟩

theorem Agrees.stdout (h : l.Agrees l') : l.outcome.stdout = l'.outcome.stdout := by
  obtain ⟨p, names, names', valid, valid', assignee, assigner⟩ := h.policy
  have kept : ∀ {k : Launch} {names}, k.Valid p names → k.outcome.ending = .exit 0 →
      (p.nesting : Int) ≤ k.session.settings.maxDepth := by
    intro k names valid ending
    refine Int.not_lt.mp fun exceeded => ?_
    cases ending.symm.trans (k.settled.tooDeep.mpr ⟨p, names, valid, exceeded⟩)
  obtain ⟨-, t, ht, stdout, -⟩ := l.settled.printed p names valid (kept valid h.ending)
  obtain ⟨-, t', ht', stdout', -⟩ := l'.settled.printed p names' valid' (kept valid' h.ending')
  rw [printed_fingerprint h.fingerprint h.fingerprint' _ l'.moment.id assignee assigner] at ht
  obtain rfl := Except.ok.inj (ht.symm.trans ht')
  rw [stdout, stdout']

/-- The ending of a launch is settled by its inputs and the nesting of its policy, and so is a
fingerprint that it prints by the policy and the names of its participants. -/
theorem settled_by_inputs (l : Launch) :
    l.Settled ∧ ∀ l' : Launch, l.Agrees l' → l.outcome.stdout = l'.outcome.stdout :=
  ⟨l.settled, fun _ agrees => agrees.stdout⟩

end Launch

/-! ## Two launches -/

/-- An offer of anything to a partner. -/
def openOffer : Text :=
  "\x7b\x22type\x22:\x22OFFER\x22,\x22permissions\x22:[\x7b\x7d]," ++
    "\x22assignee\x22:\x22partner\x22\x7d"

/-- The policy of the offer. -/
def openOfferPolicy : Policy :=
  ⟨.offer, [⟨⟨none, []⟩, []⟩], [], [], some "partner", none, none⟩

theorem policyOfText_openOffer : Payload.policyOfText openOffer = .ok openOfferPolicy := by cbv

/-- The text of a map that names the partner. -/
def partnerMap : Text := "\x7b\x22partner\x22:\x22did:p\x22\x7d"

/-- Two files, one with the offer and one with the map. -/
def offerFiles (n : FileName) : Except ReadFlaw Text :=
  if n = .ofText "offer.json" then .ok openOffer
  else if n = .ofText "map.json" then .ok partnerMap
  else .error (.missing n.text)

/-- A moment in which the document gets an identifier. -/
def momentOf (id : Text) : Moment := ⟨id, .zero false, .zero false, .none⟩

/-- The offer comes from standard input and the name of the partner from the settings, which allow
as much nesting as the offer has. -/
def launchBySettings : Launch where
  session := { Session.start with
    settings := { Settings.default with maxDepth := 1, participants := [("partner", "did:p")] } }
  moment := momentOf "one"
  correlation := "a"
  inputs := ⟨.ok openOffer, fun n => .error (.missing n.text)⟩
  arguments := ["-", "--fingerprint"]
  options := ⟨"-", none, false, false, true, none⟩
  accepted := by cbv
  level := by cbv
  limit := by decide
  scalars := List.forall_mem_singleton.mpr rfl

/-- The offer and a map that names the partner alike come from files; more nesting is allowed, and
the level for the log stands for nothing. -/
def launchByMap : Launch where
  session := Session.start
  moment := momentOf "two"
  correlation := "b"
  inputs := ⟨.ok [], offerFiles⟩
  arguments := ["offer.json", "--participant-map", "map.json", "--fingerprint", "--log-level=loud"]
  options := ⟨"offer.json", some "map.json", false, false, true, some "loud"⟩
  accepted := by cbv
  level := by cbv
  limit := by decide
  scalars := nofun

theorem launchBySettings_valid : launchBySettings.Valid openOfferPolicy
    fun p => [(("partner" : Text), ("did:p" : Text))].lookup p :=
  ⟨⟨openOffer, rfl, policyOfText_openOffer⟩, .settings rfl nofun⟩

theorem launchByMap_valid : launchByMap.Valid openOfferPolicy
    fun p => [(("partner" : Text), ("did:p" : Text))].lookup p := by
  have offer : policyText launchByMap.inputs "offer.json" = .ok openOffer := by
    rw [policyText, if_neg (by decide)]
    change offerFiles (.ofText "offer.json") = .ok openOffer
    rw [offerFiles, if_pos rfl]
  have map : offerFiles (.ofText "map.json") = .ok partnerMap := by
    rw [offerFiles, if_neg (by decide), if_pos rfl]
  have entries : ParticipantMap.ofText partnerMap = .ok [("partner", "did:p")] := by cbv
  have nonempty : ("map.json" : Text) ≠ [] := by decide
  exact ⟨⟨openOffer, offer, policyOfText_openOffer⟩, .file rfl rfl nonempty map entries⟩

/-- Both launches print, and the same fingerprint, though their documents have other identifiers. -/
theorem launches_print_one_fingerprint :
    launchBySettings.outcome.ending = .exit 0 ∧ launchByMap.outcome.ending = .exit 0 ∧
      launchBySettings.outcome.stdout = launchByMap.outcome.stdout := by
  have first := launchBySettings.settled_by_inputs
  have second := launchByMap.settled_by_inputs
  obtain ⟨ending, -⟩ := first.1.printed _ _ launchBySettings_valid (by decide)
  obtain ⟨ending', -⟩ := second.1.printed _ _ launchByMap_valid (by decide)
  exact ⟨ending, ending', first.2 _ ⟨rfl, rfl, ending, ending', _, _, _, launchBySettings_valid,
    launchByMap_valid, rfl, rfl⟩⟩

end Command

end UsagePolicy
