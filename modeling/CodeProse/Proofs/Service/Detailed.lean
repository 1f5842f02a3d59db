import CodeProse.Json.Writer
import CodeProse.Proofs.Json.Faults
import CodeProse.Proofs.Numeric.Limit
import CodeProse.Proofs.Service.Settling
import CodeProse.Service.Detailed

/-!
# What a detailed call makes of a response

Whatever shape a response has, a correction comes of it, unless the reader gives up on the response
or it names a whole number beyond the format as its confidence. These two surface as failures.
-/

set_option autoImplicit false

namespace CodeProse

variable {σ : Type}

/-- The flight of the one job of a detailed call, which shares nothing with those in flight. -/
def Client.detailedFlight (client : Client σ) (call : Call) (session : Session σ) : Flight σ :=
  client.policy.fly client.service client.schedule [client.detailedJob call]
    { session with inFlight := [] }

/-- The retries of a detailed call end with a response. -/
def Client.HandsOver (client : Client σ) (call : Call) (session : Session σ) (response : Text) :
    Prop :=
  outcomeOf (client.detailedFlight call session).settled call.key = .ok response

/-- A response from which no correction can be computed, with the fault. -/
inductive Overtaxes (nesting : Nat) (response : Text) : Fault → Prop where
  | reading {error : Json.ReadError} {fault : Fault}
      (read : Json.read nesting response = .error error)
      (gaveUp : Fault.ofReadError? error = some fault) : Overtaxes nesting response fault
  | confidence {members : List (Text × Json)} {value : Int}
      (read : Json.read nesting response = .ok (.object members))
      (named : (Json.object members).field "confidence" = .int value)
      (beyond : Binary64.limit ≤ value.natAbs) : Overtaxes nesting response .integerTooLarge

/-- An object that names no corrected text, or an empty one. -/
def NamesNoText (nesting : Nat) (response : Text) : Prop :=
  ∃ members, Json.read nesting response = .ok (.object members) ∧
    ∀ text, (Json.object members).field "correctedText" = .string text → text = []

/-- What a detailed correction of a draft is, by the response that it comes of. -/
structure DetailedCorrection.IsOf (nesting : Nat) (model draft response : Text)
    (correction : DetailedCorrection) : Prop where
  draft_eq : correction.draft = draft
  confidence : correction.confidence.IsShare
  text_eq_nil_iff : correction.text = [] ↔ draft = [] ∧ NamesNoText nesting response
  plain : (∀ members, Json.read nesting response ≠ .ok (.object members)) →
    correction = .ofPlain model draft response

section Response

variable {nesting : Nat} {model draft response : Text}

theorem isShare_usualConfidence : usualConfidence.IsShare :=
  ⟨by decide +kernel, by decide +kernel⟩

theorem isShare_plainConfidence : plainConfidence.IsShare :=
  ⟨by decide +kernel, by decide +kernel⟩

/-- The confidence that a value stands for is a share, but for a whole number beyond the format. -/
theorem confidenceOfJson_cases (value : Json) :
    (∃ confidence, confidenceOfJson value = .ok confidence ∧ confidence.IsShare ∧
      ∀ number, value = .int number → number.natAbs < Binary64.limit) ∨
    ∃ number, value = .int number ∧ Binary64.limit ≤ number.natAbs ∧
      confidenceOfJson value = .error .integerTooLarge := by
  cases value with
  | int number =>
      cases known : Binary64.ofInt? number with
      | some confidence =>
          refine .inl ⟨confidence.clampUnit, ?_, confidence.isShare_clampUnit, ?_⟩
          · rw [confidenceOfJson, known, Option.elim_some]
          · intro other same
            cases same
            rw [← Nat.not_le, ← Binary64.ofInt?_eq_none_iff, known]
            exact Option.some_ne_none confidence
      | none =>
          refine .inr ⟨number, rfl, (Binary64.ofInt?_eq_none_iff number).mp known, ?_⟩
          rw [confidenceOfJson, known, Option.elim_none]
  | float number => exact .inl ⟨_, rfl, number.isShare_clampUnit, fun _ same => nomatch same⟩
  | null => exact .inl ⟨_, rfl, isShare_usualConfidence, fun _ same => nomatch same⟩
  | bool flag => exact .inl ⟨_, rfl, isShare_usualConfidence, fun _ same => nomatch same⟩
  | string text => exact .inl ⟨_, rfl, isShare_usualConfidence, fun _ same => nomatch same⟩
  | array items => exact .inl ⟨_, rfl, isShare_usualConfidence, fun _ same => nomatch same⟩
  | object members => exact .inl ⟨_, rfl, isShare_usualConfidence, fun _ same => nomatch same⟩

theorem correctedOfJson_eq_nil_iff {value : Json} :
    correctedOfJson draft value = [] ↔ draft = [] ∧ ∀ text, value = .string text → text = [] := by
  cases value with
  | string text =>
      cases text with
      | nil => simp [correctedOfJson]
      | cons first rest => simp [correctedOfJson]
  | null => simp [correctedOfJson]
  | bool flag => simp [correctedOfJson]
  | int number => simp [correctedOfJson]
  | float number => simp [correctedOfJson]
  | array items => simp [correctedOfJson]
  | object members => simp [correctedOfJson]

theorem ofPlain_isOf (model draft : Text) (written : response ≠ [])
    (other : ∀ members, Json.read nesting response ≠ .ok (.object members)) :
    (DetailedCorrection.ofPlain model draft response).IsOf nesting model draft response := by
  refine ⟨rfl, ?_, ?_, fun _ => rfl⟩
  · simp only [DetailedCorrection.ofPlain]
    exact isShare_plainConfidence
  · constructor
    · intro none
      exact absurd none written
    · rintro ⟨-, members, read, -⟩
      exact absurd read (other members)

theorem ofMembers_cases {members : List (Text × Json)}
    (read : Json.read nesting response = .ok (.object members)) :
    (∃ correction, DetailedCorrection.ofMembers model draft members = .ok correction ∧
      correction.IsOf nesting model draft response ∧ ∀ fault, ¬ Overtaxes nesting response fault) ∨
    DetailedCorrection.ofMembers model draft members = .error .integerTooLarge ∧
      ∀ fault, Overtaxes nesting response fault ↔ fault = .integerTooLarge := by
  have overtaxes : ∀ fault, Overtaxes nesting response fault → fault = .integerTooLarge ∧
      ∃ value, (Json.object members).field "confidence" = .int value ∧
        Binary64.limit ≤ value.natAbs := by
    intro fault overtaxes
    cases overtaxes with
    | reading failed gaveUp =>
        rw [read] at failed
        cases failed
    | @confidence others value known named beyond =>
        rw [read] at known
        cases known
        exact ⟨rfl, value, named, beyond⟩
  rw [DetailedCorrection.ofMembers]
  rcases confidenceOfJson_cases ((Json.object members).field "confidence") with
    ⟨confidence, known, share, within⟩ | ⟨value, named, beyond, failed⟩
  · rw [known]
    refine .inl ⟨_, rfl, ⟨rfl, share, ?_, ?_⟩, ?_⟩
    · exact correctedOfJson_eq_nil_iff.trans
        (and_congr_right fun _ => ⟨fun none => ⟨members, read, none⟩, by
          rintro ⟨others, known, none⟩
          rw [read] at known
          cases known
          exact none⟩)
    · intro other
      exact absurd read (other members)
    · intro fault overtaxed
      obtain ⟨-, value, named, beyond⟩ := overtaxes fault overtaxed
      exact absurd beyond (Nat.not_le.mpr (within value named))
  · rw [failed]
    refine .inr ⟨rfl, fun fault => ⟨fun overtaxed => (overtaxes fault overtaxed).1, ?_⟩⟩
    rintro rfl
    exact .confidence read named beyond

theorem overtaxes_iff_of_forall_ne
    (other : ∀ members, Json.read nesting response ≠ .ok (.object members)) (fault : Fault) : Overtaxes nesting response fault ↔
      ∃ error, Json.read nesting response = .error error ∧ Fault.ofReadError? error = some fault := by
  constructor
  · intro overtaxes
    cases overtaxes with
    | reading read gaveUp => exact ⟨_, read, gaveUp⟩
    | confidence read named beyond => exact absurd read (other _)
  · rintro ⟨error, read, gaveUp⟩
    exact .reading read gaveUp

/-- A correction comes of a response, or the response overtaxes. -/
theorem ofResponse_cases (nesting : Nat) (model draft : Text) (written : response ≠ []) :
    (∃ correction, DetailedCorrection.ofResponse nesting model draft response = .ok correction ∧
      correction.IsOf nesting model draft response ∧ ∀ fault, ¬ Overtaxes nesting response fault) ∨
    ∃ fault, DetailedCorrection.ofResponse nesting model draft response = .error fault ∧
      ∀ other, Overtaxes nesting response other ↔ other = fault := by
  by_cases named : ∃ members, Json.read nesting response = .ok (.object members)
  · obtain ⟨members, read⟩ := named
    rw [DetailedCorrection.ofResponse, read]
    exact (ofMembers_cases read).imp_right fun failed => ⟨_, failed⟩
  · have other : ∀ members, Json.read nesting response ≠ .ok (.object members) :=
      fun members read => named ⟨members, read⟩
    simp only [overtaxes_iff_of_forall_ne other]
    have plain := ofPlain_isOf model draft written other
    unfold DetailedCorrection.ofResponse
    split
    · next members read => exact absurd read (other members)
    · next value _ read =>
        refine .inl ⟨_, rfl, plain, ?_⟩
        simp [read]
    · next error read =>
        cases gaveUp : Fault.ofReadError? error with
        | none =>
            refine .inl ⟨_, rfl, plain, ?_⟩
            simp [read, gaveUp]
        | some fault =>
            refine .inr ⟨fault, rfl, fun next => ?_⟩
            simp [read, gaveUp, eq_comm]

end Response

namespace Client

variable {client : Client σ} {call : Call} {session : Session σ} {response : Text}

/-- What a detailed call makes of the outcome of its attempts. -/
def detailedOf (client : Client σ) (call : Call) (outcome : Except Failure Text) :
    Except Failure DetailedCorrection :=
  outcome.bind fun response =>
    (DetailedCorrection.ofResponse client.nesting client.model call.text response).mapError
      Failure.fault

theorem correctDetailed_eq (client : Client σ) (call : Call) (session : Session σ) :
    client.correctDetailed call session =
      (client.detailedOf call (outcomeOf (client.detailedFlight call session).settled call.key),
        { (client.detailedFlight call session).session with inFlight := session.inFlight }) := by
  rw [correctDetailed, detailedFlight]
  generalize client.policy.fly client.service client.schedule [client.detailedJob call]
    { session with inFlight := [] } = flight
  dsimp only
  cases outcomeOf flight.settled call.key with
  | error failure => rfl
  | ok response => rfl

theorem inFlight_correctDetailed (client : Client σ) (call : Call) (session : Session σ) :
    (client.correctDetailed call session).2.inFlight = session.inFlight := by
  rw [client.correctDetailed_eq]

/-- The first response is handed over where it has text. -/
theorem handsOver_of_reply (asked : 0 < client.policy.attempts)
    (reply : (client.service.reply session.service (client.detailedJob call).request).1 =
      .ok (some response))
    (written : response.isBlank = false) : client.HandsOver call session response := by
  have decided := fly_decided client.policy client.service client.schedule
    (client.detailedJob call) { session with inFlight := [] } asked
    (judge_eq_ok_iff.mp (judge_eq_ok_ok_iff.mpr ⟨reply, written⟩))
  rw [HandsOver, detailedFlight, decided]
  exact outcomeOf_singleton call.key _

theorem HandsOver.ne_nil (handed : client.HandsOver call session response) : response ≠ [] := by
  obtain ⟨entry, member, -, answer⟩ := exists_of_outcomeOf_eq_ok handed
  obtain ⟨job, -, -, outcome⟩ := (fly_settledOf _ _ _ _ _).outcome entry member
  rw [answer] at outcome
  obtain ⟨-, state, -, written⟩ := outcome.answers
  rintro rfl
  cases written

theorem HandsOver.correctDetailed_eq (handed : client.HandsOver call session response) :
    (client.correctDetailed call session).1 =
      (DetailedCorrection.ofResponse client.nesting client.model call.text response).mapError
        Failure.fault := by
  rw [HandsOver] at handed
  rw [client.correctDetailed_eq, handed]
  rfl

/-- A detailed call fails behind a response exactly if that overtaxes, for which the response then
is too long, nested too deep or too sure of itself. Otherwise a correction comes of it with a
confidence from zero to one, without text only if neither the draft nor the response names one, and
with the response itself as its text where that is no object. -/
theorem correctDetailed_of_handsOver (handed : client.HandsOver call session response) :
    (∀ failure, (client.correctDetailed call session).1 = .error failure ↔
      ∃ fault, Overtaxes client.nesting response fault ∧ failure = .fault fault) ∧
    (∀ error, Json.read client.nesting response = .error error →
      Json.Explains client.nesting response error) ∧
    ∀ correction, (client.correctDetailed call session).1 = .ok correction →
      correction.IsOf client.nesting client.model call.text response := by
  have result := handed.correctDetailed_eq
  refine ⟨fun failure => ?_, fun error => Json.explains_of_read, fun correction corrects => ?_⟩
  · rw [result]
    rcases ofResponse_cases client.nesting client.model call.text handed.ne_nil with
      ⟨correction, given, -, none⟩ | ⟨fault, given, overtaxes⟩
    · simp [given, none, Except.mapError]
    · simp [given, overtaxes, Except.mapError, eq_comm]
  · rw [result] at corrects
    rcases ofResponse_cases client.nesting client.model call.text handed.ne_nil with
      ⟨other, given, isOf, -⟩ | ⟨fault, given, -⟩
    · rw [given] at corrects
      cases corrects
      exact isOf
    · rw [given] at corrects
      cases corrects

/-- A client whose service always gives one response. -/
def replyingClient (response : Text) : Client Unit where
  service := .always response
  model := []

theorem handsOver_replyingClient {response : Text} (written : response.isBlank = false) (call : Call)
    (session : Session Unit) : (replyingClient response).HandsOver call session response :=
  handsOver_of_reply (by show (0 : Int) < 3; decide) rfl written

def sureResponse (confidence : Int) : Text :=
  (Json.object [("correctedText", .string "The cat"), ("confidence", .int confidence)]).write .ascii

theorem correctDetailed_of_handsOver_sureResponse :
    ∃ correction,
      ((replyingClient (sureResponse 7)).correctDetailed ⟨"Teh cat", {}⟩ { service := () }).1 =
        .ok correction ∧ correction.IsOf Json.usualNesting [] "Teh cat" (sureResponse 7) ∧
          correction.text ≠ [] := by
  have law := correctDetailed_of_handsOver (handsOver_replyingClient
    (by decide : (sureResponse 7).isBlank = false) ⟨"Teh cat", {}⟩ { service := () })
  have ran : ((replyingClient (sureResponse 7)).correctDetailed ⟨"Teh cat", {}⟩
      { service := () }).1.toOption.isSome := by decide +kernel
  cases corrects : ((replyingClient (sureResponse 7)).correctDetailed ⟨"Teh cat", {}⟩
      { service := () }).1 with
  | error failure =>
      rw [corrects] at ran
      cases ran
  | ok correction =>
      have isOf := law.2.2 correction corrects
      refine ⟨correction, rfl, isOf, fun none => ?_⟩
      have empty := (isOf.text_eq_nil_iff.mp none).1
      cases empty

/-- A service that is surer than a number of the format can tell makes a detailed call fail. -/
theorem not_forall_correctDetailed_ok :
    ¬ ∀ (client : Client Unit) (call : Call) (session : Session Unit) (response : Text),
      client.HandsOver call session response →
        ∃ correction, (client.correctDetailed call session).1 = .ok correction := by
  intro corrects
  have written : (sureResponse (10 ^ 309)).isBlank = false := by decide +kernel
  obtain ⟨correction, given⟩ := corrects (replyingClient (sureResponse (10 ^ 309)))
    ⟨"Teh cat", {}⟩ { service := () } _ (handsOver_replyingClient written _ _)
  have failed : ((replyingClient (sureResponse (10 ^ 309))).correctDetailed ⟨"Teh cat", {}⟩
      { service := () }).1.toOption = none := by decide +kernel
  rw [given] at failed
  cases failed

end Client

end CodeProse
