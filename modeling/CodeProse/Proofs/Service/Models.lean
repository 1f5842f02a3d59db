import CodeProse.Json.Writer
import CodeProse.Proofs.Json.Faults
import CodeProse.Proofs.Sequence
import CodeProse.Proofs.Text.Encoding
import CodeProse.Proofs.Text.Search
import CodeProse.Service.Endpoint

/-!
# The models that a service lists

Behind most answers of the network there is a list of models: those that a body names, in order, or
the usual ones. Only a body that is no text, one that the reader gives up on, and an answer that
breaks the rules of the protocol surface as failures.
-/

set_option autoImplicit false

namespace CodeProse

namespace CodePoint

instance : Std.IsLinearOrder CodePoint where
  le_refl char := Nat.le_refl char.toNat
  le_trans _ _ _ := Nat.le_trans
  le_antisymm _ _ first second := toNat_injective (Nat.le_antisymm first second)
  le_total left right := Nat.le_total left.toNat right.toNat

instance : Std.LawfulOrderLT CodePoint where
  lt_iff _ _ := Nat.lt_iff_le_and_not_ge

end CodePoint

/-- An item of a list names a model: an object whose id is a text with `gpt` in it. -/
inductive NamesModel : Json → Text → Prop where
  | intro {members : List (Text × Json)} {id : Text}
      (named : (Json.object members).field "id" = .string id) (family : "gpt".toText <:+: id) :
      NamesModel (.object members) id

/-- The ids of the models that a body names, of which there is one at least. -/
inductive NamesModels (nesting : Nat) (body : List UInt8) (ids : List Text) : Prop where
  | intro {text : Text} {members : List (Text × Json)} {items : List Json}
      (decoded : Text.ofUtf8 body = .ok text)
      (read : Json.read nesting text = .ok (.object members))
      (listed : (Json.object members).field "data" = .array items)
      (picks : Picks NamesModel items ids) (some : ids ≠ [])

/-- The models of an answer: those that its body names, in order, and else the usual ones. -/
inductive HttpReply.Offers (nesting : Nat) : HttpReply → List Text → Prop where
  | named {body : List UInt8} {ids models : List Text} (names : NamesModels nesting body ids)
      (same : models.Perm ids) (ordered : models.Pairwise fun first second => ¬ second < first) :
      Offers nesting (.answered body) models
  | usual {reply : HttpReply}
      (unnamed : ∀ body, reply = .answered body → ∀ ids, ¬ NamesModels nesting body ids) :
      Offers nesting reply usualModels

/-- A body that no value can be read from, well-formed or not, with the fault. -/
inductive Defeats (nesting : Nat) (body : List UInt8) : Fault → Prop where
  | undecodable {fault : Utf8Fault} (bad : Text.ofUtf8 body = .error fault) :
      Defeats nesting body (.undecodable fault.toDecodeFault)
  | unreadable {text : Text} {error : Json.ReadError} {fault : Fault}
      (decoded : Text.ofUtf8 body = .ok text) (read : Json.read nesting text = .error error)
      (gaveUp : Fault.ofReadError? error = some fault) : Defeats nesting body fault

/-- An answer that no list of models stands behind, with the failure that surfaces instead. -/
inductive HttpReply.Foils (nesting : Nat) : HttpReply → Failure → Prop where
  | body {body : List UInt8} {fault : Fault} (defeats : Defeats nesting body fault) :
      Foils nesting (.answered body) (.fault fault)
  | broken (name message : Text) : Foils nesting (.broken name message) (.foreign name message)

section Bodies

variable {nesting : Nat} {body : List UInt8} {fault : Fault}

theorem payloadOf_eq_error_iff :
    payloadOf nesting body = .error fault ↔ Defeats nesting body fault := by
  constructor
  · fun_cases payloadOf nesting body with
    | case1 bad undecodable =>
        rintro ⟨⟩
        exact .undecodable undecodable
    | case2 => exact fun failed => nomatch failed
    | case3 text decoded error read =>
        cases gaveUp : Fault.ofReadError? error with
        | none => exact fun failed => nomatch failed
        | some own =>
            rintro ⟨⟩
            exact .unreadable decoded read gaveUp
  · intro defeats
    cases defeats with
    | undecodable bad => simp only [payloadOf, bad]
    | unreadable decoded read gaveUp => simp only [payloadOf, decoded, read, gaveUp, Option.elim_some]

theorem payloadOf_eq_some_iff {payload : Json} :
    payloadOf nesting body = .ok (some payload) ↔
      ∃ text, Text.ofUtf8 body = .ok text ∧ Json.read nesting text = .ok payload := by
  constructor
  · fun_cases payloadOf nesting body with
    | case1 => exact fun failed => nomatch failed
    | case2 text decoded own read =>
        rintro ⟨⟩
        exact ⟨text, decoded, read⟩
    | case3 text decoded error read =>
        cases Fault.ofReadError? error with
        | none => exact fun none => nomatch none
        | some own => exact fun failed => nomatch failed
  · rintro ⟨text, decoded, read⟩
    simp only [payloadOf, decoded, read]

/-- What defeats a body is no UTF-8, or has more digits or more brackets than are read. -/
theorem Defeats.explains (defeats : Defeats nesting body fault) :
    (∀ text : Text, text.toUtf8? ≠ some body) ∨
    ∃ text error, Text.ofUtf8 body = .ok text ∧ error ≠ .malformed ∧
      Json.Explains nesting text error := by
  cases defeats with
  | undecodable bad =>
      refine .inl fun text same => ?_
      rw [Text.ofUtf8_of_toUtf8? same] at bad
      cases bad
  | unreadable decoded read gaveUp =>
      refine .inr ⟨_, _, decoded, ?_, Json.explains_of_read read⟩
      rintro rfl
      cases gaveUp

theorem exists_object_of_field {value held : Json} {name : Text} (field : value.field name = held)
    (filled : held ≠ .null) : ∃ members, value = .object members := by
  cases value with
  | object members => exact ⟨members, rfl⟩
  | _ => exact absurd field.symm filled

theorem modelId?_eq_some_iff (item : Json) (id : Text) :
    modelId? item = some id ↔ NamesModel item id := by
  constructor
  · fun_cases modelId? item with
    | case1 own named family =>
        rintro ⟨⟩
        obtain ⟨members, rfl⟩ := exists_object_of_field named nofun
        exact .intro named (Text.contains_iff_isInfix.mp family)
    | case2 => exact fun none => nomatch none
    | case3 => exact fun none => nomatch none
  · intro names
    cases names with
    | intro named family =>
        simp only [modelId?, named, Text.contains_iff_isInfix.mpr family, if_true]

theorem NamesModel.unique {item : Json} {id other : Text} (first : NamesModel item id)
    (second : NamesModel item other) : id = other :=
  Option.some.inj (((modelId?_eq_some_iff item id).mpr first).symm.trans
    ((modelId?_eq_some_iff item other).mpr second))

theorem namesModels_iff {ids : List Text} :
    NamesModels nesting body ids ↔ ∃ payload items, payloadOf nesting body = .ok (some payload) ∧
      payload.field "data" = .array items ∧ Picks NamesModel items ids ∧ ids ≠ [] := by
  constructor
  · rintro ⟨decoded, read, listed, picks, some⟩
    exact ⟨_, _, payloadOf_eq_some_iff.mpr ⟨_, decoded, read⟩, listed, picks, some⟩
  · rintro ⟨payload, items, known, listed, picks, some⟩
    obtain ⟨text, decoded, read⟩ := payloadOf_eq_some_iff.mp known
    obtain ⟨members, rfl⟩ := exists_object_of_field listed nofun
    exact .intro decoded read listed picks some

theorem sorted_ids (ids : List Text) :
    (stableSort (fun left right => !(right < left)) ids).Pairwise
      fun first second => ¬ second < first := by
  have sorted : (stableSort (fun left right : Text => !(right < left)) ids).Pairwise
      fun left right => (!decide (right < left)) = true := by
    refine pairwise_stableSort ?_ ?_
    · intro first second third
      simp only [Bool.not_eq_true', decide_eq_false_iff_not]
      exact @List.le_trans CodePoint _ _ _ _ first second third
    · intro left _ right _
      simp only [Bool.not_eq_true', decide_eq_false_iff_not]
      exact @List.le_total CodePoint _ _ left right
  simpa only [Bool.not_eq_true', decide_eq_false_iff_not] using sorted

theorem offers_usualModels (unnamed : ∀ ids, ¬ NamesModels nesting body ids) :
    (HttpReply.answered body).Offers nesting usualModels := by
  refine .usual fun other same => ?_
  cases same
  exact unnamed

theorem offers_of_payloadOf {payload? : Option Json} (known : payloadOf nesting body = .ok payload?) :
    (HttpReply.answered body).Offers nesting ((payload?.map modelsOf).getD usualModels) := by
  cases payload? with
  | none =>
      refine offers_usualModels fun ids names => ?_
      obtain ⟨payload, _, read, -⟩ := namesModels_iff.mp names
      rw [known] at read
      cases read
  | some payload =>
      rw [Option.map_some, Option.getD_some]
      fun_cases modelsOf payload with
      | case1 items listed sorted empty =>
          rw [(stableSort_perm _ _).isEmpty_eq, List.isEmpty_iff] at empty
          refine offers_usualModels fun ids names => ?_
          obtain ⟨_, _, read, also, picks, some⟩ := namesModels_iff.mp names
          rw [known] at read
          cases read
          rw [listed] at also
          cases also
          exact some ((picks.unique (fun _ _ _ first second => first.unique second)
            (picks_filterMap modelId?_eq_some_iff items)).trans empty)
      | case2 items listed sorted some =>
          rw [(stableSort_perm _ _).isEmpty_eq, List.isEmpty_iff] at some
          refine .named ?_ (stableSort_perm _ _) (sorted_ids _)
          exact namesModels_iff.mpr ⟨payload, items, known, listed,
            picks_filterMap modelId?_eq_some_iff items, some⟩
      | case3 other =>
          refine offers_usualModels fun ids names => ?_
          obtain ⟨own, items, read, listed, -⟩ := namesModels_iff.mp names
          rw [known] at read
          cases read
          exact other items listed

end Bodies

section Listing

variable {σ : Type} {nesting : Nat} {endpoint : Endpoint} {call : HttpCall} {reply : HttpReply}

theorem modelsOfReply_eq_error_iff {failure : Failure} :
    modelsOfReply nesting reply = .error failure ↔ reply.Foils nesting failure := by
  constructor
  · fun_cases modelsOfReply nesting reply with
    | case1 body fault defeated =>
        rintro ⟨⟩
        exact .body (payloadOf_eq_error_iff.mp defeated)
    | case3 name message =>
        rintro ⟨⟩
        exact .broken name message
    | case2 | case4 => exact fun failed => nomatch failed
  · intro foils
    cases foils with
    | body defeats => simp only [modelsOfReply, payloadOf_eq_error_iff.mpr defeats]
    | broken => rfl

theorem offers_of_modelsOfReply {models : List Text}
    (listed : modelsOfReply nesting reply = .ok models) : reply.Offers nesting models := by
  revert listed
  fun_cases modelsOfReply nesting reply with
  | case1 | case3 => exact fun failed => nomatch failed
  | case2 body payload? known =>
      rintro ⟨⟩
      exact offers_of_payloadOf known
  | case4 _ unanswered =>
      rintro ⟨⟩
      exact .usual fun body same => absurd same (unanswered body)

/-- **The list of models.** It fails exactly behind a body that is no text or that the reader gives up
on, and behind an answer that breaks the protocol. Otherwise it has the ids of the models that the
body names, in order, and the usual models where the body names none, is malformed, or does not
arrive. -/
theorem Endpoint.models_outcome (addressed : endpoint.call "GET" "/models" none = .ok call)
    (network : Network σ) (state : σ) :
    (∀ failure, (endpoint.models network state).1 = .error failure ↔
      (network.send state call).1.Foils endpoint.nesting failure) ∧
    (∀ models, (endpoint.models network state).1 = .ok models →
      (network.send state call).1.Offers endpoint.nesting models) ∧
    ∀ body fault, Defeats endpoint.nesting body fault →
      (∀ text : Text, text.toUtf8? ≠ some body) ∨
      ∃ text error, Text.ofUtf8 body = .ok text ∧ error ≠ .malformed ∧
        Json.Explains endpoint.nesting text error := by
  have result : (endpoint.models network state).1 =
      modelsOfReply endpoint.nesting (network.send state call).1 := by
    simp only [Endpoint.models, addressed]
  rw [result]
  exact ⟨fun _ => modelsOfReply_eq_error_iff, fun _ => offers_of_modelsOfReply,
    fun _ _ => Defeats.explains⟩

def Network.always (reply : HttpReply) : Network Unit where
  send state _ := (reply, state)

def keyedEndpoint : Endpoint :=
  .ofSettings [] { apiKey := some "secret" }

theorem exists_call_keyedEndpoint :
    ∃ call, keyedEndpoint.call "GET" "/models" none = .ok call := by
  have schemed : hasScheme (plainAddress (keyedEndpoint.baseUrl ++ "/models".toText)) = true := by
    decide +kernel
  rw [Endpoint.call]
  exact ⟨_, if_pos schemed⟩

def modelList : Text :=
  (Json.object [("data", .array [.object [("id", .string "gpt-4o")],
    .object [("id", .string "whisper-1")], .object [("id", .string "gpt-4")]])]).write .ascii

theorem Endpoint.models_outcome_modelList :
    ∃ body, modelList.toUtf8? = some body ∧
      (HttpReply.answered body).Offers keyedEndpoint.nesting ["gpt-4", "gpt-4o"] := by
  obtain ⟨call, addressed⟩ := exists_call_keyedEndpoint
  obtain ⟨body, encoded⟩ : ∃ body, modelList.toUtf8? = some body :=
    Option.isSome_iff_exists.mp (by decide +kernel)
  have ran : (modelList.toUtf8?.bind fun body =>
      (keyedEndpoint.models (.always (.answered body)) ()).1.toOption) =
        some ["gpt-4".toText, "gpt-4o".toText] := by decide +kernel
  have law := Endpoint.models_outcome addressed (.always (.answered body)) ()
  rw [encoded, Option.bind_some] at ran
  refine ⟨body, encoded, ?_⟩
  cases result : (keyedEndpoint.models (.always (.answered body)) ()).1 with
  | error failure =>
      rw [result] at ran
      cases ran
  | ok models =>
      rw [result] at ran
      cases ran
      exact law.2.1 _ result

/-- A body that is no text makes the list of models fail. -/
theorem Endpoint.not_forall_models_ok :
    ¬ ∀ (endpoint : Endpoint) (call : HttpCall) (network : Network Unit),
      endpoint.call "GET" "/models" none = .ok call →
        ∃ models, (endpoint.models network ()).1 = .ok models := by
  intro lists
  obtain ⟨call, addressed⟩ := exists_call_keyedEndpoint
  obtain ⟨models, listed⟩ := lists keyedEndpoint call (.always (.answered [0xFF, 0])) addressed
  have failed : (keyedEndpoint.models (.always (.answered [0xFF, 0])) ()).1.toOption = none := by
    decide +kernel
  rw [listed] at failed
  cases failed

end Listing

end CodeProse
