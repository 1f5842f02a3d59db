import CodeProse.Proofs.Settings.Values
import CodeProse.Settings.Load

/-!
# The settings that a file gives

Each setting has its place in the mapping that the file holds and is of one kind. The value at that
place decides on it alone: a value of use is taken, and for any other the usual setting stays. Only
the two limits of a length are looked at together, and no settings come of a least length above the
most.
-/

set_option autoImplicit false

namespace CodeProse

open Yaml (Value)

/-- What a setting is set to. -/
inductive Setting where
  | text (text? : Option Text)
  | whole (number : Int)
  | real (number : Binary64)
  | flag (flag : Bool)
  | texts (texts : List Text)

/-- The kinds of settings, by the values that are of use for them. -/
inductive SettingKind where
  | text
  | name
  | whole
  | count
  | real
  | duration
  | flag
  | texts

namespace SettingKind

/-- What a value of use stands for. A name is not empty, and counts and durations are positive. -/
inductive Accepts : SettingKind → Value → Setting → Prop where
  | text {value : Value} {text : Text} (stands : value.IsText text) :
      Accepts .text value (.text (some text))
  | name {value : Value} {text : Text} (stands : value.IsText text) (written : text ≠ []) :
      Accepts .name value (.text (some text))
  | whole {value : Value} {number : Int} (stands : value.IsWhole number) :
      Accepts .whole value (.whole number)
  | count {value : Value} {number : Int} (stands : value.IsWhole number) (positive : 0 < number) :
      Accepts .count value (.whole number)
  | real {value : Value} {number : Binary64} (stands : value.IsReal number) :
      Accepts .real value (.real number)
  | duration {value : Value} {number : Binary64} (stands : value.IsReal number)
      (positive : Binary64.less 0 number = true) : Accepts .duration value (.real number)
  | flag {value : Value} {flag : Bool} (stands : value.IsFlag flag) :
      Accepts .flag value (.flag flag)
  | texts {value : Value} {texts : List Text} (stands : value.IsTexts texts) :
      Accepts .texts value (.texts texts)

/-- What a setting is by the value at its place: the usual one where that is of no use. -/
inductive Takes (kind : SettingKind) (usual : Setting) : Option Value → Setting → Prop where
  | given {value : Value} {setting : Setting} (accepted : kind.Accepts value setting) :
      Takes kind usual (some value) setting
  | useless {value : Value} (refused : ∀ setting, ¬ kind.Accepts value setting) :
      Takes kind usual (some value) usual
  | missing : Takes kind usual none usual

variable {kind : SettingKind} {value : Value} {value? : Option Value}
  {usual setting other : Setting}

theorem Accepts.unique (first : kind.Accepts value setting) (second : kind.Accepts value other) :
    setting = other := by
  cases first with
  | text stands => cases second with | text also => rw [stands.unique also]
  | name stands => cases second with | name also => rw [stands.unique also]
  | whole stands => cases second with | whole also => rw [stands.unique also]
  | count stands => cases second with | count also => rw [stands.unique also]
  | real stands => cases second with | real also => rw [stands.unique also]
  | duration stands => cases second with | duration also => rw [stands.unique also]
  | flag stands => cases second with | flag also => rw [stands.unique also]
  | texts stands => cases second with | texts also => rw [stands.unique also]

theorem Takes.unique (first : kind.Takes usual value? setting)
    (second : kind.Takes usual value? other) : setting = other := by
  cases first with
  | given accepted =>
      cases second with
      | given also => exact accepted.unique also
      | useless refused => exact absurd accepted (refused _)
  | useless refused =>
      cases second with
      | given accepted => exact absurd accepted (refused _)
      | useless => rfl
  | missing =>
      cases second
      rfl

theorem Takes.eq_usual (takes : kind.Takes usual value? setting) (missing : value? = none) :
    setting = usual := by
  cases takes with
  | missing => rfl
  | given | useless => cases missing

/-- Null is of use for a list of texts only, which is empty then. -/
theorem not_accepts_null (other : kind ≠ .texts) : ¬ kind.Accepts .null setting := by
  intro accepted
  cases accepted with
  | texts => exact other rfl
  | text stands | name stands => cases stands
  | whole stands | count stands => cases stands
  | real stands | duration stands => cases stands
  | flag stands => cases stands

section Reading

variable {α : Type} {found : Option α} {otherwise : α}

/-- A reader that finds what values of use stand for, with the usual setting for all others. -/
theorem takes_getD (wrap : α → Setting) (other : kind ≠ .texts) (reads : ∀ setting,
      (∃ item, found = some item ∧ wrap item = setting) ↔
        kind.Accepts (value?.getD .null) setting) :
    kind.Takes (wrap otherwise) value? (wrap (found.getD otherwise)) := by
  cases found with
  | some item =>
      have accepted := (reads (wrap item)).mp ⟨item, rfl, rfl⟩
      cases value? with
      | some value => exact .given accepted
      | none => exact absurd accepted (not_accepts_null other)
  | none =>
      cases value? with
      | none => exact .missing
      | some value =>
          refine .useless fun setting accepted => ?_
          obtain ⟨item, found, -⟩ := (reads setting).mpr accepted
          cases found

theorem takes_whole (otherwise : Int) (value? : Option Value) :
    Takes .whole (.whole otherwise) value? (.whole ((value?.getD .null).int?.getD otherwise)) := by
  refine takes_getD .whole nofun fun setting => ?_
  constructor
  · rintro ⟨number, found, rfl⟩
    exact .whole ((Value.int?_eq_some_iff number).mp found)
  · intro accepted
    cases accepted with
    | whole stands => exact ⟨_, (Value.int?_eq_some_iff _).mpr stands, rfl⟩

theorem takes_count (otherwise : Int) (value? : Option Value) :
    Takes .count (.whole otherwise) value?
      (.whole (positiveInt otherwise (value?.getD .null))) := by
  refine takes_getD .whole nofun fun setting => ?_
  constructor
  · rintro ⟨number, found, rfl⟩
    obtain ⟨found, positive⟩ := Option.filter_eq_some_iff.mp found
    exact .count ((Value.int?_eq_some_iff number).mp found) (of_decide_eq_true positive)
  · intro accepted
    cases accepted with
    | count stands positive =>
        exact ⟨_, Option.filter_eq_some_iff.mpr
          ⟨(Value.int?_eq_some_iff _).mpr stands, decide_eq_true positive⟩, rfl⟩

theorem takes_flag (otherwise : Bool) (value? : Option Value) :
    Takes .flag (.flag otherwise) value? (.flag ((value?.getD .null).bool?.getD otherwise)) := by
  refine takes_getD .flag nofun fun setting => ?_
  constructor
  · rintro ⟨flag, found, rfl⟩
    exact .flag ((Value.bool?_eq_some_iff flag).mp found)
  · intro accepted
    cases accepted with
    | flag stands => exact ⟨_, (Value.bool?_eq_some_iff _).mpr stands, rfl⟩

theorem takes_text {text? : Option Text} (read : (value?.getD .null).text? = .ok text?) :
    Takes .text (.text none) value? (.text text?) := by
  have reads := Value.text?_eq_some_iff read
  cases value? with
  | none =>
      cases read
      exact .missing
  | some value =>
      cases text? with
      | some text => exact .given (.text ((reads text).mp rfl))
      | none =>
          refine .useless fun setting accepted => ?_
          cases accepted with
          | text stands => exact nomatch (reads _).mpr stands

theorem takes_name {otherwise text : Text}
    (read : someText otherwise (value?.getD .null) = .ok text) :
    Takes .name (.text (some otherwise)) value? (.text (some text)) := by
  obtain ⟨text?, known, rfl⟩ := map_eq_ok_iff.mp read
  have reads := Value.text?_eq_some_iff known
  refine takes_getD (fun text => .text (some text)) nofun fun setting => ?_
  constructor
  · rintro ⟨text, found, rfl⟩
    obtain ⟨found, written⟩ := Option.filter_eq_some_iff.mp found
    exact .name ((reads text).mp found) (by simpa using written)
  · intro accepted
    cases accepted with
    | name stands written =>
        refine ⟨_, Option.filter_eq_some_iff.mpr ⟨(reads _).mpr stands, ?_⟩, rfl⟩
        simpa using written

theorem takes_real {otherwise : Binary64} {real? : Option Binary64}
    (read : (value?.getD .null).real? = .ok real?) :
    Takes .real (.real otherwise) value? (.real (real?.getD otherwise)) := by
  refine takes_getD .real nofun fun setting => ?_
  constructor
  · rintro ⟨number, found, rfl⟩
    exact .real ((Value.real?_eq_some_iff read number).mp found)
  · intro accepted
    cases accepted with
    | real stands => exact ⟨_, (Value.real?_eq_some_iff read _).mpr stands, rfl⟩

theorem takes_duration {otherwise number : Binary64}
    (read : positiveReal otherwise (value?.getD .null) = .ok number) :
    Takes .duration (.real otherwise) value? (.real number) := by
  obtain ⟨real?, known, rfl⟩ := map_eq_ok_iff.mp read
  refine takes_getD .real nofun fun setting => ?_
  constructor
  · rintro ⟨number, found, rfl⟩
    obtain ⟨found, positive⟩ := Option.filter_eq_some_iff.mp found
    exact .duration ((Value.real?_eq_some_iff known number).mp found) positive
  · intro accepted
    cases accepted with
    | duration stands positive =>
        exact ⟨_, Option.filter_eq_some_iff.mpr
          ⟨(Value.real?_eq_some_iff known _).mpr stands, positive⟩, rfl⟩

theorem takes_texts {otherwise texts : List Text}
    (read : (value?.map Value.texts).getD (.ok otherwise) = .ok texts) :
    Takes .texts (.texts otherwise) value? (.texts texts) := by
  cases value? with
  | none =>
      cases read
      exact .missing
  | some value => exact .given (.texts (Value.isTexts_of_texts read))

end Reading

theorem Takes.count_pos {usual number : Int} (positive : 0 < usual)
    (takes : Takes .count (.whole usual) value? (.whole number)) : 0 < number := by
  cases takes with
  | given accepted => cases accepted with | count _ positive => exact positive
  | useless | missing => exact positive

theorem Takes.duration_pos {usual number : Binary64} (positive : Binary64.less 0 usual = true)
    (takes : Takes .duration (.real usual) value? (.real number)) :
    Binary64.less 0 number = true := by
  cases takes with
  | given accepted => cases accepted with | duration _ positive => exact positive
  | useless | missing => exact positive

end SettingKind

namespace Settings

/-- The settings that a file may give. -/
inductive Field where
  | model
  | maxTokens
  | temperature
  | baseUrl
  | apiKey
  | requestTimeout
  | language
  | autoCorrect
  | ignorePatterns
  | customPrompt
  | style
  | maxSize
  | maxAge
  | extractionLanguage
  | minLength
  | maxLength
  | includeContext

namespace Field

/-- The section of the file that a setting stands in, if it stands in one, and its name there. -/
def place : Field → Option Text × Text
  | model => (some "llm", "model")
  | maxTokens => (some "llm", "max_tokens")
  | temperature => (some "llm", "temperature")
  | baseUrl => (some "llm", "base_url")
  | apiKey => (some "llm", "api_key")
  | requestTimeout => (some "llm", "request_timeout")
  | language => (none, "language")
  | autoCorrect => (none, "auto_correct")
  | ignorePatterns => (none, "ignore_patterns")
  | customPrompt => (none, "custom_prompt")
  | style => (none, "style")
  | maxSize => (some "cache", "max_size")
  | maxAge => (some "cache", "max_age")
  | extractionLanguage => (some "extraction", "language")
  | minLength => (some "extraction", "min_length")
  | maxLength => (some "extraction", "max_length")
  | includeContext => (some "extraction", "include_context")

def kind : Field → SettingKind
  | model | language | extractionLanguage => .name
  | maxTokens | maxSize | maxAge | maxLength => .count
  | minLength => .whole
  | temperature => .real
  | requestTimeout => .duration
  | baseUrl | apiKey | customPrompt | style => .text
  | autoCorrect | includeContext => .flag
  | ignorePatterns => .texts

/-- The value that a mapping has for a setting. -/
def value? (entries : List (Text × Value)) (field : Field) : Option Value :=
  match field.place with
  | (none, name) => Value.entry? name entries
  | (some part, name) => Value.entry? name (entryOf entries part).entries

end Field

/-- What the settings set a setting to. -/
def setting (settings : Settings) : Field → Setting
  | .model => .text (some settings.service.model)
  | .maxTokens => .whole settings.service.maxTokens
  | .temperature => .real settings.service.temperature
  | .baseUrl => .text settings.service.baseUrl
  | .apiKey => .text settings.service.apiKey
  | .requestTimeout => .real settings.service.requestTimeout
  | .language => .text (some settings.language)
  | .autoCorrect => .flag settings.autoCorrect
  | .ignorePatterns => .texts settings.ignorePatterns
  | .customPrompt => .text settings.customPrompt
  | .style => .text settings.style
  | .maxSize => .whole settings.cache.maxSize
  | .maxAge => .whole settings.cache.maxAge
  | .extractionLanguage => .text (some settings.extraction.language)
  | .minLength => .whole settings.extraction.minLength
  | .maxLength => .whole settings.extraction.maxLength
  | .includeContext => .flag settings.extraction.includeContext

/-- What a mapping sets a setting to: what its value for it stands for, or the usual setting. -/
def Field.Holds (field : Field) (entries : List (Text × Value)) (setting : Setting) : Prop :=
  field.kind.Takes (Settings.setting {} field) (field.value? entries) setting

/-- Settings that the program can work with. -/
structure IsUsable (settings : Settings) : Prop where
  maxTokens : 0 < settings.service.maxTokens
  requestTimeout : Binary64.less 0 settings.service.requestTimeout = true
  maxSize : 0 < settings.cache.maxSize
  maxAge : 0 < settings.cache.maxAge
  maxLength : 0 < settings.extraction.maxLength
  lengths : settings.extraction.minLength ≤ settings.extraction.maxLength

/-- A mapping has entries on the extraction, but these set the least length above the most. -/
def IsInverted (entries : List (Text × Value)) : Prop :=
  ∃ members least most, Value.entry? "extraction" entries = some (.mapping members) ∧
    members ≠ [] ∧ Field.minLength.Holds entries (.whole least) ∧
    Field.maxLength.Holds entries (.whole most) ∧ most < least

section Convertible

variable {value : Value}

theorem exists_someText (convertible : value.IsConvertible) (usual : Text) :
    ∃ text, someText usual value = .ok text := by
  obtain ⟨text?, known⟩ := convertible.exists_text?
  exact ⟨_, map_eq_ok_iff.mpr ⟨text?, known, rfl⟩⟩

theorem exists_positiveReal (convertible : value.IsConvertible) (usual : Binary64) :
    ∃ number, positiveReal usual value = .ok number := by
  obtain ⟨real?, known⟩ := convertible.exists_real?
  exact ⟨_, map_eq_ok_iff.mpr ⟨real?, known, rfl⟩⟩

theorem exists_texts_getD {value? : Option Value} (convertible : (value?.getD .null).IsConvertible)
    (usual : List Text) : ∃ texts, (value?.map Value.texts).getD (.ok usual) = .ok texts := by
  cases value? with
  | none => exact ⟨usual, rfl⟩
  | some value => exact convertible.exists_texts

end Convertible

section Given

variable {root : Path} {entries : List (Text × Value)} {settings : Settings}

open SettingKind in
theorem holds_of_given (read : given root entries = .ok settings) (field : Field) :
    field.Holds entries (settings.setting field) := by
  simp only [given, ServiceSettings.ofEntries, ExtractionSettings.ofEntries, bind_eq_ok_iff, pure,
    Except.pure, Except.ok.injEq] at read
  obtain ⟨_, ⟨_, model, _, temperature, _, baseUrl, _, apiKey, _, requestTimeout, rfl⟩, _, language,
    _, ignorePatterns, _, customPrompt, _, style, _, ⟨_, extractionLanguage, rfl⟩, rfl⟩ := read
  cases field with
  | model => exact takes_name model
  | maxTokens => exact takes_count 500 _
  | temperature => exact takes_real temperature
  | baseUrl => exact takes_text baseUrl
  | apiKey => exact takes_text apiKey
  | requestTimeout => exact takes_duration requestTimeout
  | language => exact takes_name language
  | autoCorrect => exact takes_flag false _
  | ignorePatterns => exact takes_texts ignorePatterns
  | customPrompt => exact takes_text customPrompt
  | style => exact takes_text style
  | maxSize => exact takes_count _ _
  | maxAge => exact takes_count _ _
  | extractionLanguage => exact takes_name extractionLanguage
  | minLength => exact takes_whole 3 _
  | maxLength => exact takes_count 1000 _
  | includeContext => exact takes_flag true _

theorem root_of_given (read : given root entries = .ok settings) : settings.root = root := by
  simp only [given, bind_eq_ok_iff, pure, Except.pure, Except.ok.injEq] at read
  obtain ⟨_, _, _, _, _, _, _, _, _, _, _, _, rfl⟩ := read
  rfl

/-- Nothing but a whole number beyond the binary64 format keeps the values from being read. -/
theorem exists_given (convertible : (Value.mapping entries).IsConvertible) (root : Path) :
    ∃ settings, given root entries = .ok settings := by
  have own : ∀ name, (entryOf entries name).IsConvertible := convertible.entryOf
  have inner : ∀ part name, (entryOf (entryOf entries part).entries name).IsConvertible :=
    fun part => (own part).entryOf
  obtain ⟨_, model⟩ := exists_someText (inner "llm" "model") Endpoint.defaultModel
  obtain ⟨_, temperature⟩ := (inner "llm" "temperature").exists_real?
  obtain ⟨_, baseUrl⟩ := (inner "llm" "base_url").exists_text?
  obtain ⟨_, apiKey⟩ := (inner "llm" "api_key").exists_text?
  obtain ⟨_, requestTimeout⟩ := exists_positiveReal (inner "llm" "request_timeout") 60
  obtain ⟨_, language⟩ := exists_someText (own "language") defaultTargetLanguage
  obtain ⟨_, ignorePatterns⟩ := exists_texts_getD (own "ignore_patterns")
    ["TODO".toText, "FIXME", "XXX", "HACK"]
  obtain ⟨_, customPrompt⟩ := (own "custom_prompt").exists_text?
  obtain ⟨_, style⟩ := (own "style").exists_text?
  obtain ⟨_, extractionLanguage⟩ := exists_someText (inner "extraction" "language") autoLanguage
  simp only [given, ServiceSettings.ofEntries, ExtractionSettings.ofEntries, bind_eq_ok_iff, pure,
    Except.pure]
  exact ⟨_, _, ⟨_, model, _, temperature, _, baseUrl, _, apiKey, _, requestTimeout, rfl⟩, _,
    language, _, ignorePatterns, _, customPrompt, _, style, _, ⟨_, extractionLanguage, rfl⟩, rfl⟩

theorem ofEntries_of_given (read : given root entries = .ok settings) :
    ofEntries root entries =
      if settings.extraction.maxLength < settings.extraction.minLength then
        .error (refused "extraction.min_length must not exceed extraction.max_length")
      else .ok settings := by
  rw [ofEntries, read]
  rfl

theorem given_of_ofEntries (read : ofEntries root entries = .ok settings) :
    given root entries = .ok settings ∧
      settings.extraction.minLength ≤ settings.extraction.maxLength := by
  cases known : given root entries with
  | error fault =>
      rw [ofEntries, known] at read
      cases read
  | ok own =>
      rw [ofEntries_of_given known] at read
      split at read
      · cases read
      · next ordered =>
          cases read
          exact ⟨rfl, Int.not_lt.mp ordered⟩

theorem isUsable_of_ofEntries (read : ofEntries root entries = .ok settings) :
    settings.IsUsable := by
  obtain ⟨read, lengths⟩ := given_of_ofEntries read
  have holds := holds_of_given read
  exact {
    maxTokens := (holds .maxTokens).count_pos (by decide)
    requestTimeout := (holds .requestTimeout).duration_pos (by decide +kernel)
    maxSize := (holds .maxSize).count_pos (by decide)
    maxAge := (holds .maxAge).count_pos (by decide)
    maxLength := (holds .maxLength).count_pos (by decide)
    lengths }

theorem exists_mapping_of_entries_ne_nil {name : Text}
    (written : (entryOf entries name).entries ≠ []) :
    ∃ members, Value.entry? name entries = some (.mapping members) ∧ members ≠ [] := by
  rw [entryOf] at written
  cases found : Value.entry? name entries with
  | none =>
      rw [found] at written
      exact absurd rfl written
  | some value =>
      rw [found] at written
      cases value with
      | mapping members => exact ⟨members, rfl, written⟩
      | _ => exact absurd rfl written

/-- Without entries on the extraction both limits are the usual ones, which are in order. -/
theorem lt_iff_isInverted (read : given root entries = .ok settings) :
    settings.extraction.maxLength < settings.extraction.minLength ↔ IsInverted entries := by
  have least := holds_of_given read .minLength
  have most := holds_of_given read .maxLength
  constructor
  · intro inverted
    have written : (entryOf entries "extraction").entries ≠ [] := by
      intro none
      have missing : ∀ name, Value.entry? name (entryOf entries "extraction").entries = .none := by
        intro name
        rw [none]
        rfl
      rw [Setting.whole.inj (least.eq_usual (missing "min_length")),
        Setting.whole.inj (most.eq_usual (missing "max_length"))] at inverted
      exact absurd inverted (by decide)
    obtain ⟨members, found, some⟩ := exists_mapping_of_entries_ne_nil written
    exact ⟨members, _, _, found, some, least, most, inverted⟩
  · rintro ⟨_, _, _, number, limit, leastHolds, mostHolds, inverted⟩
    cases least.unique leastHolds
    cases most.unique mostHolds
    exact inverted

end Given

section Loading

variable {tree : FileTree} {path : Path} {settings : Settings}

/-- The settings file for a path, in some directory, holds a mapping. -/
inductive Gives (tree : FileTree) (path : Path) : Path → List (Text × Value) → Prop where
  | mapping {file : Path} {text : Text} {entries : List (Text × Value)}
      (found : find tree path = .ok (file, true)) (held : tree.readText .utf8 file = .ok text)
      (parsed : fileValue file.name text = .ok (.mapping entries)) :
      Gives tree path file.parent entries

theorem load_of_gives {root : Path} {entries : List (Text × Value)}
    (gives : Gives tree path root entries) : load tree path = ofEntries root entries := by
  cases gives with
  | mapping found held parsed =>
      simp only [load, found, held, parsed, Except.mapError, bind, Except.bind]
      rfl

/-- Where there is no file, the settings are those of an empty one. -/
theorem ofEntries_nil (root : Path) : ofEntries root [] = .ok { root } :=
  rfl

theorem isUsable_of_load (loaded : load tree path = .ok settings) : settings.IsUsable := by
  rw [load] at loaded
  obtain ⟨⟨file, isPresent⟩, -, loaded⟩ := bind_eq_ok_iff.mp loaded
  cases isPresent with
  | false =>
      cases loaded
      exact isUsable_of_ofEntries (ofEntries_nil file.parent)
  | true =>
      obtain ⟨text, -, loaded⟩ := bind_eq_ok_iff.mp loaded
      obtain ⟨value, -, loaded⟩ := bind_eq_ok_iff.mp loaded
      cases value with
      | mapping entries => exact isUsable_of_ofEntries loaded
      | _ => cases loaded

end Loading

/-- **Settings by their values.** Settings that are loaded can be worked with. Those that a mapping
gives are determined setting by setting: what the value at the place of a setting stands for, and the
usual setting where there is none or one of no use, so that mappings with one value there agree on
the setting whatever else they hold. A mapping whose whole numbers lie within the binary64 format is
refused exactly if its entries on the extraction set the least length above the most. -/
theorem load_outcome (root : Path) (entries : List (Text × Value)) :
    (∀ tree path settings, load tree path = .ok settings → settings.IsUsable) ∧
    (∀ tree path, Gives tree path root entries → load tree path = ofEntries root entries) ∧
    ((Value.mapping entries).IsConvertible → ∀ failure,
      ofEntries root entries = .error failure ↔
        failure = refused "extraction.min_length must not exceed extraction.max_length" ∧
          IsInverted entries) ∧
    ∀ settings, ofEntries root entries = .ok settings →
      settings.IsUsable ∧ settings.root = root ∧
      (∀ field : Field, field.Holds entries (settings.setting field)) ∧
      ∀ elsewhere others known, ofEntries elsewhere others = .ok known →
        ∀ field : Field, field.value? others = field.value? entries →
          known.setting field = settings.setting field := by
  refine ⟨fun _ _ _ => isUsable_of_load, fun _ _ => load_of_gives,
    fun convertible failure => ?_, ?_⟩
  · obtain ⟨own, read⟩ := exists_given convertible root
    rw [ofEntries_of_given read, ← lt_iff_isInverted read]
    split
    · next inverted => simp [inverted, eq_comm]
    · next ordered => simp [ordered]
  · intro settings result
    have holds := holds_of_given (given_of_ofEntries result).1
    refine ⟨isUsable_of_ofEntries result, root_of_given (given_of_ofEntries result).1, holds, ?_⟩
    intro elsewhere others known alsoResult field same
    have also := holds_of_given (given_of_ofEntries alsoResult).1 field
    unfold Field.Holds at also
    rw [same] at also
    exact also.unique (holds field)

/-- Settings of little use: a truth value for a count, no number for a duration, and a least length
that is written as a text and lies above the usual most. -/
def oddEntries : List (Text × Value) :=
  [("llm", .mapping [("max_tokens", .bool true), ("request_timeout", .text "nan")]),
    ("ignore_patterns", .list [.int 7, .null, .text "KEEP"]),
    ("extraction", .mapping [("min_length", .text "1001"), ("max_length", .int 0)])]

theorem load_outcome_oddEntries :
    (Value.mapping oddEntries).IsConvertible ∧
    ofEntries ⟨['/'], []⟩ oddEntries =
      .error (refused "extraction.min_length must not exceed extraction.max_length") := by
  have within : 7 < Binary64.limit ∧ 0 < Binary64.limit := by decide +kernel
  have convertible : (Value.mapping oddEntries).IsConvertible := by
    simpa [oddEntries] using within
  refine ⟨convertible, ((load_outcome _ _).2.2.1 convertible _).mpr ⟨rfl, ?_⟩⟩
  refine ⟨_, 1001, 1000, rfl, List.cons_ne_nil _ _, .given (.whole (.text (by decide))),
    .useless fun setting accepted => ?_, by decide⟩
  cases accepted with
  | count stands positive =>
      cases stands
      exact absurd positive (by decide)

end Settings

end CodeProse
