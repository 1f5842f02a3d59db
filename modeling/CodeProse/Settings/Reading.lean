import CodeProse.Settings.Basic
import CodeProse.Yaml.Content

/-!
# Reading settings

The settings that a mapping describes. A value that is missing or of no use leaves the usual
one in place; only a minimum length above the maximum is refused.
-/

set_option autoImplicit false

namespace CodeProse

def settingsFileName : Text := ".textlint.yml"

namespace Yaml.Value

/-- An integer as a text, which may have `integerDigitLimit` digits at most. -/
def integerText (value : Int) : Except CodeProse.Fault Text :=
  if isUnwritable value then .error .integerUnwritable else .ok (Text.ofInt value)

/-- A text, or a number as a text. -/
def text? : Value → Except CodeProse.Fault (Option Text)
  | text value => .ok (some value)
  | int value => (integerText value).map some
  | real value => .ok (some value.shortest)
  | _ => .ok none

/-- An integer, or a text that stands for one. -/
def int? : Value → Option Int
  | int value => some value
  | text value => readInt? value
  | _ => none

/-- A number, or a text that stands for one. An integer may lie beyond the numbers of the
format. -/
def real? : Value → Except CodeProse.Fault (Option Binary64)
  | int value =>
      match Binary64.ofInt? value with
      | some number => .ok (some number)
      | none => .error .integerTooLarge
  | real value => .ok (some value)
  | text value => .ok (readBinary64? value)
  | _ => .ok none

def bool? : Value → Option Bool
  | bool value => some value
  | text value =>
      let word := Text.asciiLower (Text.trim value)
      if ["true".toText, "yes", "1"].contains word then some true
      else if ["false".toText, "no", "0"].contains word then some false
      else none
  | _ => none

/-- An item of a list as a text; truth values have names here. -/
def itemText? : Value → Except CodeProse.Fault (Option Text)
  | bool true => .ok (some "True")
  | bool false => .ok (some "False")
  | value => value.text?

/-- A list of texts, which may be given as a single text. Bytes are a list of numbers. -/
def texts : Value → Except CodeProse.Fault (List Text)
  | text value => .ok [value]
  | bytes data => .ok (data.map fun byte => Text.ofNat byte.toNat)
  | list items => (items.mapM itemText?).map fun texts => texts.filterMap id
  | _ => .ok []

def entries : Value → List (Text × Value)
  | mapping entries => entries
  | _ => []

end Yaml.Value

/-- The entry of a mapping under a name; null for a missing one. -/
def entryOf (entries : List (Text × Yaml.Value)) (name : Text) : Yaml.Value :=
  (Yaml.Value.entry? name entries).getD .null

def positiveInt (usual : Int) (value : Yaml.Value) : Int :=
  (value.int?.filter (0 < ·)).getD usual

def positiveReal (usual : Binary64) (value : Yaml.Value) : Except Fault Binary64 :=
  value.real?.map fun real? => (real?.filter fun number => Binary64.less 0 number).getD usual

/-- A text that is not empty, or the usual one. -/
def someText (usual : Text) (value : Yaml.Value) : Except Fault Text :=
  value.text?.map fun text? => (present? text?).getD usual

def ServiceSettings.ofEntries (entries : List (Text × Yaml.Value)) :
    Except Fault ServiceSettings := do
  let usual : ServiceSettings := {}
  let entry := entryOf entries
  let model ← someText usual.model (entry "model")
  let temperature ← (entry "temperature").real?
  let baseUrl ← (entry "base_url").text?
  let apiKey ← (entry "api_key").text?
  let requestTimeout ← positiveReal usual.requestTimeout (entry "request_timeout")
  return {
    model, baseUrl, apiKey, requestTimeout
    maxTokens := positiveInt usual.maxTokens (entry "max_tokens")
    temperature := temperature.getD usual.temperature }

def CacheSettings.ofEntries (entries : List (Text × Yaml.Value)) : CacheSettings :=
  let usual : CacheSettings := {}
  { maxSize := positiveInt usual.maxSize (entryOf entries "max_size")
    maxAge := positiveInt usual.maxAge (entryOf entries "max_age") }

def ExtractionSettings.ofEntries (entries : List (Text × Yaml.Value)) :
    Except Fault ExtractionSettings := do
  let usual : ExtractionSettings := {}
  let entry := entryOf entries
  let language ← someText usual.language (entry "language")
  return {
    language
    minLength := (entry "min_length").int?.getD usual.minLength
    maxLength := positiveInt usual.maxLength (entry "max_length")
    includeContext := (entry "include_context").bool?.getD usual.includeContext }

namespace Settings

def refused (message : Text) : Failure :=
  .reported .configuration message

/-- The settings of a directory as the entries of a mapping give them. The entries are read in a
fixed order, so that the first fault counts. -/
def given (root : Path) (entries : List (Text × Yaml.Value)) : Except Fault Settings := do
  let usual : Settings := {}
  let entry := entryOf entries
  let service ← ServiceSettings.ofEntries (entry "llm").entries
  let language ← someText usual.language (entry "language")
  let ignorePatterns ←
    ((Yaml.Value.entry? "ignore_patterns" entries).map Yaml.Value.texts).getD
      (.ok usual.ignorePatterns)
  let customPrompt ← (entry "custom_prompt").text?
  let style ← (entry "style").text?
  let extraction ← ExtractionSettings.ofEntries (entry "extraction").entries
  return {
    root, service, language, ignorePatterns, customPrompt, style, extraction
    autoCorrect := (entry "auto_correct").bool?.getD usual.autoCorrect
    cache := CacheSettings.ofEntries (entry "cache").entries }

def ofEntries (root : Path) (entries : List (Text × Yaml.Value)) : Except Failure Settings := do
  let settings ← (given root entries).mapError Failure.fault
  if settings.extraction.maxLength < settings.extraction.minLength then
    throw (refused "extraction.min_length must not exceed extraction.max_length")
  return settings

def ofValue (root : Path) : Yaml.Value → Except Failure Settings
  | .mapping entries => ofEntries root entries
  | _ => .error (refused (settingsFileName ++ " must contain a mapping at the root".toText))

end Settings

end CodeProse
