import CodeProse.Cache.Basic
import CodeProse.Correction.Options
import CodeProse.Correction.Prompt
import CodeProse.Files.Path
import CodeProse.Prose.Filter
import CodeProse.Service.Endpoint

/-!
# Settings

What a project asks of the program: the service and its use, the language to correct in, which
prose to leave alone, and the limits of the cache. Everything has a usual value.
-/

set_option autoImplicit false

namespace CodeProse

structure ServiceSettings where
  model : Text := Endpoint.defaultModel
  maxTokens : Int := 500
  temperature : Binary64 := 0
  baseUrl : Option Text := none
  apiKey : Option Text := none
  requestTimeout : Binary64 := 60
deriving DecidableEq

/-- The limits of the cache: a size in bytes and an age in seconds. -/
structure CacheSettings where
  maxSize : Int := 10 * 1024 * 1024
  maxAge : Int := 7 * 24 * 60 * 60
deriving DecidableEq

structure ExtractionSettings where
  language : Text := autoLanguage
  minLength : Int := 3
  maxLength : Int := 1000
  includeContext : Bool := true
deriving DecidableEq

/-- The settings of a project, with the directory that they hold for. -/
structure Settings where
  root : Path := ⟨['/'], []⟩
  service : ServiceSettings := {}
  language : Text := defaultTargetLanguage
  autoCorrect : Bool := false
  ignorePatterns : List Text := ["TODO", "FIXME", "XXX", "HACK"]
  customPrompt : Option Text := none
  style : Option Text := none
  cache : CacheSettings := {}
  extraction : ExtractionSettings := {}
deriving DecidableEq

def CacheSettings.maxAgeMilliseconds (settings : CacheSettings) : Int :=
  settings.maxAge * 1000

def CacheSettings.limits (settings : CacheSettings) : CacheLimits where
  maxSize := settings.maxSize
  maxAge := settings.maxAgeMilliseconds

def ServiceSettings.endpoint (settings : ServiceSettings) : EndpointSettings where
  model := some settings.model
  baseUrl := settings.baseUrl
  temperature := some (.real settings.temperature)
  maxTokens := some settings.maxTokens
  apiKey := settings.apiKey
  timeout := some (.real settings.requestTimeout)

namespace Settings

def extractionOptions (settings : Settings) (language : Option Text) : ExtractionOptions where
  language := (present? language).getD settings.extraction.language
  minLength := settings.extraction.minLength
  maxLength := settings.extraction.maxLength
  includeContext := settings.extraction.includeContext
  ignorePatterns := settings.ignorePatterns

def correctionOptions (settings : Settings) (context : Option Text) : CorrectionOptions where
  language := some settings.language
  style := settings.style
  context := context
  customPrompt := settings.customPrompt

end Settings

end CodeProse
