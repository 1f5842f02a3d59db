import CodeProse.Json.Writer

/-!
# Correction options

What a request for a correction may ask for beside the text. An option that is empty counts as
absent. The text and the options that are present make up the key under which a correction is
stored and requests are shared.
-/

set_option autoImplicit false

namespace CodeProse

structure CorrectionOptions where
  language : Option Text := none
  style : Option Text := none
  context : Option Text := none
  customPrompt : Option Text := none
deriving DecidableEq

/-- An option that is neither absent nor empty. -/
def present? (option : Option Text) : Option Text :=
  option.filter fun text => !text.isEmpty

namespace CorrectionOptions

/-- The options that are present, by name and in the order of their names. -/
def payload (options : CorrectionOptions) : List (Text × Text) :=
  [("context".toText, options.context), ("custom_prompt", options.customPrompt),
      ("language", options.language), ("style", options.style)].filterMap
    fun entry => (present? entry.2).map fun value => (entry.1, value)

def toJson (options : CorrectionOptions) : Json :=
  .object (options.payload.map fun entry => (entry.1, .string entry.2))

/-- The key of a text under these options: the text, a NUL, and the options in JSON. -/
def key (options : CorrectionOptions) (text : Text) : Text :=
  text ++ CodePoint.ofNat 0 :: options.toJson.write .unicode

end CorrectionOptions

end CodeProse
