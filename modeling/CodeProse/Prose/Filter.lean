import CodeProse.Language.Registry
import CodeProse.Text.CaseFolding

/-!
# The filter for prose

Which pieces of text are worth correcting: those of a fitting length that contain none of the
words to ignore and are more than operators or a bare address.
-/

set_option autoImplicit false

namespace CodeProse

/-- Which spans an extraction keeps. Lengths count characters. -/
structure ExtractionOptions where
  language : Text := autoLanguage
  minLength : Int := 3
  maxLength : Int := 1000
  includeContext : Bool := true
  ignorePatterns : List Text := ["TODO", "FIXME", "XXX", "HACK"]
deriving DecidableEq

def operatorChars : Text := "\x7b\x7d[]();,.=<>!&|+-*/\\"

/-- Whether a text is nothing but operators, before a line feed at its end. -/
def isCodeOnly (text : Text) : Bool :=
  let body := text.dropFinalLineFeed
  !body.isEmpty && body.all fun char => operatorChars.elem char

def afterScheme? (text : Text) : Option Text :=
  ["http://".toText, "https://"].findSome? fun scheme =>
    if scheme.isPrefixOf text then some (text.drop scheme.length) else none

/-- Whether a text is a single web address, before a line feed at its end. -/
def isBareAddress (text : Text) : Bool :=
  match afterScheme? text.dropFinalLineFeed with
  | some rest => !rest.isEmpty && rest.all fun char => !isBlank char
  | none => false

namespace ExtractionOptions

def ignores (options : ExtractionOptions) (text : Text) : Bool :=
  let folded := text.caseFold
  options.ignorePatterns.any fun pattern =>
    !pattern.isEmpty && Text.contains pattern.caseFold folded

def includes (options : ExtractionOptions) (text : Text) : Bool :=
  options.minLength ≤ text.length && text.length ≤ options.maxLength &&
    !options.ignores text && !isCodeOnly text && !isBareAddress text

end ExtractionOptions

end CodeProse
