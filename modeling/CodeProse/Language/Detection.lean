import CodeProse.Language.Registry
import CodeProse.Sequence
import CodeProse.Text.CharacterClass

/-!
# Language detection

Guesses the language of a code by its keywords and line comments. A keyword that stands as a
whole word scores two points, a line with the shape of a line comment one point for each shape
it has. The first language with the highest positive score wins.
-/

set_option autoImplicit false

namespace CodeProse

/-- Whether a word starts or ends between two neighbouring characters. -/
def isWordBoundary (before after : Option CodePoint) : Bool :=
  before.any isWordChar != after.any isWordChar

/-- Whether a word stands at the front of a text, between word boundaries. -/
def startsWithWord (word : Text) (before : Option CodePoint) (text : Text) : Bool :=
  word.isPrefixOf text && isWordBoundary before text.head? &&
    isWordBoundary (word.getLast?.or before) (text.drop word.length).head?

/-- Occurrences of a word from the front, without overlap, behind the character `before`. The
first `skip` characters belong to an occurrence already counted. -/
def countWordFrom (word : Text) : Option CodePoint → Nat → Text → Nat
  | before, _, [] => if startsWithWord word before [] then 1 else 0
  | _, skip + 1, char :: rest => countWordFrom word (some char) skip rest
  | before, 0, char :: rest =>
      if startsWithWord word before (char :: rest) then
        1 + countWordFrom word (some char) (word.length - 1) rest
      else countWordFrom word (some char) 0 rest

/-- How often a word stands in a text, between word boundaries. -/
def countWord (word text : Text) : Nat :=
  countWordFrom word none 0 text

namespace LanguageDefinition

def score (definition : LanguageDefinition) (code : Text) : Nat :=
  let words := total (definition.keywords.map fun keyword => countWord keyword code)
  let comments :=
    total (code.lines.map fun line =>
      definition.comments.lineComments.countP fun pattern => pattern.fits line)
  2 * words + comments

end LanguageDefinition

def betterLanguage (code : Text) (best : Text × Nat) (definition : LanguageDefinition) :
    Text × Nat :=
  let score := definition.score code
  if best.2 < score then (definition.id, score) else best

def Registry.detect (registry : Registry) (code : Text) : Text :=
  (registry.definitions.foldl (betterLanguage code) (fallbackLanguage, 0)).1

end CodeProse
