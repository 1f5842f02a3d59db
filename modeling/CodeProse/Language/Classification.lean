import CodeProse.Language.Registry

/-!
# Classification of lines

Whether a line of code carries a comment, a string literal or a documentation string. Within a
language a line comment wins over a documentation string, that over a string literal, and that
over the start of a block comment; between languages the one registered first wins.
-/

set_option autoImplicit false

namespace CodeProse

inductive ProseKind where
  | comment
  | string
  | docstring
deriving DecidableEq

namespace ProseKind

def name : ProseKind → Text
  | comment => "comment"
  | string => "string"
  | docstring => "docstring"

def ofName? (text : Text) : Option ProseKind :=
  [comment, string, docstring].find? fun kind => kind.name = text

end ProseKind

namespace LanguageDefinition

def classify? (definition : LanguageDefinition) (line : Text) : Option ProseKind :=
  let fitsOne (patterns : List LinePattern) : Bool := patterns.any fun pattern => pattern.fits line
  if fitsOne definition.comments.lineComments then some .comment
  else if fitsOne definition.docstrings then some .docstring
  else if fitsOne definition.strings then some .string
  else if fitsOne definition.comments.blockStarts then some .comment
  else none

end LanguageDefinition

namespace Registry

/-- What the languages for a name make of a line; nothing for a blank line. -/
def classify? (registry : Registry) (language line : Text) : Option ProseKind :=
  if line.isBlank then none
  else (registry.candidates language).findSome? fun definition => definition.classify? line

end Registry

/-- How many lines a code has, and how many of them carry prose of each kind. -/
structure LineCounts where
  comments : Nat
  strings : Nat
  docstrings : Nat
  lines : Nat
deriving DecidableEq

def Registry.countLines (registry : Registry) (language code : Text) : LineCounts :=
  let lines := code.lines
  let count (kind : ProseKind) : Nat :=
    lines.countP fun line => registry.classify? language line = some kind
  ⟨count .comment, count .string, count .docstring, lines.length⟩

end CodeProse
