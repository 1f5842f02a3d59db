import CodeProse.Document.Edit

/-!
# Documents

A document is a text with an identity and the name of the language it is written in. It takes
a batch of edits as a whole or not at all; a read-only one takes none.
-/

set_option autoImplicit false

namespace CodeProse

/-- A text that can be edited. -/
structure Document where
  identity : Text
  languageId : Text
  text : Text
  readOnly : Bool := false
deriving DecidableEq

namespace Document

def plainLanguage : Text := "plaintext"

/-- The characters of a range, its ends moved into the text. -/
def textIn (document : Document) (range : Range) : Text :=
  slice document.text (offsetAt document.text range.start) (offsetAt document.text range.stop)

/-- The document with every range replaced; nothing when it refuses the batch. -/
def replaceRanges? (document : Document) (edits : List Edit) : Option Document :=
  if document.readOnly then none
  else (CodeProse.replaceRanges? document.text edits).map fun text => { document with text }

def lineCount (document : Document) : Nat :=
  document.text.lines.length

end Document

end CodeProse
