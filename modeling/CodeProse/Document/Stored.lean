import CodeProse.Files.TextFile
import CodeProse.Language.FileName
import CodeProse.Log

/-!
# Stored documents

A document that is kept in a file. Edits change the document alone; saving writes its text
back. Line ends are made uniform when the file is read, and written as they stand.
-/

set_option autoImplicit false

namespace CodeProse

structure StoredDocument where
  path : Path
  encoding : Encoding
  document : Document
  savedText : Text

namespace StoredDocument

/-- Opens the document at a path. It is known by its absolute path, and written in the
language asked for or the one of its suffix. -/
def load (tree : FileTree) (encoding : Encoding) (languageId : Option Text) (path : Path) :
    Except OpenFault StoredDocument := do
  let path ← (tree.expand path >>= tree.resolve).mapError OpenFault.file
  let text ← tree.readText encoding path
  return {
    path, encoding
    document :=
      { identity := path.toText
        languageId := (languageId.filter fun id => !id.isEmpty).getD path.languageId
        text }
    savedText := text }

def isDirty (stored : StoredDocument) : Bool :=
  stored.document.text != stored.savedText

inductive SaveResult where
  | unchanged
  | written
  | unencodable
deriving DecidableEq

/-- Writes the text back to the file, if it has changed. A text that the encoding cannot
express leaves the file empty and counts as unsaved. -/
def save (stored : StoredDocument) (tree : FileTree) :
    SaveResult × StoredDocument × FileTree :=
  if !stored.isDirty then (.unchanged, stored, tree)
  else
    match stored.encoding.encode? stored.document.text with
    | some bytes =>
        (.written, { stored with savedText := stored.document.text },
          tree.write stored.path.names bytes)
    | none => (.unencodable, stored, tree.write stored.path.names [])

def saveRecords (stored : StoredDocument) : SaveResult → List LogRecord
  | .written => [⟨"documents", .info, "Saved ".toText ++ stored.path.toText⟩]
  | _ => []

end StoredDocument

end CodeProse
