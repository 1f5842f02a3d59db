import CodeProse.Files.Encoding
import CodeProse.Files.Tree

/-!
# Text files

The text of a file, with its line ends made uniform.
-/

set_option autoImplicit false

namespace CodeProse

/-- Why a text file is not read. -/
inductive OpenFault where
  | file (fault : FileFault)
  | undecodable (fault : DecodeFault)
deriving DecidableEq

def FileTree.readText (tree : FileTree) (encoding : Encoding) (path : Path) :
    Except OpenFault Text := do
  let bytes ← (tree.read path).mapError OpenFault.file
  let text ← (encoding.decode bytes).mapError OpenFault.undecodable
  return text.uniformLineEnds

end CodeProse
