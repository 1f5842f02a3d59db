import CodeProse.Settings.Reading

/-!
# Loading settings

Finds the file that holds the settings for a path, and reads it. Without such a file the usual
settings hold.
-/

set_option autoImplicit false

namespace CodeProse

namespace Settings

def fileSuffixes : List Text := [".yml", ".yaml"]

/-- The file that holds the settings for a path: the path itself where it is such a file, or the
one in its directory. -/
def filePath (tree : FileTree) (path : Path) : Except FileFault Path := do
  let path ← tree.expand path
  if ← tree.isDirectory path then tree.resolve (path.child settingsFileName)
  else if fileSuffixes.contains path.suffix then tree.resolve path
  else tree.resolve (path.parent.child settingsFileName)

/-- The file that holds the settings for a path, and whether it is present. -/
def find (tree : FileTree) (path : Path) : Except FileFault (Path × Bool) := do
  let file ← filePath tree path
  return (file, ← tree.isPresent file)

/-- How deep settings lie in their file: in a section, or in a list. -/
def deepestSetting : Nat := 2

/-- The value of a settings file. One that holds nothing stands for an empty mapping. -/
def fileValue (name text : Text) : Except Failure Yaml.Value :=
  if text.isBlank then .ok (.mapping [])
  else
    match Yaml.read deepestSetting text with
    | .ok .null => .ok (.mapping [])
    | .ok value => .ok value
    | .error .malformed => .error (refused ("Failed to parse ".toText ++ name))
    | .error fault => .error (.fault (.unreadableSettings fault))

def load (tree : FileTree) (path : Path) : Except Failure Settings := do
  let (file, isPresent) ← (find tree path).mapError Failure.ofFile
  if !isPresent then return { root := file.parent }
  let text ← (tree.readText .utf8 file).mapError fun fault => .fault fault.toFault
  ofValue file.parent (← fileValue file.name text)

end Settings

end CodeProse
