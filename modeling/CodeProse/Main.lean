import CodeProse.CommandLine.Execution

/-!
# The program

Reads the files that a command line is about, does what it says, prints what is left to print
and writes back the files that changed. The correction service is out of reach from here, and
so is a web server: the program only says where it would listen.
-/

set_option autoImplicit false

namespace CodeProse

/-- A text as the system takes it, which has no place for half a surrogate pair. -/
def systemText (text : Text) : String :=
  String.ofList (text.map fun point => point.char?.getD '\uFFFD')

def systemPath (place : List Text) : String :=
  systemText (Path.toText ⟨"/", place⟩)

def offlineNetwork : Network Unit where
  send _ _ := (.unreachable "offline", ())

/-- The tree with a file of the system, if it can be read. -/
def loadFile (tree : FileTree) (path : Path) : IO FileTree := do
  match tree.expand path >>= tree.resolve with
  | .error _ => return tree
  | .ok path =>
      try
        let bytes ← IO.FS.readBinFile (systemPath path.names)
        return tree.write path.names bytes.toList
      catch _ => return tree

/-- The paths of the files that a command line may be about. A directory of settings may be
named in the place of its file. -/
def filesOf (arguments : List Text) : List Path :=
  match Invocation.ofArguments arguments with
  | .ok ⟨.work _ target, _⟩ =>
      let path := Path.ofText target.path
      let config := ((present? target.config).map Path.ofText).getD path.parent
      [path, config, config.child settingsFileName, config.parent.child settingsFileName]
  | _ => []

def variableNames : List Text :=
  ["TEXTLINT_MODEL", "OPENAI_MODEL", "TEXTLINT_BASE_URL", "OPENAI_BASE_URL",
    "TEXTLINT_API_KEY", "OPENAI_API_KEY"]

def readEnvironment : IO Environment :=
  variableNames.filterMapM fun name => do
    let value ← IO.getEnv (systemText name)
    return value.map fun text => (name, text.toText)

def saveFiles (before after : FileTree) : IO Unit :=
  for (place, bytes) in after.files do
    if before.fileAt? place ≠ some bytes then
      IO.FS.writeBinFile (systemPath place) ⟨bytes.toArray⟩

def finish (before : FileTree) (outcome : Outcome) : IO UInt32 := do
  saveFiles before outcome.tree
  IO.print (systemText (endedLines outcome.output))
  IO.eprint (systemText outcome.messages)
  if let some (some host, some port) := outcome.served then
    IO.eprintln s!"Listening needs a web server at {systemText host}:{port}"
  match outcome.ending with
  | .exit code => return code.toUInt32
  | .escaped failure =>
      IO.eprintln (systemText failure.message)
      return 1

end CodeProse

open CodeProse in
def main (arguments : List String) : IO UInt32 := do
  let texts := arguments.map String.toText
  let place := (Path.ofText (← IO.currentDir).toString.toText).names
  let home := (← IO.getEnv "HOME").map String.toText
  let homes := home.toList.map fun home => (([] : Text), home)
  let start := { FileTree.makeDirectory {} place with workingDirectory := place, homes }
  let tree ← (filesOf texts).foldlM loadFile start
  let now ← IO.monoMsNow
  finish tree
    (Surroundings.execute
      { tree, environment := ← readEnvironment, network := offlineNetwork, state := (), now }
      texts)
