import CodeProse.Files.Path
import CodeProse.Text.Blank
import CodeProse.Text.Encoding

/-!
# File trees

The files that a program can see, as one value: the bytes of every file and the directories,
each under its absolute path. Reading and writing are functions on the tree. A path is
followed name by name through directories that exist, and neither the path nor its names may be
too long. A tilde at its front stands for the home of a user.
-/

set_option autoImplicit false

namespace CodeProse

/-- The files, the directories, the working directory and the homes of users. Places are the
names on the way from the root. The user without a name is the current one. -/
structure FileTree where
  files : List (List Text × List UInt8) := []
  directories : List (List Text) := []
  workingDirectory : List Text := []
  homes : List (Text × Text) := []
deriving DecidableEq

/-- Why a path leads to no file. -/
inductive FileFault where
  | missing
  | isDirectory
  | notDirectory
  | nameTooLong
  | nulInName
  | unknownHome
deriving DecidableEq

/-- The most bytes that a name in a directory may have. -/
def longestName : Nat := 255

/-- The most bytes that a path may have. -/
def longestPath : Nat := 4095

/-- The bytes of a name. Half of a surrogate pair stands for a single one. -/
def byteCount (text : Text) : Nat :=
  total (text.map fun char => char.char?.elim 1 utf8Size)

/-- Whether a text holds the character NUL, which no name may. -/
def hasNul (text : Text) : Bool :=
  text.elem (CodePoint.ofNat 0)

namespace FileTree

def fileAt? (tree : FileTree) (place : List Text) : Option (List UInt8) :=
  tree.files.lookup place

/-- Whether a directory stands at a place; the root always does. -/
def isDirectoryAt (tree : FileTree) (place : List Text) : Bool :=
  place.isEmpty || tree.directories.contains place

def currentPath (tree : FileTree) : Path :=
  ⟨['/'], tree.workingDirectory⟩

def resolve (tree : FileTree) (path : Path) : Except FileFault Path :=
  if path.names.any hasNul then .error .nulInName else .ok (path.resolve tree.currentPath)

def home (tree : FileTree) (user : Text) : Except FileFault Path :=
  if hasNul user then .error .nulInName
  else
    match (tree.homes.lookup user).map (Text.dropEndWhile (· == .scalar '/')) with
    | none | some ('~' :: _) => .error .unknownHome
    | some [] => .ok ⟨['/'], []⟩
    | some home => .ok (.ofText home)

/-- The path with the home of a user in the place of a tilde at its front. -/
def expand (tree : FileTree) (path : Path) : Except FileFault Path :=
  match path.root, path.names with
  | [], ('~' :: user) :: names => (tree.home user).map fun home => home.join ⟨[], names⟩
  | _, _ => .ok path

/-- Follows names from a place that exists. Only directories are passed through. -/
def follow (tree : FileTree) : List Text → List Text → Except FileFault (List Text)
  | place, [] => .ok place
  | place, name :: rest =>
      if !tree.isDirectoryAt place then .error .notDirectory
      else if longestName < byteCount name then .error .nameTooLong
      else if name = Path.parentName then follow tree place.dropLast rest
      else
        let next := place ++ [name]
        if tree.isDirectoryAt next || (tree.fileAt? next).isSome then follow tree next rest
        else .error .missing

def place (tree : FileTree) (path : Path) : Except FileFault (List Text) :=
  if path.names.any hasNul then .error .nulInName
  else if longestPath < byteCount path.toText then .error .nameTooLong
  else follow tree [] (tree.currentPath.join path).names

/-- The place that a path leads to, if it leads to any. Only what is too long to be looked for
is a fault. -/
def place? (tree : FileTree) (path : Path) : Except FileFault (Option (List Text)) :=
  match tree.place path with
  | .ok place => .ok (some place)
  | .error .nameTooLong => .error .nameTooLong
  | .error _ => .ok none

def isDirectory (tree : FileTree) (path : Path) : Except FileFault Bool :=
  (tree.place? path).map fun place? => place?.any tree.isDirectoryAt

def isFile (tree : FileTree) (path : Path) : Except FileFault Bool :=
  (tree.place? path).map fun place? => place?.any fun place => (tree.fileAt? place).isSome

def isPresent (tree : FileTree) (path : Path) : Except FileFault Bool :=
  (tree.place? path).map Option.isSome

def read (tree : FileTree) (path : Path) : Except FileFault (List UInt8) := do
  let place ← tree.place path
  match tree.fileAt? place with
  | some bytes => .ok bytes
  | none => .error .isDirectory

/-- Sets the bytes at a place, in the place of those that stand there or behind all others. -/
def setFile (place : List Text) (bytes : List UInt8) :
    List (List Text × List UInt8) → List (List Text × List UInt8)
  | [] => [(place, bytes)]
  | (other, old) :: rest =>
      if other = place then (place, bytes) :: rest else (other, old) :: setFile place bytes rest

/-- The places on the way to a place, from the root on. -/
def placesAbove (place : List Text) : List (List Text) :=
  (List.range place.length).map place.take

/-- The tree with a file written, its directories made where they are missing. -/
def write (tree : FileTree) (place : List Text) (bytes : List UInt8) : FileTree :=
  { tree with
    files := setFile place bytes tree.files
    directories := (placesAbove place ++ tree.directories).eraseDups }

def makeDirectory (tree : FileTree) (place : List Text) : FileTree :=
  { tree with directories := (place :: placesAbove place ++ tree.directories).eraseDups }

end FileTree

end CodeProse
