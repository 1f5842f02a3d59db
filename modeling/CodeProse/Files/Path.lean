import CodeProse.Text.Basic

/-!
# Paths

A path is a root and the names on the way from it. Empty names and single dots are dropped
when a path is read; a name of two dots stays, because what it leads to is only known where
the path is followed.
-/

set_option autoImplicit false

namespace CodeProse

/-- A path: its leading slashes, and the names behind them. A path without a root starts at
the working directory. -/
structure Path where
  root : Text
  names : List Text
deriving DecidableEq

namespace Path

/-- The name that leads back to the directory above. -/
def parentName : Text := ".."

/-- Reads a path. Two leading slashes are a root of their own; more count as one. -/
def ofText (text : Text) : Path where
  root :=
    match (text.takeWhile (· == .scalar '/')).length with
    | 0 => []
    | 2 => "//"
    | _ => "/"
  names := (text.splitOn (.scalar '/')).filter fun name => name ≠ [] && name ≠ [.scalar '.']

def toText (path : Path) : Text :=
  if path.root.isEmpty && path.names.isEmpty then ['.']
  else path.root ++ "/".toText.intercalate path.names

def isAbsolute (path : Path) : Bool :=
  !path.root.isEmpty

/-- The last name of a path; empty where there is none. -/
def name (path : Path) : Text :=
  path.names.getLastD []

def parent (path : Path) : Path :=
  { path with names := path.names.dropLast }

def join (base path : Path) : Path :=
  if path.isAbsolute then path else { base with names := base.names ++ path.names }

def child (path : Path) (name : Text) : Path :=
  { path with names := path.names ++ [name] }

/-- The end of a name from its last dot on, unless that dot stands first or last. -/
def suffixOf (name : Text) : Text :=
  match Text.lastIndexOf? ['.'] name with
  | some index => if 0 < index && index + 1 < name.length then name.drop index else []
  | none => []

def suffix (path : Path) : Text :=
  suffixOf path.name

/-- Follows the names one by one; two dots lead back, but not beyond the root. -/
def resolveNames (names : List Text) : List Text :=
  (names.foldl (fun above name => if name = parentName then above.drop 1 else name :: above)
    []).reverse

/-- The absolute path without dots that a path leads to from a working directory. -/
def resolve (path directory : Path) : Path :=
  let whole := directory.join path
  { whole with names := resolveNames whole.names }

/-- The way from a directory to a path inside it. -/
def relativeTo? (path directory : Path) : Option Path :=
  if path.root = directory.root && directory.names.isPrefixOf path.names then
    some ⟨[], path.names.drop directory.names.length⟩
  else none

end Path

end CodeProse
