import CodeProse.Language.Registry
import CodeProse.Prose.Cleaning

/-!
# Fragments

A fragment is cleaned prose with the lines and columns it was cut from, before any filter. A
line of code gives one fragment for each string literal in it, or one for its comment or
documentation string; a block gives one fragment from the start of its first line to the end
of its last.
-/

set_option autoImplicit false

namespace CodeProse

/-- Prose and its place among the lines of a code. -/
structure Fragment where
  text : Text
  kind : ProseKind
  startLine : Nat
  startColumn : Nat
  stopLine : Nat
  stopColumn : Nat
deriving DecidableEq

/-- What stands behind a comment marker and the blanks after it. When nothing else follows,
the last blank stands for it, and without blanks `spare` does. -/
def markedBody? (spare : Option CodePoint) (behind : Text) : Option Text :=
  match Text.trimStart behind with
  | [] => (behind.getLast?.or spare).map ([·])
  | body => some body

/-- What stands between a block opener at the front of a text and the last block closer,
behind the blanks after the opener. The opener gives back stars, and blanks, when the closer
needs them. -/
def enclosedBody? (tail : Text) : Option Text := do
  let closer ← Text.lastIndexOf? "*/" tail
  let afterStars := (tail.drop 1).dropWhile (· == .scalar '*')
  let front := tail.length - (Text.trimStart afterStars).length
  let start := min front (closer - 1)
  if start < 2 then none else some ((tail.take closer).drop start)

def commentAt? (tail : Text) : Option Text :=
  match tail with
  | '/' :: '/' :: rest =>
      markedBody? (if "/".toText.isPrefixOf rest then some (.scalar '/') else none)
        (rest.dropWhile (· == .scalar '/'))
  | '#' :: rest => markedBody? none rest
  | '/' :: '*' :: _ => enclosedBody? tail
  | _ => none

def commentBody? : Text → Option Text
  | [] => none
  | char :: rest => (commentAt? (char :: rest)).or (commentBody? rest)

/-- The column at which a text stands in a line, or where the line's own text starts. -/
def columnOf (text line : Text) : Nat :=
  (Text.indexOf? text line).getD (line.length - (Text.trimStart line).length)

/-- The fragment of a string literal, unless it is blank. -/
def Fragment.ofQuotation? (index : Nat) (quotation : Quotation) : Option Fragment :=
  let text := Text.trim quotation.content
  if text.isEmpty then none
  else
    let indent := quotation.content.length - (Text.trimStart quotation.content).length
    let column := quotation.offset + 1 + indent
    some ⟨text, .string, index, column, index, column + text.length⟩

/-- The fragment of a comment or documentation string that stands on one line, unless nothing
is left of it. -/
def Fragment.ofMarked? (index : Nat) (line : Text) (kind : ProseKind) (marked : Text) :
    Option Fragment :=
  let text := ProseKind.clean (some kind) marked
  if text.isEmpty then none
  else
    let column := columnOf text line
    some ⟨text, kind, index, column, index, column + text.length⟩

def Fragment.ofLine (index : Nat) (line : Text) : Option ProseKind → List Fragment
  | none => []
  | some .string => (quotations line).filterMap (Fragment.ofQuotation? index)
  | some .comment =>
      ((commentBody? line).bind (Fragment.ofMarked? index line .comment)).toList
  | some .docstring =>
      (Fragment.ofMarked? index line .docstring (Text.trim line)).toList

/-- The lines of a block from its opener to its last closer. -/
def blockBody (opener closer : Text) (first : Text) (inner : List Text) (last : Text) : Text :=
  let head := first.drop ((Text.indexOf? opener first).getD 0)
  let foot :=
    match Text.lastIndexOf? closer last with
    | some index => last.take (index + closer.length)
    | none => last
  Text.unlines (head :: inner ++ [foot])

def Fragment.ofBlock (kind : ProseKind) (opener closer : Text) (startLine stopLine : Nat)
    (first : Text) (inner : List Text) (last : Text) : Fragment :=
  ⟨ProseKind.clean (some kind) (blockBody opener closer first inner last), kind, startLine, 0,
    stopLine, last.length⟩

end CodeProse
