import CodeProse.Correction.Basic
import CodeProse.Correction.Replacement
import CodeProse.Document.Basic

/-!
# Edit plans

A plan turns corrections into edits of a document that do not overlap: in document order, the
earlier of two overlapping corrections wins. The inverse of a plan's edits restores the text
that they replace.
-/

set_option autoImplicit false

namespace CodeProse

/-- Edits with the corrections that they carry out, and the corrections left out. -/
structure EditPlan where
  edits : List Edit := []
  corrections : List Correction := []
  skipped : List Correction := []
deriving DecidableEq

namespace EditPlan

def plan (correction : Correction) (replacement : Text) (rest : EditPlan) : EditPlan :=
  { rest with
    edits := ⟨correction.range, replacement⟩ :: rest.edits
    corrections := correction :: rest.corrections }

def skip (correction : Correction) (rest : EditPlan) : EditPlan :=
  { rest with skipped := correction :: rest.skipped }

/-- Plans ordered corrections, behind edits that reach up to `reached`. -/
def planOrdered (document : Document) : Option Position → List Correction → EditPlan
  | _, [] => {}
  | reached, correction :: rest =>
      if !correction.changed then planOrdered document reached rest
      else if reached.any fun position => correction.range.start < position then
        skip correction (planOrdered document reached rest)
      else
        let source := document.textIn correction.range
        let replacement := buildReplacement source correction.draft correction.text
        if replacement = source then skip correction (planOrdered document reached rest)
        else plan correction replacement (planOrdered document (some correction.range.stop) rest)

def ofCorrections (document : Document) (corrections : List Correction) : EditPlan :=
  planOrdered document none
    (stableSort (fun left right => left.range.notAfter right.range) corrections)

end EditPlan

/-- The inverses of ordered edits of a text. `after` is the text behind all of them, and
`shift` is how far the edits so far have moved what follows. -/
def invertOrdered (text after : Text) : Int → List OffsetEdit → List Edit
  | _, [] => []
  | shift, edit :: rest =>
      let start := edit.start + shift
      let stop := start + edit.replacement.length
      ⟨⟨positionAt after start, positionAt after stop⟩,
          slice text edit.start.toNat edit.stop.toNat⟩ ::
        invertOrdered text after
          (shift + edit.replacement.length - (edit.stop - edit.start)) rest

/-- Edits of a text with the ends of their ranges moved into it, the first start first. -/
def clampedEdits (text : Text) (edits : List Edit) : List OffsetEdit :=
  stableSort (fun left right => left.start ≤ right.start)
    (edits.map fun edit =>
      ⟨offsetAt text edit.range.start, offsetAt text edit.range.stop, edit.replacement⟩)

/-- The edits that undo some edits of a text once those have been applied. -/
def inverseEdits (text : Text) (edits : List Edit) : List Edit :=
  let ordered := clampedEdits text edits
  invertOrdered text (applyEdits text ordered) 0 ordered

end CodeProse
