import CodeProse.Proofs.Correction.Plan
import CodeProse.Proofs.Prose.Extraction

/-!
# Order of spans

The spans of a code are listed by confidence. Their ranges are spaced, so that ordering them by
place gives back the order of the scan, and corrections of them never stand in each other's way.
-/

set_option autoImplicit false

namespace CodeProse

section Place

variable {spans found : List Span}

theorem nodup_of_apart {ranges : List Range} (apart : Apart ranges)
    (extent : ∀ range ∈ ranges, range.start < range.stop) : ranges.Nodup := by
  refine apart.imp_of_mem ?_
  intro left right leftMember _ gap same
  subst same
  exact lt_asymm gap (extent left leftMember)

/-- Spans whose ranges have gaps between them are put back in order, however they are listed. -/
theorem Span.inDocumentOrder_of_perm (same : spans.Perm found)
    (apart : Apart (found.map Span.range))
    (extent : ∀ range ∈ found.map Span.range, range.start < range.stop) :
    Span.inDocumentOrder spans = found := by
  have ordered : found.Pairwise (·.range.notAfter ·.range) :=
    List.pairwise_map.mp (pairwise_notAfter_of_apart apart extent)
  refine stableSort_eq_of_pairwise
    (fun left middle right => Range.notAfter_trans left.range middle.range right.range) same
    (fun left _ right _ => Range.notAfter_total left.range right.range) ?_ ordered
  intro left leftMember right rightMember before behind
  exact List.inj_on_of_nodup_map (nodup_of_apart apart extent) (same.mem_iff.mp leftMember)
    (same.mem_iff.mp rightMember) (Range.notAfter_antisymm before behind)

end Place

section Code

variable {registry : Registry} {language : Text} {options : ExtractionOptions}
  {origin : Position} {code : Text}

theorem extent_foundSpans : ∀ range ∈ (foundSpans registry language options origin code).map
    Span.range, range.start < range.stop := by
  intro range member
  have listed : range ∈ (extract registry language options origin code).map Span.range :=
    ((stableSort_perm _ _).map Span.range).mem_iff.mpr member
  exact spaced_extract.extent range listed

theorem inDocumentOrder_extract :
    Span.inDocumentOrder (extract registry language options origin code) =
      foundSpans registry language options origin code :=
  Span.inDocumentOrder_of_perm (stableSort_perm _ _) apart_foundSpans extent_foundSpans

end Code

/-- The spans of a code, wherever it starts, have an extent each and a gap to the next one in document
order, which is the order in which the scan finds them. A plan of corrections of them, in any order
and for any document, leaves out only those that change nothing. -/
theorem extract_separated (registry : Registry) (language : Text) (options : ExtractionOptions)
    (origin : Position) (code : Text) :
    Spaced ((extract registry language options origin code).map Span.range) ∧
      Span.inDocumentOrder (extract registry language options origin code) =
        foundSpans registry language options origin code ∧
      ∀ (document : Document) (corrections : List Correction),
        (corrections.map Correction.range).Subperm
          ((extract registry language options origin code).map Span.range) →
        EditPlan.ofCorrections document corrections =
          { edits := (EditPlan.effective document corrections).map (·.editIn document)
            corrections := EditPlan.effective document corrections
            skipped := EditPlan.idle document corrections } := by
  refine ⟨spaced_extract, inDocumentOrder_extract, ?_⟩
  intro document corrections chosen
  exact EditPlan.ofCorrections_eq_of_spaced document (spaced_extract.subperm chosen)

/-- A document with two strings on one line and a block behind them, whose spans the confidence puts
out of order. -/
def crowdedNote : Document where
  identity := "note"
  languageId := "python"
  text := "x = f(\"Teh\", \"Teh cat sleeps.\")\n\"\"\"Teh\ndog barks.\"\"\""

/-- Each span with its first word put right. -/
def crowdedCorrections : List Correction :=
  (crowdedNote.spans .builtin {}).map fun span =>
    { text := "The".toText ++ span.text.drop 3
      draft := span.text
      range := span.range
      confidence := span.confidence }

/-- The corrections of all spans of a code are planned, though they are not in document order. -/
theorem extract_separated_crowdedNote :
    (crowdedCorrections.map Correction.range).Subperm
        ((crowdedNote.spans .builtin {}).map Span.range) ∧
      crowdedNote.spans .builtin {} ≠ Span.inDocumentOrder (crowdedNote.spans .builtin {}) ∧
      (EditPlan.ofCorrections crowdedNote crowdedCorrections).skipped = [] ∧
      (EditPlan.ofCorrections crowdedNote crowdedCorrections).edits.length = 3 := by
  obtain ⟨-, order, plans⟩ := extract_separated .builtin
    (crowdedNote.scanLanguage .builtin {}) {} .zero crowdedNote.text
  have chosen : (crowdedCorrections.map Correction.range).Subperm
      ((crowdedNote.spans .builtin {}).map Span.range) := by
    rw [crowdedCorrections, List.map_map]
    exact List.Subperm.refl _
  have plan := plans crowdedNote crowdedCorrections chosen
  refine ⟨chosen, ?_, ?_, ?_⟩
  · rw [Document.spans, order]
    decide +kernel
  · rw [plan]
    decide +kernel
  · rw [plan]
    decide +kernel

end CodeProse
