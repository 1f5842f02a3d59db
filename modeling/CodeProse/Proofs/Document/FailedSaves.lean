import CodeProse.Proofs.Document.Saving

/-!
# Saves that fail

A stored document is edited and saved any number of times. A save writes its text in the encoding of
the document, finds nothing to write, or fails because the encoding lacks a character. In the last
case the document is as before, and still has to be saved, but what stood in the file is gone.
-/

set_option autoImplicit false

namespace CodeProse

namespace StoredDocument

/-- Whether the content of the file is lost behind a save with a result. -/
def SaveResult.leavesSpoilt (spoilt : Bool) : SaveResult → Bool
  | unchanged => spoilt
  | written => false
  | unencodable => true

/-- What becomes of a document as it is opened by edits that it takes and by saves. The flag tells
whether a save has failed since the file was last written. -/
inductive Reachable (opened : StoredDocument) (tree : FileTree) :
    Bool → StoredDocument → FileTree → Prop where
  | opened : Reachable opened tree false opened tree
  | edited {spoilt : Bool} {stored : StoredDocument} {files : FileTree} {edits : List Edit}
      {after : Document} (before : Reachable opened tree spoilt stored files)
      (taken : stored.document.replaceRanges? edits = some after) :
      Reachable opened tree spoilt { stored with document := after } files
  | saved {spoilt : Bool} {stored : StoredDocument} {files : FileTree}
      (before : Reachable opened tree spoilt stored files) :
      Reachable opened tree ((stored.save files).1.leavesSpoilt spoilt) (stored.save files).2.1
        (stored.save files).2.2

/-- What is known of a reachable document: the text that counts as saved is that of the file, up to
its line ends, unless a save has failed since, after which the file is empty. -/
structure IsTracked (path : Path) (encoding : Encoding) (spoilt : Bool) (stored : StoredDocument)
    (files : FileTree) : Prop where
  path_eq : stored.path = path
  encoding_eq : stored.encoding = encoding
  inFile : if spoilt then files.read path = .ok []
    else files.readText encoding path = .ok stored.savedText.uniformLineEnds

section Saves

variable {tree files : FileTree} {encoding : Encoding} {languageId : Option Text}
  {given path : Path} {opened stored : StoredDocument} {spoilt : Bool}

/-- A save by what it does. -/
inductive Saves (stored : StoredDocument) (files : FileTree) :
    SaveResult × StoredDocument × FileTree → Prop where
  | unchanged (clean : stored.isDirty = false) : Saves stored files (.unchanged, stored, files)
  | written {bytes : List UInt8} (dirty : stored.isDirty = true)
      (encoded : stored.encoding.encode? stored.document.text = some bytes) :
      Saves stored files (.written, { stored with savedText := stored.document.text },
        files.write stored.path.names bytes)
  | lost (dirty : stored.isDirty = true)
      (foreign : stored.encoding.encode? stored.document.text = none) :
      Saves stored files (.unencodable, stored, files.write stored.path.names [])

theorem saves_save (stored : StoredDocument) (files : FileTree) :
    Saves stored files (stored.save files) := by
  unfold save
  split
  · next clean => exact .unchanged (by simpa using clean)
  · next edited =>
      have dirty : stored.isDirty = true := by simpa using edited
      split
      · next bytes encoded => exact .written dirty encoded
      · next foreign => exact .lost dirty foreign

theorem IsTracked.exists_read (tracked : IsTracked path encoding spoilt stored files) :
    ∃ bytes, files.read path = .ok bytes := by
  have inFile := tracked.inFile
  cases spoilt with
  | true => exact ⟨[], inFile⟩
  | false =>
      obtain ⟨disk, onDisk, -⟩ := FileTree.readText_eq_ok_iff.mp inFile
      obtain ⟨bytes, read, -⟩ := FileTree.diskText_eq_ok_iff.mp onDisk
      exact ⟨bytes, read⟩

theorem IsTracked.write (tracked : IsTracked path encoding spoilt stored files)
    (settled : path.IsResolved) (bytes : List UInt8) :
    files.ChangesOnlyAt path (files.write stored.path.names bytes) ∧
      (files.write stored.path.names bytes).read path = .ok bytes := by
  obtain ⟨old, read⟩ := tracked.exists_read
  rw [tracked.path_eq]
  exact FileTree.write_of_read settled read bytes

theorem IsTracked.written {bytes : List UInt8}
    (tracked : IsTracked path encoding spoilt stored files) (settled : path.IsResolved)
    (encoded : stored.encoding.encode? stored.document.text = some bytes) :
    IsTracked path encoding false { stored with savedText := stored.document.text }
      (files.write stored.path.names bytes) where
  path_eq := tracked.path_eq
  encoding_eq := tracked.encoding_eq
  inFile := by
    rw [tracked.encoding_eq] at encoded
    have onDisk := FileTree.diskText_eq_ok_iff.mpr
      ⟨bytes, (tracked.write settled bytes).2, encoding.decode_of_encode? encoded⟩
    exact FileTree.readText_eq_ok_iff.mpr ⟨_, onDisk, rfl⟩

theorem IsTracked.lost (tracked : IsTracked path encoding spoilt stored files)
    (settled : path.IsResolved) :
    IsTracked path encoding true stored (files.write stored.path.names []) :=
  ⟨tracked.path_eq, tracked.encoding_eq, (tracked.write settled []).2⟩

theorem IsOpened.tracked {disk : Text} (known : IsOpened tree encoding disk opened) :
    IsTracked opened.path encoding false opened tree where
  path_eq := rfl
  encoding_eq := known.encoding_eq
  inFile := by
    refine FileTree.readText_eq_ok_iff.mpr ⟨disk, known.onDisk, ?_⟩
    rw [known.saved, known.text, Text.uniformLineEnds_uniformLineEnds]

theorem IsTracked.save (tracked : IsTracked path encoding spoilt stored files)
    (settled : path.IsResolved) :
    IsTracked path encoding ((stored.save files).1.leavesSpoilt spoilt) (stored.save files).2.1
      (stored.save files).2.2 := by
  have saves := saves_save stored files
  generalize stored.save files = saving at saves
  cases saves with
  | unchanged => exact tracked
  | written _ encoded => exact tracked.written settled encoded
  | lost => exact tracked.lost settled

theorem Reachable.tracked {disk : Text} (reachable : Reachable opened tree spoilt stored files)
    (known : IsOpened tree encoding disk opened) :
    IsTracked opened.path encoding spoilt stored files := by
  induction reachable with
  | opened => exact known.tracked
  | edited _ _ ih => exact ⟨ih.path_eq, ih.encoding_eq, ih.inFile⟩
  | saved _ ih => exact ih.save known.settled

/-- What a save does to the document and the file, whatever edits and saves came before it. One that
fails leaves the document as it is, and the file without its content. -/
theorem save_outcome (loaded : load tree encoding languageId given = .ok opened)
    (reachable : Reachable opened tree spoilt stored files) :
    let saving := stored.save files
    let saved := saving.2.1
    let after := saving.2.2
    files.ChangesOnlyAt opened.path after ∧ saved.document = stored.document ∧
      (match saving.1 with
        | .unchanged => stored.isDirty = false ∧ saved = stored ∧ after = files
        | .written =>
            stored.isDirty = true ∧ saved.isDirty = false ∧
              ∃ bytes, encoding.encode? stored.document.text = some bytes ∧
                after.read opened.path = .ok bytes
        | .unencodable =>
            stored.isDirty = true ∧ saved = stored ∧
              (∃ char ∈ stored.document.text, encoding.encode? [char] = none) ∧
              after.read opened.path = .ok [] ∧
              (after.read opened.path = files.read opened.path ↔
                files.read opened.path = .ok [])) ∧
      if spoilt then files.read opened.path = .ok []
      else files.readText encoding opened.path = .ok stored.savedText.uniformLineEnds := by
  obtain ⟨disk, known⟩ := isOpened_of_load loaded
  have tracked := reachable.tracked known
  have saves := saves_save stored files
  dsimp only
  generalize stored.save files = saving at saves ⊢
  cases saves with
  | unchanged clean =>
      exact ⟨.refl files opened.path, rfl, ⟨clean, rfl, rfl⟩, tracked.inFile⟩
  | written dirty encoded =>
      obtain ⟨frame, read⟩ := tracked.write known.settled _
      rw [tracked.encoding_eq] at encoded
      exact ⟨frame, rfl, ⟨dirty, by simp [isDirty], _, encoded, read⟩, tracked.inFile⟩
  | lost dirty foreign =>
      obtain ⟨frame, read⟩ := tracked.write known.settled []
      rw [tracked.encoding_eq, encoding.encode?_eq_none_iff] at foreign
      refine ⟨frame, rfl, ⟨dirty, rfl, foreign, read, ?_⟩, tracked.inFile⟩
      rw [read, eq_comm]

def cafeTree : FileTree where
  files := [(["note"], [0x23, 0x20, 0x75, 0x6E, 0x20, 0x63, 0x61, 0x66, 0xE9])]

def cafeNote (text : Text) : StoredDocument :=
  { openedNote "# un café" with encoding := .latin1, document := noteDocument text }

theorem load_cafeTree :
    load cafeTree .latin1 (some Document.plainLanguage) ⟨[], ["note"]⟩ =
      .ok (cafeNote "# un café") :=
  rfl

theorem reachable_foreignCafe :
    Reachable (cafeNote "# un café") cafeTree false (cafeNote "# un œuf") cafeTree := by
  -- The new word has a letter that the encoding lacks.
  have taken : (cafeNote "# un café").document.replaceRanges? [⟨⟨⟨0, 5⟩, ⟨0, 9⟩⟩, "œuf"⟩] =
      some (noteDocument "# un œuf") := by decide
  exact .edited .opened taken

/-- Behind a save that failed the word is put back: nothing is left to save, and the file is empty. -/
theorem save_outcome_revertedCafe :
    Reachable (cafeNote "# un café") cafeTree true (cafeNote "# un café")
        (cafeTree.write ["note"] []) ∧
      (cafeNote "# un café").isDirty = false ∧
      (cafeTree.write ["note"] []).read (cafeNote "# un café").path = .ok [] := by
  have lost : (cafeNote "# un œuf").save cafeTree =
      (.unencodable, cafeNote "# un œuf", cafeTree.write ["note"] []) := rfl
  have failed := reachable_foreignCafe.saved
  rw [lost] at failed
  have taken : (cafeNote "# un œuf").document.replaceRanges? [⟨⟨⟨0, 5⟩, ⟨0, 8⟩⟩, "café"⟩] =
      some (noteDocument "# un café") := by decide
  have reverted := failed.edited taken
  obtain ⟨-, -, outcome, empty⟩ := save_outcome load_cafeTree reverted
  exact ⟨reverted, outcome.1, empty⟩

/-- A save that fails takes the content of the file with it. -/
theorem not_forall_read_save_eq :
    ¬ ∀ (tree files : FileTree) (encoding : Encoding) (languageId : Option Text) (given : Path)
      (opened stored : StoredDocument) (spoilt : Bool),
      load tree encoding languageId given = .ok opened →
      Reachable opened tree spoilt stored files →
      (stored.save files).1 = .unencodable →
      (stored.save files).2.2.read opened.path = files.read opened.path := by
  intro kept
  have lost : ((cafeNote "# un œuf").save cafeTree).1 = .unencodable := by decide
  have same := kept _ _ _ _ _ _ _ _ load_cafeTree reachable_foreignCafe lost
  exact absurd same (by decide)

end Saves

end StoredDocument

end CodeProse
