import CodeProse.Document.Stored
import CodeProse.Proofs.Document.Batch
import CodeProse.Proofs.Files.Tree
import CodeProse.Proofs.Text.Encoding
import CodeProse.Proofs.Text.LineEnds

/-!
# Saving an edited document

A document is edited in a text with uniform line ends, and that text is what saving writes. On
the disk the edited stretches are meant to be all that changes. So it is exactly where no carriage
return stands outside of them and the edits replace their ranges at once: every other line end is
written as a line feed.
-/

set_option autoImplicit false

namespace CodeProse

/-- What stands on the disk for the character at an offset, unless an edit replaces it. -/
def keptOnDisk (disk : Text) (edits : List OffsetEdit) (place : Nat) : Text :=
  if edits.any (·.covers place) then [] else disk.units[place]?.getD []

/-- What stands on the disk where an offset was when only the ranges of the edits are replaced. -/
def replacedOnDiskAt (disk : Text) (edits : List OffsetEdit) (inserted : List Text) (place : Nat) :
    Text :=
  inserted.flatten ++ (rewrittenAt edits place).flatten ++ keptOnDisk disk edits place

/-- A text on the disk is cut at the ends of all edits at once, and everything outside the edited
ranges stays as it stands there, line ends included. The offsets are those of the text with
uniform line ends. -/
def ReplacedOnDisk (disk : Text) (edits : List OffsetEdit) (after : Text) : Prop :=
  ∃ order : Nat → List Text, (∀ place, (order place).Perm (insertedAt edits place)) ∧
    after = (List.range (disk.units.length + 1)).flatMap fun place =>
      replacedOnDiskAt disk edits (order place) place

/-- Whether every carriage return of a text on the disk stands in the range of an edit. -/
def IsUniformOutside (disk : Text) (edits : List OffsetEdit) : Prop :=
  ∀ place < disk.units.length, .scalar '\r' ∉ keptOnDisk disk edits place

instance (disk : Text) (edits : List OffsetEdit) : Decidable (IsUniformOutside disk edits) :=
  inferInstanceAs (Decidable (∀ place < disk.units.length, .scalar '\r' ∉ keptOnDisk disk edits place))

section Disk

variable {disk after : Text} {edits : List OffsetEdit} {place : Nat}

/-- What is kept on the disk stands for the character kept in the text. -/
theorem keptOnDisk_cases (disk : Text) (edits : List OffsetEdit) (place : Nat) :
    keptOnDisk disk edits place = [] ∧ keptAt disk.uniformLineEnds edits place = [] ∨
      place < disk.units.length ∧ edits.any (·.covers place) = false ∧
        ∃ char, Text.IsUnit (keptOnDisk disk edits place) char ∧
          keptAt disk.uniformLineEnds edits place = [char] := by
  rw [keptOnDisk, keptAt]
  cases covered : edits.any (·.covers place) with
  | true => exact Or.inl ⟨rfl, rfl⟩
  | false =>
      by_cases within : place < disk.units.length
      · have char : place < disk.uniformLineEnds.length := disk.length_units ▸ within
        refine Or.inr ⟨within, rfl, disk.uniformLineEnds[place], ?_, ?_⟩
        · rw [List.getElem?_eq_getElem within]
          exact List.Forall₂.get disk.forall₂_units within char
        · rw [List.getElem?_eq_getElem char]
          rfl
      · have beyond : disk.uniformLineEnds.length ≤ place :=
          disk.length_units ▸ Nat.le_of_not_lt within
        refine Or.inl ⟨?_, ?_⟩
        · rw [List.getElem?_eq_none (Nat.le_of_not_lt within)]
          rfl
        · rw [List.getElem?_eq_none beyond]
          rfl

theorem keptOnDisk_eq_keptAt (clear : .scalar '\r' ∉ keptOnDisk disk edits place) :
    keptOnDisk disk edits place = keptAt disk.uniformLineEnds edits place := by
  rcases keptOnDisk_cases disk edits place with ⟨gone, none⟩ | ⟨-, -, char, unit, one⟩
  · rw [gone, none]
  · rw [unit.eq_singleton clear, one]

theorem length_keptAt_le (disk : Text) (edits : List OffsetEdit) (place : Nat) :
    (keptAt disk.uniformLineEnds edits place).length ≤ (keptOnDisk disk edits place).length := by
  rcases keptOnDisk_cases disk edits place with ⟨-, none⟩ | ⟨-, -, char, unit, one⟩
  · rw [none]
    exact Nat.zero_le _
  · rw [one]
    exact unit.length_pos

theorem IsUniformOutside.notMem (uniform : IsUniformOutside disk edits) (place : Nat) :
    .scalar '\r' ∉ keptOnDisk disk edits place := by
  rcases keptOnDisk_cases disk edits place with ⟨gone, -⟩ | ⟨within, -⟩
  · rw [gone]
    exact List.not_mem_nil
  · exact uniform place within

theorem isUniformOutside_of_notMem (clear : .scalar '\r' ∉ disk) : IsUniformOutside disk edits := by
  intro place within rough
  rw [keptOnDisk] at rough
  split at rough
  · cases rough
  · rw [List.getElem?_eq_getElem within, Option.getD_some] at rough
    refine clear ?_
    rw [← disk.flatten_units]
    exact List.mem_flatten.mpr ⟨_, List.getElem_mem within, rough⟩

theorem replacedOnDisk_iff_of_isUniformOutside (uniform : IsUniformOutside disk edits) :
    ReplacedOnDisk disk edits after ↔ ReplacedAtOnce disk.uniformLineEnds edits after := by
  have pieces : ∀ inserted place, replacedOnDiskAt disk edits inserted place =
      replacedAt disk.uniformLineEnds edits inserted place := by
    intro inserted place
    rw [replacedOnDiskAt, replacedAt, keptOnDisk_eq_keptAt (uniform.notMem place)]
  simp only [ReplacedOnDisk, ReplacedAtOnce, pieces, disk.length_units]

end Disk

section AtOnce

variable {disk : Text} {edits : List OffsetEdit}

/-- No piece of the edited text is longer than what should stand in its place on the disk. -/
theorem length_carriedOutAt_le {order : List Text} {place : Nat}
    (apart : edits.Pairwise fun left right => ¬ left.Overlaps right)
    (within : ∀ edit ∈ edits, edit.stop ≤ disk.uniformLineEnds.length)
    (same : order.Perm (insertedAt edits place)) :
    (carriedOutAt disk.uniformLineEnds (inDocumentOrder edits) place).length ≤
      (replacedOnDiskAt disk edits order place).length := by
  have kept := length_keptAt_le disk edits place
  rw [length_carriedOutAt apart within same, replacedAt, replacedOnDiskAt]
  simp only [List.length_append]
  omega

/-- Where a piece of the edited text is what should stand on the disk, no carriage
return is kept. -/
theorem notMem_keptOnDisk_of_carriedOutAt_eq {order : List Text} {place : Nat}
    (same : order.Perm (insertedAt edits place))
    (here : carriedOutAt disk.uniformLineEnds (inDocumentOrder edits) place =
      replacedOnDiskAt disk edits order place) : .scalar '\r' ∉ keptOnDisk disk edits place := by
  intro rough
  rcases keptOnDisk_cases disk edits place with ⟨gone, -⟩ | ⟨-, free, char, unit, one⟩
  · rw [gone] at rough
    cases rough
  · have none : ∀ edit ∈ edits, ¬ edit.rewritesAt place = true := by
      intro edit member rewrites
      have covered := OffsetEdit.covers_of_rewritesAt rewrites
      exact List.any_eq_false.mp free edit member covered
    have plain : rewrittenAt edits place = [] := by
      rw [rewrittenAt, List.filter_eq_nil_iff.mpr none, List.map_nil]
    rw [carriedOutAt_of_forall_not none, replacedAt, replacedOnDiskAt, plain, one,
      unit.char_eq rough] at here
    -- The insertions take the same room on both sides, so the line feed is what was kept.
    have turned := (List.reverse_perm (insertedAt edits place)).trans same.symm
    have kept := List.append_inj_right here (by simp [turned.flatten.length_eq])
    rw [← kept] at rough
    exact absurd rough (by decide)

/-- Edits of the text with uniform line ends replace their ranges on the disk, and nothing else,
exactly if no carriage return stands outside of them and every rewritten stretch keeps what is
inserted at its start. -/
theorem replacedOnDisk_applyEdits_iff
    (apart : edits.Pairwise fun left right => ¬ left.Overlaps right)
    (ends : ∀ edit ∈ edits,
      0 ≤ edit.start ∧ edit.start ≤ edit.stop ∧ edit.stop ≤ disk.uniformLineEnds.length) :
    ReplacedOnDisk disk edits (applyEdits disk.uniformLineEnds (inDocumentOrder edits)) ↔
      IsUniformOutside disk edits ∧ ∀ edit ∈ edits, edit.start < edit.stop →
        KeepsInsertions disk.uniformLineEnds edits edit := by
  have within : ∀ edit ∈ edits, edit.stop ≤ disk.uniformLineEnds.length := fun edit member =>
    (ends edit member).2.2
  constructor
  · intro replaced
    have uniform : IsUniformOutside disk edits := by
      obtain ⟨order, same, after⟩ := replaced
      rw [applyEdits_inDocumentOrder apart ends, ← disk.length_units] at after
      have pieces := forall_eq_of_flatMap_eq
        (fun place _ => length_carriedOutAt_le apart within (same place)) after
      intro place reached
      exact notMem_keptOnDisk_of_carriedOutAt_eq (same place)
        (pieces place (List.mem_range.mpr (Nat.lt_succ_of_lt reached)))
    have atOnce := (replacedOnDisk_iff_of_isUniformOutside uniform).mp replaced
    exact ⟨uniform, (replacedAtOnce_applyEdits_iff apart ends).mp atOnce⟩
  · rintro ⟨uniform, keeps⟩
    exact (replacedOnDisk_iff_of_isUniformOutside uniform).mpr
      ((replacedAtOnce_applyEdits_iff apart ends).mpr keeps)

/-- What leaves nothing on the disk leaves nothing of the text. -/
theorem applyEdits_eq_nil_of_replacedOnDisk
    (apart : edits.Pairwise fun left right => ¬ left.Overlaps right)
    (ends : ∀ edit ∈ edits,
      0 ≤ edit.start ∧ edit.start ≤ edit.stop ∧ edit.stop ≤ disk.uniformLineEnds.length)
    (nothing : ReplacedOnDisk disk edits []) :
    applyEdits disk.uniformLineEnds (inDocumentOrder edits) = [] := by
  obtain ⟨order, same, gone⟩ := nothing
  rw [applyEdits_inDocumentOrder apart ends, ← disk.length_units, List.flatMap_eq_nil_iff]
  intro place member
  have piece := List.flatMap_eq_nil_iff.mp gone.symm place member
  have within : ∀ edit ∈ edits, edit.stop ≤ disk.uniformLineEnds.length := fun edit member =>
    (ends edit member).2.2
  have short := length_carriedOutAt_le apart within (same place)
  rw [piece] at short
  exact List.length_eq_zero_iff.mp (Nat.le_zero.mp short)

end AtOnce

/-- The text of a file as it stands on the disk. -/
def FileTree.diskText (tree : FileTree) (encoding : Encoding) (path : Path) :
    Except OpenFault Text := do
  let bytes ← (tree.read path).mapError OpenFault.file
  (encoding.decode bytes).mapError OpenFault.undecodable

section Files

variable {tree : FileTree} {encoding : Encoding} {languageId : Option Text} {path : Path}
  {stored : StoredDocument}

theorem FileTree.diskText_eq_ok_iff {disk : Text} : tree.diskText encoding path = .ok disk ↔
    ∃ bytes, tree.read path = .ok bytes ∧ encoding.decode bytes = .ok disk := by
  simp only [diskText, bind_eq_ok_iff, mapError_eq_ok_iff]

theorem FileTree.readText_eq_ok_iff {text : Text} : tree.readText encoding path = .ok text ↔
    ∃ disk, tree.diskText encoding path = .ok disk ∧ disk.uniformLineEnds = text := by
  simp only [readText, diskText, bind_eq_ok_iff, mapError_eq_ok_iff]
  constructor
  · rintro ⟨bytes, read, disk, decoded, uniform⟩
    exact ⟨disk, ⟨bytes, read, decoded⟩, Except.ok.inj uniform⟩
  · rintro ⟨disk, ⟨bytes, read, decoded⟩, uniform⟩
    exact ⟨bytes, read, disk, decoded, congrArg Except.ok uniform⟩

namespace StoredDocument

/-- A document as it is opened: its path leads straight to the file, and its text is that on the
disk with uniform line ends. -/
structure IsOpened (tree : FileTree) (encoding : Encoding) (disk : Text) (stored : StoredDocument) :
    Prop where
  settled : stored.path.IsResolved
  encoding_eq : stored.encoding = encoding
  saved : stored.savedText = stored.document.text
  onDisk : tree.diskText encoding stored.path = .ok disk
  text : stored.document.text = disk.uniformLineEnds

theorem isOpened_of_load (loaded : load tree encoding languageId path = .ok stored) :
    ∃ disk, IsOpened tree encoding disk stored := by
  rw [load, bind_eq_ok_iff] at loaded
  obtain ⟨whole, resolved, loaded⟩ := loaded
  rw [mapError_eq_ok_iff, bind_eq_ok_iff] at resolved
  obtain ⟨expanded, -, resolved⟩ := resolved
  rw [bind_eq_ok_iff] at loaded
  obtain ⟨text, read, loaded⟩ := loaded
  obtain ⟨disk, onDisk, uniform⟩ := FileTree.readText_eq_ok_iff.mp read
  cases loaded
  exact ⟨disk, FileTree.isResolved_of_resolve resolved, rfl, rfl, onDisk, uniform.symm⟩

variable {disk : Text}

/-- Writing to the file of an opened document is read back, and nothing else changes. -/
theorem IsOpened.write (opened : IsOpened tree encoding disk stored) (bytes : List UInt8) :
    tree.ChangesOnlyAt stored.path (tree.write stored.path.names bytes) ∧
      (tree.write stored.path.names bytes).read stored.path = .ok bytes := by
  obtain ⟨old, read, -⟩ := FileTree.diskText_eq_ok_iff.mp opened.onDisk
  exact FileTree.write_of_read opened.settled read bytes

end StoredDocument

end Files

section Saving

variable {tree : FileTree} {encoding : Encoding} {languageId : Option Text} {path : Path}
  {stored : StoredDocument} {edits : List Edit} {after : Document}

/-- A batch that an opened document takes is carried out in the text of the disk with uniform line
ends. -/
theorem StoredDocument.IsOpened.replaced {disk : Text} (opened : IsOpened tree encoding disk stored)
    (taken : stored.document.replaceRanges? edits = some after) :
    let batch := edits.map (Edit.clamp stored.document.text)
    (batch.Pairwise fun left right => ¬ left.Overlaps right) ∧
      (∀ edit ∈ batch,
        0 ≤ edit.start ∧ edit.start ≤ edit.stop ∧ edit.stop ≤ disk.uniformLineEnds.length) ∧
      after.text = applyEdits disk.uniformLineEnds (inDocumentOrder batch) := by
  obtain ⟨-, text, replaced, rfl⟩ := Document.replaceRanges?_eq_some_iff_writable.mp taken
  obtain ⟨⟨fit, apart⟩, shape⟩ := replaceRanges?_eq_some_iff.mp replaced
  rw [← opened.text]
  exact ⟨(pairwise_overlaps_clamp fit).mpr apart, ends_clamp fit, shape⟩

theorem StoredDocument.IsOpened.save_eq {disk : Text} (opened : IsOpened tree encoding disk stored)
    (after : Document) : save { stored with document := after } tree =
      if after.text = stored.document.text then
        (.unchanged, { stored with document := after }, tree)
      else
        match encoding.encode? after.text with
        | some bytes =>
            (.written, { stored with document := after, savedText := after.text },
              tree.write stored.path.names bytes)
        | none =>
            (.unencodable, { stored with document := after },
              tree.write stored.path.names []) := by
  rw [save, isDirty, opened.saved, opened.encoding_eq]
  by_cases same : after.text = stored.document.text
  · simp [same]
  · cases encoding.encode? after.text <;> simp [same]

/-- For every tree, every document opened from it and every batch that the document takes, saving
changes nothing but the file of the document. A text that is as it was is not written. One that the
encoding cannot express is lost, with the file left empty. Any other text is what the file holds
then: the text of the disk with only the ranges replaced, exactly if no carriage return stands
outside of them and every rewritten stretch keeps what is inserted at its start. So it always is
where the disk has no carriage returns and nothing is inserted at the start of a stretch. -/
theorem StoredDocument.save_spec (loaded : load tree encoding languageId path = .ok stored)
    (taken : stored.document.replaceRanges? edits = some after) :
    ∃ disk, tree.diskText encoding stored.path = .ok disk ∧
      stored.document.text = disk.uniformLineEnds ∧
      let batch := edits.map (Edit.clamp stored.document.text)
      let saving := save { stored with document := after } tree
      let saved := saving.2.2
      tree.ChangesOnlyAt stored.path saved ∧
      (match saving.1 with
        | .unchanged => after.text = stored.document.text ∧ saved = tree
        | .written =>
            after.text ≠ stored.document.text ∧
              saved.diskText encoding stored.path = .ok after.text ∧
              (ReplacedOnDisk disk batch after.text ↔ IsUniformOutside disk batch ∧
                ∀ edit ∈ batch, edit.start < edit.stop →
                  KeepsInsertions disk.uniformLineEnds batch edit)
        | .unencodable =>
            encoding.encode? after.text = none ∧ saved.read stored.path = .ok [] ∧
              ¬ ReplacedOnDisk disk batch []) ∧
      (.scalar '\r' ∉ disk →
        (∀ edit ∈ batch, edit.start < edit.stop →
          ∀ inserted ∈ insertedAt batch edit.start.toNat, inserted = []) →
        saving.1 ≠ .unencodable →
        ∃ final, saved.diskText encoding stored.path = .ok final ∧
          ReplacedOnDisk disk batch final) := by
  obtain ⟨disk, opened⟩ := isOpened_of_load loaded
  obtain ⟨apart, ends, shape⟩ := opened.replaced taken
  refine ⟨disk, opened.onDisk, opened.text, ?_⟩
  intro batch saving saved
  have replaced := replacedOnDisk_applyEdits_iff apart ends
  rw [← shape] at replaced
  have smooth : .scalar '\r' ∉ disk →
      (∀ edit ∈ batch, edit.start < edit.stop →
        ∀ inserted ∈ insertedAt batch edit.start.toNat, inserted = []) →
      ReplacedOnDisk disk batch after.text := fun clear empty =>
    replaced.mpr ⟨isUniformOutside_of_notMem clear, fun edit member extent =>
      .of_forall_empty (ends edit member).2.2 (empty edit member extent)⟩
  by_cases same : after.text = stored.document.text
  · have unwritten := opened.save_eq after
    rw [if_pos same] at unwritten
    simp only [saved, saving, unwritten]
    refine ⟨.refl tree stored.path, ⟨same, trivial⟩, fun clear empty _ => ⟨disk, opened.onDisk, ?_⟩⟩
    have final := smooth clear empty
    rwa [same, opened.text, Text.uniformLineEnds_of_notMem clear] at final
  · cases encoded : encoding.encode? after.text with
    | some bytes =>
        have written := opened.save_eq after
        simp only [if_neg same, encoded] at written
        simp only [saved, saving, written]
        obtain ⟨frame, read⟩ := opened.write bytes
        have onDisk := FileTree.diskText_eq_ok_iff.mpr
          ⟨bytes, read, encoding.decode_of_encode? encoded⟩
        exact ⟨frame, ⟨same, onDisk, replaced⟩, fun clear empty _ =>
          ⟨_, onDisk, smooth clear empty⟩⟩
    | none =>
        have lost := opened.save_eq after
        simp only [if_neg same, encoded] at lost
        simp only [saved, saving, lost]
        obtain ⟨frame, read⟩ := opened.write []
        refine ⟨frame, ⟨trivial, read, fun nothing => ?_⟩, fun _ _ impossible => ?_⟩
        · -- An edited text that should leave nothing is empty, and that can be written.
          rw [shape, applyEdits_eq_nil_of_replacedOnDisk apart ends nothing] at encoded
          obtain ⟨char, none, -⟩ := encoding.encode?_eq_none_iff.mp encoded
          cases none
        · exact absurd rfl impossible

def noteTree (disk : Text) : FileTree where
  files := [(["note"], disk.toUtf8?.getD [])]

def noteDocument (text : Text) : Document where
  identity := "/note"
  languageId := Document.plainLanguage
  text

def openedNote (disk : Text) : StoredDocument where
  path := ⟨"/", ["note"]⟩
  encoding := .utf8
  document := noteDocument disk.uniformLineEnds
  savedText := disk.uniformLineEnds

/-- A line end of two characters inside the stretch that an edit rewrites. -/
def splitNote : Text := "teh\r\ncat\n"

def joiningEdits : List Edit :=
  [⟨⟨⟨0, 1⟩, ⟨1, 0⟩⟩, "he "⟩]

theorem StoredDocument.save_spec_splitNote :
    (save { openedNote splitNote with document := noteDocument "the cat\n" }
        (noteTree splitNote)).2.2.diskText .utf8 (openedNote splitNote).path =
      .ok "the cat\n".toText ∧
    ReplacedOnDisk splitNote (joiningEdits.map (Edit.clamp splitNote.uniformLineEnds))
      "the cat\n" := by
  have loaded : load (noteTree splitNote) .utf8 (some Document.plainLanguage) ⟨[], ["note"]⟩ =
      .ok (openedNote splitNote) := rfl
  have taken : (openedNote splitNote).document.replaceRanges? joiningEdits =
      some (noteDocument "the cat\n") := by decide
  have written : (save { openedNote splitNote with document := noteDocument "the cat\n" }
      (noteTree splitNote)).1 = .written := by decide
  obtain ⟨disk, onDisk, -, -, outcome, -⟩ := save_spec loaded taken
  have known : (noteTree splitNote).diskText .utf8 (openedNote splitNote).path =
      .ok splitNote := by decide
  cases Except.ok.inj (onDisk.symm.trans known)
  simp only [written] at outcome
  obtain ⟨-, final, replaced⟩ := outcome
  refine ⟨final, replaced.mpr ⟨by decide, fun edit member _ => ?_⟩⟩
  have plain : ∀ edit ∈ joiningEdits.map (Edit.clamp splitNote.uniformLineEnds),
      edit.stop ≤ splitNote.uniformLineEnds.length ∧
        insertedAt (joiningEdits.map (Edit.clamp splitNote.uniformLineEnds)) edit.start.toNat =
          [] := by decide
  obtain ⟨within, none⟩ := plain edit member
  refine .of_forall_empty within fun inserted listed => ?_
  exact absurd (none ▸ listed) List.not_mem_nil

/-- A line that is not edited, and one in which a word is. -/
def twoLineNote : Text := "x = 1\r\n# teh cat\r\n"

def wordEdits : List Edit :=
  [⟨⟨⟨1, 2⟩, ⟨1, 5⟩⟩, "the"⟩]

/-- Line ends outside of the edited ranges are rewritten when a document is saved. -/
theorem StoredDocument.not_forall_replacedOnDisk :
    ¬ ∀ (tree : FileTree) (encoding : Encoding) (languageId : Option Text) (path : Path)
      (stored : StoredDocument) (edits : List Edit) (after : Document) (disk : Text),
      load tree encoding languageId path = .ok stored →
      stored.document.replaceRanges? edits = some after →
      tree.diskText encoding stored.path = .ok disk →
      ∃ final, (save { stored with document := after } tree).2.2.diskText encoding stored.path =
          .ok final ∧
        ReplacedOnDisk disk (edits.map (Edit.clamp stored.document.text)) final := by
  intro law
  obtain ⟨final, onDisk, replaced⟩ := law (noteTree twoLineNote) .utf8
    (some Document.plainLanguage) ⟨[], ["note"]⟩ (openedNote twoLineNote) wordEdits
    (noteDocument "x = 1\n# the cat\n") twoLineNote rfl (by decide) (by decide)
  have known : (save { openedNote twoLineNote with document := noteDocument "x = 1\n# the cat\n" }
      (noteTree twoLineNote)).2.2.diskText .utf8 (openedNote twoLineNote).path =
        .ok (applyEdits twoLineNote.uniformLineEnds (inDocumentOrder
          (wordEdits.map (Edit.clamp twoLineNote.uniformLineEnds)))) := by decide
  cases Except.ok.inj (onDisk.symm.trans known)
  have uniform := ((replacedOnDisk_applyEdits_iff (by decide) (by decide)).mp replaced).1
  exact absurd uniform (by decide)

end Saving

end CodeProse
