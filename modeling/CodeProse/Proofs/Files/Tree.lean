import CodeProse.Files.TextFile

/-!
# Laws of file trees

A write sets the bytes of one file and makes the directories above it. Where the file was there
before, paths lead where they led, so what was written is read back under the same path, and every
path that leads elsewhere reads as before.
-/

set_option autoImplicit false

namespace CodeProse

section Results

variable {ε φ α β : Type}

theorem bind_eq_ok_iff {result : Except ε α} {next : α → Except ε β} {value : β} :
    (result >>= next) = .ok value ↔ ∃ given, result = .ok given ∧ next given = .ok value := by
  cases result <;> simp [bind, Except.bind]

theorem map_eq_ok_iff {result : Except ε α} {change : α → β} {value : β} :
    result.map change = .ok value ↔ ∃ given, result = .ok given ∧ change given = value := by
  cases result <;> simp [Except.map]

theorem mapError_eq_ok_iff {result : Except ε α} {change : ε → φ} {value : α} :
    result.mapError change = .ok value ↔ result = .ok value := by
  constructor
  · intro kept
    cases result with
    | error fault => cases kept
    | ok given => cases kept; rfl
  · intro same
    rw [same]
    rfl

end Results

namespace Path

/-- Whether a path starts at a root and never leads back. -/
structure IsResolved (path : Path) : Prop where
  absolute : path.isAbsolute = true
  forward : parentName ∉ path.names

theorem parentName_notMem_resolveNames (names : List Text) : parentName ∉ resolveNames names := by
  have step : ∀ above : List Text, parentName ∉ above → parentName ∉ names.foldl
      (fun above name => if name = parentName then above.drop 1 else name :: above) above := by
    induction names with
    | nil => exact fun above clear => clear
    | cons name rest ih =>
        intro above clear
        refine ih _ ?_
        dsimp only
        split
        · exact fun member => clear (List.mem_of_mem_drop member)
        · next other =>
            intro member
            rcases List.mem_cons.mp member with back | member
            · exact other back.symm
            · exact clear member
  rw [resolveNames, List.mem_reverse]
  exact step [] List.not_mem_nil

end Path

namespace FileTree

section Paths

variable {tree : FileTree} {path resolved : Path} {place reached names : List Text}

theorem isResolved_of_resolve (found : tree.resolve path = .ok resolved) : resolved.IsResolved := by
  rw [resolve] at found
  split at found
  · cases found
  · cases found
    refine ⟨?_, Path.parentName_notMem_resolveNames _⟩
    simp only [Path.resolve, Path.join]
    split
    · next absolute => exact absolute
    · rfl

/-- Names that never lead back are followed one below the other, through directories. -/
theorem follow_eq_ok (forward : Path.parentName ∉ names)
    (followed : tree.follow place names = .ok reached) :
    reached = place ++ names ∧
      ∀ count < names.length, tree.isDirectoryAt (place ++ names.take count) = true := by
  induction names generalizing place with
  | nil =>
      cases followed
      exact ⟨(List.append_nil _).symm, fun count within => absurd within (Nat.not_lt_zero _)⟩
  | cons name rest ih =>
      simp only [List.mem_cons, not_or] at forward
      simp only [follow] at followed
      split at followed
      · cases followed
      · next directory =>
          split at followed
          · cases followed
          · rw [if_neg (Ne.symm forward.1)] at followed
            split at followed
            · obtain ⟨there, through⟩ := ih forward.2 followed
              refine ⟨by rw [there, List.append_assoc, List.singleton_append], ?_⟩
              intro count within
              cases count with
              | zero => simpa using directory
              | succ count =>
                  have below := through count (Nat.lt_of_succ_lt_succ within)
                  rwa [List.append_assoc, List.singleton_append] at below
            · cases followed

/-- A resolved path that leads somewhere leads to the place of its names. -/
theorem place_eq_ok (settled : path.IsResolved) (found : tree.place path = .ok place) :
    place = path.names ∧ ∀ above ∈ placesAbove path.names, tree.isDirectoryAt above = true := by
  rw [FileTree.place] at found
  split at found
  · cases found
  · split at found
    · cases found
    · rw [Path.join, if_pos settled.absolute] at found
      obtain ⟨there, through⟩ := follow_eq_ok settled.forward found
      refine ⟨there, fun above member => ?_⟩
      obtain ⟨count, within, rfl⟩ := List.mem_map.mp member
      exact through count (List.mem_range.mp within)

theorem read_eq_ok_iff {bytes : List UInt8} : tree.read path = .ok bytes ↔
    ∃ place, tree.place path = .ok place ∧ tree.fileAt? place = some bytes := by
  rw [read, bind_eq_ok_iff]
  refine exists_congr fun place => and_congr_right fun _ => ?_
  cases tree.fileAt? place <;> simp

end Paths

/-- Two trees in which the same paths lead to the same places. -/
structure SameLayout (tree after : FileTree) : Prop where
  workingDirectory : after.workingDirectory = tree.workingDirectory
  homes : after.homes = tree.homes
  directory : ∀ place, after.isDirectoryAt place = tree.isDirectoryAt place
  file : ∀ place, (after.fileAt? place).isSome = (tree.fileAt? place).isSome

theorem SameLayout.follow_eq {tree after : FileTree} (same : tree.SameLayout after)
    (place names : List Text) : after.follow place names = tree.follow place names := by
  induction names generalizing place with
  | nil => rfl
  | cons name rest ih =>
      simp only [follow, same.directory, same.file, ih]

theorem SameLayout.place_eq {tree after : FileTree} (same : tree.SameLayout after) (path : Path) :
    after.place path = tree.place path := by
  simp only [FileTree.place, currentPath, same.workingDirectory, same.follow_eq]

/-- A tree that differs from another in nothing but the file that a path leads to. -/
structure ChangesOnlyAt (tree : FileTree) (path : Path) (after : FileTree) : Prop
    extends SameLayout tree after where
  elsewhere : ∀ other, tree.place other ≠ tree.place path → after.read other = tree.read other

theorem ChangesOnlyAt.refl (tree : FileTree) (path : Path) : tree.ChangesOnlyAt path tree where
  workingDirectory := rfl
  homes := rfl
  directory _ := rfl
  file _ := rfl
  elsewhere _ _ := rfl

section Writing

variable {tree : FileTree} {place other : List Text} {path : Path} {bytes old : List UInt8}

theorem lookup_setFile (files : List (List Text × List UInt8)) :
    (setFile place bytes files).lookup other =
      if other = place then some bytes else files.lookup other := by
  induction files with
  | nil =>
      rw [setFile, List.lookup_cons, List.lookup_nil]
      by_cases same : other = place
      · simp [same]
      · simp [same, beq_false_of_ne same]
  | cons file rest ih =>
      obtain ⟨head, content⟩ := file
      rw [setFile]
      by_cases found : head = place
      · rw [if_pos found, List.lookup_cons, List.lookup_cons, found]
        by_cases same : other = place
        · simp [same]
        · simp [same, beq_false_of_ne same]
      · rw [if_neg found, List.lookup_cons, List.lookup_cons, ih]
        by_cases here : other = head
        · simp [here, found]
        · simp [beq_false_of_ne here]

theorem fileAt?_write : (tree.write place bytes).fileAt? other =
    if other = place then some bytes else tree.fileAt? other :=
  lookup_setFile tree.files

theorem isDirectoryAt_write : (tree.write place bytes).isDirectoryAt other = true ↔
    tree.isDirectoryAt other = true ∨ other ∈ placesAbove place := by
  simp only [isDirectoryAt, write, Bool.or_eq_true, List.contains_iff_mem, List.mem_eraseDups,
    List.mem_append]
  exact (or_congr_right or_comm).trans or_assoc.symm

theorem sameLayout_write (there : tree.fileAt? place = some old)
    (reached : ∀ above ∈ placesAbove place, tree.isDirectoryAt above = true) :
    tree.SameLayout (tree.write place bytes) where
  workingDirectory := rfl
  homes := rfl
  directory other := by
    rw [Bool.eq_iff_iff, isDirectoryAt_write]
    exact ⟨fun either => either.elim id (reached other), Or.inl⟩
  file other := by
    rw [fileAt?_write]
    split
    · next here => rw [here, there]; rfl
    · rfl

theorem read_write (there : tree.fileAt? place = some old)
    (reached : ∀ above ∈ placesAbove place, tree.isDirectoryAt above = true)
    (found : tree.place path = .ok place) : (tree.write place bytes).read path = .ok bytes := by
  have same : tree.SameLayout (tree.write place bytes) := sameLayout_write there reached
  refine read_eq_ok_iff.mpr ⟨place, (same.place_eq path).trans found, ?_⟩
  rw [fileAt?_write, if_pos rfl]

/-- Writing to a file that is there changes what its paths read, and nothing else. -/
theorem changesOnlyAt_write (there : tree.fileAt? place = some old)
    (reached : ∀ above ∈ placesAbove place, tree.isDirectoryAt above = true)
    (found : tree.place path = .ok place) :
    tree.ChangesOnlyAt path (tree.write place bytes) where
  toSameLayout := sameLayout_write there reached
  elsewhere other apart := by
    have same : tree.SameLayout (tree.write place bytes) := sameLayout_write there reached
    rw [read, read, same.place_eq]
    cases led : tree.place other with
    | error fault => rfl
    | ok reached =>
        have different : reached ≠ place := fun here => apart (led.trans (here ▸ found.symm))
        simp only [bind, Except.bind, fileAt?_write, if_neg different]

/-- Writing to a file under the path that it is read by. -/
theorem write_of_read (settled : path.IsResolved) (read : tree.read path = .ok old)
    (bytes : List UInt8) : tree.ChangesOnlyAt path (tree.write path.names bytes) ∧
      (tree.write path.names bytes).read path = .ok bytes := by
  obtain ⟨place, found, there⟩ := read_eq_ok_iff.mp read
  obtain ⟨rfl, reached⟩ := place_eq_ok settled found
  exact ⟨changesOnlyAt_write there reached found, read_write there reached found⟩

end Writing

end FileTree

end CodeProse
