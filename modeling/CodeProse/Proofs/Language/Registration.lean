import CodeProse.Prose.Extraction
import CodeProse.Proofs.Sequence

/-!
# Laws of registration

A registry lists its ids in the order in which they were first registered, and holds under each id
the definition registered last. A short form is written out before it is looked up, so that this
definition is the one by which lines and codes are read under an id that is no short form, and under
the short forms of a registered id.
-/

set_option autoImplicit false

namespace CodeProse

/-- The last definition with an id, of some that were registered one after the other. -/
def LastUnder (history : List LanguageDefinition) (id : Text) (definition : LanguageDefinition) :
    Prop :=
  ∃ front back, history = front ++ definition :: back ∧ definition.id = id ∧
    ∀ later ∈ back, later.id ≠ id

section Histories

variable {history : List LanguageDefinition} {id : Text} {definition added : LanguageDefinition}

theorem not_lastUnder_nil : ¬ LastUnder [] id definition := by
  rintro ⟨front, back, whole, -, -⟩
  exact List.append_ne_nil_of_right_ne_nil front (List.cons_ne_nil definition back) whole.symm

theorem lastUnder_concat_self (own : added.id = id) :
    LastUnder (history ++ [added]) id definition ↔ definition = added := by
  constructor
  · rintro ⟨front, back, whole, -, last⟩
    rcases List.eq_nil_or_concat back with rfl | ⟨inner, later, rfl⟩
    · exact (List.append_singleton_inj.mp whole).2.symm
    · -- Behind another definition the one that comes has a different id.
      rw [List.concat_eq_append, ← List.cons_append, ← List.append_assoc] at whole
      obtain rfl := (List.append_singleton_inj.mp whole).2
      exact absurd own (last added (by simp))
  · rintro rfl
    exact ⟨history, [], rfl, own, fun later member => absurd member List.not_mem_nil⟩

theorem lastUnder_concat_of_ne (other : added.id ≠ id) :
    LastUnder (history ++ [added]) id definition ↔ LastUnder history id definition := by
  constructor
  · rintro ⟨front, back, whole, own, last⟩
    rcases List.eq_nil_or_concat back with rfl | ⟨inner, later, rfl⟩
    · obtain rfl := (List.append_singleton_inj.mp whole).2
      exact absurd own other
    · rw [List.concat_eq_append, ← List.cons_append, ← List.append_assoc] at whole
      obtain ⟨rfl, rfl⟩ := List.append_singleton_inj.mp whole
      exact ⟨front, inner, rfl, own, fun next member => last next (by simp [member])⟩
  · rintro ⟨front, back, rfl, own, last⟩
    refine ⟨front, back ++ [added], by simp, own, fun later member => ?_⟩
    rcases List.mem_append.mp member with before | added
    · exact last later before
    · rwa [List.mem_singleton.mp added]

end Histories

section Aliases

variable {name short id : Text}

theorem expandAlias_of_not_mem (whole : name ∉ languageAliases.map Prod.fst) :
    expandAlias name = name := by
  have unknown : languageAliases.lookup name = none := by
    refine List.lookup_eq_none_iff.mpr fun entry member => bne_iff_ne.mpr fun same => whole ?_
    exact List.mem_map.mpr ⟨entry, member, same.symm⟩
  rw [expandAlias, unknown, Option.getD_none]

theorem expandAlias_of_mem (shortens : (short, id) ∈ languageAliases) : expandAlias short = id := by
  have distinct : (languageAliases.map Prod.fst).Nodup := by decide
  rw [expandAlias, lookup_eq_some_of_mem distinct shortens, Option.getD_some]

theorem ne_autoLanguage_of_mem (shortens : (short, id) ∈ languageAliases) :
    short ≠ autoLanguage := by
  have apart : ∀ entry ∈ languageAliases, entry.1 ≠ autoLanguage := by decide
  exact apart (short, id) shortens

end Aliases

namespace Registry

variable {registry : Registry} {history : List LanguageDefinition}
  {definition : LanguageDefinition} {id name : Text}

section Registering

theorem get?_register_self (registry : Registry) (definition : LanguageDefinition) :
    (registry.register definition).get? definition.id = some definition := by
  obtain ⟨definitions⟩ := registry
  simp only [register, get?]
  induction definitions with
  | nil => exact List.find?_cons_of_pos (decide_eq_true rfl)
  | cons other rest ih =>
      rw [placeDefinition]
      split
      · exact List.find?_cons_of_pos (decide_eq_true rfl)
      · next different => rw [List.find?_cons_of_neg (by simpa using different), ih]

theorem get?_register_of_ne (different : definition.id ≠ id) :
    (registry.register definition).get? id = registry.get? id := by
  obtain ⟨definitions⟩ := registry
  simp only [register, get?]
  induction definitions with
  | nil => exact List.find?_cons_of_neg (by simpa using different)
  | cons other rest ih =>
      rw [placeDefinition]
      split
      · next same =>
          rw [List.find?_cons_of_neg (by simpa using different),
            List.find?_cons_of_neg (by simpa [same] using different)]
      · rw [List.find?_cons, List.find?_cons, ih]

theorem ids_register_of_mem (known : definition.id ∈ registry.ids) :
    (registry.register definition).ids = registry.ids := by
  obtain ⟨definitions⟩ := registry
  simp only [register, ids] at known ⊢
  induction definitions with
  | nil => cases known
  | cons other rest ih =>
      rw [placeDefinition]
      split
      · next same => rw [List.map_cons, List.map_cons, same]
      · next different =>
          rcases List.mem_cons.mp known with same | later
          · exact absurd same.symm different
          · rw [List.map_cons, List.map_cons, ih later]

theorem ids_register_of_not_mem (fresh : definition.id ∉ registry.ids) :
    (registry.register definition).ids = registry.ids ++ [definition.id] := by
  obtain ⟨definitions⟩ := registry
  simp only [register, ids] at fresh ⊢
  induction definitions with
  | nil => rfl
  | cons other rest ih =>
      rw [List.map_cons, List.mem_cons, not_or] at fresh
      rw [placeDefinition, if_neg (Ne.symm fresh.1), List.map_cons, List.map_cons, ih fresh.2,
        List.cons_append]

/-- A registry holds what some definitions come to that are registered one after the other: each id
in the place where it comes first, and with the definition that comes last. -/
structure Holds (registry : Registry) (history : List LanguageDefinition) : Prop where
  ids_eq : registry.ids = (history.map LanguageDefinition.id).eraseDups
  get?_iff : ∀ id definition, registry.get? id = some definition ↔ LastUnder history id definition

theorem holds_empty : empty.Holds [] where
  ids_eq := rfl
  get?_iff _ _ := ⟨fun found => (nomatch found), fun last => absurd last not_lastUnder_nil⟩

theorem Holds.mem_ids_iff (holds : registry.Holds history) :
    id ∈ registry.ids ↔ id ∈ history.map LanguageDefinition.id := by
  rw [holds.ids_eq, List.mem_eraseDups]

theorem Holds.nodup_ids (holds : registry.Holds history) : registry.ids.Nodup := by
  rw [holds.ids_eq, ← map_firstOfEach_nil]
  exact nodup_keys_firstOfEach LanguageDefinition.id history []

theorem Holds.register (holds : registry.Holds history) (definition : LanguageDefinition) :
    (registry.register definition).Holds (history ++ [definition]) := by
  constructor
  case ids_eq =>
    rw [List.map_append, List.map_singleton]
    by_cases known : definition.id ∈ history.map LanguageDefinition.id
    · rw [ids_register_of_mem (holds.mem_ids_iff.mpr known), eraseDups_concat_of_mem known,
        holds.ids_eq]
    · rw [ids_register_of_not_mem (mt holds.mem_ids_iff.mp known),
        eraseDups_concat_of_not_mem known, holds.ids_eq]
  case get?_iff =>
    intro id found
    by_cases own : definition.id = id
    · rw [lastUnder_concat_self own, ← own, get?_register_self, Option.some_inj, eq_comm]
    · rw [lastUnder_concat_of_ne own, get?_register_of_ne own]
      exact holds.get?_iff id found

theorem Holds.registerAll (holds : registry.Holds history) (definitions : List LanguageDefinition) :
    (registry.registerAll definitions).Holds (history ++ definitions) := by
  induction definitions generalizing registry history with
  | nil =>
      rw [List.append_nil]
      exact holds
  | cons definition rest ih =>
      rw [List.append_cons]
      exact ih (holds.register definition)

theorem holds_ofDefinitions (definitions : Option (List LanguageDefinition)) :
    (ofDefinitions definitions).Holds (definitions.getD LanguageDefinition.builtin) :=
  holds_empty.registerAll _

end Registering

section LookingUp

theorem exists_get?_of_mem_ids (known : id ∈ registry.ids) :
    ∃ definition, registry.get? id = some definition := by
  obtain ⟨definition, member, own⟩ := List.mem_map.mp known
  exact Option.isSome_iff_exists.mp (List.find?_isSome.mpr ⟨definition, member, by simpa using own⟩)

theorem orBuiltin_of_mem_ids (known : id ∈ registry.ids) : registry.orBuiltin = registry := by
  obtain ⟨definition, member, -⟩ := List.mem_map.mp known
  rw [orBuiltin, if_neg (by simpa using List.ne_nil_of_mem member)]

theorem candidates_of_get? (single : name ≠ autoLanguage)
    (found : registry.get? (expandAlias name) = some definition) :
    registry.candidates name = [definition] := by
  have known : registry.knows name = true := by rw [knows, contains, found, Option.isSome_some]
  rw [candidates, if_neg single, resolve, if_pos known, found, Option.toList_some]

/-- A registry goes by one definition alone under a name, in telling what a line carries and in
finding the prose of a code. -/
structure GoesBy (registry : Registry) (name : Text) (definition : LanguageDefinition) : Prop where
  candidates_eq : registry.candidates name = [definition]
  classify?_eq : ∀ line, registry.classify? name line =
    if Text.isBlank line then none else definition.classify? line
  extract_eq : ∀ options origin code, extract registry name options origin code =
    extract ⟨[definition]⟩ autoLanguage options origin code

theorem goesBy_of_candidates (alone : registry.candidates name = [definition]) :
    registry.GoesBy name definition := by
  have only : (Registry.mk [definition]).candidates autoLanguage = [definition] := if_pos rfl
  have lines : registry.classify? name = (Registry.mk [definition]).classify? autoLanguage := by
    funext line
    rw [classify?, classify?, alone, only]
  have rules : registry.scanRules name = (Registry.mk [definition]).scanRules autoLanguage := by
    rw [scanRules, scanRules, alone, only, lines]
  constructor
  case candidates_eq => exact alone
  case classify?_eq =>
    intro line
    rw [classify?, alone, List.findSome?_singleton]
  case extract_eq =>
    intro options origin code
    rw [extract, extract, foundSpans, foundSpans, rules]

end LookingUp

/-- All registered ids are listed, each once and in the order of first registration. Every one of
them leads to the definition registered last under it. Lines and codes are read by this definition
alone under the id, where it is not the name for every language and no short form, and under the
short forms of the id. -/
theorem lookup_registered (initial : Option (List LanguageDefinition))
    (calls : List LanguageDefinition) :
    let history := initial.getD LanguageDefinition.builtin ++ calls
    let registry := (ofDefinitions initial).registerAll calls
    registry.ids = (history.map LanguageDefinition.id).eraseDups ∧ registry.ids.Nodup ∧
      ∀ id ∈ registry.ids, ∃ definition, LastUnder history id definition ∧
        registry.get? id = some definition ∧ registry.orBuiltin = registry ∧
        (id ≠ autoLanguage → id ∉ languageAliases.map Prod.fst → registry.GoesBy id definition) ∧
        ∀ short, (short, id) ∈ languageAliases → registry.GoesBy short definition := by
  intro history registry
  have holds : registry.Holds history := (holds_ofDefinitions initial).registerAll calls
  refine ⟨holds.ids_eq, holds.nodup_ids, fun id known => ?_⟩
  obtain ⟨definition, found⟩ := exists_get?_of_mem_ids known
  have last := (holds.get?_iff id definition).mp found
  refine ⟨definition, last, found, orBuiltin_of_mem_ids known, ?_, ?_⟩
  · intro single whole
    rw [← expandAlias_of_not_mem whole] at found
    exact goesBy_of_candidates (candidates_of_get? single found)
  · intro short shortens
    rw [← expandAlias_of_mem shortens] at found
    exact goesBy_of_candidates (candidates_of_get? (ne_autoLanguage_of_mem shortens) found)

theorem lookup_registered_secondPython :
    let python : LanguageDefinition := { id := "python", keywords := ["def"] }
    let registry := (ofDefinitions none).registerAll [{ id := "py" }, { id := "python" }, python]
    registry.ids =
        ["javascript", "typescript", "python", "java", "csharp", "php", "ruby", "go", "rust",
          "py"] ∧
      registry.get? "python" = some python ∧ registry.GoesBy "python" python ∧
      registry.GoesBy "py" python := by
  intro python registry
  obtain ⟨-, -, found⟩ := lookup_registered none [{ id := "py" }, { id := "python" }, python]
  obtain ⟨definition, -, under, -, whole, short⟩ := found "python" (by decide)
  have same : registry.get? "python" = some python := by decide
  obtain rfl : definition = python := Option.some.inj (under.symm.trans same)
  exact ⟨by decide, same, whole (by decide) (by decide), short "py" (by decide)⟩

/-- A language of its own under a short form of another one. -/
def shortPython : LanguageDefinition where
  id := "py"
  keywords := ["print"]

/-- The short form of a registered language leads to that language, also where another definition
was registered under the short form itself. -/
theorem not_forall_candidates_registered :
    ¬ ∀ (initial : Option (List LanguageDefinition)) (calls : List LanguageDefinition),
        let history := initial.getD LanguageDefinition.builtin ++ calls
        let registry := (ofDefinitions initial).registerAll calls
        registry.ids = (history.map LanguageDefinition.id).eraseDups ∧
          ∀ id ∈ registry.ids, id ≠ autoLanguage → ∃ definition, LastUnder history id definition ∧
            registry.get? id = some definition ∧ registry.candidates id = [definition] := by
  intro always
  obtain ⟨-, found⟩ := always none [shortPython]
  obtain ⟨definition, -, under, alone⟩ := found "py" (by decide) (by decide)
  have own : ((ofDefinitions none).registerAll [shortPython]).get? "py" = some shortPython := by
    decide
  have long : ((ofDefinitions none).registerAll [shortPython]).candidates "py" =
      [LanguageDefinition.python] := by
    decide
  obtain rfl : definition = shortPython := Option.some.inj (under.symm.trans own)
  have same : shortPython = LanguageDefinition.python :=
    List.singleton_inj.mp (alone.symm.trans long)
  exact absurd same (by decide)

end Registry

end CodeProse
