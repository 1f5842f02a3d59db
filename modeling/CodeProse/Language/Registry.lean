import CodeProse.Language.Definition

/-!
# Registries

The known languages, in the order of their first registration. A language that is registered
again keeps its place and takes the new definition. Some languages have a short name, and a
name that is not known falls back to one language.
-/

set_option autoImplicit false

namespace CodeProse

/-- The known languages in order. -/
structure Registry where
  definitions : List LanguageDefinition
deriving DecidableEq

/-- The name under which every known language is tried. -/
def autoLanguage : Text := "auto"

/-- The language of code that no known language recognises. -/
def fallbackLanguage : Text := "javascript"

def languageAliases : List (Text × Text) :=
  [("js", "javascript"), ("ts", "typescript"), ("py", "python"), ("cs", "csharp"),
    ("rb", "ruby"), ("rs", "rust")]

/-- A name with a short form written out. -/
def expandAlias (name : Text) : Text :=
  (languageAliases.lookup name).getD name

/-- Puts a definition in the place of the one with its id, or at the end. -/
def placeDefinition (definition : LanguageDefinition) :
    List LanguageDefinition → List LanguageDefinition
  | [] => [definition]
  | other :: rest =>
      if other.id = definition.id then definition :: rest
      else other :: placeDefinition definition rest

namespace Registry

def empty : Registry := ⟨[]⟩

def builtin : Registry := ⟨LanguageDefinition.builtin⟩

def register (registry : Registry) (definition : LanguageDefinition) : Registry :=
  ⟨placeDefinition definition registry.definitions⟩

def registerAll (registry : Registry) (definitions : List LanguageDefinition) : Registry :=
  definitions.foldl register registry

/-- The registry of given definitions, or of the languages known from the start where none are
given. -/
def ofDefinitions (definitions : Option (List LanguageDefinition)) : Registry :=
  empty.registerAll (definitions.getD LanguageDefinition.builtin)

def get? (registry : Registry) (id : Text) : Option LanguageDefinition :=
  registry.definitions.find? fun definition => definition.id = id

def contains (registry : Registry) (id : Text) : Bool :=
  (registry.get? id).isSome

/-- Whether a name, or what it is short for, is registered. -/
def knows (registry : Registry) (name : Text) : Bool :=
  registry.contains (expandAlias name)

def resolve (registry : Registry) (name : Text) : Text :=
  if registry.knows name then expandAlias name else fallbackLanguage

def ids (registry : Registry) : List Text :=
  registry.definitions.map LanguageDefinition.id

/-- The languages to try for a name: all of them, or the one that the name stands for. -/
def candidates (registry : Registry) (name : Text) : List LanguageDefinition :=
  if name = autoLanguage then registry.definitions
  else (registry.get? (registry.resolve name)).toList

/-- The registry itself, or the languages known from the start where it holds none. -/
def orBuiltin (registry : Registry) : Registry :=
  if registry.definitions.isEmpty then builtin else registry

end Registry

end CodeProse
