import CodeProse.Language.Pattern

/-!
# Language definitions

Where prose lives in one programming language, and the nine languages known from the start.
-/

set_option autoImplicit false

namespace CodeProse

/-- The shapes of a language's comments. -/
structure CommentPatterns where
  lineComments : List LinePattern := []
  blockStarts : List LinePattern := []
  blockEnds : List LinePattern := []
deriving DecidableEq

/-- The shapes that prose has in one language, and the words by which code is recognised. -/
structure LanguageDefinition where
  id : Text
  comments : CommentPatterns := {}
  strings : List LinePattern := []
  docstrings : List LinePattern := []
  keywords : List Text := []
deriving DecidableEq

namespace LanguageDefinition

/-- A comment from two slashes on. -/
def slashes : LinePattern := .opensWith "//"

/-- A documentation comment from three slashes on. -/
def threeSlashes : LinePattern := .opensWith "///"

/-- A comment from a number sign on. -/
def numberSign : LinePattern := .opensWith "#"

/-- Comments of languages that share the two comment forms of C. -/
def slashComments (lineComments : List LinePattern) : CommentPatterns where
  lineComments
  blockStarts := [.opensWith "/*"]
  blockEnds := [.closesWith "*/"]

def doubleQuoted : LinePattern := .holdsQuotation [] ['"'] true

def singleOrDoubleQuoted : LinePattern := .holdsQuotation [] ['\'', '"'] false

/-- String literals between quotes of any kind, and templates over several lines. -/
def scriptStrings : List LinePattern :=
  [.holdsQuotation [] quoteChars false, .holdsQuotation [] ['\x60'] true]

def javascript : LanguageDefinition where
  id := "javascript"
  comments := slashComments [slashes]
  strings := scriptStrings
  docstrings := [.opensDocumentationBlock]
  keywords := ["function", "const", "let", "var", "class", "import", "export"]

def typescript : LanguageDefinition where
  id := "typescript"
  comments := slashComments [slashes]
  strings := scriptStrings
  docstrings := [.opensDocumentationBlock]
  keywords :=
    ["function", "const", "let", "var", "class", "interface", "type", "import", "export"]

def python : LanguageDefinition where
  id := "python"
  comments := { lineComments := [numberSign] }
  strings := [singleOrDoubleQuoted, .holdsQuotation "f" ['\'', '"'] false]
  docstrings := [.opensTripleQuote [], .opensTripleQuote "r"]
  keywords := ["def", "class", "import", "from", "if", "for", "while"]

def java : LanguageDefinition where
  id := "java"
  comments := slashComments [slashes]
  strings := [doubleQuoted]
  docstrings := [.opensDocumentationBlock]
  keywords := ["public", "private", "class", "interface", "void", "return"]

def csharp : LanguageDefinition where
  id := "csharp"
  comments := slashComments [slashes, threeSlashes]
  strings := [doubleQuoted, .holdsVerbatim "@\"" '"']
  docstrings := [threeSlashes, .opensDocumentationBlock]
  keywords := ["public", "private", "class", "interface", "void", "namespace"]

def php : LanguageDefinition where
  id := "php"
  comments := slashComments [slashes, numberSign]
  strings := [singleOrDoubleQuoted]
  docstrings := [.opensDocumentationBlock]
  keywords := ["function", "class", "public", "private", "namespace"]

def ruby : LanguageDefinition where
  id := "ruby"
  comments :=
    { lineComments := [numberSign]
      blockStarts := [.opensWith "=begin"]
      blockEnds := [.opensWith "=end"] }
  strings := [singleOrDoubleQuoted]
  keywords := ["def", "class", "module", "end", "require"]

def go : LanguageDefinition where
  id := "go"
  comments := slashComments [slashes]
  strings := [doubleQuoted, .holdsVerbatim "\x60" '\x60']
  keywords := ["func", "type", "struct", "interface", "package", "import"]

def rust : LanguageDefinition where
  id := "rust"
  comments := slashComments [slashes, threeSlashes]
  strings := [doubleQuoted, .holdsHashed 'r' '"']
  docstrings := [threeSlashes]
  keywords := ["fn", "struct", "enum", "impl", "trait", "use"]

/-- The languages known from the start. Their order decides between languages that recognise
the same line. -/
def builtin : List LanguageDefinition :=
  [javascript, typescript, python, java, csharp, php, ruby, go, rust]

end LanguageDefinition

end CodeProse
