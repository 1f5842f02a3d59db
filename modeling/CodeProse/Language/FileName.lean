import CodeProse.Document.Basic
import CodeProse.Files.Path

/-!
# Languages of files

The language that a file's suffix stands for, in letters of either case.
-/

set_option autoImplicit false

namespace CodeProse

def languageSuffixes : List (Text × Text) :=
  [(".js", "javascript"), (".jsx", "javascript"), (".mjs", "javascript"),
    (".cjs", "javascript"), (".ts", "typescript"), (".tsx", "typescript"), (".py", "python"),
    (".java", "java"), (".cs", "csharp"), (".php", "php"), (".rb", "ruby"), (".go", "go"),
    (".rs", "rust")]

def Path.languageId (path : Path) : Text :=
  (languageSuffixes.lookup path.suffix.asciiLower).getD Document.plainLanguage

end CodeProse
