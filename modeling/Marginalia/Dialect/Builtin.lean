/-
The dialects of common programming languages.

The languages differ in little: most have `//` and `/* */` comments with `*`
for a gutter, and what sets them apart is quotes and the shape of a
declaration. The declaration patterns are rules of thumb on a single line of
code. They name what is declared where they can and need not be complete.
-/
import Marginalia.Dialect

set_option autoImplicit false

namespace Marginalia

/-- The programming languages with a dialect of their own. -/
inductive Language where
  | rust
  | python
  | typescript
  | javascript
  | go
  | java
  | c
  | cpp
  | kotlin
  | csharp
  | protobuf
deriving DecidableEq, Repr

namespace Language

/-- All languages, in the order they are registered. -/
def all : List Language :=
  [.rust, .python, .typescript, .javascript, .go, .java, .c, .cpp, .kotlin, .csharp, .protobuf]

/-- The name of a language. -/
def name : Language → String
  | .rust => "rust"
  | .python => "python"
  | .typescript => "typescript"
  | .javascript => "javascript"
  | .go => "go"
  | .java => "java"
  | .c => "c"
  | .cpp => "cpp"
  | .kotlin => "kotlin"
  | .csharp => "csharp"
  | .protobuf => "protobuf"

/-- The extensions of a language's files. -/
def extensions : Language → List String
  | .rust => ["rs"]
  | .python => ["py", "pyi"]
  | .typescript => ["ts", "tsx"]
  | .javascript => ["js", "jsx", "mjs"]
  | .go => ["go"]
  | .java => ["java"]
  | .c => ["c", "h"]
  | .cpp => ["cpp", "cc", "cxx", "hpp", "hh", "hxx"]
  | .kotlin => ["kt", "kts"]
  | .csharp => ["cs"]
  | .protobuf => ["proto"]

/-- Comments between `/*` and `*/` or behind a line marker. -/
def slashed (lineMarkers : List String) : Delimiters :=
  { Delimiters.of lineMarkers (some ("/*", "*/")) with gutter := some "*" }

/-- The marks of a language. -/
def delimiters : Language → Delimiters
  | .rust => { slashed ["//", "///", "//!"] with charLiterals := true }
  | .python =>
    { Delimiters.of ["#"] (some ("\"\"\"", "\"\"\"")) with stringQuotes := ['"', '\''] }
  | .typescript | .javascript =>
    { slashed ["//"] with stringQuotes := ['"', '\''], rawQuotes := ['\x60'] }
  | .go => { slashed ["//"] with rawQuotes := ['\x60'], charLiterals := true }
  | .java | .c | .cpp | .kotlin | .csharp => { slashed ["//"] with charLiterals := true }
  | .protobuf => { slashed ["//"] with stringQuotes := ['"', '\''] }

/-- What declarations look like in a language. -/
def declaration : Language → String
  | .rust =>
    r"^\s*(?:pub(?:\([^)]*\))?\s+)?(?:(?:async|const|unsafe|extern(?:\s+\x22[^\x22]*\x22)?)\s+)*(?:fn|struct|enum|trait|type|mod|const|static|union)\s+([A-Za-z_][A-Za-z0-9_]*)|^\s*impl(?:<[^>]*>)?\s+(?:[A-Za-z_][\w:]*\s+for\s+)?([A-Za-z_][\w:]*)"
  | .python => r"^\s*(?:async\s+)?(?:def|class)\s+([A-Za-z_]\w*)"
  | .typescript | .javascript =>
    r"^\s*(?:export\s+)?(?:default\s+)?(?:declare\s+)?(?:abstract\s+)?(?:async\s+)?(?:function\*?|class|interface|type|enum|const|let|var)\s+([A-Za-z_$][\w$]*)"
  | .go =>
    r"^\s*(?:func\s+(?:\([^)]*\)\s*)?([A-Za-z_]\w*)|type\s+([A-Za-z_]\w*)|(?:var|const)\s+([A-Za-z_]\w*))"
  | .java =>
    r"^\s*(?:(?:public|protected|private|static|final|abstract|sealed)\s+)*(?:class|interface|enum|record)\s+([A-Za-z_]\w*)|^\s*(?:public|protected|private)\s+(?:(?:static|final|abstract|synchronized)\s+)*[\w<>\[\],.?]+\s+([A-Za-z_]\w*)\s*\("
  | .c | .cpp =>
    r"^\s*(?:(?:typedef\s+)?(?:struct|union|enum|class|namespace)\s+([A-Za-z_]\w*)|#define\s+([A-Za-z_]\w*)|[A-Za-z_][\w:<>*&\s]*?[\s*&]([A-Za-z_][\w:~]*)\s*\([^;]*$)"
  | .kotlin =>
    r"^\s*(?:(?:public|private|protected|internal|open|abstract|sealed|data|enum|inline|value|override|suspend|operator|infix|const|lateinit|annotation|inner|companion)\s+)*(?:fun\s+(?:<[^>]*>\s*)?(?:[\w.]+(?:<[^>]*>)?\.)?|class\s+|interface\s+|object\s+|val\s+|var\s+|typealias\s+)([A-Za-z_]\w*)"
  | .csharp =>
    r"^\s*(?:\[[^\]]*\]\s*)*(?:(?:public|private|protected|internal|static|sealed|abstract|partial|readonly|unsafe)\s+)*(?:class|struct|interface|enum|record|namespace)\s+([A-Za-z_][\w.]*)|^\s*(?:(?:public|private|protected|internal)\s+)(?:(?:static|virtual|override|abstract|async|sealed|new|extern)\s+)*[\w<>\[\],.?]+\s+([A-Za-z_]\w*)\s*[(<]"
  | .protobuf => r"^\s*(?:message|enum|service|rpc|oneof|extend)\s+([A-Za-z_][\w.]*)"

/-- The dialect of a language. -/
def dialect (language : Language) : Except Pattern.Fault Dialect :=
  Dialect.of language.name language.extensions language.delimiters language.declaration

/-- The language with a name. -/
def ofName? (name : String) : Option Language :=
  all.find? fun language => language.name = name

/-- The first language whose files have the extension of this one. -/
def detect? (path : String) : Option Language := do
  let extension ← SourcePath.extension? path
  all.find? fun language => language.extensions.contains extension

end Language

/-- The dialects of all languages. -/
def Dialects.builtin : Except Pattern.Fault Dialects := do
  let dialects ← Language.all.mapM Language.dialect
  pure (dialects.foldl register {})

end Marginalia
