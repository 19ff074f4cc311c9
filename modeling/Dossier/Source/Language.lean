import Dossier.Source.Path

/-!
# Languages

The four languages whose files can be analyzed, what their files are called, how the
parts of a qualified name are joined in them, and how comments are written in them. The
language of a file is read off the extension of its path.
-/

namespace Dossier

/-- A language whose files can be analyzed. -/
inductive Language where
  | python
  | go
  | java
  | rust
deriving DecidableEq, Repr, Inhabited

/-- How comments are written: the mark of a comment to the end of the line, and the marks
around a comment that may span lines, if there are such comments. -/
structure CommentSyntax where
  lineMark : String
  block : Option (String × String)
deriving DecidableEq, Repr, Inhabited

namespace Language

/-- All languages. -/
def all : List Language :=
  [python, go, java, rust]

/-- The name of the language. -/
def name : Language → String
  | python => "Python"
  | go => "Go"
  | java => "Java"
  | rust => "Rust"

/-- The extensions of its files. -/
def extensions : Language → List String
  | python => ["py", "pyw"]
  | go => ["go"]
  | java => ["java"]
  | rust => ["rs"]

/-- What joins the parts of a qualified name. -/
def separator : Language → String
  | rust => "::"
  | python | go | java => "."

/-- How comments are written. -/
def comments : Language → CommentSyntax
  | python => ⟨"#", none⟩
  | go | java | rust => ⟨"//", some ("/*", "*/")⟩

/-- The language of files with the extension. -/
def ofExtension? (ext : String) : Option Language :=
  all.find? fun l => l.extensions.contains ext

end Language

/-- **The language of a file**, by its extension. -/
def Language.ofPath? (path : String) : Option Language :=
  (Path.extension? path).bind Language.ofExtension?

end Dossier
