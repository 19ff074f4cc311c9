import Dossier.Outline.Go
import Dossier.Outline.Java
import Dossier.Outline.Python
import Dossier.Outline.Rust
import Dossier.Source.SyntaxError

/-!
# The outline of a file

The outline of a source text in a language, or the first syntax error of the text. The
column of an error is counted in characters for Rust and in bytes for the other languages,
like the columns of spans. What the file is called shows in its errors only
(`Dossier.Outline.ofSource_eq_ok_iff`).
-/

namespace Dossier

/-- Telling an error otherwise leaves what there is no error in. -/
theorem mapError_eq_ok_iff {ε ε' α : Type} {x : Except ε α} {f : ε → ε'} {a : α} :
    x.mapError f = .ok a ↔ x = .ok a := by
  cases x with
  | error e => exact ⟨nofun, nofun⟩
  | ok b => exact ⟨fun h => congrArg Except.ok (Except.ok.inj h),
      fun h => congrArg Except.ok (Except.ok.inj h)⟩

namespace Outline

/-- **The outline of a text**; `file` is what a syntax error calls it. -/
def ofSource (l : Language) (file source : String) : Except SyntaxError Outline :=
  let locate (d : Diagnosis) : SyntaxError :=
    let column := if l = .rust then d.place.place else d.place.column
    ⟨file, d.place.row + 1, column + 1, d.message⟩
  match l with
  | .python => (Python.ofText source).mapError locate
  | .go => (Go.ofText source).mapError locate
  | .java => (Java.ofText source).mapError locate
  | .rust => (Rust.ofText source).mapError locate

/-- The outline of a text by the rules of a language, or what is wrong with it. -/
def ofText (l : Language) (source : String) : Except Diagnosis Outline :=
  match l with
  | .python => Python.ofText source
  | .go => Go.ofText source
  | .java => Java.ofText source
  | .rust => Rust.ofText source

/-- **What a text is outlined to** does not depend on what an error would call it. -/
theorem ofSource_eq_ok_iff {l : Language} {file source : String} {o : Outline} :
    ofSource l file source = .ok o ↔ ofText l source = .ok o := by
  unfold ofSource ofText
  cases l <;> exact mapError_eq_ok_iff

end Outline

end Dossier
