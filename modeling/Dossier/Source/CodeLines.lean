import Dossier.Source.Language

/-!
# Lines of code

A line counts as code when something is left of it after its comments are taken away.
The lines are read in order, and what is carried from one to the next is whether a block
comment is still open. On a line, comments are looked for only where code could start:
at the beginning and after a comment. Once code has been seen, the line counts, and the
rest of it is searched only for the mark that opens a block comment. String literals are
not recognized.
-/

namespace Dossier.CodeLines

/-- What has been found on a line: whether it holds code, and whether a block comment is
open at its end. -/
structure Finding where
  hasCode : Bool
  inBlock : Bool
deriving DecidableEq, Repr

/-- What is found on the rest of a line. The first argument bounds the number of steps,
each of which takes at least one mark. -/
def scan (c : CommentSyntax) : Nat → Finding → List Char → Finding
  | 0, found, _ => found
  | _ + 1, found, [] => found
  | n + 1, found, x :: xs =>
    let rest := x :: xs
    if found.inBlock then
      match c.block with
      | none => scan c n { found with inBlock := false } rest
      | some (_, close) =>
        match Text.cut? close.toList rest with
        | some (_, after) => scan c n { found with inBlock := false } (Text.dropBlank after)
        | none => found
    else if Text.startsWith c.lineMark.toList rest then found
    else
      match c.block with
      | none => { found with hasCode := true }
      | some (opener, _) =>
        match Text.dropPrefix? opener.toList rest with
        | some after => scan c n { found with inBlock := true } after
        | none =>
          match Text.cut? opener.toList rest with
          | some (_, after) => scan c n ⟨true, true⟩ (Text.dropBlank after)
          | none => ⟨true, found.inBlock⟩

/-- What is found on a line, given whether a block comment is open at its start. -/
def line (c : CommentSyntax) (inBlock : Bool) (cs : List Char) : Finding :=
  let trimmed := Text.trimChars cs
  scan c (2 * trimmed.length + 2) ⟨false, inBlock⟩ trimmed

/-- The number of lines that hold code, given whether a block comment is open before the
first. -/
def countFrom (c : CommentSyntax) : Bool → List (List Char) → Nat
  | _, [] => 0
  | inBlock, l :: ls =>
    let found := line c inBlock l
    (if found.hasCode then 1 else 0) + countFrom c found.inBlock ls

/-- **The number of lines that hold code.** -/
def count (c : CommentSyntax) (text : String) : Nat :=
  countFrom c false (Text.lines text.toList)

/-- No text has more lines of code than lines. -/
theorem countFrom_le (c : CommentSyntax) (b : Bool) (ls : List (List Char)) :
    countFrom c b ls ≤ ls.length := by
  induction ls generalizing b with
  | nil => simp [countFrom]
  | cons l ls ih =>
    rw [countFrom, List.length_cons]
    have := ih (line c b l).inBlock
    split <;> omega

end Dossier.CodeLines
