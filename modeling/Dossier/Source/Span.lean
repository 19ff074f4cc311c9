import Dossier.Text.Slice
import Dossier.Syntax.Token

/-!
# Spans

A span is a contiguous piece of a source text: the bytes from `start` up to `stop`, the
lines it touches counted from one, and the column of its first character counted from
zero.
-/

namespace Dossier

/-- A contiguous piece of a source text. -/
structure Span where
  /-- The offset of the first byte. -/
  start : Nat
  /-- The offset after the last byte. -/
  stop : Nat
  startLine : Nat
  stopLine : Nat
  startColumn : Nat
deriving DecidableEq, Repr, Inhabited

namespace Span

/-- The number of bytes covered. -/
def length (s : Span) : Nat :=
  s.stop - s.start

/-- Whether no byte is covered. -/
def isEmpty (s : Span) : Bool :=
  s.stop ≤ s.start

/-- The number of lines touched. -/
def lineCount (s : Span) : Nat :=
  s.stopLine - s.startLine + 1

/-- Whether another span lies within this one. -/
def contains (s t : Span) : Bool :=
  s.start ≤ t.start && t.stop ≤ s.stop

/-- The text covered, when the offsets fit the text. -/
def text? (s : Span) (source : String) : Option String :=
  Text.slice? s.start s.stop source

/-- The span between two places, with the column counted in bytes. -/
def between (a b : Position) : Span :=
  ⟨a.offset, b.offset, a.row + 1, b.row + 1, a.column⟩

end Span

end Dossier
