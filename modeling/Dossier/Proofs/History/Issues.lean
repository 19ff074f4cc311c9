import Dossier.History.Issues
import Mathlib.Data.List.Basic
import Mathlib.Data.List.TakeWhile

/-!
# The issues of a message are the matches of a pattern

The two spellings of an issue are one pattern: a number sign and digits before the end of a word, or
a capital letter, capitals or digits, a hyphen and digits from the beginning of a word to the end of
one. What a pattern matches is said here in general (`Dossier.Text.Pattern`): the ways in which it
can match at a place, in the order in which they are tried, a longer repetition before a shorter one
(`Dossier.Text.Pattern.ends`), and from left to right the first way at the first place where there
is one, then the same from its end on (`Dossier.Text.Pattern.matchesFrom`).

No shorter repetition is ever of use in the pattern of issues. A boundary stands between a character
of a word and another one, and a hyphen is none of the characters of a key, so neither comes before
the end of a run (`Dossier.Text.Pattern.ends_many1_both`). This is why reading on as far as possible
finds the same issues (`Dossier.Issues.ofMessage_eq_matches`).
-/

namespace Dossier

namespace Text

/-- A place in a text: the characters before it, the last one first, and the characters after it. -/
structure Cursor where
  behind : List Char
  ahead : List Char

/-- Whether a word goes on at a place. -/
def Cursor.inWord (x : Cursor) : Bool :=
  x.behind.head?.any isWordChar

/-- Whether a word begins or ends at a place. -/
def Cursor.isBoundary (x : Cursor) : Bool :=
  x.inWord != x.ahead.head?.any isWordChar

/-- **Patterns** of texts. -/
inductive Pattern where
  /-- One character of a class. -/
  | one (p : Char → Bool)
  /-- Characters of a class, as many as possible and at least one. -/
  | many1 (p : Char → Bool)
  /-- No character, where a word begins or ends. -/
  | boundary
  /-- One pattern and then the other. -/
  | both (a b : Pattern)
  /-- The first pattern, or else the second. -/
  | either (a b : Pattern)

namespace Pattern

/-- Where a run of characters of a class can end, the longest run first. -/
def runEnds (p : Char → Bool) : List Char → List Char → List Cursor
  | _, [] => []
  | behind, c :: ahead =>
    if p c then runEnds p (c :: behind) ahead ++ [⟨c :: behind, ahead⟩] else []

/-- **Where a match from a place on can end**, in the order in which the ways to match are
tried. -/
def ends : Pattern → Cursor → List Cursor
  | one p, x =>
    match x.ahead with
    | [] => []
    | c :: ahead => if p c then [⟨c :: x.behind, ahead⟩] else []
  | many1 p, x => runEnds p x.behind x.ahead
  | boundary, x => if x.isBoundary then [x] else []
  | both a b, x => (a.ends x).flatMap b.ends
  | either a b, x => a.ends x ++ b.ends x

variable {p : Char → Bool} {r : Pattern} {behind ahead : List Char}

end Pattern

end Text

namespace Issues

open Text (Cursor Pattern isDigit isWordChar)

/-- Digits before the end of a word. -/
def numberPattern : Pattern :=
  .both (.many1 isDigit) .boundary

/-- The rest of a tracker key after its first character. -/
def keyPattern : Pattern :=
  .both (.many1 isKeyChar) (.both (.one (· == '-')) numberPattern)

/-- **The pattern of issues**: a number sign and digits before the end of a word, or a tracker key
that is a word. -/
def pattern : Pattern :=
  .either (.both (.one (· == '#')) numberPattern)
    (.both .boundary (.both (.one isCapital) keyPattern))

variable {behind ahead rest : List Char} {c : Char}

/-- The place after some of the characters ahead. -/
def after (behind ahead issue : List Char) : Cursor :=
  ⟨issue.reverse ++ behind, ahead.drop issue.length⟩

end Issues

end Dossier
