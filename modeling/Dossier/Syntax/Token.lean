/-!
# Positions and tokens

A program text is read in two passes. The first cuts it into *tokens*, the second fits
the tokens into a grammar. This file fixes what passes between them.

A `Position` is a place between two characters, counted four ways at once: bytes from
the start of the text, lines, and on the line bytes and characters. Lines end at a line
feed. A token holds its spelling, where it starts and where it stops, and whether a line
feed stands in the blank space before it, since in some languages the end of a line ends
a statement.
-/

namespace Dossier

/-- A place between two characters of a text. Lines and columns count from zero. -/
structure Position where
  /-- Bytes from the start of the text. -/
  offset : Nat
  /-- Line feeds from the start of the text. -/
  row : Nat
  /-- Bytes from the start of the line. -/
  column : Nat
  /-- Characters from the start of the line. -/
  place : Nat
deriving DecidableEq, Repr, Inhabited

namespace Position

/-- The place before the first character. -/
def origin : Position :=
  ⟨0, 0, 0, 0⟩

/-- The place after one more character. -/
def next (p : Position) (c : Char) : Position :=
  if c = '\n' then ⟨p.offset + 1, p.row + 1, 0, 0⟩
  else ⟨p.offset + c.utf8Size, p.row, p.column + c.utf8Size, p.place + 1⟩

/-- The place after a run of characters. -/
def advance (p : Position) (cs : List Char) : Position :=
  cs.foldl next p

/-- The offset counts bytes. -/
theorem offset_next (p : Position) (c : Char) : (p.next c).offset = p.offset + c.utf8Size := by
  unfold next
  split
  · next h => subst h; rfl
  · rfl

/-- Two runs in a row move the place as one. -/
theorem advance_append (p : Position) (as bs : List Char) :
    p.advance (as ++ bs) = (p.advance as).advance bs :=
  List.foldl_append

/-- The place after a byte order mark at the start of a text, and the text after it. -/
def skipByteOrderMark : List Char → Position × List Char
  | [] => (origin, [])
  | c :: cs => if c.toNat = 0xFEFF then (⟨3, 0, 3, 0⟩, cs) else (origin, c :: cs)

end Position

/-- What a token is, apart from its spelling. -/
inductive TokenKind where
  /-- A word that the language does not reserve. -/
  | name
  /-- A reserved word. -/
  | keyword
  | number
  /-- A whole string literal. -/
  | text
  /-- A character literal. -/
  | letter
  /-- An operator or a piece of punctuation. -/
  | mark
  /-- A name after a single quote, as loop labels and regions have it. -/
  | lifetime
  /-- A documentation comment on what follows it. -/
  | docBefore
  /-- A documentation comment on what it stands in. -/
  | docInside
  /-- The quote that opens a string literal with parts. -/
  | textOpen
  /-- The quote that closes a string literal with parts. -/
  | textClose
  /-- Where an interpolated part of a string literal begins. -/
  | holeOpen
  /-- The conversion asked for in an interpolated part. -/
  | holeConversion
  /-- The colon before the layout of an interpolated part. -/
  | holeLayout
  /-- Where an interpolated part of a string literal ends. -/
  | holeClose
  /-- The end of a logical line. -/
  | lineEnd
  /-- The start of a deeper indented block. -/
  | indent
  /-- The end of an indented block. -/
  | dedent
  /-- What the language has no token for. -/
  | stray
deriving DecidableEq, Repr, Inhabited

/-- A token: its kind, its spelling, where it stands, and whether a line feed comes
between it and the token before. -/
structure Token where
  kind : TokenKind
  text : String
  start : Position
  stop : Position
  freshLine : Bool
deriving DecidableEq, Repr, Inhabited

end Dossier
