import Dossier.Lexicon.Basic

/-!
# Lexicons made of words, numbers and marks

Languages without significant indentation share most of their lexicon: blank space,
comments, words of which some are reserved, numbers, literals in quotes, and marks, of
which the longest that fits is taken. `Spelling` collects what is particular to one of
them.
-/

namespace Dossier.Lexicon

/-- What is particular to a language of words, numbers and marks. -/
structure Spelling where
  /-- The characters that may open a word, and those that may go on in it. -/
  wordStart : Char → Bool
  wordRest : Char → Bool
  /-- The reserved words. -/
  reserved : List String
  /-- The marks, longer ones first. -/
  marks : List (List Char)
  /-- The length of a number that starts here. -/
  number : List Char → Nat
  /-- A literal that starts here, by its kind and length. -/
  literal? : List Char → Option (TokenKind × Nat)

/-- A comment at the head of the text: to the end of the line, or up to the closing mark.
A comment that is never closed is no comment. -/
def comment? (cs : List Char) : Option Nat :=
  match cs with
  | '/' :: '/' :: rest => some (2 + restOfLine rest)
  | '/' :: '*' :: rest => (through? ['*', '/'] rest).map (· + 2)
  | _ => none

/-- Whether a number starts here: a digit, or a point and a digit. -/
def startsNumber : List Char → Bool
  | '.' :: d :: _ => Text.isAsciiDigit d
  | d :: _ => Text.isAsciiDigit d
  | [] => false

/-- **The lexicon of a spelling.** -/
def ofSpelling (s : Spelling) : Lexicon := fun cs =>
  match cs with
  | [] => .blank 1
  | c :: _ =>
    if isSpace c then .blank 1
    else
      match comment? cs with
      | some n => .blank n
      | none =>
        match s.literal? cs with
        | some (kind, n) => .token kind n
        | none =>
          if s.wordStart c then
            wordPiece s.reserved (1 + Text.runLength s.wordRest (cs.drop 1)) cs
          else if startsNumber cs then .token .number (s.number cs)
          else
            match markLength? s.marks cs with
            | some n => .token .mark n
            | none => .token .stray 1

/-- A string literal in quotes on one line. -/
def lineText? (cs : List Char) : Option (TokenKind × Nat) :=
  match cs with
  | '"' :: rest => (quoted? '"' false rest).map fun n => (.text, n + 1)
  | _ => none

/-- The length of a number: a based one, or a decimal one with fraction and exponent. -/
def openNumber (bases : List Char) (cs : List Char) : Nat :=
  match cs with
  | '0' :: x :: rest =>
    if bases.contains x then
      let fraction := if x == 'x' || x == 'X' then fractionLength isHexDigit else fun _ => 0
      2 + followed (followed (digitRun isHexDigit) fraction) (exponentLength ['p', 'P']) rest
    else decimalLength cs
  | _ => decimalLength cs

/-- The length of a number and then of one of the closing letters. -/
def plainNumber (bases closing : List Char) : List Char → Nat :=
  followed (openNumber bases) (letterLength closing)

end Dossier.Lexicon
