import Dossier.Lexicon.Marked

/-!
# The tokens of Go

Words are made of letters and digits of every script. A string between grave accents runs
over lines and knows no escapes. The end of a line is no token; a token remembers that it
opens a line, and the grammar asks where that ends a statement.
-/

namespace Dossier.Lexicon.Go

/-- The reserved words. -/
def reserved : List String :=
  ["break", "case", "chan", "const", "continue", "default", "defer", "else", "fallthrough",
    "for", "func", "go", "goto", "if", "import", "interface", "map", "package", "range",
    "return", "select", "struct", "switch", "type", "var"]

/-- The marks, longer ones first. -/
def marks : List (List Char) :=
  ["<<=", ">>=", "&^=", "...", "&&", "||", "<-", "++", "--", "==", "!=", "<=", ">=", ":=",
    "+=", "-=", "*=", "/=", "%=", "&=", "|=", "^=", "<<", ">>", "&^", "+", "-", "*", "/",
    "%", "&", "|", "^", "<", ">", "=", "!", "(", ")", "[", "]", "\x7b", "\x7d", ",", ";",
    ".", ":", "~"].map String.toList

/-- Whether so many digits stand at the head of the text. -/
def coded (n : Nat) (digit : Char → Bool) (cs : List Char) : Bool :=
  (cs.take n).length == n && (cs.take n).all digit

/-- How many characters an escape has after its backslash. -/
def escapeLength? (cs : List Char) : Option Nat :=
  match cs with
  | 'x' :: rest => if coded 2 isHexDigit rest then some 3 else none
  | 'u' :: rest => if coded 4 isHexDigit rest then some 5 else none
  | 'U' :: rest => if coded 8 isHexDigit rest then some 9 else none
  | c :: _ =>
    if "abfnrtv\\'\"".toList.contains c then some 1
    else if coded 3 (fun d => '0' ≤ d && d ≤ '7') cs then some 3
    else none
  | [] => none

/-- A character literal that has its closing quote after so many characters. -/
def closed? (cs : List Char) (n : Nat) : Option (TokenKind × Nat) :=
  if (cs.drop n).head? == some '\'' then some (.letter, n + 1) else none

/-- A character literal: exactly one character, or one escape. -/
def rune? (cs : List Char) : Option (TokenKind × Nat) :=
  match cs with
  | '\'' :: '\\' :: rest => (escapeLength? rest).bind fun n => closed? cs (n + 2)
  | '\'' :: c :: _ => if c == '\'' then none else closed? cs 2
  | _ => none

/-- A string or a character. -/
def literal? (cs : List Char) : Option (TokenKind × Nat) :=
  match cs with
  | c :: rest =>
    if c.toNat == 0x60 then (through? [c] rest).map fun n => (.text, n + 1)
    else (lineText? cs).or (rune? cs)
  | [] => none

/-- What is particular to the language. -/
def spelling : Spelling where
  wordStart c := Text.isLetter c || c == '_'
  wordRest c := Text.isLetter c || c == '_' || Text.isDigit c
  reserved := reserved
  marks := marks
  number := plainNumber ['x', 'X', 'o', 'O', 'b', 'B'] ['i']
  literal? := literal?

/-- **The tokens of a text** that stands at a place. -/
def tokens (p : Position) (cs : List Char) : List Token :=
  Lexicon.tokens (ofSpelling spelling) p cs

end Dossier.Lexicon.Go
