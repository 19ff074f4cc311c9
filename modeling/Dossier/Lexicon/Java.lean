import Dossier.Lexicon.Marked

/-!
# The tokens of Java

Words may hold the dollar sign and go on with the cent sign. A text block stands between
two triple quotes and runs over lines.
-/

namespace Dossier.Lexicon.Java

/-- The reserved words. -/
def reserved : List String :=
  ["abstract", "assert", "boolean", "break", "byte", "case", "catch", "char", "class",
    "continue", "default", "do", "double", "else", "enum", "extends", "false", "final",
    "finally", "float", "for", "if", "implements", "import", "instanceof", "int",
    "interface", "long", "native", "new", "null", "package", "private", "protected",
    "public", "return", "short", "static", "strictfp", "super", "switch", "synchronized",
    "this", "throw", "throws", "transient", "true", "try", "void", "volatile", "while"]

/-- The marks, longer ones first. -/
def marks : List (List Char) :=
  [">>>=", "<<=", ">>=", ">>>", "...", "->", "::", "++", "--", "&&", "||", "==", "!=", "<=",
    ">=", "+=", "-=", "*=", "/=", "%=", "&=", "|=", "^=", "<<", ">>", "+", "-", "*", "/",
    "%", "&", "|", "^", "<", ">", "=", "!", "(", ")", "[", "]", "\x7b", "\x7d", ",", ";",
    ".", ":", "~", "?", "@"].map String.toList

/-- The length of a text block after its opening quotes, up to and with the closing ones. -/
def blockTail? : List Char → Option Nat
  | '"' :: '"' :: '"' :: _ => some 3
  | '\\' :: _ :: cs => (blockTail? cs).map (· + 2)
  | _ :: cs => (blockTail? cs).map (· + 1)
  | [] => none

/-- A character literal, which is never empty. -/
def letter? (cs : List Char) : Option (TokenKind × Nat) :=
  match cs with
  | '\'' :: '\'' :: _ => none
  | '\'' :: rest => (quoted? '\'' false rest).map fun n => (.letter, n + 1)
  | _ => none

/-- A string, a text block or a character. -/
def literal? (cs : List Char) : Option (TokenKind × Nat) :=
  match cs with
  | '"' :: '"' :: '"' :: rest => (blockTail? rest).map fun n => (.text, n + 3)
  | _ => (lineText? cs).or (letter? cs)

/-- What is particular to the language. -/
def spelling : Spelling where
  wordStart c := Text.isIdStart c || c == '_' || c == '$'
  wordRest c := Text.isIdContinue c || c == '$' || c.toNat == 0xA2
  reserved := reserved
  marks := marks
  number := plainNumber ['x', 'X', 'b', 'B'] ['l', 'L', 'f', 'F', 'd', 'D']
  literal? := literal?

/-- **The tokens of a text** that stands at a place. -/
def tokens (p : Position) (cs : List Char) : List Token :=
  Lexicon.tokens (ofSpelling spelling) p cs

end Dossier.Lexicon.Java
