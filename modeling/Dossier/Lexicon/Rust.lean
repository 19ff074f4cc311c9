import Dossier.Lexicon.Marked

/-!
# The tokens of Rust

Block comments nest. Documentation comments are tokens, since they stand for attributes
and are allowed only where attributes are. A single quote opens a character literal if
one can be completed, and otherwise a lifetime. Strings run over lines; raw strings end
at a quote with as many hash signs as they opened with. Words may be made raw by a prefix,
which then belongs to the word.

A text can be cut into tokens only if all its brackets are matched; `mismatch?` finds the
first place where they are not.
-/

namespace Dossier.Lexicon.Rust

/-- The reserved words. -/
def reserved : List String :=
  ["_", "abstract", "as", "async", "await", "become", "box", "break", "const", "continue",
    "crate", "do", "dyn", "else", "enum", "extern", "false", "final", "fn", "for", "if",
    "impl", "in", "let", "loop", "macro", "match", "mod", "move", "mut", "override", "priv",
    "pub", "ref", "return", "Self", "self", "static", "struct", "super", "trait", "true",
    "try", "type", "typeof", "unsafe", "unsized", "use", "virtual", "where", "while",
    "yield"]

/-- The marks, longer ones first. -/
def marks : List (List Char) :=
  ["<<=", ">>=", "...", "..=", "::", "->", "=>", "==", "!=", "<=", ">=", "&&", "||", "+=",
    "-=", "*=", "/=", "%=", "^=", "&=", "|=", "<<", ">>", "..", "+", "-", "*", "/", "%",
    "^", "!", "&", "|", "=", "<", ">", "@", ".", ",", ";", ":", "#", "$", "?", "~", "(",
    ")", "[", "]", "\x7b", "\x7d"].map String.toList

/-- The characters that separate tokens. -/
def isGap (c : Char) : Bool :=
  Text.isBlank c || c.toNat == 0x200E || c.toNat == 0x200F

/-- The length of a block comment from inside it on, `depth` comments deep. -/
def blockTail? : Nat → List Char → Option Nat
  | _, [] => none
  | depth, '*' :: '/' :: cs =>
    match depth with
    | 0 | 1 => some 2
    | d + 2 => (blockTail? (d + 1) cs).map (· + 2)
  | depth, '/' :: '*' :: cs => (blockTail? (depth + 1) cs).map (· + 2)
  | depth, _ :: cs => (blockTail? depth cs).map (· + 1)

/-- What a comment of this length is by what follows its opening: documentation if an exclamation
mark does, or the mark that the comment opened with and nothing that takes it back. -/
def remark (mark : Char) (undoing : List Char) (n : Nat) : List Char → Piece
  | '!' :: _ => .token .docInside n
  | c :: rest =>
    if c == mark && !rest.head?.any undoing.contains then .token .docBefore n else .blank n
  | [] => .blank n

/-- A comment at the head of the text: plain, or documentation. -/
def comment? : List Char → Option Piece
  | '/' :: '/' :: rest => some (remark '/' ['/'] (2 + restOfLine rest) rest)
  | '/' :: '*' :: rest => (blockTail? 1 rest).map fun k => remark '*' ['*', '/'] (k + 2) rest
  | _ => none

/-- The characters that may follow a backslash. -/
def isEscape (c : Char) : Bool :=
  ['n', 'r', 't', '\\', '\'', '"', '0', 'x', 'u'].contains c

/-- The length of a string up to and with its closing quote. -/
def textTail? : List Char → Option Nat
  | [] => none
  | '"' :: _ => some 1
  | '\\' :: c :: cs =>
    if isEscape c || c == '\n' || c == '\r' then (textTail? cs).map (· + 2) else none
  | _ :: cs => (textTail? cs).map (· + 1)

/-- The length of a raw string from its hash signs on. -/
def rawTail? (cs : List Char) : Option Nat :=
  let hashes := Text.runLength (· == '#') cs
  match cs.drop hashes with
  | '"' :: rest =>
    (through? ('"' :: List.replicate hashes '#') rest).map fun n => hashes + 1 + n
  | _ => none

/-- Whether a single quote stands after this many characters. -/
def closedAt (n : Nat) (cs : List Char) : Bool :=
  (cs.drop n).head?.any (· == '\'')

/-- The length of a character given by its number, from the digits on, with the quote after it. -/
def numberedTail? (cs : List Char) : Option Nat :=
  let n := Text.runLength (fun c => isHexDigit c || c == '_') cs
  match cs.drop n with
  | '\x7d' :: '\'' :: _ => some (n + 2)
  | _ => none

/-- The length of a character literal after its opening quote. -/
def letterTail? (cs : List Char) : Option Nat :=
  let single := if closedAt 1 cs then some 2 else none
  match cs with
  | '\\' :: c :: rest =>
    if c == 'x' && closedAt 4 cs then some 5
    else if c == 'u' && rest.head?.any (· == '\x7b') then
      (numberedTail? (rest.drop 1)).map fun n => 3 + n
    else if closedAt 2 cs then if isEscape c then some 3 else none
    else single
  | _ => single

/-- The length of the letters that belong to the literal before them. -/
def suffixLength : List Char → Nat
  | c :: rest =>
    if Text.isIdStart c || c == '_' then 1 + Text.runLength Text.isIdContinue rest else 0
  | [] => 0

/-- The length of a literal and of the letters that belong to it. -/
def withSuffix (cs : List Char) (n : Nat) : Nat :=
  followed (fun _ => n) suffixLength cs

/-- A literal by how long its opening is and how long it goes on after that, if it ends at all. -/
def suffixed (kind : TokenKind) (opening : Nat) (cs : List Char) (tail : Option Nat) :
    Option (TokenKind × Nat) :=
  tail.map fun n => (kind, withSuffix cs (opening + n))

/-- A lifetime after its single quote. -/
def lifetime? : List Char → Option (TokenKind × Nat)
  | c :: rest =>
    if Text.isIdStart c || c == '_' then
      some (.lifetime, 2 + Text.runLength Text.isIdContinue rest)
    else none
  | [] => none

/-- A literal in quotes, or a lifetime. -/
def literal? (cs : List Char) : Option (TokenKind × Nat) :=
  match cs with
  | '"' :: rest => suffixed .text 1 cs (textTail? rest)
  | 'b' :: '"' :: rest => suffixed .text 2 cs (textTail? rest)
  | 'c' :: '"' :: rest => suffixed .text 2 cs (textTail? rest)
  | 'b' :: '\'' :: rest => suffixed .letter 2 cs (letterTail? rest)
  | 'r' :: rest => suffixed .text 1 cs (rawTail? rest)
  | 'b' :: 'r' :: rest => suffixed .text 2 cs (rawTail? rest)
  | 'c' :: 'r' :: rest => suffixed .text 2 cs (rawTail? rest)
  | '\'' :: rest => (suffixed .letter 1 cs (letterTail? rest)).or (lifetime? rest)
  | _ => none

/-- The length of a fraction. A point does not belong to the number if another point or a word
follows. -/
def fractionLength : List Char → Nat
  | '.' :: rest =>
    if rest.head?.any fun c => c == '.' || c == '_' || Text.isIdStart c then 0
    else 1 + digitRun Text.isAsciiDigit rest
  | _ => 0

/-- The length of a number without the letters after it. -/
def openNumber (cs : List Char) : Nat :=
  match cs with
  | '0' :: 'x' :: rest => 2 + digitRun isHexDigit rest
  | '0' :: 'o' :: rest => 2 + digitRun Text.isAsciiDigit rest
  | '0' :: 'b' :: rest => 2 + digitRun Text.isAsciiDigit rest
  | _ =>
    followed (followed (digitRun Text.isAsciiDigit) fractionLength) (exponentLength ['e', 'E']) cs

/-- The length of a number. -/
def numberLength : List Char → Nat :=
  followed openNumber suffixLength

/-- Whether a word that is made raw by its prefix stands at the head of the text. -/
def opensRawWord : List Char → Bool
  | 'r' :: '#' :: rest => rest.head?.any fun c => Text.isIdStart c || c == '_'
  | _ => false

/-- **The lexicon of Rust.** -/
def lexicon : Lexicon := fun cs =>
  match cs with
  | [] => .blank 1
  | c :: rest =>
    if isGap c then .blank 1
    else
      match comment? cs with
      | some piece => piece
      | none =>
        match literal? cs with
        | some (kind, n) => .token kind n
        | none =>
          if opensRawWord cs then
            .token .name (2 + Text.runLength Text.isIdContinue (rest.drop 1))
          else if Text.isIdStart c || c == '_' then
            wordPiece reserved (1 + Text.runLength Text.isIdContinue rest) cs
          else if Text.isAsciiDigit c then .token .number (numberLength cs)
          else if Text.startsWith ['/', '*'] cs then .token .stray 1
          else
            match markLength? marks cs with
            | some n => .token .mark n
            | none => .token .stray 1

/-- The bracket that closes an opening one. -/
def closing? (t : Token) : Option String :=
  if t.kind != .mark then none
  else if t.text == "(" then some ")"
  else if t.text == "[" then some "]"
  else if t.text == "\x7b" then some "\x7d"
  else none

/-- Whether a token is a closing bracket. -/
def isClosing (t : Token) : Bool :=
  t.kind == .mark && [")", "]", "\x7d"].contains t.text

/-- **Where the brackets fail to match**: at a token that is none, at a closing bracket that
closes nothing, or, when the text ends, at the innermost bracket that is still open. The
open brackets are given by where they stand and what closes them. -/
def mismatch? : List (Position × String) → List Token → Option Position
  | [], [] => none
  | (place, _) :: _, [] => some place
  | opened, t :: ts =>
    if t.kind == .stray then some t.start
    else
      match closing? t with
      | some c => mismatch? ((t.start, c) :: opened) ts
      | none =>
        if isClosing t then
          match opened with
          | (_, c) :: outer => if c == t.text then mismatch? outer ts else some t.start
          | [] => some t.start
        else mismatch? opened ts

/-- Whether a text opens with the line that names its interpreter, and not with an inner
attribute. -/
def opensWithInterpreter (cs : List Char) : Bool :=
  match cs with
  | '#' :: '!' :: rest => (rest.dropWhile isGap).head? != some '['
  | _ => false

/-- The length of the line that names the interpreter. -/
def interpreterLength (cs : List Char) : Nat :=
  if opensWithInterpreter cs then restOfLine cs else 0

/-- **The tokens of a text** that stands at a place. A byte order mark that is left and the
line that names the interpreter are no part of it. -/
def tokens (p : Position) (cs : List Char) : List Token :=
  let n := interpreterLength cs
  let p := p.advance (cs.take n)
  match cs.drop n with
  | c :: rest =>
    if c.toNat == 0xFEFF then Lexicon.tokens lexicon (p.next c) rest
    else Lexicon.tokens lexicon p (c :: rest)
  | [] => []

end Dossier.Lexicon.Rust
