import Dossier.Syntax.Token
import Dossier.Text.Blank
import Dossier.Text.Letters

/-!
# Cutting a text into tokens

A *lexicon* says, at any place of a text, how long a piece of blank space or comment
stands there, and otherwise how long a token and of which kind. `Lexicon.tokens` applies
it from left to right: blank pieces are dropped, and each token remembers whether a line
feed was among the blanks before it. Every step takes at least one character, so the
length of the text is fuel enough.

The pieces that lexicons are made of are counting functions: how many characters at the
head of a text form a word, a number, a quoted piece, a comment.
-/

namespace Dossier

/-- What the head of a text is. -/
inductive Piece where
  /-- Blank space or a comment of this length. -/
  | blank (length : Nat)
  /-- A token of this kind and length. -/
  | token (kind : TokenKind) (length : Nat)
deriving Repr, Inhabited

/-- What stands at the head of each nonempty text. -/
abbrev Lexicon := List Char → Piece

namespace Lexicon

/-- A blank piece that is not a comment ends a line when it holds a line feed. -/
def endsLine (cs : List Char) : Bool :=
  cs == ['\n']

/-- The tokens of a text that stands at `p`; `fresh` says whether a line feed came since
the last token. The first argument bounds the number of steps. -/
def tokensFrom (lx : Lexicon) : Nat → Bool → Position → List Char → List Token
  | 0, _, _, _ => []
  | _ + 1, _, _, [] => []
  | n + 1, fresh, p, c :: cs =>
    match lx (c :: cs) with
    | .blank k =>
      let piece := c :: cs.take (k - 1)
      tokensFrom lx n (fresh || endsLine piece) (p.advance piece) (cs.drop (k - 1))
    | .token kind k =>
      let piece := c :: cs.take (k - 1)
      let stop := p.advance piece
      ⟨kind, String.ofList piece, p, stop, fresh⟩ ::
        tokensFrom lx n false stop (cs.drop (k - 1))

/-- **The tokens of a text** that stands at a place. -/
def tokens (lx : Lexicon) (p : Position) (cs : List Char) : List Token :=
  tokensFrom lx cs.length true p cs

/-! ### How long a piece is -/

/-- The hexadecimal digits. -/
def isHexDigit (c : Char) : Bool :=
  Text.isAsciiDigit c || ('a' ≤ c && c ≤ 'f') || ('A' ≤ c && c ≤ 'F')

/-- The characters that separate tokens in every language of this library. -/
def isSpace (c : Char) : Bool :=
  (9 ≤ c.toNat && c.toNat ≤ 13) || c == ' '

/-- The characters up to the end of the line. -/
def restOfLine (cs : List Char) : Nat :=
  Text.runLength (· != '\n') cs

/-- The length of what comes before the closing mark and the mark, if it is there. -/
def through? (close : List Char) (cs : List Char) : Option Nat :=
  (Text.cut? close cs).map fun r => r.1.length + close.length

/-- The length of a quoted piece up to and with its closing quote, where a backslash takes
the next character with it. A line feed ends the attempt unless `multiline`. -/
def quoted? (quote : Char) (multiline : Bool) : List Char → Option Nat
  | [] => none
  | '\\' :: [] => none
  | '\\' :: _ :: cs => (quoted? quote multiline cs).map (· + 2)
  | c :: cs =>
    if c = quote then some 1
    else if c = '\n' && !multiline then none
    else (quoted? quote multiline cs).map (· + 1)

/-- The longest of the marks that stands at the head of the text; the list has the longer
marks first. -/
def markLength? (marks : List (List Char)) (cs : List Char) : Option Nat :=
  (marks.find? fun m => Text.startsWith m cs).map List.length

/-- A word as a token: reserved words are keywords. -/
def wordPiece (reserved : List String) (n : Nat) (cs : List Char) : Piece :=
  .token (if reserved.contains (String.ofList (cs.take n)) then .keyword else .name) n

/-- The length of a run of digits in which underscores may stand. -/
def digitRun (digit : Char → Bool) (cs : List Char) : Nat :=
  Text.runLength (fun c => digit c || c == '_') cs

/-- The length of a fraction: a point and digits. -/
def fractionLength (digit : Char → Bool) : List Char → Nat
  | '.' :: cs => 1 + digitRun digit cs
  | _ => 0

/-- The length of a letter that is one of these. -/
def letterLength (letters : List Char) : List Char → Nat
  | c :: _ => if letters.contains c then 1 else 0
  | [] => 0

/-- The length of an exponent: one of the letters, perhaps a sign, and digits. -/
def exponentLength (letters : List Char) : List Char → Nat
  | e :: s :: rest =>
    if letters.contains e then
      if (s == '+' || s == '-') && rest.head?.any Text.isAsciiDigit then
        2 + digitRun Text.isAsciiDigit rest
      else if Text.isAsciiDigit s then 1 + digitRun Text.isAsciiDigit (s :: rest)
      else 0
    else 0
  | _ => 0

/-- The length of a piece and of the piece right after it. -/
def followed (f g : List Char → Nat) (cs : List Char) : Nat :=
  f cs + g (cs.drop (f cs))

/-- The length of a decimal number with fraction and exponent. -/
def decimalLength : List Char → Nat :=
  followed (followed (digitRun Text.isAsciiDigit) (fractionLength Text.isAsciiDigit))
    (exponentLength ['e', 'E'])

end Lexicon

end Dossier
