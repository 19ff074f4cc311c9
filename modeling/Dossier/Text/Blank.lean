/-!
# Blank space, words and lines

Text is read here as a list of characters. A character is *blank* when it has the
`White_Space` property, which is a wider class than the ASCII blanks of
`Char.isWhitespace`: no-break spaces, the line and paragraph separators and the
typographic spaces belong to it.

Three readings rest on this class. `trim` drops the blanks at both ends, `words`
splits at runs of blanks and keeps what is between them, and `collapse` joins the
words again with one space each, which is how a declaration spread over several lines
becomes one line of signature. `lines` does not: a line ends at a line feed only, a
carriage return just before the feed goes with it, and a last feed opens no further
line.
-/

namespace Dossier.Text

/-- **The blank characters**: those with the `White_Space` property. -/
def isBlank (c : Char) : Bool :=
  let n := c.toNat
  (9 ≤ n && n ≤ 13) || n == 0x20 || n == 0x85 || n == 0xA0 || n == 0x1680 ||
    (0x2000 ≤ n && n ≤ 0x200A) || n == 0x2028 || n == 0x2029 || n == 0x202F ||
    n == 0x205F || n == 0x3000

/-- What is left after the leading blanks. -/
def dropBlank (cs : List Char) : List Char :=
  cs.dropWhile isBlank

/-- What is left before the trailing blanks. -/
def dropBlankRight (cs : List Char) : List Char :=
  (dropBlank cs.reverse).reverse

/-- The text without the blanks at its two ends. -/
def trimChars (cs : List Char) : List Char :=
  dropBlankRight (dropBlank cs)

/-- The text without the blanks at its two ends. -/
def trim (s : String) : String :=
  String.ofList (trimChars s.toList)

/-- A text that has no character outside the blanks. -/
def isAllBlank (s : String) : Bool :=
  s.toList.all isBlank

/-- The maximal runs of characters that are not blank, in order. -/
def words : List Char → List (List Char)
  | [] => []
  | c :: cs =>
    if isBlank c then words cs
    else
      match cs with
      | [] => [[c]]
      | d :: _ =>
        if isBlank d then [c] :: words cs
        else
          match words cs with
          | [] => [[c]]
          | w :: ws => (c :: w) :: ws

/-- **The text on one line**: its words with a single space between neighbours. -/
def collapse (s : String) : String :=
  " ".intercalate ((words s.toList).map String.ofList)

/-- **The lines of a text**, without the line feed that ends them and a carriage return
just before it. A last line feed opens no further line. -/
def lines : List Char → List (List Char)
  | [] => []
  | '\n' :: cs => [] :: lines cs
  | '\r' :: '\n' :: cs => [] :: lines cs
  | c :: cs =>
    match lines cs with
    | [] => [[c]]
    | l :: ls => (c :: l) :: ls

/-- The lines of a text, as strings. -/
def linesOf (s : String) : List String :=
  (lines s.toList).map String.ofList

/-- The first line of a text, empty when the text is. -/
def firstLine (s : String) : String :=
  (linesOf s).headD ""

/-- What follows `p` at the head of `cs`, when `p` stands there. -/
def dropPrefix? : (p cs : List Char) → Option (List Char)
  | [], cs => some cs
  | _ :: _, [] => none
  | p :: ps, c :: cs => if p = c then dropPrefix? ps cs else none

/-- Whether `p` stands at the head of `cs`. -/
def startsWith (p cs : List Char) : Bool :=
  (dropPrefix? p cs).isSome

/-- The text before the first `p`, and the text after it. -/
def cut? (p : List Char) : List Char → Option (List Char × List Char)
  | [] => if p.isEmpty then some ([], []) else none
  | c :: cs =>
    match dropPrefix? p (c :: cs) with
    | some rest => some ([], rest)
    | none => (cut? p cs).map fun r => (c :: r.1, r.2)

/-- The pieces of a text between the characters that satisfy `p`; there is always one more
piece than such characters. -/
def splitAt (p : Char → Bool) : List Char → List (List Char)
  | [] => [[]]
  | c :: cs =>
    if p c then [] :: splitAt p cs
    else
      match splitAt p cs with
      | [] => [[c]]
      | l :: ls => (c :: l) :: ls

/-- The number of characters at the head of the text that satisfy `p`. -/
def runLength (p : Char → Bool) (cs : List Char) : Nat :=
  (cs.takeWhile p).length

/-- The size of a text in UTF-8 bytes. -/
def byteSize (cs : List Char) : Nat :=
  cs.foldl (fun n c => n + c.utf8Size) 0

end Dossier.Text
