import Dossier.Text.Letters

/-!
# Issues named in a commit message

Two spellings name an issue: a number sign with digits, as in `#12`, and a tracker key of
a capital letter, at least one more capital or digit, a hyphen and digits, as in `AB-12`.
Neither may be followed by a character that words are made of, and no such character may
stand before a tracker key. Digits are those of every script; the capitals and digits of a
key are those of ASCII.

The message is read from the left and what has been read as an issue is not read again.
Each issue counts once, where it is named first.
-/

namespace Dossier.Issues

/-- Whether no word goes on at the head of the text. -/
def endsWord : List Char → Bool
  | [] => true
  | c :: _ => !Text.isWordChar c

/-- The digits at the head of the text, if there are any and no word goes on after them. -/
def number? (cs : List Char) : Option (List Char) :=
  let ds := cs.takeWhile Text.isDigit
  if !ds.isEmpty && endsWord (cs.drop ds.length) then some ds else none

/-- A capital letter of ASCII. -/
def isCapital (c : Char) : Bool :=
  'A' ≤ c && c ≤ 'Z'

/-- A capital letter or a digit of ASCII. -/
def isKeyChar (c : Char) : Bool :=
  isCapital c || ('0' ≤ c && c ≤ '9')

/-- The tracker key at the head of the text. -/
def tracker? : List Char → Option (List Char)
  | c :: cs =>
    let key := cs.takeWhile isKeyChar
    if isCapital c && !key.isEmpty then
      match cs.drop key.length with
      | '-' :: rest => (number? rest).map fun ds => c :: key ++ '-' :: ds
      | _ => none
    else none
  | [] => none

/-- The issue at the head of the text, given whether a word goes on there. -/
def at? (inWord : Bool) : List Char → Option (List Char)
  | '#' :: cs => (number? cs).map fun ds => '#' :: ds
  | cs => if inWord then none else tracker? cs

/-- All issues named in a text, given how many characters belong to the last one and whether
a word goes on. -/
def scan : Nat → Bool → List Char → List (List Char)
  | _, _, [] => []
  | n + 1, _, c :: cs => scan n (Text.isWordChar c) cs
  | 0, inWord, c :: cs =>
    match at? inWord (c :: cs) with
    | some issue => issue :: scan (issue.length - 1) (Text.isWordChar c) cs
    | none => scan 0 (Text.isWordChar c) cs

/-- The items of a list, each where it is first. -/
def firsts : List (List Char) → List (List Char)
  | [] => []
  | a :: as => a :: (firsts as).filter (· != a)

/-- **The issues that a message names**, in the order in which they are named first. -/
def ofMessage (message : String) : List String :=
  (firsts (scan 0 false message.toList)).map String.ofList

end Dossier.Issues
