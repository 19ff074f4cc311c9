import Dossier.Lexicon.Basic

/-!
# The tokens of Python

Two things keep Python from being cut into tokens by looking at the head of the text
alone. A formatted string holds expressions, so the cutter keeps a stack of `Frame`s that
says whether it stands in a bracket, in the text of a string, in an interpolated
expression or in the layout that follows one. And blocks are made of indentation: where
a logical line ends, a token of no width says so, and further such tokens say where
blocks open and close.

The tokens of no width stand at the end of what came last, a token or a comment. A block
stays open as long as comments come that are indented at least as far as the block, so
such a comment still belongs to it, while the first comment indented less, or the next
line of code indented less, closes it. A block opens only after a colon; deeper
indentation anywhere else means nothing. A tab counts for eight columns.
-/

namespace Dossier.Lexicon.Python

/-- What the text at hand stands in. -/
inductive Frame where
  /-- A bracket that is still open. -/
  | bracket
  /-- The text of a string: its quote, whether it is tripled, and whether the string has
  interpolated parts. -/
  | text (quote : Char) (triple formatted : Bool)
  /-- An interpolated expression. -/
  | hole
  /-- The layout of an interpolated expression. -/
  | layout
deriving DecidableEq, Repr

/-- What the cutter knows at a place: the open frames, the indentations of the open
blocks with the innermost first, whether it stands between two logical lines, the end of
the last token or comment, and the spelling of the last token. -/
structure Scan where
  frames : List Frame
  indents : List Nat
  between : Bool
  anchor : Position
  lastText : String

/-- What is known before the first token of a text. -/
def Scan.initial (anchor : Position) : Scan :=
  ⟨[], [], true, anchor, ""⟩

/-- The reserved words. -/
def reserved : List String :=
  ["False", "None", "True", "and", "as", "assert", "break", "class", "continue", "def",
    "del", "elif", "else", "except", "finally", "for", "from", "global", "if", "import",
    "in", "is", "lambda", "nonlocal", "not", "or", "pass", "raise", "return", "try",
    "while", "with", "yield"]

/-- The marks, longer ones first. -/
def marks : List (List Char) :=
  ["**=", "//=", ">>=", "<<=", "...", "!=", "->", ":=", "==", "<=", ">=", "<>", "+=", "-=",
    "*=", "/=", "%=", "&=", "|=", "^=", "@=", "**", "//", "<<", ">>", "+", "-", "*", "/",
    "%", "@", "&", "|", "^", "~", "<", ">", "(", ")", "[", "]", "\x7b", "\x7d", ",", ":",
    ".", ";", "="].map String.toList

/-- The characters that separate tokens on a line. -/
def isGap (c : Char) : Bool :=
  c == ' ' || c == '\t' || c == '\r' || c == '\x0c' || c == '\x0b' || c.toNat == 0xFEFF ||
    c.toNat == 0x2060 || c.toNat == 0x200B

/-- The characters that stand between two logical lines. -/
def isGapOrLine (c : Char) : Bool :=
  isGap c || c == '\n'

/-- The letters that may stand before the quote of a string. -/
def isStringLetter (c : Char) : Bool :=
  ['f', 'F', 'r', 'R', 'b', 'B', 'u', 'U', 't', 'T'].contains c

/-- The characters that strings are quoted with. -/
def isQuote (c : Char) : Bool :=
  c == '"' || c == '\'' || c.toNat == 0x60

/-- The opening of a string at the head of the text: its length and the frame it opens. -/
def opening? (cs : List Char) : Option (Nat × Frame) :=
  let n := Text.runLength isStringLetter cs
  let formatted := (cs.take n).any fun c => c == 'f' || c == 'F' || c == 't' || c == 'T'
  match cs.drop n with
  | q :: rest =>
    if isQuote q then
      if Text.startsWith [q, q] rest && q.toNat != 0x60 then some (n + 3, .text q true formatted)
      else some (n + 1, .text q false formatted)
    else none
  | [] => none

/-- The length of a number that starts with a digit, or with a point and a digit, without the letter
after it. -/
def openNumber (cs : List Char) : Nat :=
  match cs with
  | '0' :: x :: rest =>
    if x == 'x' || x == 'X' then 2 + digitRun isHexDigit rest
    else if x == 'o' || x == 'O' || x == 'b' || x == 'B' then
      2 + digitRun Text.isAsciiDigit rest
    else decimalLength cs
  | _ => decimalLength cs

/-- The length of a number. -/
def numberLength : List Char → Nat :=
  followed openNumber (letterLength ['j', 'J', 'l', 'L'])

/-- How far the first comment of the lines ahead is indented, if a comment comes before
the next line of code, and how far that line is; the end of the text counts as a line
without indentation. `width` is the indentation read so far on this line, and `inComment`
says whether the text at hand is inside a comment. -/
def lookAhead (comment : Option Nat) (width : Nat) (inComment : Bool) :
    List Char → Option Nat × Nat
  | [] => (comment, 0)
  | c :: cs =>
    if inComment then
      if c == '\n' then lookAhead comment 0 false cs else lookAhead comment width true cs
    else if c == '\n' || c == '\r' || c == '\x0c' then lookAhead comment 0 false cs
    else if c == ' ' then lookAhead comment (width + 1) false cs
    else if c == '\t' then lookAhead comment (width + 8) false cs
    else if c == '#' then lookAhead (comment <|> some width) width true cs
    else if c == '\\' then
      match cs with
      | d :: rest =>
        if d == '\n' then lookAhead comment width false rest
        else
          match rest with
          | e :: more =>
            if d == '\r' && e == '\n' then lookAhead comment width false more else (comment, width)
          | [] => (comment, width)
      | [] => (comment, width)
    else (comment, width)

/-- The length of a backslash that joins a line to the next one, with the end of the line. -/
def continuation? : List Char → Option Nat
  | c :: d :: rest =>
    if c == '\\' && d == '\n' then some 2
    else if c == '\\' && d == '\r' && rest.head?.any (· == '\n') then some 3
    else none
  | _ => none

/-- The indentation of the innermost open block. -/
def Scan.depth (s : Scan) : Nat :=
  s.indents.headD 0

/-- A token of no width at the end of what came last. -/
def Scan.widthless (s : Scan) (k : TokenKind) : Token :=
  ⟨k, "", s.anchor, s.anchor, false⟩

/-- Whether line feeds are blank space here. -/
def Scan.inBracket (s : Scan) : Bool :=
  !s.frames.isEmpty

/-- What one step does at the head of a text. -/
inductive Action where
  /-- It goes over characters that form no token. -/
  | skip (n : Nat)
  /-- It goes over characters that end with a comment. -/
  | pass (n : Nat)
  /-- It cuts a token of this kind and length, after which these frames are open. -/
  | cut (kind : TokenKind) (n : Nat) (frames : List Frame)
  /-- It goes over characters and begins a logical line. -/
  | lineStart (n : Nat)
  /-- It ends a logical line. -/
  | lineEnd
  /-- It ends a logical line and opens a block of this indentation. -/
  | indent (width : Nat)
  /-- It closes a block. -/
  | dedent
deriving DecidableEq, Repr

namespace Action

/-- How many characters are taken. -/
def taken : Action → Nat
  | skip n | pass n | cut _ n _ | lineStart n => n
  | lineEnd | indent _ | dedent => 0

/-- The tokens that are cut. Those of no width stand at the end of what came last. -/
def tokens (s : Scan) (p : Position) (cs : List Char) : Action → List Token
  | cut kind n _ => [⟨kind, String.ofList (cs.take n), p, p.advance (cs.take n), false⟩]
  | lineEnd => [s.widthless .lineEnd]
  | indent _ => [s.widthless .indent]
  | dedent => [s.widthless .dedent]
  | skip _ | pass _ | lineStart _ => []

/-- What is known then. -/
def after (s : Scan) (p : Position) (cs : List Char) : Action → Scan
  | skip _ => s
  | pass n => { s with anchor := p.advance (cs.take n) }
  | cut _ n frames =>
    { s with
      frames := frames
      anchor := p.advance (cs.take n)
      lastText := String.ofList (cs.take n) }
  | lineStart _ => { s with between := false }
  | lineEnd => { s with between := true }
  | indent width => { s with between := true, indents := width :: s.indents }
  | dedent => { s with indents := s.indents.tail }

end Action

/-- What closes a string. -/
def closing (quote : Char) (triple : Bool) : List Char :=
  if triple then [quote, quote, quote] else [quote]

/-- What is done inside the text of a string. -/
def textStep (s : Scan) (cs : List Char) (outer : List Frame) (quote : Char)
    (triple formatted : Bool) : Action :=
  if Text.startsWith (closing quote triple) cs then
    .cut .textClose (closing quote triple).length outer
  else
    match cs with
    | c :: rest =>
      if c == '\\' then
        match rest with
        | d :: more =>
          if formatted && (d == '\x7b' || d == '\x7d') then .skip 1
          else if d == '\r' && more.head?.any (· == '\n') then .skip 3
          else .skip 2
        | [] => .skip 1
      else if c == '\n' && !triple then .cut .stray 1 outer
      else if formatted && c == '\x7b' then
        if rest.head?.any (· == '\x7b') then .skip 2 else .cut .holeOpen 1 (.hole :: s.frames)
      else if formatted && c == '\x7d' then
        if rest.head?.any (· == '\x7d') then .skip 2 else .cut .stray 1 s.frames
      else .skip 1
    | [] => .skip 0

/-- What is done inside the layout of an interpolated expression; `outer` are the frames around
that expression. -/
def layoutStep (s : Scan) (cs : List Char) (outer : List Frame) : Action :=
  match cs with
  | c :: _ =>
    if c == '\x7b' then .cut .holeOpen 1 (.hole :: s.frames)
    else if c == '\x7d' then .cut .holeClose 1 outer
    else .skip 1
  | [] => .skip 0

/-- What is done at a mark. -/
def markStep (s : Scan) (cs : List Char) : Action :=
  match cs with
  | c :: rest =>
    let inHole := s.frames.head? == some .hole
    if inHole && c == '\x7d' then .cut .holeClose 1 s.frames.tail
    else if inHole && c == ':' then .cut .holeLayout 1 (.layout :: s.frames)
    else if inHole && c == '!' && rest.head?.any (fun d => 'a' ≤ d && d ≤ 'z') then
      .cut .holeConversion 2 s.frames
    else
      match markLength? marks cs with
      | some n =>
        if c == '(' || c == '[' || c == '\x7b' then .cut .mark n (.bracket :: s.frames)
        else if (c == ')' || c == ']' || c == '\x7d') && s.frames.head? == some .bracket then
          .cut .mark n s.frames.tail
        else .cut .mark n s.frames
      | none => .cut .stray 1 s.frames
  | [] => .skip 0

/-- What is done at a word, a number, a string or a mark. -/
def codeStep (s : Scan) (cs : List Char) : Action :=
  match opening? cs with
  | some (n, frame) => .cut .textOpen n (frame :: s.frames)
  | none =>
    match cs with
    | c :: rest =>
      if Text.isIdStart c || c == '_' then
        let n := 1 + Text.runLength Text.isIdContinue rest
        let known := reserved.contains (String.ofList (cs.take n))
        .cut (if known then .keyword else .name) n s.frames
      else if Text.isAsciiDigit c || (c == '.' && rest.head?.any Text.isAsciiDigit) then
        .cut .number (numberLength cs) s.frames
      else markStep s cs
    | [] => .skip 0

/-- What ends a logical line: a block opens when the last token is a colon and the next line is
indented further. -/
def endLine (s : Scan) (cs : List Char) : Action :=
  let width := (lookAhead none 0 false cs).2
  if s.lastText == ":" && s.depth < width then .indent width else .lineEnd

/-- What is done between two logical lines. -/
def betweenStep (s : Scan) (cs : List Char) : Action :=
  let (comment, width) := lookAhead none 0 false cs
  if s.indents ≠ [] && width < s.depth && (comment.getD 0 < s.depth) then .dedent
  else
    let gap := Text.runLength isGapOrLine cs
    match continuation? (cs.drop gap) with
    | some n => .skip (gap + n)
    | none =>
      match cs.drop gap with
      | c :: rest => if c == '#' then .pass (gap + 1 + restOfLine rest) else .lineStart gap
      | [] => .skip gap

/-- What is done inside a logical line. -/
def lineStep (s : Scan) (cs : List Char) : Action :=
  match continuation? cs with
  | some n => .skip n
  | none =>
    match cs with
    | c :: rest =>
      if c == '\n' then if s.inBracket then .skip 1 else endLine s cs
      else if c == '#' then .pass (1 + restOfLine rest)
      else if isGap c then .skip 1
      else codeStep s cs
    | [] => .skip 0

/-- **What one step does.** No characters are taken only where a token of no width is cut or a line
begins. -/
def step (s : Scan) (cs : List Char) : Action :=
  match s.frames with
  | .text quote triple formatted :: outer => textStep s cs outer quote triple formatted
  | .layout :: .hole :: outer => layoutStep s cs outer
  | .layout :: outer => layoutStep s cs outer
  | _ => if s.between then betweenStep s cs else lineStep s cs

/-- The tokens of no width that the end of the text brings. -/
def atEnd (s : Scan) (p : Position) : List Token :=
  match s.frames with
  | [] =>
    let line := if s.between then [] else [s.widthless .lineEnd]
    line ++ s.indents.map fun _ => s.widthless .dedent
  | .text _ _ _ :: _ => [⟨.stray, "", p, p, false⟩]
  | _ => []

/-- The tokens from a place on. The first argument bounds the number of steps. -/
def tokensFrom : Nat → Scan → Position → List Char → List Token
  | 0, _, _, _ => []
  | _ + 1, s, p, [] => atEnd s p
  | n + 1, s, p, c :: cs =>
    let a := step s (c :: cs)
    a.tokens s p (c :: cs) ++
      tokensFrom n (a.after s p (c :: cs)) (p.advance ((c :: cs).take a.taken))
        ((c :: cs).drop a.taken)

/-- **The tokens of a text** that stands at a place. Besides the steps that take a
character, a line needs one for its end, one for its start, and one for each block that
it closes. -/
def tokens (p : Position) (cs : List Char) : List Token :=
  tokensFrom (4 * cs.length + 4) (.initial p) p cs

end Dossier.Lexicon.Python
