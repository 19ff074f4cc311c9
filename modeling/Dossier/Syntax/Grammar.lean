import Dossier.Syntax.Tree
import Dossier.Text.Blank

/-!
# Grammars and how they are run

A grammar is data: for each of its symbols a `Rule`, a parsing expression whose choices
are ordered, so the first alternative that matches is taken. Running a rule consumes
tokens and pushes the trees it builds on a stack; `node` gathers what its rule pushed
under a new node, and `wrap` does the same but takes the tree on top of the stack in
as the first child, which is how `f(x).y` grows to the right around `f`.

One function, `Grammar.run`, runs every grammar. It recurses on a fuel that
`Grammar.parse` computes from the number of tokens: between two tokens a grammar without
left recursion descends through boundedly many rules, so the fuel is never what ends a
run. A run also remembers how far it got before it had to give up and what it would have
accepted there, which is what the error location is made from.
-/

namespace Dossier

/-- What a rule can ask of one token. -/
inductive Terminal where
  /-- A word of this spelling, reserved or not. -/
  | word (s : String)
  /-- A mark of this spelling. -/
  | mark (s : String)
  /-- The front piece of a mark that begins so; the rest of the mark is left. -/
  | head (s : String)
  /-- Any token of the kind. -/
  | kind (k : TokenKind)
  /-- Any word, reserved or not. -/
  | anyWord
  /-- Any token. -/
  | any
deriving DecidableEq, Repr, Inhabited

namespace Terminal

/-- How a terminal is named in an error message. -/
def describe : Terminal → String
  | word s => s
  | mark s => s
  | head s => s
  | anyWord => "identifier"
  | any => "token"
  | kind .name => "identifier"
  | kind .keyword => "keyword"
  | kind .number => "number"
  | kind .text => "string"
  | kind .letter => "character"
  | kind .lineEnd => "_newline"
  | kind .indent => "_indent"
  | kind .dedent => "_dedent"
  | kind .textClose => "string_end"
  | kind _ => "token"

/-- The front piece of a token cut off, and the rest of it. -/
def splitToken? (s : String) (t : Token) : Option (Token × Token) :=
  match Text.dropPrefix? s.toList t.text.toList with
  | some (c :: rest) =>
    let middle := t.start.advance s.toList
    some (⟨t.kind, s, t.start, middle, t.freshLine⟩,
      ⟨t.kind, String.ofList (c :: rest), middle, t.stop, false⟩)
  | _ => none

/-- Whether a whole token is accepted. -/
def accepts (w : Terminal) (t : Token) : Bool :=
  match w with
  | word s => (t.kind == .keyword || t.kind == .name) && t.text == s
  | mark s => t.kind == .mark && t.text == s
  | head s => t.kind == .mark && t.text == s
  | kind k => t.kind == k
  | anyWord => t.kind == .keyword || t.kind == .name
  | any => true

/-- The front piece of a mark that a `head` terminal accepts, and the rest of it. -/
def front? (w : Terminal) (t : Token) : Option (Token × Token) :=
  match w with
  | head s => if t.kind == .mark then splitToken? s t else none
  | _ => none

end Terminal

/-- **A parsing expression** over the symbols `σ`, building trees over `κ`. -/
inductive Rule (σ κ : Type) where
  /-- Matches without a token. -/
  | empty
  /-- Never matches. -/
  | never
  /-- What the symbol stands for. -/
  | sym (s : σ)
  /-- One token, which leaves no tree. -/
  | token (w : Terminal)
  /-- One rule and then the other. -/
  | both (a b : Rule σ κ)
  /-- The first rule, or the second where the first does not match. -/
  | either (a b : Rule σ κ)
  /-- As many repetitions as match. -/
  | many (r : Rule σ κ)
  /-- Matches without a token where the rule would match. -/
  | ahead (r : Rule σ κ)
  /-- Matches without a token where the rule would not match. -/
  | notAhead (r : Rule σ κ)
  /-- Matches without a token where the next token opens a line, or there is none. -/
  | freshLine
  /-- Gathers what the rule builds under one node. -/
  | node (k : κ) (r : Rule σ κ)
  /-- Like `node`, with the tree built last as the first child, in the role. -/
  | wrap (k : κ) (first : Role) (r : Rule σ κ)
  /-- Puts what the rule builds in a role. -/
  | role (r : Role) (a : Rule σ κ)
deriving Inhabited

namespace Rule

variable {σ κ : Type}

/-- One word. -/
def word (s : String) : Rule σ κ := token (.word s)

/-- One mark. -/
def mark (s : String) : Rule σ κ := token (.mark s)

/-- The front piece of a mark. -/
def head (s : String) : Rule σ κ := token (.head s)

/-- One token of the kind. -/
def kind (k : TokenKind) : Rule σ κ := token (.kind k)

/-- A rule that may be left out. -/
def opt (r : Rule σ κ) : Rule σ κ := either r empty

/-- At least one repetition. -/
def many1 (r : Rule σ κ) : Rule σ κ := both r (many r)

/-- The first rule of a list that matches. -/
def oneOf : List (Rule σ κ) → Rule σ κ
  | [] => never
  | [r] => r
  | r :: rs => either r (oneOf rs)

/-- The rules of a list one after the other. -/
def inOrder : List (Rule σ κ) → Rule σ κ
  | [] => empty
  | [r] => r
  | r :: rs => both r (inOrder rs)

/-- One of the words. -/
def oneWord (ss : List String) : Rule σ κ := oneOf (ss.map word)

/-- One of the marks. -/
def oneMark (ss : List String) : Rule σ κ := oneOf (ss.map mark)

/-- At least one `r`, with a separator between neighbours. -/
def sepBy1 (r s : Rule σ κ) : Rule σ κ := both r (many (both s r))

/-- At least one `r`, with a comma between neighbours and perhaps one at the end. -/
def commas (r : Rule σ κ) : Rule σ κ := both (sepBy1 r (mark ",")) (opt (mark ","))

/-- A rule between two marks. -/
def between (o c : String) (r : Rule σ κ) : Rule σ κ := both (mark o) (both r (mark c))

/-- A rule in round brackets. -/
def parens (r : Rule σ κ) : Rule σ κ := between "(" ")" r

/-- A rule in square brackets. -/
def brackets (r : Rule σ κ) : Rule σ κ := between "[" "]" r

/-- A rule in curly brackets. -/
def braces (r : Rule σ κ) : Rule σ κ := between "\x7b" "\x7d" r

/-- A node over one token. -/
def leaf (k : κ) (w : Terminal) : Rule σ κ := node k (token w)

end Rule

/-- How far a run got before it had to give up: the number of tokens left there, and what
would have been accepted. -/
structure Reach where
  left : Nat
  wanted : List Terminal
deriving Repr, Inhabited

namespace Reach

/-- One more place where a terminal was wanted and not found. -/
def miss (r : Reach) (left : Nat) (w : Terminal) : Reach :=
  if left < r.left then ⟨left, [w]⟩
  else if left = r.left then ⟨left, w :: r.wanted⟩
  else r

end Reach

/-- The state of a run: the tokens left and their number, the end of the last token
consumed, and the trees built so far, the last one first. -/
structure Parse (κ : Type) where
  tokens : List Token
  left : Nat
  last : Position
  trees : List (Tree κ)
deriving Inhabited

namespace Parse

variable {κ : Type}

/-- Where the next token starts. -/
def nextStart (p : Parse κ) : Position :=
  match p.tokens with
  | [] => p.last
  | t :: _ => t.start

/-- Whether a later state has consumed a token, or part of one. -/
def moved (p q : Parse κ) : Bool :=
  q.left != p.left || q.last.offset != p.last.offset

/-- Whether the next token opens a line, or there is none. -/
def atFreshLine (p : Parse κ) : Bool :=
  match p.tokens with
  | [] => true
  | t :: _ => t.freshLine

/-- Where the text of what was built between two states starts. -/
def startOf (p q : Parse κ) : Position :=
  if p.moved q then p.nextStart else q.last

/-- The state after the token that the terminal accepts, or after a piece of it. -/
def consume? (p : Parse κ) (w : Terminal) : Option (Parse κ) :=
  match p.tokens with
  | [] => none
  | t :: ts =>
    if w.accepts t then some ⟨ts, p.left - 1, t.stop, p.trees⟩
    else (w.front? t).map fun r => ⟨r.2 :: ts, p.left, r.1.stop, p.trees⟩

end Parse

/-- A grammar: what each symbol stands for, and the symbol of a whole text. -/
structure Grammar (σ κ : Type) where
  rule : σ → Rule σ κ
  start : σ

namespace Grammar

variable {σ κ : Type}

/-- **One run of a rule.** A failed run gives no state; the reach grows either way. -/
def run (g : Grammar σ κ) :
    Nat → Rule σ κ → Parse κ → Reach → Option (Parse κ) × Reach
  | 0, _, _, f => (none, f)
  | n + 1, r, p, f =>
    match r with
    | .empty => (some p, f)
    | .never => (none, f)
    | .sym s => g.run n (g.rule s) p f
    | .token w =>
      match p.consume? w with
      | some q => (some q, f)
      | none => (none, f.miss p.left w)
    | .both a b =>
      match g.run n a p f with
      | (some q, f) => g.run n b q f
      | (none, f) => (none, f)
    | .either a b =>
      match g.run n a p f with
      | (some q, f) => (some q, f)
      | (none, f) => g.run n b p f
    | .many a =>
      match g.run n a p f with
      | (some q, f) => if p.moved q then g.run n (.many a) q f else (some p, f)
      | (none, f) => (some p, f)
    | .ahead a =>
      match g.run n a p f with
      | (some _, _) => (some p, f)
      | (none, f) => (none, f)
    | .notAhead a =>
      match g.run n a p f with
      | (some _, _) => (none, f)
      | (none, _) => (some p, f)
    | .freshLine => (if p.atFreshLine then some p else none, f)
    | .node k a =>
      match g.run n a { p with trees := [] } f with
      | (some q, f) =>
        (some { q with
          trees := .node k none (p.startOf q) q.last q.trees.reverse :: p.trees }, f)
      | (none, f) => (none, f)
    | .wrap k r a =>
      match p.trees with
      | [] => (none, f)
      | t :: ts =>
        match g.run n a { p with trees := [t.withRole r] } f with
        | (some q, f) =>
          (some { q with trees := .node k none t.start q.last q.trees.reverse :: ts }, f)
        | (none, f) => (none, f)
    | .role r a =>
      match g.run n a { p with trees := [] } f with
      | (some q, f) => (some { q with trees := q.trees.map (Tree.withRole r) ++ p.trees }, f)
      | (none, f) => (none, f)

/-- More fuel than a run over so many tokens can use: no grammar of this library descends
through more than four thousand rules without a token. -/
def fuelFor (tokens : Nat) : Nat :=
  4096 * (tokens + 2)

/-- The state before the first token. -/
def before (ts : List Token) : Parse κ :=
  ⟨ts, ts.length, (ts.head?.map Token.start).getD .origin, []⟩

/-- A run of the whole text. -/
def runAll (g : Grammar σ κ) (ts : List Token) : Option (Parse κ) × Reach :=
  g.run (fuelFor ts.length) (.sym g.start) (before ts) ⟨ts.length + 1, []⟩

/-- **The tree of a text**, when its tokens fit the grammar and none is left over. -/
def parse? (g : Grammar σ κ) (ts : List Token) : Option (Tree κ) :=
  match (g.runAll ts).1 with
  | some q => if q.tokens.isEmpty then q.trees.head? else none
  | none => none

end Grammar

end Dossier
