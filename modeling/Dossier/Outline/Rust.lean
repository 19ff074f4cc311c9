import Dossier.Lexicon.Rust
import Dossier.Outline.Walk
import Dossier.Syntax.Diagnosis
import Dossier.Syntax.Rust

/-!
# Outlines of Rust files

Modules, traits, implementations and functions qualify the names below them; an
implementation is known by the last name in the path of its type, seen through
references, and one of a type that has no such name is passed over. Functions are
recorded wherever declarations are looked for: in the file, in modules, in
implementations, as default methods of traits, and as functions among the statements of
a body. Other declarations in a body are passed over, and so is all that a macro is
applied to.

A function nested in a body is recorded after the function around it, with that
function's name before its own, and counts for itself alone. In a path that begins with
`Self` the type or trait of the surrounding implementation stands for it.

Positions are counted in lines and characters, the way the text is shown, and turned
back into byte offsets of the text as it was given.
-/

namespace Dossier.Outline.Rust

open Syntax.Rust

/-! ### From lines and characters to bytes -/

/-- The bytes from the start of a line to a character of it, or to its end if the line is
shorter; a carriage return before the line feed is no part of the line. -/
def offsetInLine : Nat → List Char → Nat
  | _, [] => 0
  | _, '\n' :: _ => 0
  | _, '\r' :: '\n' :: _ => 0
  | 0, _ => 0
  | n + 1, c :: cs => c.utf8Size + offsetInLine n cs

/-- The byte offset of a character, by its line and its place in the line, both counted
from zero. -/
def offsetAt : Nat → Nat → List Char → Nat
  | 0, place, cs => offsetInLine place cs
  | _ + 1, _, [] => 0
  | row + 1, place, c :: cs =>
    c.utf8Size + if c = '\n' then offsetAt row place cs else offsetAt (row + 1) place cs

/-- The byte offset of a place in the text as it was given. -/
def offsetOf (source : String) (p : Position) : Nat :=
  offsetAt p.row p.place source.toList

/-! ### Names -/

/-- The names along a path. -/
def segments (source : String) (path : Tree Kind) : List String :=
  (path.children.filter fun t => t.kind == .segment).map (Tree.text source)

mutual

/-- The name a type is known by. -/
def typeName? (source : String) : Tree Kind → Option String
  | .node k r a b ts =>
    if k == .path then (segments source (.node k r a b ts)).getLast?
    else if k == .referenceType then operandName? source ts
    else none

/-- The name of the type that a reference refers to. -/
def operandName? (source : String) : List (Tree Kind) → Option String
  | [] => none
  | t :: ts => if t.role == some .operand then typeName? source t else operandName? source ts

end

/-- What a call of a path calls: the last two names of the path, or the only one. -/
def calleeName? (selfType : Option String) (names : List String) : Option String :=
  match names.reverse with
  | [] => none
  | [only] => some only
  | last :: owner :: _ =>
    if owner == "Self" then
      match selfType with
      | some type => some (type ++ "::" ++ last)
      | none => some last
    else some (owner ++ "::" ++ last)

/-! ### Bodies -/

/-- Where a function is found: the names around it, and the type that `Self` stands for. -/
structure Setting where
  scope : List String
  selfType : Option String

/-- The name of a function in a setting. -/
def Setting.qualify (s : Setting) (name : String) : String :=
  "::".intercalate (s.scope ++ [name])

/-- The setting of what is nested in a function. -/
def Setting.inside (s : Setting) (name : String) : Setting :=
  { s with scope := s.scope ++ [name] }

/-- What is found in a piece of a body: its decisions, its calls in order, and what the
functions nested in it amount to. -/
structure BodyFindings where
  decisions : Nat
  calls : List (String × Nat)
  nested : Findings
deriving Repr, Inhabited

namespace BodyFindings

/-- Nothing. -/
def none : BodyFindings :=
  ⟨0, [], .none⟩

/-- What is found in two pieces. -/
def add (f g : BodyFindings) : BodyFindings :=
  ⟨f.decisions + g.decisions, f.calls ++ g.calls, f.nested.add g.nested⟩

end BodyFindings

/-- The decisions a node makes by itself. A match decides between its arms and once more
for each guard. -/
def ownDecisions (source : String) (t : Tree Kind) : Nat :=
  match t.kind with
  | .ifExpression | .whileExpression | .forExpression | .loopExpression => 1
  | .matchExpression =>
    let arms := t.children.filter fun c => c.kind == .arm
    let guarded := arms.filter fun a => a.children.any fun c => c.kind == .guard
    arms.length - 1 + guarded.length
  | .binary =>
    match t.child? .operator with
    | some o => if ["&&", "||"].contains (o.text source) then 1 else 0
    | none => 0
  | _ => 0

/-- The call a node makes by itself, with its line. -/
def ownCalls (source : String) (selfType : Option String) (t : Tree Kind) :
    List (String × Nat) :=
  match t.kind with
  | .call =>
    match t.child? .callee with
    | some f =>
      if f.kind == .path then
        match calleeName? selfType (segments source f) with
        | some name => [(name, t.start.row + 1)]
        | none => []
      else []
    | none => []
  | .methodCall =>
    match t.child? .member with
    | some m => [(m.text source, m.start.row + 1)]
    | none => []
  | _ => []

/-- The kinds of declarations that a body is not searched for. -/
def isDeclaration (k : Kind) : Bool :=
  k == .implementation || k == .trait || k == .module || k == .declaration || k == .macroCall

/-- The definition that a function node makes in a setting. -/
def definition (source : String) (s : Setting) (t : Tree Kind) (name : String)
    (body : Tree Kind) (decisions : Nat) : Definition :=
  let start := offsetOf source t.start
  let bodyStart := offsetOf source body.start
  let stop := offsetOf source body.stop
  { name := s.qualify name
    simpleName := name
    signature := Text.collapse (Text.slice start bodyStart source)
    parameters :=
      match t.child? .parameters with
      | some ps => (ps.children.filter fun p => p.kind == .parameter).length
      | none => 0
    decisions := decisions
    codeLines := CodeLines.count Language.rust.comments (Text.slice bodyStart stop source)
    span := ⟨start, stop, t.start.row + 1, body.stop.row + 1, t.start.place⟩ }

/-- What a function amounts to once its body has been searched. -/
def record (source : String) (s : Setting) (t : Tree Kind) (found : BodyFindings) :
    Findings :=
  match t.child? .name, t.child? .body with
  | some n, some body =>
    let name := n.text source
    let caller := s.qualify name
    ⟨definition source s t name body found.decisions :: found.nested.definitions,
      found.calls.map (fun c => ⟨caller, c.1, c.2⟩) ++ found.nested.calls, 0⟩
  | _, _ => .none

/-- The name of a function or of a declaration. -/
def nameOf (source : String) (t : Tree Kind) : String :=
  ((t.child? .name).map (Tree.text source)).getD ""

mutual

/-- What is found in a piece of a body. -/
def inBody (source : String) (s : Setting) : Tree Kind → BodyFindings
  | .node k r a b ts =>
    let t : Tree Kind := .node k r a b ts
    if k == .function then
      { BodyFindings.none with
        nested := record source s t (inFunction source (s.inside (nameOf source t)) ts) }
    else if isDeclaration k then .none
    else
      BodyFindings.add
        ⟨ownDecisions source t, ownCalls source s.selfType t, .none⟩
        (inBodies source s ts)

/-- What is found in several pieces of a body. -/
def inBodies (source : String) (s : Setting) : List (Tree Kind) → BodyFindings
  | [] => .none
  | t :: ts => (inBody source s t).add (inBodies source s ts)

/-- What is found in the body among the parts of a function. -/
def inFunction (source : String) (s : Setting) : List (Tree Kind) → BodyFindings
  | [] => .none
  | t :: ts =>
    if t.role == some .body then inBody source s t else inFunction source s ts

end

/-! ### Declarations -/

/-- What a function in a setting amounts to. -/
def ofFunction (source : String) (s : Setting) (t : Tree Kind) : Findings :=
  record source s t (inFunction source (s.inside (nameOf source t)) t.children)

/-- What the functions among the members of an implementation or a trait amount to. -/
def ofMembers (source : String) (s : Setting) (ts : List (Tree Kind)) : Findings :=
  (ts.filter fun t => t.kind == .function).foldl
    (fun f t => f.add (ofFunction source s t)) .none

mutual

/-- **What the functions of a declaration amount to** within the names around it. -/
def ofItem (source : String) (scope : List String) : Tree Kind → Findings
  | .node k r a b ts =>
    let t : Tree Kind := .node k r a b ts
    match k with
    | .function => ofFunction source ⟨scope, none⟩ t
    | .implementation =>
      match (t.child? .type).bind (typeName? source) with
      | some type => ofMembers source ⟨scope ++ [type], some type⟩ ts
      | none => .none
    | .trait =>
      let name := nameOf source t
      ofMembers source ⟨scope ++ [name], some name⟩ ts
    | .module => ofItems source (scope ++ [nameOf source t]) ts
    | _ => .none

/-- What the functions of several declarations amount to. -/
def ofItems (source : String) (scope : List String) : List (Tree Kind) → Findings
  | [] => .none
  | t :: ts => (ofItem source scope t).add (ofItems source scope ts)

end

/-! ### Syntax errors -/

/-- What is wrong where the tokens stop making sense: what one terminal names if only one
was wanted, and all that were wanted otherwise. Where the brackets around it end the
tokens, the end is what is unexpected. -/
def diagnose (tokens : List Token) : Diagnosis :=
  let (state, reach) := grammar.runAll tokens
  let left :=
    match state with
    | some q => min q.left reach.left
    | none => reach.left
  let wanted := (reach.wanted.map Terminal.describe).eraseDups.reverse
  let expected :=
    match wanted with
    | [] => "unexpected token"
    | [w] => "expected " ++ w
    | [v, w] => "expected " ++ v ++ " or " ++ w
    | ws => "expected one of: " ++ ", ".intercalate ws
  match tokens.drop (tokens.length - left) with
  | [] => ⟨.origin, "unexpected end of input, " ++ expected⟩
  | t :: _ =>
    if Lexicon.Rust.isClosing t then ⟨t.start, "unexpected end of input, " ++ expected⟩
    else ⟨t.start, expected⟩

/-- **The outline of a Rust text**, or what is wrong with it. A byte order mark at the start
is no part of the text. -/
def ofText (source : String) : Except Diagnosis Outline :=
  let (start, cs) := Position.skipByteOrderMark source.toList
  let tokens := Lexicon.Rust.tokens start cs
  match Lexicon.Rust.mismatch? [] tokens with
  | some place => .error ⟨place, "cannot parse string into token stream"⟩
  | none =>
    match grammar.parse? tokens with
    | some tree =>
      let found := ofItems source [] tree.children
      .ok (.ofUnordered .rust found.definitions found.calls)
    | none => .error (diagnose tokens)

end Dossier.Outline.Rust
