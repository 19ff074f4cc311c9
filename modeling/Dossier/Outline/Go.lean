import Dossier.Lexicon.Go
import Dossier.Outline.Walk
import Dossier.Syntax.Diagnosis
import Dossier.Syntax.Go

/-!
# Outlines of Go files

Nothing qualifies a name but the receiver of a method, whose type stands before the name
without its stars and its type arguments. Function literals belong to the function they
stand in. Conditionals, loops, the cases of a switch or select other than the default,
and the two short-circuit operators are decisions.
-/

namespace Dossier.Outline.Go

open Syntax.Go

/-- The kinds of nodes that branch. -/
def decisionKinds : List Kind :=
  [.ifStatement, .forStatement, .expressionCase, .typeCase, .communicationCase]

/-- Whether a node is an operation that may skip its second operand. -/
def isShortCircuit (source : String) (t : Tree Kind) : Bool :=
  t.kind == .binaryExpression && t.mayStop source

/-- The name of a receiver type: what is left without leading stars and up to a square
bracket. -/
def receiverName? (text : String) : Option String :=
  let base := (text.toList.dropWhile (· == '*')).takeWhile (· != '[')
  let name := Text.trimChars base
  if name.isEmpty then none else some (String.ofList name)

/-- The number of parameters that a declaration of parameters makes. -/
def parametersOf (t : Tree Kind) : Nat :=
  match t.kind with
  | .parameter => max 1 (t.childrenAs .name).length
  | .variadicParameter => 1
  | _ => 0

/-- The name of the type that a method belongs to. -/
def receiver? (source : String) (t : Tree Kind) : Option String :=
  (t.child? .receiver).bind fun r =>
    (r.children.find? fun c => c.kind == .parameter).bind fun p =>
      (p.child? .type).bind fun ty => receiverName? (ty.text source)

/-- The name that a call of an expression calls. -/
def calleeName? (source : String) (f : Tree Kind) : Option String :=
  if f.kind == .identifier then some (f.text source)
  else if f.kind == .selectorExpression then (f.child? .member).map (Tree.text source)
  else none

/-- What the nodes of a Go tree mean. -/
def dialect : Dialect Kind where
  language := .go
  container? _ _ := none
  function? source t :=
    if t.kind == .functionDeclaration || t.kind == .methodDeclaration then
      t.named? source
    else none
  receiver? source t := if t.kind == .methodDeclaration then receiver? source t else none
  parameters _ t :=
    match t.child? .parameters with
    | some ps => (ps.children.map parametersOf).foldl (· + ·) 0
    | none => 0
  callee? source t :=
    if t.kind == .callExpression then (t.child? .callee).bind (calleeName? source) else none
  isDecision source t := decisionKinds.contains t.kind || isShortCircuit source t

/-- **The outline of a Go text**, or what is wrong with it. A byte order mark at the start
is no part of the text. -/
def ofText (source : String) : Except Diagnosis Outline :=
  let (start, cs) := Position.skipByteOrderMark source.toList
  let tokens := Lexicon.Go.tokens start cs
  match grammar.parse? tokens with
  | some tree => .ok (dialect.outline source tree)
  | none => .error (grammar.diagnose tokens)

end Dossier.Outline.Go
