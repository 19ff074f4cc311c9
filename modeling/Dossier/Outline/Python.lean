import Dossier.Lexicon.Python
import Dossier.Outline.Walk
import Dossier.Syntax.Diagnosis
import Dossier.Syntax.Python

/-!
# Outlines of Python files

Classes qualify the names below them. A first parameter named `self` or `cls` is the
object or class a method belongs to and does not count. Every branching statement,
handler, conditional expression, boolean operator, comprehension loop and guard is a
decision, and so is every case of a match statement except one whose only pattern is the
wildcard.
-/

namespace Dossier.Outline.Python

open Syntax.Python

/-- The kinds of nodes that branch. -/
def decisionKinds : List Kind :=
  [.ifStatement, .elifClause, .forStatement, .whileStatement, .exceptClause, .conditional,
    .booleanOperator, .forInClause, .ifClause]

/-- The kinds of parameters that count. -/
def parameterKinds : List Kind :=
  [.identifier, .typedParameter, .defaultParameter, .typedDefaultParameter, .listSplat,
    .dictionarySplat]

/-- Whether a parameter stands for the object or class of a method. -/
def isReceiver (source : String) (t : Tree Kind) : Bool :=
  t.kind == .identifier && ["self", "cls"].contains (t.text source)

/-- Whether a case has the wildcard for its only pattern. -/
def isWildcard (source : String) (t : Tree Kind) : Bool :=
  match t.children.filter fun c => c.kind == .casePattern with
  | [only] => Text.trim (only.text source) == "_"
  | _ => false

/-- The number of parameters among the parts of a list of parameters. -/
def parametersOf (source : String) (ps : Tree Kind) : Nat :=
  match ps.children.filter fun c => parameterKinds.contains c.kind with
  | [] => 0
  | first :: rest => rest.length + if isReceiver source first then 0 else 1

/-- The name that a call of an expression calls. -/
def calleeName? (source : String) (f : Tree Kind) : Option String :=
  if f.kind == .identifier then some (f.text source)
  else if f.kind == .attribute then (f.child? .member).map (Tree.text source)
  else none

/-- What the nodes of a Python tree mean. -/
def dialect : Dialect Kind where
  language := .python
  container? source t :=
    if t.kind == .classDefinition then (t.child? .name).map (Tree.text source) else none
  function? source t :=
    if t.kind == .functionDefinition then
      t.named? source
    else none
  receiver? _ _ := none
  parameters source t :=
    match t.child? .parameters with
    | some ps => parametersOf source ps
    | none => 0
  callee? source t :=
    if t.kind == .call then (t.child? .callee).bind (calleeName? source) else none
  isDecision source t :=
    if t.kind == .caseClause then !isWildcard source t else decisionKinds.contains t.kind

/-- **The outline of a Python text**, or what is wrong with it. A byte order mark at the
start is no part of the text. -/
def ofText (source : String) : Except Diagnosis Outline :=
  let (start, cs) := Position.skipByteOrderMark source.toList
  let tokens := Lexicon.Python.tokens start cs
  match grammar.parse? tokens with
  | some tree => .ok (dialect.outline source tree)
  | none => .error (grammar.diagnose tokens)

end Dossier.Outline.Python
