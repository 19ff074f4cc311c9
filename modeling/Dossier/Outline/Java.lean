import Dossier.Lexicon.Java
import Dossier.Outline.Walk
import Dossier.Syntax.Diagnosis
import Dossier.Syntax.Java

/-!
# Outlines of Java files

Classes, interfaces, enumerations and records qualify the names below them. Functions are
the methods and constructors that have a body. A method call bears the name of the
method, and a creation the bare name of the class. Conditionals, loops, handlers, case
labels, conditional expressions and the two short-circuit operators are decisions.
-/

namespace Dossier.Outline.Java

open Syntax.Java

/-- The kinds of nodes that qualify names. -/
def containerKinds : List Kind :=
  [.classDeclaration, .interfaceDeclaration, .enumDeclaration, .recordDeclaration]

/-- The kinds of nodes that branch. -/
def decisionKinds : List Kind :=
  [.ifStatement, .forStatement, .enhancedForStatement, .whileStatement, .doStatement,
    .catchClause, .ternaryExpression, .caseLabel]

/-- Whether a node is an operation that may skip its second operand. -/
def isShortCircuit (source : String) (t : Tree Kind) : Bool :=
  t.kind == .binaryExpression && t.mayStop source

/-- The name of the class that a creation names without more. -/
def className? (source : String) (ty : Tree Kind) : Option String :=
  if ty.kind == .typeIdentifier then some (ty.text source) else none

/-- What the nodes of a Java tree mean. -/
def dialect : Dialect Kind where
  language := .java
  container? source t :=
    if containerKinds.contains t.kind then (t.child? .name).map (Tree.text source) else none
  function? source t :=
    if t.kind == .methodDeclaration || t.kind == .constructorDeclaration then
      t.named? source
    else none
  receiver? _ _ := none
  parameters _ t :=
    match t.child? .parameters with
    | some ps =>
      (ps.children.filter fun p =>
        p.kind == .formalParameter || p.kind == .spreadParameter).length
    | none => 0
  callee? source t :=
    if t.kind == .methodInvocation then (t.child? .name).map (Tree.text source)
    else if t.kind == .objectCreation then (t.child? .type).bind (className? source)
    else none
  isDecision source t := decisionKinds.contains t.kind || isShortCircuit source t

/-- **The outline of a Java text**, or what is wrong with it. A byte order mark at the start
is no part of the text. -/
def ofText (source : String) : Except Diagnosis Outline :=
  let (start, cs) := Position.skipByteOrderMark source.toList
  let tokens := Lexicon.Java.tokens start cs
  match grammar.parse? tokens with
  | some tree => .ok (dialect.outline source tree)
  | none => .error (grammar.diagnose tokens)

end Dossier.Outline.Java
