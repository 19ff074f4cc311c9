import Dossier.Source.Language
import Dossier.Order.Sorting
import Dossier.Source.Span

/-!
# The outline of a source file

An outline is what the analysis keeps of a file: the functions it defines and the calls
made from them. Definitions are named by their path within the file, so a method bears
the name of its class and a nested function that of the function around it, and they are
listed by where they start. A call bears the name of the innermost function around it.

`Outline.locate` finds a function by its qualified name, and by its bare name only if no
function has that qualified name. Several definitions of one name and one signature count
as one; other coincidences are ambiguous.
-/

namespace Dossier

/-- A function defined in a file. -/
structure Definition where
  /-- The name within the file, with the names of what is around it. -/
  name : String
  /-- The bare name. -/
  simpleName : String
  /-- The declaration before the body, on one line. -/
  signature : String
  parameters : Nat
  /-- The number of places where the body branches. -/
  decisions : Nat
  /-- The number of lines of the body that hold code. -/
  codeLines : Nat
  span : Span
deriving DecidableEq, Repr, Inhabited

/-- The cyclomatic complexity: one path, and one more for each decision. -/
def Definition.complexity (d : Definition) : Nat :=
  d.decisions + 1

/-- A call made from a function of a file. -/
structure Call where
  /-- The qualified name of the innermost function around the call. -/
  caller : String
  /-- The name that is called, as far as it is written at the call. -/
  callee : String
  line : Nat
deriving DecidableEq, Repr, Inhabited

/-- The functions of a file, by where they start, and the calls made from them. -/
structure Outline where
  language : Language
  definitions : List Definition
  calls : List Call
deriving DecidableEq, Repr, Inhabited

/-- What looking a name up in an outline can find. -/
inductive Lookup where
  | found (d : Definition)
  | ambiguous (ds : List Definition)
  | missing
deriving DecidableEq, Repr, Inhabited

namespace Outline

/-- The outline with its definitions put in order. -/
def ofUnordered (l : Language) (ds : List Definition) (cs : List Call) : Outline :=
  ⟨l, Order.sort (fun a b => a.span.start ≤ b.span.start) ds, cs⟩

/-- The definitions a name can mean: those with this qualified name, or else those with
this bare name. -/
def candidates (o : Outline) (name : String) : List Definition :=
  match o.definitions.filter fun d => d.name = name with
  | [] => o.definitions.filter fun d => d.simpleName = name
  | exact => exact

/-- **Finds a function by name.** -/
def locate (o : Outline) (name : String) : Lookup :=
  match o.candidates name with
  | [] => .missing
  | first :: rest =>
    if rest.all fun d => d.name = first.name && d.signature = first.signature then
      .found first
    else .ambiguous (first :: rest)

/-- The calls made from a function. -/
def callsFrom (o : Outline) (caller : String) : List Call :=
  o.calls.filter fun c => c.caller = caller

/-- What is found is one of the definitions. -/
theorem mem_of_locate {o : Outline} {name : String} {d : Definition}
    (h : o.locate name = .found d) : d ∈ o.definitions := by
  have hc : ∀ x ∈ o.candidates name, x ∈ o.definitions := by
    intro x hx
    unfold candidates at hx
    split at hx
    · exact (List.mem_filter.1 hx).1
    · exact (List.mem_filter.1 hx).1
  unfold locate at h
  split at h
  · cases h
  · next first rest hfr =>
    split at h
    · cases h
      exact hc _ (by simp [hfr])
    · cases h

end Outline

end Dossier
