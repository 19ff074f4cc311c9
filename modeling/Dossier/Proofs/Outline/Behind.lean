import Dossier.Outline.Go
import Dossier.Outline.Java
import Dossier.Outline.Python
import Dossier.Proofs.Syntax.Behind
import Dossier.Proofs.Syntax.Places
import Dossier.Proofs.Text.Slice

/-!
# The outline of a text behind another

What an outline says of a function but for where it stands is read off the tree and off pieces of
the text. If the pieces of a text stand in another text further on (`Dossier.MovedBy`), and a
dialect asks for nothing else (`Dossier.Dialect.MovedBy`), the outline of the other text is the same
outline further on (`Dossier.Dialect.MovedBy.outline`). The dialects of Go, Java and Python ask for
the kinds and roles of nodes and for the text that nodes cover, so it is true of them
(`Dossier.Outline.Go.movedBy` and its like).
-/

namespace Dossier

/-- A piece of a text behind a text that ends at `q`. -/
def Span.behind (q : Position) (s : Span) : Span where
  start := q.offset + s.start
  stop := q.offset + s.stop
  startLine := q.row + s.startLine
  stopLine := q.row + s.stopLine
  startColumn := if s.startLine = 1 then q.column + s.startColumn else s.startColumn

theorem Span.between_behind (q a b : Position) :
    Span.between (q.behind a) (q.behind b) = (Span.between a b).behind q := by
  simp only [between, behind, Position.behind, Nat.add_assoc, Nat.add_eq_right]

/-- A function of a text behind a text that ends at `q`. -/
def Definition.behind (q : Position) (d : Definition) : Definition :=
  { d with span := d.span.behind q }

/-- A call in a text behind a text that ends at `q`. -/
def Call.behind (q : Position) (c : Call) : Call :=
  { c with line := q.row + c.line }

/-- What is found in a text behind a text that ends at `q`. -/
def Findings.behind (q : Position) (f : Findings) : Findings where
  definitions := f.definitions.map (Definition.behind q)
  calls := f.calls.map (Call.behind q)
  decisions := f.decisions

theorem Findings.add_behind (q : Position) (f g : Findings) :
    (f.add g).behind q = (f.behind q).add (g.behind q) := by
  simp only [behind, add, List.map_append]

namespace Outline

/-- The outline of a text behind a text that ends at `q`. -/
def behind (q : Position) (o : Outline) : Outline where
  language := o.language
  definitions := o.definitions.map (Definition.behind q)
  calls := o.calls.map (Call.behind q)

theorem ofUnordered_behind (q : Position) (l : Language) (ds : List Definition) (cs : List Call) :
    ofUnordered l (ds.map (Definition.behind q)) (cs.map (Call.behind q)) =
      (ofUnordered l ds cs).behind q := by
  have horder : (fun a b : Definition =>
      decide ((a.behind q).span.start ≤ (b.behind q).span.start)) =
        fun a b => decide (a.span.start ≤ b.span.start) := by
    funext a b
    exact decide_eq_decide.mpr (Nat.add_le_add_iff_left)
  rw [ofUnordered, Order.sort_map, horder]
  rfl

end Outline

/-- What looking a name up finds in a text behind a text that ends at `q`. -/
def Lookup.behind (q : Position) : Lookup → Lookup
  | .found d => .found (d.behind q)
  | .ambiguous ds => .ambiguous (ds.map (Definition.behind q))
  | .missing => .missing

theorem Outline.locate_behind (q : Position) (o : Outline) (name : String) :
    (o.behind q).locate name = (o.locate name).behind q := by
  -- The names of definitions do not move, so the same ones are chosen.
  have hcandidates : (o.behind q).candidates name =
      (o.candidates name).map (Definition.behind q) := by
    have hfilter : ∀ p : Definition → Bool, (∀ d, p (d.behind q) = p d) →
        (o.behind q).definitions.filter p = (o.definitions.filter p).map (Definition.behind q) := by
      intro p hp
      rw [Outline.behind, List.filter_map]
      congr 2
      funext d
      exact hp d
    rw [candidates, candidates, hfilter (fun d => d.name = name) fun _ => rfl,
      hfilter (fun d => d.simpleName = name) fun _ => rfl]
    split
    · next hnone =>
      rw [List.map_eq_nil_iff.mp hnone]
    · next hsome =>
      split
      · next hnone => exact (hsome (List.map_eq_nil_iff.mpr hnone)).elim
      · rfl
  unfold locate
  rw [hcandidates]
  rcases o.candidates name with _ | ⟨d, ds⟩
  · rfl
  · rw [List.map_cons]
    dsimp only
    -- Whether the others agree with the first one is a matter of names and signatures.
    have hall : ((ds.map (Definition.behind q)).all fun e =>
        decide (e.name = (d.behind q).name) && decide (e.signature = (d.behind q).signature)) =
          ds.all fun e => decide (e.name = d.name) && decide (e.signature = d.signature) := by
      rw [List.all_map]
      rfl
    rw [hall]
    split <;> rfl

/-! ### Reading a text further on -/

/-- **Whether the pieces of a text stand in another one further on.** -/
def MovedBy (q : Position) (P : Position → Prop) (whole core : String) : Prop :=
  ∀ a b, P a → P b →
    Text.slice (q.behind a).offset (q.behind b).offset whole = Text.slice a.offset b.offset core

variable {κ : Type} {q : Position} {P : Position → Prop} {whole core : String} {t : Tree κ}

theorem MovedBy.text (h : MovedBy q P whole core) (ht : t.Within P) :
    (t.behind q).text whole = t.text core := by
  rw [Tree.text, Tree.text, Tree.start_behind, Tree.stop_behind]
  exact h _ _ ht.start ht.stop

/-- What stands in a child with some role. -/
theorem MovedBy.child_text (h : MovedBy q P whole core) (ht : t.Within P) (r : Role) :
    ((t.behind q).child? r).map (Tree.text whole) = (t.child? r).map (Tree.text core) := by
  rw [Tree.child?_behind, Option.map_map]
  rcases hc : t.child? r with _ | c
  · rfl
  · exact congrArg some (h.text (ht.child? hc))

namespace Dialect

/-- **Whether a dialect says the same of a text and of where it stands in another one.** -/
structure MovedBy (d : Dialect κ) (q : Position) (P : Position → Prop) (whole core : String) :
    Prop where
  moved : Dossier.MovedBy q P whole core
  container : ∀ t, t.Within P → d.container? whole (t.behind q) = d.container? core t
  function : ∀ t, t.Within P →
    d.function? whole (t.behind q) = (d.function? core t).map fun r => (r.1, r.2.behind q)
  body : ∀ t r, t.Within P → d.function? core t = some r → r.2.Within P
  receiver : ∀ t, t.Within P → d.receiver? whole (t.behind q) = d.receiver? core t
  parameters : ∀ t, t.Within P → d.parameters whole (t.behind q) = d.parameters core t
  callee : ∀ t, t.Within P → d.callee? whole (t.behind q) = d.callee? core t
  decision : ∀ t, t.Within P → d.isDecision whole (t.behind q) = d.isDecision core t

namespace MovedBy

variable {d : Dialect κ}

section Nodes

variable (hd : d.MovedBy q P whole core)
include hd

theorem segment (ht : t.Within P) (simpleName : String) :
    d.segment whole (t.behind q) simpleName = d.segment core t simpleName := by
  rw [Dialect.segment, Dialect.segment, hd.receiver t ht]

theorem definition (ht : t.Within P) {body : Tree κ} (hbody : body.Within P)
    (scope : List String) (simpleName : String) (decisions : Nat) :
    d.definition whole scope (t.behind q) simpleName (body.behind q) decisions =
      (d.definition core scope t simpleName body decisions).behind q := by
  have hsignature := hd.moved _ _ ht.start hbody.start
  simp only [Dialect.definition, Definition.behind, hd.segment ht, hd.parameters t ht,
    hd.moved.text hbody, Tree.start_behind, Tree.stop_behind, hsignature, Span.between_behind]

theorem own (ht : t.Within P) (current : Option String) :
    d.own whole current (t.behind q) = (d.own core current t).behind q := by
  simp only [Dialect.own, Findings.behind, hd.callee t ht, hd.decision t ht, Tree.start_behind,
    List.map_nil]
  congr 1
  rcases current with _ | caller <;> rcases d.callee? core t with _ | callee <;> rfl

end Nodes

mutual

/-- **What is found in a tree** that stands further on is the same further on. -/
theorem findings (hd : d.MovedBy q P whole core) : ∀ (t : Tree κ) (scope : List String)
    (current : Option String), t.Within P →
      d.findings whole scope current (t.behind q) = (d.findings core scope current t).behind q
  | .node k r a b ts, scope, current, ht => by
    have hall := fun scope current => findingsAll hd ts scope current ht.children
    simp only [← Tree.behindAll_eq] at hall
    rw [Tree.behind, Dialect.findings, Dialect.findings]
    dsimp only
    rw [← Tree.behind]
    generalize (.node k r a b ts : Tree κ) = t at ht
    rw [hd.function t ht, hd.container t ht]
    rcases hfunction : d.function? core t with _ | ⟨simpleName, body⟩
    · rw [Option.map_none]
      dsimp only
      rcases d.container? core t with _ | name
      · dsimp only
        rw [hd.own ht, hall, Findings.add_behind]
      · dsimp only
        rw [hall]
    · rw [Option.map_some]
      dsimp only
      rw [hd.segment ht, hall, hd.definition ht (hd.body t _ ht hfunction)]
      rfl

theorem findingsAll (hd : d.MovedBy q P whole core) : ∀ (ts : List (Tree κ)) (scope : List String)
    (current : Option String), (∀ t ∈ ts, t.Within P) →
      d.findingsAll whole scope current (ts.map (Tree.behind q)) =
        (d.findingsAll core scope current ts).behind q
  | [], _, _, _ => rfl
  | t :: ts, scope, current, h => by
    obtain ⟨ht, hts⟩ := List.forall_mem_cons.mp h
    rw [List.map_cons, Dialect.findingsAll, Dialect.findingsAll, findings hd t scope current ht,
      findingsAll hd ts scope current hts, Findings.add_behind]

end

/-- **The outline of a tree** that stands further on is the same outline further on. -/
theorem outline (hd : d.MovedBy q P whole core) (ht : t.Within P) :
    d.outline whole (t.behind q) = (d.outline core t).behind q := by
  rw [Dialect.outline, Dialect.outline, hd.findings t [] none ht]
  exact Outline.ofUnordered_behind q _ _ _

end MovedBy

end Dialect

/-! ### What the dialects ask for -/

variable {α : Type}

namespace Tree

theorem childrenAs_behind (q : Position) (t : Tree κ) (r : Role) :
    (t.behind q).childrenAs r = (t.childrenAs r).map (behind q) := by
  rw [childrenAs, childrenAs, children_behind, List.filter_map]
  congr 2
  funext c
  exact congrArg (· == some r) (role_behind q c)

/-- The children that are picked by their kinds. -/
theorem filter_children_behind (q : Position) (t : Tree κ) (p : κ → Bool) :
    (t.behind q).children.filter (fun c => p c.kind) =
      (t.children.filter fun c => p c.kind).map (behind q) := by
  rw [children_behind, List.filter_map]
  congr 2
  funext c
  exact congrArg p (kind_behind q c)

theorem find?_children_behind (q : Position) (t : Tree κ) (p : κ → Bool) :
    (t.behind q).children.find? (fun c => p c.kind) =
      (t.children.find? fun c => p c.kind).map (behind q) := by
  rw [children_behind, List.find?_map]
  congr 2
  funext c
  exact congrArg p (kind_behind q c)

/-- What is asked of a child with some role. -/
theorem bind_child?_behind {r : Role} {f g : Tree κ → Option α}
    (h : ∀ c, t.child? r = some c → f (c.behind q) = g c) :
    ((t.behind q).child? r).bind f = (t.child? r).bind g := by
  rw [child?_behind]
  rcases hc : t.child? r with _ | c
  · rfl
  · exact h c hc

theorem Within.named? {r : String × Tree κ} (ht : t.Within P) (hr : t.named? core = some r) :
    r.2.Within P := by
  unfold Tree.named? at hr
  split at hr
  · next name body hname hbody =>
    obtain rfl := Option.some.inj hr
    exact ht.child? hbody
  · cases hr

end Tree

namespace MovedBy

variable (h : MovedBy q P whole core) (ht : t.Within P)
include h ht

theorem named? :
    (t.behind q).named? whole = (t.named? core).map fun r => (r.1, r.2.behind q) := by
  unfold Tree.named?
  rw [Tree.child?_behind, Tree.child?_behind]
  rcases hname : t.child? .name with _ | name
  · rfl
  rcases t.child? .body with _ | body
  · rfl
  · simp only [Option.map_some, h.text (ht.child? hname)]

theorem mayStop : (t.behind q).mayStop whole = t.mayStop core := by
  unfold Tree.mayStop
  rw [Tree.child?_behind]
  rcases hc : t.child? .operator with _ | c
  · rfl
  · simp only [Option.map_some, h.text (ht.child? hc)]

end MovedBy

namespace Outline

namespace Go

open Syntax.Go

variable {t : Tree Kind}

theorem parametersOf_behind (q : Position) (t : Tree Kind) :
    parametersOf (t.behind q) = parametersOf t := by
  simp only [parametersOf, Tree.kind_behind, Tree.childrenAs_behind, List.length_map]

theorem receiver?_behind (h : MovedBy q P whole core) (ht : t.Within P) :
    receiver? whole (t.behind q) = receiver? core t := by
  refine Tree.bind_child?_behind fun r hr => ?_
  rw [Tree.find?_children_behind q r (· == .parameter)]
  rcases hp : r.children.find? fun c => c.kind == .parameter with _ | p <;> rw [hp]
  · rw [Option.map_none, Option.bind_none, Option.bind_none]
  · have hwithin := (ht.child? hr).children p (List.mem_of_find?_eq_some hp)
    refine Tree.bind_child?_behind fun ty hty => ?_
    rw [h.text (hwithin.child? hty)]

theorem calleeName?_behind (h : MovedBy q P whole core) (ht : t.Within P) :
    calleeName? whole (t.behind q) = calleeName? core t := by
  rw [calleeName?, calleeName?, Tree.kind_behind, h.text ht, h.child_text ht]

theorem movedBy (h : MovedBy q P whole core) : dialect.MovedBy q P whole core where
  moved := h
  container _ _ := rfl
  function t ht := by
    dsimp only [dialect]
    rw [Tree.kind_behind, h.named? ht]
    split <;> rfl
  body t r ht hr := ht.named? (Option.ite_none_right_eq_some.mp hr).2
  receiver t ht := by
    dsimp only [dialect]
    rw [Tree.kind_behind, receiver?_behind h ht]
  parameters t ht := by
    dsimp only [dialect]
    rw [Tree.child?_behind]
    rcases t.child? .parameters with _ | ps
    · rfl
    · dsimp only [Option.map_some]
      rw [Tree.children_behind, List.map_map]
      exact congrArg _ (List.map_congr_left fun p _ => parametersOf_behind q p)
  callee t ht := by
    dsimp only [dialect]
    rw [Tree.kind_behind, Tree.bind_child?_behind fun f hf => calleeName?_behind h (ht.child? hf)]
  decision t ht := by
    dsimp only [dialect, isShortCircuit]
    rw [Tree.kind_behind, h.mayStop ht]

end Go

namespace Java

open Syntax.Java

theorem movedBy (h : MovedBy q P whole core) : dialect.MovedBy q P whole core where
  moved := h
  container t ht := by
    dsimp only [dialect]
    rw [Tree.kind_behind, h.child_text ht]
  function t ht := by
    dsimp only [dialect]
    rw [Tree.kind_behind, h.named? ht]
    split <;> rfl
  body t r ht hr := ht.named? (Option.ite_none_right_eq_some.mp hr).2
  receiver _ _ := rfl
  parameters t ht := by
    dsimp only [dialect]
    rw [Tree.child?_behind]
    rcases t.child? .parameters with _ | ps
    · rfl
    · dsimp only [Option.map_some]
      rw [Tree.filter_children_behind q ps fun k => k == .formalParameter || k == .spreadParameter,
        List.length_map]
  callee t ht := by
    dsimp only [dialect]
    have hclass : ∀ ty, t.child? .type = some ty →
        className? whole (ty.behind q) = className? core ty := by
      intro ty hty
      rw [className?, className?, Tree.kind_behind, h.text (ht.child? hty)]
    rw [Tree.kind_behind, h.child_text ht, Tree.bind_child?_behind hclass]
  decision t ht := by
    dsimp only [dialect, isShortCircuit]
    rw [Tree.kind_behind, h.mayStop ht]

end Java

namespace Python

open Syntax.Python

variable {t : Tree Kind}

theorem parametersOf_behind (h : MovedBy q P whole core) (ht : t.Within P) :
    parametersOf whole (t.behind q) = parametersOf core t := by
  rw [parametersOf, parametersOf, Tree.filter_children_behind q t parameterKinds.contains]
  rcases hps : t.children.filter fun c => parameterKinds.contains c.kind with _ | ⟨first, rest⟩ <;>
    rw [hps]
  · rfl
  · have hwithin := ht.children first (List.mem_of_mem_filter (hps ▸ List.mem_cons_self))
    rw [List.map_cons]
    dsimp only
    rw [List.length_map, isReceiver, isReceiver, Tree.kind_behind, h.text hwithin]

theorem isWildcard_behind (h : MovedBy q P whole core) (ht : t.Within P) :
    isWildcard whole (t.behind q) = isWildcard core t := by
  rw [isWildcard, isWildcard, Tree.filter_children_behind q t (· == .casePattern)]
  rcases hps : t.children.filter fun c => c.kind == .casePattern with _ | ⟨only, _ | _⟩ <;>
    rw [hps]
  · rfl
  · have hwithin := ht.children only (List.mem_of_mem_filter (hps ▸ List.mem_cons_self))
    rw [List.map_cons, List.map_nil]
    dsimp only
    rw [h.text hwithin]
  · rfl

theorem calleeName?_behind (h : MovedBy q P whole core) (ht : t.Within P) :
    calleeName? whole (t.behind q) = calleeName? core t := by
  rw [calleeName?, calleeName?, Tree.kind_behind, h.text ht, h.child_text ht]

theorem movedBy (h : MovedBy q P whole core) : dialect.MovedBy q P whole core where
  moved := h
  container t ht := by
    dsimp only [dialect]
    rw [Tree.kind_behind, h.child_text ht]
  function t ht := by
    dsimp only [dialect]
    rw [Tree.kind_behind, h.named? ht]
    split <;> rfl
  body t r ht hr := ht.named? (Option.ite_none_right_eq_some.mp hr).2
  receiver _ _ := rfl
  parameters t ht := by
    dsimp only [dialect]
    rw [Tree.child?_behind]
    rcases hps : t.child? .parameters with _ | ps
    · rfl
    · exact parametersOf_behind h (ht.child? hps)
  callee t ht := by
    dsimp only [dialect]
    rw [Tree.kind_behind, Tree.bind_child?_behind fun f hf => calleeName?_behind h (ht.child? hf)]
  decision t ht := by
    dsimp only [dialect]
    rw [Tree.kind_behind, isWildcard_behind h ht]

end Python

end Outline

end Dossier
