import Dossier.Outline.Rust
import Dossier.Proofs.Syntax.Grammar
import Dossier.Proofs.Syntax.Occurrences

/-!
# Which functions of a Rust file are recorded

The functions of a file are searched for in two ways: among the declarations of the file and of its
modules, implementations and traits, and among the statements of bodies, where other declarations
are passed over. `Dossier.Outline.Rust.passes` tells of each node whether the search goes on from it
to one of its children, and a function is recorded exactly if it does so all the way down
(`Dossier.Outline.Rust.recorded_eq`).

So not every function with a body is recorded. The search stops at implementations of types without
a name, and, inside a function, at every implementation, trait and module; it does not look into
the initial values of constants or into the types of a signature.
-/

namespace Dossier.Outline.Rust

open Syntax.Rust

/-- The syntax tree of a text, if it has one. -/
def tree? (source : String) : Option (Tree Kind) :=
  let (start, cs) := Position.skipByteOrderMark source.toList
  grammar.parse? (Lexicon.Rust.tokens start cs)

variable (source : String)

/-! ### Functions and what stands above them -/

/-- The names that a node puts before those of the functions below it. -/
def scopeNames (t : Tree Kind) : List String :=
  match t.kind with
  | .function | .trait | .module => [nameOf source t]
  | .implementation => ((t.child? .type).bind (typeName? source)).toList
  | _ => []

/-- The names of what stands above a node, the outermost first. -/
def scope (above : List (Tree Kind × Nat)) : List String :=
  above.reverse.flatMap fun step => scopeNames source step.1

/-- **The definition of a function with a body**, without its decisions. -/
def bare? (f : Occurrence Kind) : Option Definition :=
  if f.node.kind == .function then
    match f.node.child? .name, f.node.child? .body with
    | some n, some body =>
      some (definition source ⟨scope source f.above, none⟩ f.node (n.text source) body 0)
    | _, _ => none
  else none

/-- The definitions of all functions with a body, without their decisions. -/
def functions (os : List (Occurrence Kind)) : List Definition :=
  os.filterMap (bare? source)

/-- Whether a node stands inside a function. -/
def isInside (above : List (Tree Kind × Nat)) : Bool :=
  above.any fun step => step.1.kind == .function

/-- Whether a child is the first one in the role of the body. -/
def isBody (t : Tree Kind) (i : Nat) : Bool :=
  t.children.findIdx? (fun c => c.role == some .body) == some i

/-- Whether a child is a function. -/
def isMember (t : Tree Kind) (i : Nat) : Bool :=
  t.children[i]?.any fun c => c.kind == .function

/-- **Whether the search for functions goes on** from a node to its `i`-th child. -/
def passes (t : Tree Kind) (i : Nat) (above : List (Tree Kind × Nat)) : Bool :=
  match t.kind with
  -- From a function to its body, and not to what stands before it.
  | .function => (bare? source ⟨above, t⟩).isSome && isBody t i
  -- From a declaration to its parts, but only outside functions.
  | .module => !isInside above
  | .trait => !isInside above && isMember t i
  -- The type of an implementation needs a name.
  | .implementation =>
    !isInside above && ((t.child? .type).bind (typeName? source)).isSome && isMember t i
  -- Never into other declarations, or what a macro is applied to.
  | .declaration | .macroCall => false
  | .file => above.isEmpty || isInside above
  -- Through statements and expressions, which are looked at in functions only.
  | _ => isInside above

/-- **Whether the search gets to a node** with these nodes above it. -/
def reaches : List (Tree Kind × Nat) → Bool
  | [] => true
  | (t, i) :: above => reaches above && passes source t i above

/-- The definitions of the functions that the search gets to. -/
def reached (os : List (Occurrence Kind)) : List Definition :=
  os.filterMap fun f => if reaches source f.above then bare? source f else none

/-- All of a definition but its decisions. -/
def withoutDecisions (d : Definition) : Definition :=
  { d with decisions := 0 }

/-- The definitions of what is found, without their decisions. -/
def bareOf (ds : List Definition) : List Definition :=
  ds.map withoutDecisions

variable {source} {s : Setting} {t : Tree Kind} {ts : List (Tree Kind)} {i : Nat}
  {above way : List (Tree Kind × Nat)} {os os' : List (Occurrence Kind)}

theorem scope_cons :
    scope source ((t, i) :: above) = scope source above ++ scopeNames source t := by
  simp [scope]

@[simp] theorem bareOf_append (ds ds' : List Definition) :
    bareOf (ds ++ ds') = bareOf ds ++ bareOf ds' :=
  List.map_append

@[simp] theorem reached_append :
    reached source (os ++ os') = reached source os ++ reached source os' :=
  List.filterMap_append

theorem reached_cons {o : Occurrence Kind} :
    reached source (o :: os) =
      (if reaches source o.above then bare? source o else none).toList ++ reached source os := by
  rw [reached, List.filterMap_cons]
  rcases (if reaches source o.above then bare? source o else none) with _ | d <;> rfl

theorem bare?_of_ne (h : t.kind ≠ .function) : bare? source ⟨above, t⟩ = none :=
  if_neg (by simpa using h)

/-- What is reached is reached through everything above it. -/
theorem reaches_of_suffix (h : above <:+ way) (hway : reaches source way = true) :
    reaches source above = true := by
  obtain ⟨inner, rfl⟩ := h
  induction inner with
  | nil => exact hway
  | cons step inner ih => exact ih (Bool.and_eq_true_iff.mp hway).1

/-- Nothing is reached below what is not reached. -/
theorem reached_eq_nil_of_suffix (h : ∀ o ∈ os, above <:+ o.above)
    (habove : reaches source above = false) : reached source os = [] := by
  refine List.filterMap_eq_nil_iff.mpr fun o ho => if_neg fun hreached => ?_
  rw [reaches_of_suffix (h o ho) hreached] at habove
  cases habove

theorem reached_occurrences_eq_nil (h : reaches source above = false) :
    reached source (t.occurrences above) = [] :=
  reached_eq_nil_of_suffix (fun _ => Tree.suffix_of_mem_occurrences t) h

/-- Nothing is reached below a node that the search does not leave. -/
theorem reached_among_eq_nil (h : ∀ j, i ≤ j → passes source t j above = false) :
    reached source (Tree.occurrencesAmong above t i ts) = [] := by
  refine List.filterMap_eq_nil_iff.mpr fun o ho => if_neg fun hreached => ?_
  obtain ⟨j, hij, hj⟩ := Tree.suffix_of_mem_occurrencesAmong ts ho
  have hstep := (Bool.and_eq_true_iff.mp (reaches_of_suffix hj hreached)).2
  rw [h j hij] at hstep
  cases hstep

/-! ### Bodies -/

/-- Inside a function the search does not go into declarations. -/
theorem passes_of_declaration (hkind : isDeclaration t.kind = true)
    (hinside : isInside above = true) : passes source t i above = false := by
  unfold passes
  rcases h : t.kind <;> simp_all [isDeclaration]

/-- It goes through everything else but functions. -/
theorem passes_of_statement (hfunction : t.kind ≠ .function)
    (hkind : ¬isDeclaration t.kind = true) (hinside : isInside above = true) :
    passes source t i above = true := by
  unfold passes
  rcases h : t.kind <;> simp_all [isDeclaration]

/-- What is no function and no declaration puts nothing before the names below it. -/
theorem scopeNames_of_statement (hfunction : t.kind ≠ .function)
    (hkind : ¬isDeclaration t.kind = true) : scopeNames source t = [] := by
  unfold scopeNames
  rcases h : t.kind <;> simp_all [isDeclaration]

/-- What a function amounts to, when its body has been searched. -/
theorem record_eq {found : BodyFindings} (hkind : t.kind = .function)
    (habove : reaches source above = true) (hscope : s.scope = scope source above)
    (hfound : (bare? source ⟨above, t⟩).isSome → bareOf found.nested.definitions =
      reached source (Tree.occurrencesAmong above t 0 t.children)) :
    bareOf (record source s t found).definitions = reached source (t.occurrences above) := by
  have hfunction : (t.kind == .function) = true := by rw [hkind, beq_self_eq_true]
  have hbare : bare? source ⟨above, t⟩ =
      match t.child? .name, t.child? .body with
      | some n, some body => some (definition source ⟨scope source above, none⟩ t (n.text source)
          body 0)
      | _, _ => none := if_pos hfunction
  -- Without a name or a body nothing is recorded, and the search does not go on.
  have hstuck : bare? source ⟨above, t⟩ = none →
      reached source (Tree.occurrencesAmong above t 0 t.children) = [] := by
    refine fun hnone => reached_among_eq_nil fun j _ => ?_
    simp only [passes, hkind, hnone, Option.isSome_none, Bool.false_and]
  rw [Tree.occurrences_eq, reached_cons, if_pos habove, record]
  generalize t.child? .name = name, t.child? .body = body at hbare ⊢
  rcases name with _ | n
  · rw [hstuck hbare, hbare]
    rfl
  rcases body with _ | body
  · rw [hstuck hbare, hbare]
    rfl
  · rw [← hfound (by rw [hbare]; rfl), hbare, ← hscope]
    rfl

mutual

/-- **The functions nested in a piece of a body** are those that the search gets to. -/
theorem inBody_eq : ∀ (t : Tree Kind) {above : List (Tree Kind × Nat)} {s : Setting},
    reaches source above = true → isInside above = true → s.scope = scope source above →
      bareOf (inBody source s t).nested.definitions = reached source (t.occurrences above)
  | .node k r a b ts, above, s, habove, hinside, hscope => by
    rw [inBody]
    dsimp only
    by_cases hkind : k = .function
    · rw [if_pos (by simpa using hkind)]
      refine record_eq hkind habove hscope fun hbare => ?_
      refine inFunction_eq ts hkind hbare habove ?_ ?_
      · simp [Tree.children]
      · simp [Setting.inside, hscope]
    · rw [if_neg (by simpa using hkind), Tree.occurrences, reached_cons,
        bare?_of_ne (t := .node k r a b ts) hkind, ite_self, Option.toList_none, List.nil_append]
      by_cases hdeclaration : isDeclaration k = true
      · rw [if_pos hdeclaration]
        exact (reached_among_eq_nil fun j _ =>
          passes_of_declaration (t := .node k r a b ts) hdeclaration hinside).symm
      · rw [if_neg hdeclaration]
        have hnames : scopeNames source (.node k r a b ts) = [] :=
          scopeNames_of_statement hkind hdeclaration
        refine inBodies_eq ts (fun j => ?_) ?_ ?_
        · rw [reaches, habove, Bool.true_and]
          exact passes_of_statement hkind hdeclaration hinside
        · rw [isInside, List.any_cons, Bool.or_eq_true]
          exact Or.inr hinside
        · rw [scope_cons, hnames, List.append_nil, hscope]

/-- The functions nested in several pieces of a body. -/
theorem inBodies_eq : ∀ (ts : List (Tree Kind)) {above : List (Tree Kind × Nat)} {s : Setting}
    {parent : Tree Kind} {i : Nat}, (∀ j, reaches source ((parent, j) :: above) = true) →
      isInside ((parent, i) :: above) = true →
      s.scope = scope source ((parent, i) :: above) →
        bareOf (inBodies source s ts).nested.definitions =
          reached source (Tree.occurrencesAmong above parent i ts)
  | [], _, _, _, _, _, _, _ => rfl
  | t :: ts, above, s, parent, i, hreaches, hinside, hscope => by
    have hfirst := inBody_eq t (hreaches i) hinside hscope
    have hrest := inBodies_eq ts (i := i + 1) hreaches hinside
      (by rw [hscope, scope_cons, scope_cons])
    rw [inBodies, Tree.occurrencesAmong, reached_append, ← hfirst, ← hrest]
    exact bareOf_append _ _

/-- The functions nested in the body among the parts of a function. -/
theorem inFunction_eq : ∀ (ts : List (Tree Kind)) {above : List (Tree Kind × Nat)} {s : Setting}
    {t : Tree Kind} {i : Nat}, t.kind = .function → (bare? source ⟨above, t⟩).isSome →
      reaches source above = true →
      t.children.findIdx? (fun c => c.role == some .body) =
        (ts.findIdx? fun c => c.role == some .body).map (· + i) →
      s.scope = scope source above ++ [nameOf source t] →
        bareOf (inFunction source s ts).nested.definitions =
          reached source (Tree.occurrencesAmong above t i ts)
  | [], _, _, _, _, _, _, _, _, _ => rfl
  | c :: ts, above, s, t, i, hkind, hbare, habove, hbody, hscope => by
    have hpasses : ∀ j, passes source t j above = isBody t j := by
      intro j
      simp only [passes, hkind, hbare, Bool.true_and]
    have hscope' : ∀ j, s.scope = scope source ((t, j) :: above) := by
      intro j
      rw [scope_cons, hscope, scopeNames, hkind]
    have hinside : ∀ j, isInside ((t, j) :: above) = true := by
      intro j
      simp [isInside, hkind]
    rw [inFunction, Tree.occurrencesAmong, reached_append]
    rw [List.findIdx?_cons] at hbody
    split
    · next hrole =>
      -- This is the body, and nothing else is searched.
      rw [if_pos hrole, Option.map_some, Nat.zero_add] at hbody
      have hlater : ∀ j, i + 1 ≤ j → passes source t j above = false := by
        intro j hj
        rw [hpasses, isBody, hbody]
        exact beq_false_of_ne fun h => absurd (Option.some.inj h) (by omega)
      rw [reached_among_eq_nil hlater, List.append_nil]
      refine inBody_eq c ?_ (hinside i) (hscope' i)
      rw [reaches, habove, hpasses, isBody, hbody, beq_self_eq_true, Bool.and_self]
    · next hrole =>
      -- The body is still to come, and in this child nothing is searched.
      rw [if_neg hrole, Option.map_map] at hbody
      have hnot : isBody t i = false := by
        rw [isBody, hbody]
        refine beq_false_of_ne fun h => ?_
        obtain ⟨j, -, hj⟩ := Option.map_eq_some_iff.mp h
        simp only [Function.comp_apply] at hj
        omega
      have hreaches : reaches source ((t, i) :: above) = false := by
        rw [reaches, hpasses, hnot, Bool.and_false]
      rw [reached_occurrences_eq_nil hreaches, List.nil_append]
      refine inFunction_eq ts hkind hbare habove ?_ hscope
      rw [hbody]
      congr 1
      funext j
      simp only [Function.comp_apply]
      omega

end

/-- A function that the search gets to amounts to what the search gets to in it. -/
theorem ofFunction_eq (hkind : t.kind = .function) (habove : reaches source above = true)
    (hscope : s.scope = scope source above) :
    bareOf (ofFunction source s t).definitions = reached source (t.occurrences above) := by
  refine record_eq hkind habove hscope fun hbare => ?_
  refine inFunction_eq t.children hkind hbare habove ?_ ?_
  · simp
  · simp [Setting.inside, hscope]

/-! ### Declarations -/

/-- Members are searched one after the other. -/
theorem bareOf_ofMembers (s : Setting) (ts : List (Tree Kind)) :
    bareOf (ofMembers source s ts).definitions =
      (ts.filter fun t => t.kind == .function).flatMap fun t =>
        bareOf (ofFunction source s t).definitions := by
  suffices hfold : ∀ (ts : List (Tree Kind)) (f : Findings),
      bareOf (ts.foldl (fun f t => f.add (ofFunction source s t)) f).definitions =
        bareOf f.definitions ++ ts.flatMap fun t => bareOf (ofFunction source s t).definitions from
    hfold _ .none
  intro ts
  induction ts with
  | nil => exact fun f => (List.append_nil _).symm
  | cons t ts ih =>
    intro f
    rw [List.foldl_cons, ih, Findings.add, bareOf_append, List.append_assoc, List.flatMap_cons]

/-- What the functions among the members of an implementation or a trait amount to. -/
theorem ofMembers_eq (hpasses : ∀ j, passes source t j above = isMember t j)
    (habove : reaches source above = true)
    (hscope : s.scope = scope source above ++ scopeNames source t)
    (hts : t.children.drop i = ts) :
    bareOf (ofMembers source s ts).definitions =
      reached source (Tree.occurrencesAmong above t i ts) := by
  rw [bareOf_ofMembers]
  induction ts generalizing i with
  | nil => rfl
  | cons c ts ih =>
    have hchild : t.children[i]? = some c := by
      rw [← List.head?_drop, hts, List.head?_cons]
    have hrest := ih (i := i + 1) (by rw [← List.tail_drop, hts, List.tail_cons])
    have hreaches : reaches source ((t, i) :: above) = (c.kind == .function) := by
      rw [reaches, habove, hpasses, isMember, hchild, Option.any_some, Bool.true_and]
    rw [Tree.occurrencesAmong, reached_append, ← hrest]
    by_cases hkind : c.kind = .function
    · rw [List.filter_cons_of_pos (by simpa using hkind), List.flatMap_cons,
        ofFunction_eq hkind (hreaches.trans (by simpa using hkind)) (hscope.trans scope_cons.symm)]
    · have hnot : reaches source ((t, i) :: above) = false := hreaches.trans (by simpa using hkind)
      rw [List.filter_cons_of_neg (by simpa using hkind), reached_occurrences_eq_nil hnot,
        List.nil_append]

mutual

/-- **The functions of a declaration** outside functions are those that the search gets to. -/
theorem ofItem_eq : ∀ (t : Tree Kind) {above : List (Tree Kind × Nat)} {names : List String},
    reaches source above = true → above ≠ [] → isInside above = false →
      names = scope source above →
        bareOf (ofItem source names t).definitions = reached source (t.occurrences above)
  | .node k r a b ts, above, names, habove, hne, hinside, hscope => by
    -- What is not a function has no definition itself.
    have hbelow : ∀ found : Findings, k ≠ .function →
        bareOf found.definitions =
          reached source (Tree.occurrencesAmong above (.node k r a b ts) 0 ts) →
        bareOf found.definitions = reached source (Tree.occurrences above (.node k r a b ts)) := by
      intro found hkind hfound
      rw [hfound, Tree.occurrences, reached_cons, bare?_of_ne (t := .node k r a b ts) hkind,
        ite_self, Option.toList_none, List.nil_append]
    rw [ofItem.eq_def]
    dsimp only
    split
    · exact ofFunction_eq rfl habove hscope
    · refine hbelow _ (by decide) ?_
      split
      · next type htype =>
        refine ofMembers_eq (fun j => ?_) habove ?_ rfl
        · simp [passes, Tree.kind, hinside, htype]
        · simp [scopeNames, Tree.kind, htype, hscope]
      · next htype =>
        refine (reached_among_eq_nil fun j _ => ?_).symm
        simp [passes, Tree.kind, hinside, htype]
    · refine hbelow _ (by decide) (ofMembers_eq (fun j => ?_) habove ?_ rfl)
      · simp [passes, Tree.kind, hinside]
      · simp [scopeNames, Tree.kind, hscope]
    · refine hbelow _ (by decide) (ofItems_eq ts (fun j => ?_) ?_ ?_)
      · simp [reaches, passes, Tree.kind, habove, hinside]
      · rw [isInside, List.any_cons]
        exact hinside
      · rw [scope_cons, hscope]
        rfl
    · next hfunction himplementation htrait hmodule =>
      refine hbelow .none hfunction (reached_among_eq_nil fun j _ => ?_).symm
      have hempty : above.isEmpty = false := by simpa using hne
      unfold passes
      rcases k <;> simp_all [Tree.kind]

/-- The functions of several declarations. -/
theorem ofItems_eq : ∀ (ts : List (Tree Kind)) {above : List (Tree Kind × Nat)}
    {names : List String} {parent : Tree Kind} {i : Nat},
    (∀ j, reaches source ((parent, j) :: above) = true) →
      isInside ((parent, i) :: above) = false → names = scope source ((parent, i) :: above) →
        bareOf (ofItems source names ts).definitions =
          reached source (Tree.occurrencesAmong above parent i ts)
  | [], _, _, _, _, _, _, _ => rfl
  | t :: ts, above, names, parent, i, hreaches, hinside, hscope => by
    have hfirst := ofItem_eq t (hreaches i) (List.cons_ne_nil _ _) hinside hscope
    have hscope' : names = scope source ((parent, i + 1) :: above) := by
      rw [hscope, scope_cons, scope_cons]
    have hrest := ofItems_eq ts hreaches (i := i + 1) hinside hscope'
    rw [ofItems, Tree.occurrencesAmong, reached_append, ← hfirst, ← hrest]
    exact bareOf_append _ _

end

/-! ### Files -/

/-- Putting definitions in order does not look at their decisions. -/
theorem bareOf_sort (ds : List Definition) :
    bareOf (Order.sort (fun a b => a.span.start ≤ b.span.start) ds) =
      Order.sort (fun a b => a.span.start ≤ b.span.start) (bareOf ds) :=
  (Order.sort_map withoutDecisions (fun a b => a.span.start ≤ b.span.start) ds).symm

/-- **The definitions of a file** are those of the functions that the search gets to, by where they
start. -/
theorem bareOf_definitions {o : Outline} (h : ofText source = .ok o) :
    ∃ tree, tree? source = some tree ∧
      bareOf o.definitions =
        Order.sort (fun a b => a.span.start ≤ b.span.start)
          (reached source (tree.occurrences [])) := by
  unfold ofText at h
  dsimp only at h
  split at h
  · cases h
  split at h
  · next tree htree =>
    obtain rfl := Except.ok.inj h
    have hkind : tree.kind = .file := Grammar.kind_of_parse? rfl htree
    refine ⟨tree, htree, ?_⟩
    have hitems : bareOf (ofItems source [] tree.children).definitions =
        reached source (Tree.occurrencesAmong [] tree 0 tree.children) := by
      refine ofItems_eq tree.children (fun j => ?_) ?_ ?_
      · simp [reaches, passes, hkind]
      · simp [isInside, hkind]
      · simp [scope, scopeNames, hkind]
    rw [Outline.ofUnordered, bareOf_sort, hitems, Tree.occurrences_eq, reached_cons,
      bare?_of_ne (by rw [hkind]; decide), ite_self, Option.toList_none, List.nil_append]
  · cases h

/-- Functions with a definition have a name and a body. -/
theorem exists_of_bare? {f : Occurrence Kind} {d : Definition} (h : bare? source f = some d) :
    f.node.kind = .function ∧ ∃ n body, f.node.child? .name = some n ∧
      f.node.child? .body = some body ∧
        d = definition source ⟨scope source f.above, none⟩ f.node (n.text source) body 0 := by
  unfold bare? at h
  split at h
  · next hkind =>
    split at h
    · next n body hn hbody =>
      exact ⟨beq_iff_eq.mp hkind, n, body, hn, hbody, (Option.some.inj h).symm⟩
    · cases h
  · cases h

/-- **What is recorded is the definition of a function** in the tree of the text. -/
theorem exists_of_mem_definitions {o : Outline} (h : ofText source = .ok o) :
    ∃ tree, tree? source = some tree ∧ ∀ d ∈ o.definitions, ∃ f ∈ tree.occurrences [],
      bare? source f = some (withoutDecisions d) := by
  obtain ⟨tree, htree, hdefinitions⟩ := bareOf_definitions h
  refine ⟨tree, htree, fun d hd => ?_⟩
  have hbare : withoutDecisions d ∈ reached source (tree.occurrences []) := by
    rw [← (Order.sort_perm _ _).mem_iff, ← hdefinitions]
    exact List.mem_map_of_mem hd
  obtain ⟨f, hf, hreached⟩ := List.mem_filterMap.mp hbare
  exact ⟨f, hf, (Option.ite_none_right_eq_some.mp hreached).2⟩

/-- A text has an outline when it has a tree and its brackets match. -/
theorem exists_ofText {tree : Tree Kind} (htree : tree? source = some tree)
    (hbrackets : Lexicon.Rust.mismatch? [] (Lexicon.Rust.tokens
      (Position.skipByteOrderMark source.toList).1 (Position.skipByteOrderMark source.toList).2) =
        none) :
    ∃ o, ofText source = .ok o := by
  have hparse : grammar.parse? (Lexicon.Rust.tokens
      (Position.skipByteOrderMark source.toList).1
      (Position.skipByteOrderMark source.toList).2) = some tree := htree
  unfold ofText
  simp only [hbrackets, hparse]
  exact ⟨_, rfl⟩

/-- What is reached are some of the functions. -/
theorem reached_sublist (os : List (Occurrence Kind)) :
    (reached source os).Sublist (functions source os) := by
  induction os with
  | nil => exact .slnil
  | cons f os ih =>
    rw [reached_cons, functions, List.filterMap_cons]
    rcases hbare : bare? source f with _ | d
    · rw [ite_self]
      exact ih
    · split
      · exact ih.cons_cons d
      · exact ih.cons d

/-- All functions are reached when none of them is missed. -/
theorem reached_eq_functions_iff :
    reached source os = functions source os ↔
      ∀ f ∈ os, (bare? source f).isSome → reaches source f.above = true := by
  constructor
  · intro h
    induction os with
    | nil => exact fun _ hf => absurd hf List.not_mem_nil
    | cons f os ih =>
      rw [reached_cons, functions, List.filterMap_cons] at h
      -- Only a function with a body can be missed.
      rcases hbare : bare? source f with _ | d
      · rw [hbare, ite_self] at h
        refine List.forall_mem_cons.mpr ⟨fun hsome => ?_, ih h⟩
        rw [hbare] at hsome
        cases hsome
      · rw [hbare] at h
        split at h
        · next hreaches =>
          exact List.forall_mem_cons.mpr ⟨fun _ => hreaches, ih (List.cons.inj h).2⟩
        · -- One function less is reached than there are.
          have hle : (reached source os).length ≤ (os.filterMap (bare? source)).length :=
            (reached_sublist os).length_le
          have hlength := congrArg List.length h
          simp only [Option.toList_none, List.nil_append, List.length_cons] at hlength
          omega
  · intro h
    refine List.filterMap_congr fun f hf => ?_
    rcases hbare : bare? source f with _ | d
    · exact ite_self _
    · exact if_pos (h f hf (by rw [hbare]; rfl))

/-- **Which functions of a Rust file are recorded**: those that the search gets to, each as one
definition, by where they start. So every function with a body is recorded exactly once if and only
if the search gets to all of them. -/
theorem recorded_eq {o : Outline} (h : ofText source = .ok o) :
    ∃ tree, tree? source = some tree ∧
      bareOf o.definitions =
        Order.sort (fun a b => a.span.start ≤ b.span.start)
          (reached source (tree.occurrences [])) ∧
      ((bareOf o.definitions).Perm (functions source (tree.occurrences [])) ↔
        ∀ f ∈ tree.occurrences [], (bare? source f).isSome → reaches source f.above = true) := by
  obtain ⟨tree, htree, hdefinitions⟩ := bareOf_definitions h
  refine ⟨tree, htree, hdefinitions, ?_⟩
  rw [hdefinitions, ← reached_eq_functions_iff]
  have hsort := Order.sort_perm (fun a b : Definition => decide (a.span.start ≤ b.span.start))
    (reached source (tree.occurrences []))
  constructor
  · intro hperm
    exact (reached_sublist _).eq_of_length (hsort.symm.trans hperm).length_eq
  · exact fun heq => heq ▸ hsort

/-! ### Functions that are recorded, and one that is not -/

theorem eq_ok_of_toOption {ε α : Type} {x : Except ε α} {a : α} (h : x.toOption = some a) :
    x = .ok a := by
  rcases x with e | b
  · cases h
  · exact congrArg _ (Option.some.inj h)

/-- Functions in a module, a trait, an implementation and a body. -/
def sampleNested : String :=
  "mod m \x7b\n    trait T \x7b\n        fn d() \x7b\n            fn g() \x7b\x7d\n" ++
    "        \x7d\n    \x7d\n\x7d\nimpl m::T for &S \x7b\n    fn e() \x7b\x7d\n\x7d\n"

theorem reaches_sampleNested :
    (tree? sampleNested).map (fun tree =>
      ((tree.occurrences []).all fun f =>
        !(bare? sampleNested f).isSome || reaches sampleNested f.above,
      (functions sampleNested (tree.occurrences [])).map Definition.name)) =
        some (true, ["m::T::d", "m::T::d::g", "S::e"]) := by
  decide +kernel

/-- They are all recorded. -/
theorem recorded_eq_nested :
    ∃ o tree, ofText sampleNested = .ok o ∧ tree? sampleNested = some tree ∧
      (bareOf o.definitions).Perm (functions sampleNested (tree.occurrences [])) ∧
      (functions sampleNested (tree.occurrences [])).map Definition.name =
        ["m::T::d", "m::T::d::g", "S::e"] := by
  obtain ⟨tree, htree, hvalues⟩ := Option.map_eq_some_iff.mp reaches_sampleNested
  obtain ⟨hall, hnames⟩ := Prod.mk.inj hvalues
  obtain ⟨o, ho⟩ := exists_ofText htree (by decide +kernel)
  obtain ⟨tree', htree', -, hiff⟩ := recorded_eq ho
  obtain rfl : tree = tree' := Option.some.inj (htree.symm.trans htree')
  refine ⟨o, tree, ho, htree, hiff.mpr fun f hf hsome => ?_, hnames⟩
  have hreaches := List.all_eq_true.mp hall f hf
  rwa [hsome, Bool.not_true, Bool.false_or] at hreaches

/-- A method of a type in a function. -/
def sampleLocal : String :=
  "fn f() \x7b\n    impl S \x7b\n        fn m() \x7b\x7d\n    \x7d\n\x7d\n"

theorem functions_sampleLocal :
    (tree? sampleLocal).map (fun tree =>
      (functions sampleLocal (tree.occurrences [])).map Definition.name) =
        some ["f", "f::S::m"] := by
  decide +kernel

theorem definitions_sampleLocal :
    (ofText sampleLocal).toOption.map (fun o => o.definitions.map Definition.name) =
      some ["f"] := by
  decide +kernel

/-- **A local method is not recorded**, although it is a function with a body. -/
theorem lost_local_method :
    ∃ o tree, ofText sampleLocal = .ok o ∧ tree? sampleLocal = some tree ∧
      (functions sampleLocal (tree.occurrences [])).map Definition.name =
        ["f", "f::S::m"] ∧
      o.definitions.map Definition.name = ["f"] ∧
      ¬(bareOf o.definitions).Perm (functions sampleLocal (tree.occurrences [])) := by
  obtain ⟨tree, htree, hfunctions⟩ := Option.map_eq_some_iff.mp functions_sampleLocal
  obtain ⟨o, ho, hnames⟩ := Option.map_eq_some_iff.mp definitions_sampleLocal
  refine ⟨o, tree, eq_ok_of_toOption ho, htree, hfunctions, hnames, fun hperm => ?_⟩
  have hlength := hperm.length_eq
  have hone := congrArg List.length hnames
  have htwo := congrArg List.length hfunctions
  simp only [bareOf, List.length_map, List.length_cons, List.length_nil] at hlength hone htwo
  omega

end Dossier.Outline.Rust
