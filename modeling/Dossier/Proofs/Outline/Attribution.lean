import Dossier.Outline.Walk
import Dossier.Proofs.Syntax.Occurrences

/-!
# What belongs to which function

The walk over a syntax tree carries a scope and a current function along and adds up what it meets.
Here the same is said of every node by itself, by what stands above it:
`Dossier.Dialect.innermost?` is the nearest function above and `Dossier.Dialect.scope` the names of
the functions and containers above. A node that is neither a function nor a container is a decision
of the innermost function above it, or a call made from it, or, without such a function, nothing.

`Dossier.Dialect.findings_eq` says that the walk finds just this. It is an induction over the tree
that stands anywhere in a larger one. What has to be seen is that counting the decisions of a
function in the piece of the tree that holds it is counting them in the whole tree: whatever belongs
to a function stands below it, and nothing stands below two children
(`Dossier.Tree.not_below_both`).
-/

namespace Dossier

namespace Dialect

variable {κ : Type} (d : Dialect κ) (source : String)

/-! ### What stands above a node -/

/-- **The innermost function** among the nodes above. -/
def innermost? : List (Tree κ × Nat) → Option (Occurrence κ)
  | [] => none
  | (t, _) :: above =>
    if (d.function? source t).isSome then some ⟨above, t⟩ else innermost? above

/-- **The names that a node puts before those of the functions below it.** A function puts its
simple name there, behind its receiver if it has one, and a container its name. -/
def segments (t : Tree κ) : List String :=
  match d.function? source t, d.receiver? source t with
  | some (simpleName, _), some receiver => [receiver ++ d.language.separator ++ simpleName]
  | some (simpleName, _), none => [simpleName]
  | none, _ => (d.container? source t).toList

/-- **The names of the functions and containers** among the nodes above, the outermost first. -/
def scope (above : List (Tree κ × Nat)) : List String :=
  above.reverse.flatMap fun step => d.segments source step.1

/-- Whether a node is neither a function nor a container. -/
def isOrdinary (t : Tree κ) : Bool :=
  (d.function? source t).isNone && (d.container? source t).isNone

/-- **The name of a function**: the names above it and its own, which begins with its receiver. -/
def qualifiedName (f : Occurrence κ) : String :=
  d.language.separator.intercalate (d.scope source f.above ++ d.segments source f.node)

/-- The name of the innermost function above. -/
def caller? (above : List (Tree κ × Nat)) : Option String :=
  (d.innermost? source above).map (d.qualifiedName source)

/-! ### What a node amounts to -/

/-- Whether a node is a decision of a function, or of none. -/
def decides (f : Option (Occurrence κ)) (o : Occurrence κ) : Bool :=
  d.isOrdinary source o.node && d.isDecision source o.node &&
    (d.innermost? source o.above).map Occurrence.address == f.map Occurrence.address

/-- The definition that a function among some nodes makes: its decisions are those of the nodes
that decide it. -/
def definitionAmong? (os : List (Occurrence κ)) (f : Occurrence κ) : Option Definition :=
  (d.function? source f.node).map fun (simpleName, body) =>
    d.definition source (d.scope source f.above) f.node simpleName body
      (os.countP (d.decides source (some f)))

/-- The call that a node makes from the innermost function above it. -/
def callAt? (o : Occurrence κ) : Option Call :=
  if d.isOrdinary source o.node then
    (d.caller? source o.above).bind fun caller =>
      (d.callee? source o.node).map fun callee => ⟨caller, callee, o.node.start.row + 1⟩
  else none

/-- What some nodes amount to for the function `f`, if any, that is around them. -/
def attributed (f : Option (Occurrence κ)) (os : List (Occurrence κ)) : Findings :=
  ⟨os.filterMap (d.definitionAmong? source os), os.filterMap (d.callAt? source),
    os.countP (d.decides source f)⟩

variable {d source} {above : List (Tree κ × Nat)} {t : Tree κ} {i : Nat} {f o : Occurrence κ}
  {os os' : List (Occurrence κ)}

theorem segments_of_function {simpleName : String} {body : Tree κ}
    (h : d.function? source t = some (simpleName, body)) :
    d.segments source t = [d.segment source t simpleName] := by
  rw [segments, segment, h]
  rcases d.receiver? source t with _ | receiver <;> rfl

theorem segments_of_not_function (h : d.function? source t = none) :
    d.segments source t = (d.container? source t).toList := by
  rw [segments, h]

theorem scope_cons :
    d.scope source ((t, i) :: above) = d.scope source above ++ d.segments source t := by
  simp [scope]

/-- The innermost function stands above the node. -/
theorem suffix_of_innermost? (h : d.innermost? source above = some f) :
    (d.function? source f.node).isSome ∧ ∃ i, (f.node, i) :: f.above <:+ above := by
  induction above with
  | nil => cases h
  | cons step above ih =>
    rw [innermost?] at h
    split at h
    · next hfunction =>
      obtain rfl := Option.some.inj h
      exact ⟨hfunction, step.2, List.suffix_refl _⟩
    · obtain ⟨hfunction, i, hi⟩ := ih h
      exact ⟨hfunction, i, hi.trans (List.suffix_cons _ _)⟩

/-- Below a function there is an innermost function, which is that one or below it. -/
theorem exists_innermost? (hfunction : (d.function? source t).isSome)
    {way : List (Tree κ × Nat)} (h : (t, i) :: above <:+ way) :
    ∃ f, d.innermost? source way = some f ∧ above.length ≤ f.above.length := by
  obtain ⟨inner, rfl⟩ := h
  induction inner with
  | nil => exact ⟨⟨above, t⟩, by rw [List.nil_append, innermost?, if_pos hfunction], le_rfl⟩
  | cons step inner ih =>
    rw [List.cons_append, innermost?]
    split
    · exact ⟨_, rfl, by simp; omega⟩
    · exact ih

/-- What decides a function stands below it. -/
theorem address_suffix_of_decides (h : d.decides source (some f) o = true) :
    f.address <:+ o.address ∧ f.address.length < o.address.length := by
  obtain ⟨-, h⟩ := Bool.and_eq_true_iff.mp h
  obtain ⟨g, hg, haddress⟩ := Option.map_eq_some_iff.mp (beq_iff_eq.mp h)
  obtain ⟨-, i, hi⟩ := suffix_of_innermost? hg
  have hsuffix : i :: f.address <:+ o.address := haddress ▸ hi.map Prod.snd
  exact ⟨(List.suffix_cons _ _).trans hsuffix, hsuffix.length_le⟩

theorem innermost?_of_function (h : (d.function? source t).isSome) :
    d.innermost? source ((t, i) :: above) = some ⟨above, t⟩ :=
  if_pos h

theorem innermost?_of_not_function (h : d.function? source t = none) :
    d.innermost? source ((t, i) :: above) = d.innermost? source above := by
  rw [innermost?, h]
  rfl

theorem caller?_of_not_function (h : d.function? source t = none) :
    d.caller? source ((t, i) :: above) = d.caller? source above := by
  rw [caller?, innermost?_of_not_function h, caller?]

/-- Which child leads on is no matter for what stands above it. -/
theorem innermost?_child (j : Nat) :
    d.innermost? source ((t, i) :: above) = d.innermost? source ((t, j) :: above) :=
  rfl

theorem caller?_child (j : Nat) :
    d.caller? source ((t, i) :: above) = d.caller? source ((t, j) :: above) :=
  rfl

/-! ### Pieces of a tree -/

/-- The definition of a function depends on the nodes through those that decide it. -/
theorem definitionAmong?_congr (h : os.countP (d.decides source (some f)) =
    os'.countP (d.decides source (some f))) :
    d.definitionAmong? source os f = d.definitionAmong? source os' f := by
  rw [definitionAmong?, definitionAmong?, h]

/-- What two pieces amount to together, when neither decides a function of the other. -/
theorem attributed_append (g : Option (Occurrence κ))
    (h : ∀ f ∈ os, ∀ o ∈ os', ¬d.decides source (some f) o)
    (h' : ∀ f ∈ os', ∀ o ∈ os, ¬d.decides source (some f) o) :
    d.attributed source g (os ++ os') =
      (d.attributed source g os).add (d.attributed source g os') := by
  have hfirst : os.filterMap (d.definitionAmong? source (os ++ os')) =
      os.filterMap (d.definitionAmong? source os) := by
    refine List.filterMap_congr fun f hf => definitionAmong?_congr ?_
    rw [List.countP_append, List.countP_eq_zero.mpr (h f hf), Nat.add_zero]
  have hsecond : os'.filterMap (d.definitionAmong? source (os ++ os')) =
      os'.filterMap (d.definitionAmong? source os') := by
    refine List.filterMap_congr fun f hf => definitionAmong?_congr ?_
    rw [List.countP_append, List.countP_eq_zero.mpr (h' f hf), Nat.zero_add]
  simp only [attributed, Findings.add, List.filterMap_append, List.countP_append, hfirst, hsecond]

/-- What a node and the nodes below it amount to. Those below may decide the node, but it does not
decide them. -/
theorem attributed_cons (g : Option (Occurrence κ)) (root : Occurrence κ)
    (h : ∀ f ∈ os, ¬d.decides source (some f) root) :
    d.attributed source g (root :: os) =
      ⟨(d.definitionAmong? source (root :: os) root).toList ++
          (d.attributed source g os).definitions,
        (d.callAt? source root).toList ++ (d.attributed source g os).calls,
        (if d.decides source g root then 1 else 0) + (d.attributed source g os).decisions⟩ := by
  have hbelow : os.filterMap (d.definitionAmong? source (root :: os)) =
      os.filterMap (d.definitionAmong? source os) := by
    refine List.filterMap_congr fun f hf => definitionAmong?_congr ?_
    rw [List.countP_cons_of_neg (h f hf)]
  simp only [attributed, List.filterMap_cons, List.countP_cons, hbelow,
    Nat.add_comm (List.countP ..)]
  congr 1
  · rcases d.definitionAmong? source (root :: os) root with _ | definition <;> rfl
  · rcases d.callAt? source root with _ | call <;> rfl

/-- A node does not decide the functions below it. -/
theorem not_decides_below {ts : List (Tree κ)}
    (hf : f ∈ Tree.occurrencesAmong above t i ts) : ¬d.decides source (some f) ⟨above, t⟩ := by
  intro h
  have hlt := Tree.length_lt_of_mem_occurrencesAmong hf
  have hlength := (address_suffix_of_decides h).2
  simp only [Occurrence.address, List.length_map] at hlength
  omega

/-- What stands below a function does not decide the one around it. -/
theorem not_decides_around (hfunction : (d.function? source t).isSome) {ts : List (Tree κ)}
    (ho : o ∈ Tree.occurrencesAmong above t i ts) :
    ¬d.decides source (d.innermost? source above) o := by
  intro h
  obtain ⟨j, -, hj⟩ := Tree.suffix_of_mem_occurrencesAmong ts ho
  obtain ⟨f, hf, hlength⟩ := exists_innermost? hfunction hj
  have heq := beq_iff_eq.mp (Bool.and_eq_true_iff.mp h).2
  rw [hf, Option.map_some, eq_comm] at heq
  obtain ⟨g, hg, haddress⟩ := Option.map_eq_some_iff.mp heq
  obtain ⟨-, k, hk⟩ := suffix_of_innermost? hg
  have hle := hk.length_le
  have haddress := congrArg List.length haddress
  simp only [Occurrence.address, List.length_map, List.length_cons] at haddress hle
  omega

/-! ### The walk -/

/-- A function, once it is known what the nodes below it amount to. -/
theorem attributed_function {simpleName : String} {body : Tree κ} {ts : List (Tree κ)}
    (h : d.function? source t = some (simpleName, body)) :
    d.attributed source (d.innermost? source above)
        (⟨above, t⟩ :: Tree.occurrencesAmong above t 0 ts) =
      let inner := d.attributed source (some ⟨above, t⟩) (Tree.occurrencesAmong above t 0 ts)
      ⟨d.definition source (d.scope source above) t simpleName body inner.decisions ::
        inner.definitions, inner.calls, 0⟩ := by
  have hordinary : d.isOrdinary source t = false := by simp [isOrdinary, h]
  have hself : ∀ g, ¬d.decides source g ⟨above, t⟩ := by simp [decides, hordinary]
  have hnone : (Tree.occurrencesAmong above t 0 ts).countP
      (d.decides source (d.innermost? source above)) = 0 :=
    List.countP_eq_zero.mpr fun o ho => not_decides_around (by rw [h]; rfl) ho
  rw [attributed_cons _ _ fun f hf => not_decides_below hf]
  simp only [attributed, definitionAmong?, h, Option.map_some, Option.toList_some, callAt?,
    hordinary, hnone, hself, List.countP_cons_of_neg (hself _), Bool.false_eq_true, if_false,
    Option.toList_none, List.nil_append, List.singleton_append]

/-- A container adds nothing to the nodes below it. -/
theorem attributed_container {name : String} {ts : List (Tree κ)}
    (h : d.function? source t = none) (hcontainer : d.container? source t = some name)
    (g : Option (Occurrence κ)) :
    d.attributed source g (⟨above, t⟩ :: Tree.occurrencesAmong above t 0 ts) =
      d.attributed source g (Tree.occurrencesAmong above t 0 ts) := by
  have hordinary : d.isOrdinary source t = false := by simp [isOrdinary, hcontainer]
  have hself : ¬d.decides source g ⟨above, t⟩ := by simp [decides, hordinary]
  rw [attributed_cons _ _ fun f hf => not_decides_below hf]
  simp [definitionAmong?, h, callAt?, hordinary, hself]

/-- Any other node adds what it is by itself. -/
theorem attributed_ordinary {ts : List (Tree κ)} (h : d.function? source t = none)
    (hcontainer : d.container? source t = none) :
    d.attributed source (d.innermost? source above)
        (⟨above, t⟩ :: Tree.occurrencesAmong above t 0 ts) =
      (d.own source (d.caller? source above) t).add
        (d.attributed source (d.innermost? source above) (Tree.occurrencesAmong above t 0 ts)) := by
  have hordinary : d.isOrdinary source t = true := by simp [isOrdinary, h, hcontainer]
  rw [attributed_cons _ _ fun f hf => not_decides_below hf]
  simp only [definitionAmong?, h, Option.map_none, Option.toList_none, callAt?, hordinary, if_true,
    own, Findings.add, decides, Bool.true_and, beq_self_eq_true, Bool.and_true]
  congr 2
  rcases d.caller? source above with _ | caller <;>
    rcases d.callee? source t with _ | callee <;> rfl

mutual

/-- **What the walk finds** in a tree that stands below some nodes is what the nodes of the tree
amount to by themselves. -/
theorem findings_eq : ∀ (t : Tree κ) (above : List (Tree κ × Nat)),
    d.findings source (d.scope source above) (d.caller? source above) t =
      d.attributed source (d.innermost? source above) (t.occurrences above)
  | .node k r a b ts, above => by
    have hbelow := findingsAll_eq ts above (.node k r a b ts) 0
    rw [scope_cons] at hbelow
    rw [Tree.occurrences, findings]
    dsimp only
    generalize (.node k r a b ts : Tree κ) = t at hbelow ⊢
    rcases hfunction : d.function? source t with _ | ⟨simpleName, body⟩
    · rw [caller?_of_not_function hfunction, innermost?_of_not_function hfunction] at hbelow
      rcases hcontainer : d.container? source t with _ | name
      · rw [segments_of_not_function hfunction, hcontainer, Option.toList_none,
          List.append_nil] at hbelow
        rw [attributed_ordinary hfunction hcontainer, ← hbelow]
      · rw [segments_of_not_function hfunction, hcontainer, Option.toList_some] at hbelow
        rw [attributed_container hfunction hcontainer, ← hbelow]
    · have hsome : (d.function? source t).isSome := by rw [hfunction]; rfl
      rw [caller?, innermost?_of_function hsome, Option.map_some, qualifiedName,
        segments_of_function hfunction] at hbelow
      rw [attributed_function hfunction, ← hbelow]
      rfl

theorem findingsAll_eq : ∀ (ts : List (Tree κ)) (above : List (Tree κ × Nat)) (parent : Tree κ)
    (i : Nat),
      d.findingsAll source (d.scope source ((parent, i) :: above))
          (d.caller? source ((parent, i) :: above)) ts =
        d.attributed source (d.innermost? source ((parent, i) :: above))
          (Tree.occurrencesAmong above parent i ts)
  | [], _, _, _ => rfl
  | t :: ts, above, parent, i => by
    have hfirst := findings_eq t ((parent, i) :: above)
    have hrest := findingsAll_eq ts above parent (i + 1)
    rw [scope_cons, ← scope_cons (i := i), caller?_child i, innermost?_child i] at hrest
    rw [findingsAll, hfirst, hrest, Tree.occurrencesAmong, attributed_append]
    · intro f hf o ho h
      exact Tree.not_below_both hf ho (address_suffix_of_decides h).1 (List.suffix_refl _)
    · intro f hf o ho h
      exact Tree.not_below_both ho hf (List.suffix_refl _) (address_suffix_of_decides h).1

end

/-- **Attribution.** The outline of a tree has one definition for each function of the tree, which
is named by the functions and containers above it and itself and bears the decisions that have it
for their innermost function; and one call for each call of the tree that has an innermost function,
which is its caller. -/
theorem outline_attributed (d : Dialect κ) (source : String) (t : Tree κ) :
    (d.outline source t).definitions =
        Order.sort (fun a b => a.span.start ≤ b.span.start)
          ((t.occurrences []).filterMap (d.definitionAmong? source (t.occurrences []))) ∧
      (d.outline source t).calls = (t.occurrences []).filterMap (d.callAt? source) ∧
      ∀ f, ((d.definitionAmong? source (t.occurrences []) f).map fun x => (x.name, x.decisions)) =
        (d.function? source f.node).map fun _ =>
          (d.qualifiedName source f, (t.occurrences []).countP (d.decides source (some f))) := by
  have h : d.findings source [] none t = d.attributed source none (t.occurrences []) :=
    findings_eq t []
  rw [outline, h]
  refine ⟨rfl, rfl, fun f => ?_⟩
  rcases hfunction : d.function? source f.node with _ | ⟨simpleName, body⟩
  · rw [definitionAmong?, hfunction]
    rfl
  · rw [definitionAmong?, hfunction, qualifiedName, segments_of_function hfunction]
    rfl

end Dialect

end Dossier
