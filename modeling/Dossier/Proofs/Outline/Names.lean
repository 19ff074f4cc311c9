import Dossier.Outline.Source
import Dossier.Proofs.Lexicon.Words
import Dossier.Proofs.Outline.Attribution
import Dossier.Proofs.Outline.Rust
import Dossier.Syntax.Go
import Dossier.Syntax.Java
import Dossier.Syntax.Python
import Dossier.Syntax.Rust

/-!
# The two names of a function

A function has a qualified name and a bare name, and it is looked up by either. The bare name is a
word, and the qualified name is made so that it ends in it; so of functions with one qualified name
all have one bare name, too (`Dossier.Outline.WellNamed`). This holds of the outlines of all texts
(`Dossier.Outline.wellNamed_of_ofText`).

It makes the two ways to look a function up agree: whichever of them finds a function has seen
all definitions of it, so that the definitions of what is found agree on their signature
(`Dossier.Outline.WellNamed.signature_eq`).

In each of the grammars, whatever stands in the role of a name is a word. The rules are finite data
and can be looked through one by one, but for the operators: there are as many rules for them as
levels, and which marks stand on a level is no matter (`Dossier.Rule.namesWords_oneMark`).
-/

namespace Dossier

/-! ### Names in all grammars -/

open Rule

namespace Syntax

variable {source : String}

namespace Go

theorem namesWords_rule (s : Symbol) : (rule s).namesWords = true := by
  cases s with
  | simple p | expressions p | primary p => cases p <;> rfl
  | binary p level =>
    rw [rule]
    rcases operators[level]? with _ | marks
    · rfl
    · cases p <;> simp [infixChain, goesOn]
  | _ => rfl

/-- **The names in the tree of a Go text are segments.** -/
theorem wellNamed {t : Tree Kind}
    (h : grammar.parse? (Lexicon.Go.tokens (Position.skipByteOrderMark source.toList).1
      (Position.skipByteOrderMark source.toList).2) = some t) :
    t.WellNamed (Position.Segment source) :=
  Grammar.wellNamed_of_parse? Position.segment_self namesWords_rule
    (Lexicon.Go.goodWords_tokens (Position.before_skipByteOrderMark source)) h

end Go

namespace Java

theorem namesWords_rule (s : Symbol) : (rule s).namesWords = true := by
  cases s with
  | binary level =>
    rw [rule]
    rcases operators[level]? with _ | marks
    · rfl
    · have htest : typeTest.namesWords = true := rfl
      by_cases hlevel : level = relationalLevel <;> simp [infixChain, hlevel, htest]
  | _ => rfl

/-- **The names in the tree of a Java text are segments.** -/
theorem wellNamed {t : Tree Kind}
    (h : grammar.parse? (Lexicon.Java.tokens (Position.skipByteOrderMark source.toList).1
      (Position.skipByteOrderMark source.toList).2) = some t) :
    t.WellNamed (Position.Segment source) :=
  Grammar.wellNamed_of_parse? Position.segment_self namesWords_rule
    (Lexicon.Java.goodWords_tokens (Position.before_skipByteOrderMark source)) h

end Java

namespace Python

theorem namesWords_rule (s : Symbol) : (rule s).namesWords = true := by
  cases s with
  | binary level =>
    rw [rule]
    rcases operators[level]? with _ | marks
    · rfl
    · simp [infixChain]
  | _ => rfl

/-- **The names in the tree of a Python text are segments.** -/
theorem wellNamed {t : Tree Kind}
    (h : grammar.parse? (Lexicon.Python.tokens (Position.skipByteOrderMark source.toList).1
      (Position.skipByteOrderMark source.toList).2) = some t) :
    t.WellNamed (Position.Segment source) :=
  Grammar.wellNamed_of_parse? Position.segment_self namesWords_rule
    (Lexicon.Python.goodWords_tokens (Position.before_skipByteOrderMark source)) h

end Python

namespace Rust

theorem namesWords_rule (s : Symbol) : (rule s).namesWords = true := by
  cases s with
  | range p | atom p => cases p <;> rfl
  | binary p level =>
    rw [rule]
    rcases operators[level]? with _ | marks
    · rfl
    · by_cases hlevel : level = comparisonLevel <;> simp [infixChain, hlevel, opt]
  | _ => rfl

/-- **The names in the tree of a Rust text are segments.** -/
theorem wellNamed {t : Tree Kind}
    (h : grammar.parse? (Lexicon.Rust.tokens (Position.skipByteOrderMark source.toList).1
      (Position.skipByteOrderMark source.toList).2) = some t) :
    t.WellNamed (Position.Segment source) :=
  Grammar.wellNamed_of_parse? Position.segment_self namesWords_rule
    (Lexicon.Rust.goodWords_tokens (Position.before_skipByteOrderMark source)) h

end Rust

end Syntax

end Dossier

namespace Dossier

/-! ### Names in outlines -/

open QualifiedName

/-- **Whether the qualified names of functions end in the bare ones.** -/
def Outline.WellNamed (o : Outline) : Prop :=
  ∀ d ∈ o.definitions, ending d.name = d.simpleName

namespace Tree

variable {κ : Type} {good : Position → Position → Prop} {t n : Tree κ}
  {above : List (Tree κ × Nat)} {o : Occurrence κ}

/-- The name of a node is such as it should be. -/
theorem WellNamed.good_of_child? (h : t.WellNamed good) (hn : t.child? .name = some n) :
    good n.start n.stop := by
  obtain ⟨names, -⟩ := h
  exact names n (List.mem_of_find?_eq_some hn) (by simpa using List.find?_some hn)

/-- A tree is well named all the way down. -/
theorem WellNamed.of_mem_occurrences (h : t.WellNamed good) (ho : o ∈ t.occurrences above) :
    o.node.WellNamed good := by
  induction mem_occurrences_iff.mp ho with
  | refl => exact h
  | tail hsteps hstep ih =>
    obtain ⟨hc⟩ := hstep
    obtain ⟨-, below⟩ := ih (mem_occurrences_iff.mpr hsteps)
    exact below _ (List.mem_of_getElem? hc)

end Tree

/-! ### Functions that a walk finds -/

namespace Dialect

variable {κ : Type} {d : Dialect κ} {source simpleName : String} {t body : Tree κ}

/-- Whether the bare name of each function of a dialect is the text of its node in the role of a
name. -/
def NamesByRole (d : Dialect κ) : Prop :=
  ∀ source t simpleName body, d.function? source t = some (simpleName, body) →
    ∃ n, t.child? .name = some n ∧ n.text source = simpleName

theorem name_of_named? (h : t.named? source = some (simpleName, body)) :
    ∃ n, t.child? .name = some n ∧ n.text source = simpleName := by
  unfold Tree.named? at h
  split at h
  · next n b hn hb =>
    obtain ⟨rfl, -⟩ := Prod.mk.inj (Option.some.inj h)
    exact ⟨n, hn, rfl⟩
  · cases h

/-- The name of a function ends in its bare name, after its receiver and what is around it. -/
theorem ending_definition (h : IsSegment simpleName) (scope : List String) (decisions : Nat) :
    ending (d.definition source scope t simpleName body decisions).name = simpleName := by
  rw [definition, qualify, ending_intercalate, segment]
  split
  · rw [ending_append, ending_of_isSegment h]
  · exact ending_of_isSegment h

theorem wellNamed_outline (hd : d.NamesByRole) (ht : t.WellNamed (Position.Segment source)) :
    (d.outline source t).WellNamed := by
  have hfindings : d.findings source [] none t = d.attributed source none (t.occurrences []) :=
    findings_eq t []
  intro x hx
  rw [outline, hfindings] at hx
  obtain ⟨f, hf, hdefinition⟩ := List.mem_filterMap.mp ((Order.sort_perm _ _).mem_iff.mp hx)
  obtain ⟨⟨simpleName, body⟩, hfunction, rfl⟩ := Option.map_eq_some_iff.mp hdefinition
  obtain ⟨n, hn, rfl⟩ := hd source f.node simpleName body hfunction
  exact ending_definition ((ht.of_mem_occurrences hf).good_of_child? hn) _ _

end Dialect

namespace Outline

variable {source : String} {o : Outline}

/-! ### The outlines of texts -/

theorem Go.namesByRole : Go.dialect.NamesByRole :=
  fun _ _ _ _ h => Dialect.name_of_named? (Option.ite_none_right_eq_some.mp h).2

theorem Go.wellNamed_of_ofText (h : Go.ofText source = .ok o) : o.WellNamed := by
  unfold Go.ofText at h
  dsimp only at h
  split at h
  · next t ht =>
    obtain rfl := Except.ok.inj h
    exact Dialect.wellNamed_outline Go.namesByRole (Syntax.Go.wellNamed ht)
  · cases h

theorem Java.namesByRole : Java.dialect.NamesByRole :=
  fun _ _ _ _ h => Dialect.name_of_named? (Option.ite_none_right_eq_some.mp h).2

theorem Java.wellNamed_of_ofText (h : Java.ofText source = .ok o) : o.WellNamed := by
  unfold Java.ofText at h
  dsimp only at h
  split at h
  · next t ht =>
    obtain rfl := Except.ok.inj h
    exact Dialect.wellNamed_outline Java.namesByRole (Syntax.Java.wellNamed ht)
  · cases h

theorem Python.namesByRole : Python.dialect.NamesByRole :=
  fun _ _ _ _ h => Dialect.name_of_named? (Option.ite_none_right_eq_some.mp h).2

theorem Python.wellNamed_of_ofText (h : Python.ofText source = .ok o) : o.WellNamed := by
  unfold Python.ofText at h
  dsimp only at h
  split at h
  · next t ht =>
    obtain rfl := Except.ok.inj h
    exact Dialect.wellNamed_outline Python.namesByRole (Syntax.Python.wellNamed ht)
  · cases h

/-- The search through a Rust file finds functions by their names, too. -/
theorem Rust.wellNamed_of_ofText (h : Rust.ofText source = .ok o) : o.WellNamed := by
  obtain ⟨t, ht, hfunctions⟩ := Rust.exists_of_mem_definitions h
  have htree : t.WellNamed (Position.Segment source) := Syntax.Rust.wellNamed ht
  intro x hx
  obtain ⟨f, hf, hbare⟩ := hfunctions x hx
  obtain ⟨-, n, body, hn, -, hdefinition⟩ := Rust.exists_of_bare? hbare
  have hsegment : IsSegment (n.text source) := (htree.of_mem_occurrences hf).good_of_child? hn
  obtain ⟨hname, hsimple⟩ : x.name = Rust.Setting.qualify _ (n.text source) ∧
      x.simpleName = n.text source :=
    ⟨congrArg Definition.name hdefinition, congrArg Definition.simpleName hdefinition⟩
  rw [hname, hsimple, Rust.Setting.qualify, show "::" = Language.rust.separator from rfl,
    ending_intercalate, ending_of_isSegment hsegment]

/-- **The outline of every text is well named.** -/
theorem wellNamed_of_ofText {l : Language} (h : ofText l source = .ok o) : o.WellNamed := by
  unfold ofText at h
  cases l with
  | python => exact Python.wellNamed_of_ofText h
  | go => exact Go.wellNamed_of_ofText h
  | java => exact Java.wellNamed_of_ofText h
  | rust => exact Rust.wellNamed_of_ofText h

/-! ### Looking functions up -/

variable {name : String} {d x : Definition}

/-- A name that can mean one definition of a function can mean all of them. -/
theorem WellNamed.mem_candidates (h : o.WellNamed) (hd : d ∈ o.candidates name)
    (hx : x ∈ o.definitions) (hname : x.name = d.name) : x ∈ o.candidates name := by
  unfold candidates at hd ⊢
  rcases hexact : o.definitions.filter fun d => d.name = name with _ | ⟨first, rest⟩
  · -- The name is a bare one, and the bare name is the end of the qualified one.
    simp only [hexact] at hd ⊢
    obtain ⟨hmem, hsimple⟩ := List.mem_filter.mp hd
    have heq : x.simpleName = d.simpleName := by rw [← h x hx, ← h d hmem, hname]
    exact List.mem_filter.mpr ⟨hx, by rwa [heq]⟩
  · simp only [hexact] at hd ⊢
    rw [← hexact] at hd ⊢
    exact List.mem_filter.mpr ⟨hx, by rw [hname]; exact (List.mem_filter.mp hd).2⟩

/-- **What is found by a name, by either, is defined in one way**: all its definitions have one
signature. -/
theorem WellNamed.signature_eq (h : o.WellNamed) (hfound : o.locate name = .found d)
    (hx : x ∈ o.definitions) (hname : x.name = d.name) : x.signature = d.signature := by
  unfold locate at hfound
  split at hfound
  · cases hfound
  next first rest hcandidates =>
  split at hfound
  · next hagree =>
    obtain rfl := Lookup.found.inj hfound
    have hfirst : first ∈ o.candidates name := by
      rw [hcandidates]
      exact List.mem_cons_self
    have hmem := h.mem_candidates hfirst hx hname
    rw [hcandidates] at hmem
    rcases List.mem_cons.mp hmem with rfl | hmem
    · rfl
    · simpa [hname] using List.all_eq_true.mp hagree x hmem
  · cases hfound

end Outline

end Dossier
