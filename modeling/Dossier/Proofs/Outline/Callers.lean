import Dossier.Outline.Source

/-!
# Who makes the calls

A call in an outline bears the name of the function that it is made from, and that function is in
the same outline: a walk hands the name down from the place where it makes the definition
(`Dossier.Outline.callsOwned_of_ofText`). So no call of a file is made from what the file does not
define.
-/

namespace Dossier

/-- **Whether the calls of an outline are made from its own functions.** -/
def Outline.CallsOwned (o : Outline) : Prop :=
  ∀ c ∈ o.calls, ∃ x ∈ o.definitions, x.name = c.caller

/-- Whether calls are made from functions that are found with them, or from the function `current`
around all. -/
def Findings.CallsOwned (current : Option String) (f : Findings) : Prop :=
  ∀ c ∈ f.calls, current = some c.caller ∨ ∃ x ∈ f.definitions, x.name = c.caller

namespace Findings

variable {current : Option String} {f g : Findings}

theorem CallsOwned.none (current : Option String) : Findings.none.CallsOwned current :=
  fun _ hc => absurd hc List.not_mem_nil

theorem CallsOwned.add (hf : f.CallsOwned current) (hg : g.CallsOwned current) :
    (f.add g).CallsOwned current := by
  intro c hc
  rcases List.mem_append.mp hc with hc | hc
  · exact (hf c hc).imp_right fun ⟨x, hx, heq⟩ => ⟨x, List.mem_append_left _ hx, heq⟩
  · exact (hg c hc).imp_right fun ⟨x, hx, heq⟩ => ⟨x, List.mem_append_right _ hx, heq⟩

/-- The calls of a function are made from it, once its definition is with them. -/
theorem CallsOwned.cons {x : Definition} (hf : f.CallsOwned (some x.name)) (current : Option String)
    (decisions : Nat) : CallsOwned current ⟨x :: f.definitions, f.calls, decisions⟩ := by
  intro c hc
  rcases hf c hc with heq | ⟨y, hy, heq⟩
  · exact .inr ⟨x, List.mem_cons_self, Option.some.inj heq⟩
  · exact .inr ⟨y, List.mem_cons_of_mem x hy, heq⟩

theorem CallsOwned.ofUnordered (hf : f.CallsOwned Option.none) (l : Language) :
    (Outline.ofUnordered l f.definitions f.calls).CallsOwned := by
  intro c hc
  rcases hf c hc with heq | ⟨x, hx, heq⟩
  · cases heq
  · exact ⟨x, (Order.sort_perm _ _).mem_iff.mpr hx, heq⟩

end Findings

/-! ### The walk over a tree -/

namespace Dialect

variable {κ : Type} (d : Dialect κ) (source : String)

theorem callsOwned_own (current : Option String) (t : Tree κ) :
    (d.own source current t).CallsOwned current := by
  intro c hc
  unfold own at hc
  dsimp only at hc
  split at hc
  · obtain rfl := List.mem_singleton.mp hc
    exact .inl rfl
  · cases hc

mutual

/-- **A walk finds calls with the functions that they are made from.** -/
theorem callsOwned_findings (scope : List String) (current : Option String) :
    ∀ t : Tree κ, (d.findings source scope current t).CallsOwned current
  | .node k r a b ts => by
    rw [findings]
    dsimp only
    split
    · exact .cons (callsOwned_findingsAll _ _ ts) current 0
    · split
      · exact callsOwned_findingsAll _ current ts
      · exact (callsOwned_own d source current _).add (callsOwned_findingsAll scope current ts)

theorem callsOwned_findingsAll (scope : List String) (current : Option String) :
    ∀ ts : List (Tree κ), (d.findingsAll source scope current ts).CallsOwned current
  | [] => .none current
  | t :: ts => by
    rw [findingsAll]
    exact (callsOwned_findings scope current t).add (callsOwned_findingsAll scope current ts)

end

theorem callsOwned_outline (t : Tree κ) : (d.outline source t).CallsOwned :=
  (callsOwned_findings d source [] none t).ofUnordered d.language

end Dialect

/-! ### The search through a Rust file -/

namespace Outline.Rust

open Syntax.Rust

variable (source : String)

theorem callsOwned_record (s : Setting) (t : Tree Kind) {found : BodyFindings}
    (h : found.nested.CallsOwned none) : (record source s t found).CallsOwned none := by
  unfold record
  split
  · refine .cons (f := ⟨found.nested.definitions, _, 0⟩) ?_ none 0
    intro c hc
    rcases List.mem_append.mp hc with hc | hc
    · obtain ⟨_, -, rfl⟩ := List.mem_map.mp hc
      exact .inl rfl
    · exact (h c hc).elim nofun .inr
  · exact .none none

mutual

theorem callsOwned_inBody (s : Setting) :
    ∀ t : Tree Kind, (inBody source s t).nested.CallsOwned none
  | .node k r a b ts => by
    rw [inBody]
    dsimp only
    split
    · exact callsOwned_record source s _ (callsOwned_inFunction _ ts)
    · split
      · exact .none none
      · exact Findings.CallsOwned.add (.none none) (callsOwned_inBodies s ts)

theorem callsOwned_inBodies (s : Setting) :
    ∀ ts : List (Tree Kind), (inBodies source s ts).nested.CallsOwned none
  | [] => .none none
  | t :: ts => by
    rw [inBodies]
    exact Findings.CallsOwned.add (callsOwned_inBody s t) (callsOwned_inBodies s ts)

theorem callsOwned_inFunction (s : Setting) :
    ∀ ts : List (Tree Kind), (inFunction source s ts).nested.CallsOwned none
  | [] => .none none
  | t :: ts => by
    rw [inFunction]
    split
    · exact callsOwned_inBody s t
    · exact callsOwned_inFunction s ts

end

theorem callsOwned_ofFunction (s : Setting) (t : Tree Kind) :
    (ofFunction source s t).CallsOwned none :=
  callsOwned_record source s t (callsOwned_inFunction source _ t.children)

theorem callsOwned_ofMembers (s : Setting) (ts : List (Tree Kind)) :
    (ofMembers source s ts).CallsOwned none := by
  rw [ofMembers]
  generalize ts.filter _ = members
  suffices h : ∀ f : Findings, f.CallsOwned none →
      (members.foldl (fun f t => f.add (ofFunction source s t)) f).CallsOwned none from
    h .none (.none none)
  induction members with
  | nil => exact fun f hf => hf
  | cons t members ih => exact fun f hf => ih _ (hf.add (callsOwned_ofFunction source s t))

mutual

/-- **The search finds calls with the functions that they are made from.** -/
theorem callsOwned_ofItem (scope : List String) :
    ∀ t : Tree Kind, (ofItem source scope t).CallsOwned none
  | .node k r a b ts => by
    rw [ofItem.eq_def]
    dsimp only
    split
    · exact callsOwned_ofFunction source _ _
    · split
      · exact callsOwned_ofMembers source _ ts
      · exact .none none
    · exact callsOwned_ofMembers source _ ts
    · exact callsOwned_ofItems _ ts
    · exact .none none

theorem callsOwned_ofItems (scope : List String) :
    ∀ ts : List (Tree Kind), (ofItems source scope ts).CallsOwned none
  | [] => .none none
  | t :: ts => by
    rw [ofItems]
    exact (callsOwned_ofItem scope t).add (callsOwned_ofItems scope ts)

end

end Outline.Rust

/-! ### The outlines of texts -/

namespace Outline

variable {source : String} {o : Outline}

theorem Python.callsOwned_of_ofText (h : Python.ofText source = .ok o) : o.CallsOwned := by
  unfold Python.ofText at h
  dsimp only at h
  split at h
  · obtain rfl := Except.ok.inj h
    exact Dialect.callsOwned_outline _ source _
  · cases h

theorem Go.callsOwned_of_ofText (h : Go.ofText source = .ok o) : o.CallsOwned := by
  unfold Go.ofText at h
  dsimp only at h
  split at h
  · obtain rfl := Except.ok.inj h
    exact Dialect.callsOwned_outline _ source _
  · cases h

theorem Java.callsOwned_of_ofText (h : Java.ofText source = .ok o) : o.CallsOwned := by
  unfold Java.ofText at h
  dsimp only at h
  split at h
  · obtain rfl := Except.ok.inj h
    exact Dialect.callsOwned_outline _ source _
  · cases h

theorem Rust.callsOwned_of_ofText (h : Rust.ofText source = .ok o) : o.CallsOwned := by
  unfold Rust.ofText at h
  split at h
  dsimp only at h
  split at h
  · cases h
  split at h
  · obtain rfl := Except.ok.inj h
    exact (Rust.callsOwned_ofItems source [] _).ofUnordered .rust
  · cases h

/-- **The calls in the outline of a text are made from its own functions.** -/
theorem callsOwned_of_ofText {l : Language} (h : ofText l source = .ok o) : o.CallsOwned := by
  unfold ofText at h
  cases l with
  | python => exact Python.callsOwned_of_ofText h
  | go => exact Go.callsOwned_of_ofText h
  | java => exact Java.callsOwned_of_ofText h
  | rust => exact Rust.callsOwned_of_ofText h

end Outline

end Dossier
