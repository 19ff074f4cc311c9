import Dossier.Structure.Names
import Mathlib.Data.List.Nodup

/-!
# What a survey passes over

A survey takes the functions of a repository one after another and keeps the first definition of
each. A definition of a function that is kept already is dropped in silence if the signatures
agree, and with a remark if they do not. So a survey that remarks on nothing is evidence that all
definitions of one function agree, though each was only compared with the one that is kept
(`Dossier.Structure.remarks_of_survey`).
-/

namespace Dossier.Structure

/-- **Whether functions that are defined under one name agree** on their signatures. -/
def Agree (ls : List Located) : Prop :=
  ∀ l ∈ ls, ∀ l' ∈ ls, l.id = l'.id → l.definition.signature = l'.definition.signature

namespace Survey

/-- **What is known when some functions have been taken**: those that are kept are among them,
they have different names and every name, and nothing is remarked on exactly if every function
agrees with the one that is kept in its place. -/
structure Covers (s : Survey) (taken : List Located) : Prop where
  kept : ∀ l ∈ s.reversed, l ∈ taken
  different : (s.reversed.map Located.id).Nodup
  complete : ∀ l ∈ taken, ∃ first ∈ s.reversed, first.id = l.id
  remarks : s.remarks = [] ↔ ∀ l ∈ taken, ∀ first ∈ s.reversed, first.id = l.id →
    first.definition.signature = l.definition.signature

variable {s s' : Survey} {taken ls : List Located} {l : Located} {target : String}

theorem covers_nil : Covers ⟨[], []⟩ [] where
  kept _ h := absurd h List.not_mem_nil
  different := List.nodup_nil
  complete _ h := absurd h List.not_mem_nil
  remarks := ⟨fun _ _ h => absurd h List.not_mem_nil, fun _ => rfl⟩

/-- Of the functions that are kept one has a name. -/
theorem Covers.eq_of_id_eq {k k' : Located} (h : s.Covers taken) (hk : k ∈ s.reversed)
    (hk' : k' ∈ s.reversed) (heq : k.id = k'.id) : k = k' :=
  List.inj_on_of_nodup_map h.different hk hk' heq

/-- A function whose name is new is kept. -/
theorem Covers.new (h : s.Covers taken) (hnew : ∀ k ∈ s.reversed, k.id ≠ l.id) :
    Covers { s with reversed := l :: s.reversed } (taken ++ [l]) where
  kept k hk := by
    rcases List.mem_cons.mp hk with rfl | hk
    · simp
    · exact List.mem_append_left _ (h.kept k hk)
  different := by
    rw [List.map_cons, List.nodup_cons, List.mem_map]
    exact ⟨fun ⟨k, hk, heq⟩ => hnew k hk heq, h.different⟩
  complete k hk := by
    rcases List.mem_append.mp hk with hk | hk
    · obtain ⟨first, hfirst, heq⟩ := h.complete k hk
      exact ⟨first, List.mem_cons_of_mem _ hfirst, heq⟩
    · exact ⟨l, List.mem_cons_self, by rw [List.mem_singleton.mp hk]⟩
  remarks := by
    rw [h.remarks]
    -- No function that was taken before has the name of the new one.
    have hold : ∀ k ∈ taken, k.id ≠ l.id := by
      intro k hk heq
      obtain ⟨first, hfirst, hid⟩ := h.complete k hk
      exact hnew first hfirst (hid.trans heq)
    constructor
    · intro hagree k hk first hfirst heq
      rcases List.mem_append.mp hk with htaken | hl <;>
        rcases List.mem_cons.mp hfirst with hfirst | hkept
      · exact absurd (hfirst ▸ heq).symm (hold k htaken)
      · exact hagree k htaken first hkept heq
      · rw [List.mem_singleton.mp hl, hfirst]
      · exact absurd (List.mem_singleton.mp hl ▸ heq) (hnew first hkept)
    · exact fun hagree k hk first hfirst heq =>
        hagree k (List.mem_append_left _ hk) first (List.mem_cons_of_mem _ hfirst) heq

/-- A function whose name is known leaves the functions that are kept as they are. Whether there
is a remark then hangs on whether it agrees with the one of its name. -/
theorem Covers.known {first : Located} (h : s.Covers taken) (hfirst : first ∈ s.reversed)
    (hid : first.id = l.id) (remarks : List String)
    (hremarks : remarks = [] ↔
      s.remarks = [] ∧ first.definition.signature = l.definition.signature) :
    Covers { s with remarks := remarks } (taken ++ [l]) where
  kept k hk := List.mem_append_left _ (h.kept k hk)
  different := h.different
  complete k hk := by
    rcases List.mem_append.mp hk with hk | hk
    · exact h.complete k hk
    · exact ⟨first, hfirst, by rw [List.mem_singleton.mp hk, hid]⟩
  remarks := by
    rw [hremarks, h.remarks]
    constructor
    · rintro ⟨hagree, hsignature⟩ k hk other hother heq
      rcases List.mem_append.mp hk with hk | hk
      · exact hagree k hk other hother heq
      · obtain rfl := List.mem_singleton.mp hk
        rw [h.eq_of_id_eq hother hfirst (heq.trans hid.symm)]
        exact hsignature
    · intro hagree
      exact ⟨fun k hk other hother heq =>
          hagree k (List.mem_append_left _ hk) other hother heq,
        hagree l (by simp) first hfirst hid⟩

/-- **What one more function does to a survey.** -/
theorem Covers.add (h : s.Covers taken) (hadd : s.add target l = .ok s') :
    s'.Covers (taken ++ [l]) := by
  unfold Survey.add at hadd
  split at hadd
  · next hnone =>
    obtain rfl := Except.ok.inj hadd
    refine h.new fun k hk heq => ?_
    simpa [heq] using List.find?_eq_none.mp hnone k hk
  · next first hsome =>
    -- The name is known, and the signatures decide whether there is a remark.
    have hfirst := List.mem_of_find?_eq_some hsome
    have hid : first.id = l.id := by simpa using List.find?_some hsome
    split at hadd
    · next hsignature =>
      obtain rfl := Except.ok.inj hadd
      exact h.known hfirst hid s.remarks ⟨fun hs => ⟨hs, hsignature⟩, And.left⟩
    · next hsignature =>
      split at hadd
      · cases hadd
      · obtain rfl := Except.ok.inj hadd
        exact h.known hfirst hid _ ⟨nofun, fun hs => absurd hs.2 hsignature⟩

/-- **What many functions do to a survey.** -/
theorem Covers.addAll (h : s.Covers taken) (hadd : ls.foldlM (Survey.add target) s = .ok s') :
    s'.Covers (taken ++ ls) := by
  induction ls generalizing s taken with
  | nil =>
    obtain rfl := Except.ok.inj hadd
    rwa [List.append_nil]
  | cons l ls ih =>
    rw [List.foldlM_cons] at hadd
    rcases hstep : s.add target l with conflict | next <;> rw [hstep] at hadd
    · cases hadd
    · rw [List.append_cons]
      exact ih (h.add hstep) hadd

/-- A function is taken unless it is the target and disagrees with the one that is kept. -/
theorem Covers.exists_add (h : s.Covers taken)
    (hagree : ∀ k ∈ taken, k.id = target → l.id = target →
      k.definition.signature = l.definition.signature) : ∃ s', s.add target l = .ok s' := by
  unfold Survey.add
  split
  · exact ⟨_, rfl⟩
  · next first hsome =>
    have hid : first.id = l.id := by simpa using List.find?_some hsome
    split
    · exact ⟨_, rfl⟩
    · next hsignature =>
      rw [if_neg fun htarget => hsignature (hagree first
        (h.kept first (List.mem_of_find?_eq_some hsome)) (hid.trans htarget) htarget)]
      exact ⟨_, rfl⟩

theorem Covers.exists_addAll (h : s.Covers taken)
    (hagree : ∀ k ∈ taken ++ ls, ∀ k' ∈ taken ++ ls, k.id = target → k'.id = target →
      k.definition.signature = k'.definition.signature) :
    ∃ s', ls.foldlM (Survey.add target) s = .ok s' := by
  induction ls generalizing s taken with
  | nil => exact ⟨s, rfl⟩
  | cons l ls ih =>
    obtain ⟨next, hstep⟩ := h.exists_add (l := l) fun k hk =>
      hagree k (List.mem_append_left _ hk) l (by simp)
    rw [List.foldlM_cons, hstep]
    rw [List.append_cons] at hagree
    exact ih (h.add hstep) hagree

end Survey

/-- **A survey remarks on nothing exactly if the definitions agree.** -/
theorem remarks_of_survey {target : String} {ls known : List Located} {remarks : List String}
    (h : survey target ls = .ok (known, remarks)) : remarks = [] ↔ Agree ls := by
  unfold survey at h
  rcases hs : ls.foldlM (Survey.add target) ⟨[], []⟩ with conflict | s <;> rw [hs] at h
  · cases h
  have hcovers : s.Covers ls := Survey.covers_nil.addAll hs
  obtain ⟨-, rfl⟩ := Prod.mk.inj (Except.ok.inj h)
  rw [List.reverse_eq_nil_iff, hcovers.remarks]
  constructor
  · -- Both functions agree with the one that is kept under their name.
    intro hagree l hl l' hl' heq
    obtain ⟨first, hfirst, hid⟩ := hcovers.complete l hl
    exact (hagree l hl first hfirst hid).symm.trans (hagree l' hl' first hfirst (hid.trans heq))
  · exact fun hagree l hl first hfirst heq => hagree first (hcovers.kept first hfirst) l hl heq

/-- **A survey takes every function once.** -/
theorem known_of_survey {target : String} {ls known : List Located} {remarks : List String}
    (h : survey target ls = .ok (known, remarks)) :
    (known.map Located.id).Nodup ∧ (∀ l ∈ known, l ∈ ls) ∧
      ∀ l ∈ ls, ∃ first ∈ known, first.id = l.id := by
  unfold survey at h
  rcases hs : ls.foldlM (Survey.add target) ⟨[], []⟩ with conflict | s <;> rw [hs] at h
  · cases h
  have hcovers : s.Covers ls := Survey.covers_nil.addAll hs
  obtain ⟨rfl, -⟩ := Prod.mk.inj (Except.ok.inj h)
  simp only [List.mem_reverse, List.map_reverse, List.nodup_reverse]
  exact ⟨hcovers.different, hcovers.kept, hcovers.complete⟩

/-- A survey comes to an end when the definitions of the target agree. -/
theorem exists_survey {target : String} {ls : List Located}
    (h : ∀ l ∈ ls, ∀ l' ∈ ls, l.id = target → l'.id = target →
      l.definition.signature = l'.definition.signature) :
    ∃ known remarks, survey target ls = .ok (known, remarks) := by
  obtain ⟨s, hs⟩ : ∃ s, ls.foldlM (Survey.add target) ⟨[], []⟩ = .ok s :=
    Survey.covers_nil.exists_addAll h
  exact ⟨s.reversed.reverse, s.remarks.reverse, by rw [survey, hs]; rfl⟩

end Dossier.Structure
