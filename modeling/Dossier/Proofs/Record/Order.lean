import Dossier.Proofs.Time.Instant
import Dossier.Store.Records
import Mathlib.Data.List.Nodup

/-!
# The order of the records of a function

The records of one function in a repository are told apart by their files and fingerprints, so
that the order in which they are listed is strict (`Dossier.Record.Before`): by time, then by
file, then by fingerprint. A listing is therefore determined by which records are in it, however
they were stored (`Dossier.Record.OfOne.oldestFirst_eq_of_perm`).
-/

namespace Dossier.Record

variable {a b c : Record}

/-- **Whether a record is listed before another**: it is older, or it is as old and of a file that
comes first, or it is of the same file and its fingerprint comes first. -/
def Before (a b : Record) : Prop :=
  a.createdAt.compare b.createdAt = .lt ∨ (a.createdAt = b.createdAt ∧
    (a.function.filePath < b.function.filePath ∨ (a.function.filePath = b.function.filePath ∧
      a.function.fingerprint < b.function.fingerprint)))

/-- Whether two records have the same time, file and fingerprint. -/
def Beside (a b : Record) : Prop :=
  a.createdAt = b.createdAt ∧ a.function.filePath = b.function.filePath ∧
    a.function.fingerprint = b.function.fingerprint

/-- What it means that a record comes before another or beside it. -/
theorem notAfter_iff : a.notAfter b ↔ a.Before b ∨ a.Beside b := by
  unfold notAfter Before Beside
  have hcompare : a.createdAt.compare b.createdAt = .eq ↔ a.createdAt = b.createdAt :=
    Std.LawfulEqCmp.compare_eq_iff_eq
  have hle : a.function.fingerprint ≤ b.function.fingerprint ↔
      a.function.fingerprint < b.function.fingerprint ∨
        a.function.fingerprint = b.function.fingerprint :=
    Std.le_iff_lt_or_eq
  cases h : a.createdAt.compare b.createdAt <;> rw [h] at hcompare
  · simp
  · have htime := hcompare.mp rfl
    simp only [Bool.or_eq_true, Bool.and_eq_true, decide_eq_true_eq, beq_iff_eq, hle, htime,
      reduceCtorEq, false_or, true_and, and_or_left, or_assoc]
  · simp only [reduceCtorEq, false_iff] at hcompare
    simp [hcompare]

theorem Before.ne (h : a.Before b) : a ≠ b := by
  rintro rfl
  rcases h with h | ⟨-, h | ⟨-, h⟩⟩
  · have hsame : a.createdAt.compare a.createdAt = .eq := Std.ReflCmp.compare_self
    rw [hsame] at h
    cases h
  · exact String.lt_irrefl _ h
  · exact String.lt_irrefl _ h

theorem Before.trans (hab : a.Before b) (hbc : b.Before c) : a.Before c := by
  unfold Before at hab hbc ⊢
  rcases hab with hab | ⟨htime, hab⟩
  · rcases hbc with hbc | ⟨htime, -⟩
    · exact Or.inl (Std.TransCmp.lt_trans hab hbc)
    · exact Or.inl (htime ▸ hab)
  · rw [htime]
    rcases hbc with hbc | ⟨htime', hbc⟩
    · exact Or.inl hbc
    · refine Or.inr ⟨htime', ?_⟩
      rcases hab with hab | ⟨hfile, hab⟩
      · rcases hbc with hbc | ⟨hfile, -⟩
        · exact Or.inl (String.lt_trans hab hbc)
        · exact Or.inl (hfile ▸ hab)
      · rw [hfile]
        exact hbc.imp_right fun hbc => ⟨hbc.1, String.lt_trans hab hbc.2⟩

theorem Before.trans_beside (hab : a.Before b) (hbc : b.Beside c) : a.Before c := by
  unfold Before at hab ⊢
  rwa [← hbc.1, ← hbc.2.1, ← hbc.2.2]

theorem Beside.trans_before (hab : a.Beside b) (hbc : b.Before c) : a.Before c := by
  unfold Before at hbc ⊢
  rwa [hab.1, hab.2.1, hab.2.2]

theorem Beside.trans (hab : a.Beside b) (hbc : b.Beside c) : a.Beside c :=
  ⟨hab.1.trans hbc.1, hab.2.1.trans hbc.2.1, hab.2.2.trans hbc.2.2⟩

/-- Of two records one is listed before the other, or nothing tells them apart. -/
theorem before_trichotomy (a b : Record) : a.Before b ∨ a.Beside b ∨ b.Before a := by
  unfold Before Beside
  have hfile := Std.lt_trichotomy a.function.filePath b.function.filePath
  have hfingerprint := Std.lt_trichotomy a.function.fingerprint b.function.fingerprint
  cases h : a.createdAt.compare b.createdAt with
  | lt => exact Or.inl (Or.inl rfl)
  | gt => exact Or.inr (Or.inr (Or.inl (Std.OrientedCmp.gt_iff_lt.mp h)))
  | eq =>
    have htime := Std.LawfulEqCmp.eq_of_compare h
    rcases hfile with hfile | hfile | hfile
    · exact Or.inl (Or.inr ⟨htime, Or.inl hfile⟩)
    · rcases hfingerprint with hfingerprint | hfingerprint | hfingerprint
      · exact Or.inl (Or.inr ⟨htime, Or.inr ⟨hfile, hfingerprint⟩⟩)
      · exact Or.inr (Or.inl ⟨htime, hfile, hfingerprint⟩)
      · exact Or.inr (Or.inr (Or.inr ⟨htime.symm, Or.inr ⟨hfile.symm, hfingerprint⟩⟩))
    · exact Or.inr (Or.inr (Or.inr ⟨htime.symm, Or.inl hfile⟩))

theorem notAfter_total (a b : Record) : a.notAfter b || b.notAfter a := by
  rw [Bool.or_eq_true, notAfter_iff, notAfter_iff]
  rcases before_trichotomy a b with h | h | h
  · exact Or.inl (Or.inl h)
  · exact Or.inl (Or.inr h)
  · exact Or.inr (Or.inl h)

theorem notAfter_trans (a b c : Record) : a.notAfter b → b.notAfter c → a.notAfter c := by
  rw [notAfter_iff, notAfter_iff, notAfter_iff]
  rintro (hab | hab) (hbc | hbc)
  · exact Or.inl (hab.trans hbc)
  · exact Or.inl (hab.trans_beside hbc)
  · exact Or.inl (hab.trans_before hbc)
  · exact Or.inr (hab.trans hbc)

/-! ### Listings -/

/-- **Whether records are the records of one function**, one for each key. -/
structure OfOne (repositoryId functionName : String) (rs : List Record) : Prop where
  isOf : ∀ r ∈ rs, r.isOf repositoryId functionName = true
  distinct : (rs.map key).Nodup

variable {repositoryId functionName : String} {rs rs' : List Record}

theorem OfOne.perm (h : OfOne repositoryId functionName rs) (hperm : rs.Perm rs') :
    OfOne repositoryId functionName rs' where
  isOf r hr := h.isOf r (hperm.mem_iff.mpr hr)
  distinct := (hperm.map key).nodup_iff.mp h.distinct

/-- Records of one function with the same file and fingerprint are the same. -/
theorem OfOne.eq_of_beside (h : OfOne repositoryId functionName rs) (ha : a ∈ rs) (hb : b ∈ rs)
    (hbeside : a.Beside b) : a = b := by
  have hof := h.isOf a ha
  have hof' := h.isOf b hb
  rw [Record.isOf, Bool.and_eq_true, beq_iff_eq, beq_iff_eq] at hof hof'
  have hkey : a.key = b.key := by
    rw [key, key, FunctionRef.recordKey, FunctionRef.recordKey, FunctionRef.key, FunctionRef.key,
      hof.1, hof'.1, hof.2, hof'.2, hbeside.2.1, hbeside.2.2]
  exact List.inj_on_of_nodup_map h.distinct ha hb hkey

/-- **Records of one function are listed in strict order.** -/
theorem OfOne.pairwise_oldestFirst (h : OfOne repositoryId functionName rs) :
    (oldestFirst rs).Pairwise Before := by
  have hlisted := h.perm (Order.sort_perm notAfter rs).symm
  have hdifferent : (oldestFirst rs).Nodup := List.Nodup.of_map key hlisted.distinct
  have hordered := Order.pairwise_sort notAfter_total notAfter_trans rs
  refine (hordered.and hdifferent).imp_of_mem fun {a b} ha hb hab => ?_
  rcases notAfter_iff.mp hab.1 with hbefore | hbeside
  · exact hbefore
  · exact absurd (hlisted.eq_of_beside ha hb hbeside) hab.2

/-- **The listing does not depend on the order in which the records are found.** -/
theorem OfOne.oldestFirst_eq_of_perm (h : OfOne repositoryId functionName rs)
    (hperm : rs.Perm rs') : oldestFirst rs = oldestFirst rs' := by
  have hlisted : (oldestFirst rs).Perm (oldestFirst rs') :=
    (Order.sort_perm notAfter rs).trans (hperm.trans (Order.sort_perm notAfter rs').symm)
  refine hlisted.eq_of_pairwise (fun a b _ _ hab hba => ?_) h.pairwise_oldestFirst
    (h.perm hperm).pairwise_oldestFirst
  exact absurd rfl (hab.trans hba).ne

end Dossier.Record
