/-!
# Sorted lists

Sorting by insertion, from the right: an element is put before the first one that it does
not exceed, so elements that compare equal keep their order. `insertDistinct` and `distinct`
keep one of each element, which is how sets of names are kept; strings are ordered by code
point.
-/

namespace Dossier.Order

variable {α : Type}

/-- An element put before the first one that it does not exceed. -/
def insert (le : α → α → Bool) (a : α) : List α → List α
  | [] => [a]
  | b :: bs => if le a b then a :: b :: bs else b :: insert le a bs

/-- **A list in order.** Elements that compare equal keep their places. -/
def sort (le : α → α → Bool) (as : List α) : List α :=
  as.foldr (insert le) []

theorem insert_perm (le : α → α → Bool) (a : α) (bs : List α) :
    (insert le a bs).Perm (a :: bs) := by
  induction bs with
  | nil => exact .refl _
  | cons b bs ih =>
    rw [insert]
    split
    · exact .refl _
    · exact (ih.cons b).trans (.swap a b bs)

/-- Sorting loses nothing and adds nothing. -/
theorem sort_perm (le : α → α → Bool) (as : List α) : (sort le as).Perm as := by
  induction as with
  | nil => exact .refl _
  | cons a as ih => exact (insert_perm le a _).trans (ih.cons a)

theorem pairwise_insert {le : α → α → Bool} {r : α → α → Prop} (total : ∀ a b, le a b || le b a)
    (trans : ∀ a b c, le a b → le b c → le a c) (a : α) {bs : List α} (hr : ∀ b ∈ bs, r a b)
    (h : bs.Pairwise fun x y => le x y ∧ (le y x → r x y)) :
    (insert le a bs).Pairwise fun x y => le x y ∧ (le y x → r x y) := by
  induction bs with
  | nil => simp [insert]
  | cons b bs ih =>
    obtain ⟨hb, hbs⟩ := List.pairwise_cons.1 h
    rw [insert]
    split
    · next hab =>
      refine List.pairwise_cons.2 ⟨fun c hc => ⟨?_, fun _ => hr c hc⟩, h⟩
      rcases List.mem_cons.1 hc with rfl | hc
      · exact hab
      · exact trans a b c hab (hb c hc).1
    · next hab =>
      refine List.pairwise_cons.2
        ⟨fun c hc => ?_, ih (fun c hc => hr c (List.mem_cons_of_mem b hc)) hbs⟩
      rcases List.mem_cons.1 ((insert_perm le a bs).mem_iff.1 hc) with rfl | hc
      · have := total c b
        simp_all
      · exact hb c hc

/-- **Sorting is stable**: each element of a sorted list is at most those after it, and those that
compare equal are related as they were before, whatever the relation. -/
theorem pairwise_sort_stable {le : α → α → Bool} {r : α → α → Prop}
    (total : ∀ a b, le a b || le b a) (trans : ∀ a b c, le a b → le b c → le a c) {as : List α}
    (h : as.Pairwise r) : (sort le as).Pairwise fun x y => le x y ∧ (le y x → r x y) := by
  induction as with
  | nil => exact .nil
  | cons a as ih =>
    obtain ⟨ha, has⟩ := List.pairwise_cons.1 h
    exact pairwise_insert total trans a (fun b hb => ha b ((sort_perm le as).mem_iff.1 hb)) (ih has)

/-- Each element of a sorted list is at most those after it. -/
theorem pairwise_sort {le : α → α → Bool} (total : ∀ a b, le a b || le b a)
    (trans : ∀ a b c, le a b → le b c → le a c) (as : List α) :
    (sort le as).Pairwise fun x y => le x y :=
  (pairwise_sort_stable total trans
    (List.pairwise_of_forall fun _ _ => trivial : as.Pairwise fun _ _ => True)).imp And.left

theorem insert_map {β : Type} (f : β → α) (le : α → α → Bool) (b : β) (bs : List β) :
    insert le (f b) (bs.map f) = (insert (fun x y => le (f x) (f y)) b bs).map f := by
  induction bs with
  | nil => rfl
  | cons c cs ih =>
    rw [List.map_cons, insert, insert, ih]
    split <;> rfl

/-- What is made of elements is put in order as the elements are. -/
theorem sort_map {β : Type} (f : β → α) (le : α → α → Bool) (bs : List β) :
    sort le (bs.map f) = (sort (fun x y => le (f x) (f y)) bs).map f := by
  induction bs with
  | nil => rfl
  | cons b bs ih =>
    have hrest : List.foldr (insert le) [] (bs.map f) =
        (List.foldr (insert fun x y => le (f x) (f y)) [] bs).map f := ih
    rw [List.map_cons, sort, sort, List.foldr_cons, List.foldr_cons, hrest, insert_map]

section Distinct

variable [LT α] [DecidableLT α] [DecidableEq α]

/-- An element put in its place, unless it is there already. -/
def insertDistinct (a : α) : List α → List α
  | [] => [a]
  | b :: bs => if a < b then a :: b :: bs else if a = b then b :: bs else b :: insertDistinct a bs

/-- **The elements of a list in increasing order**, one of each. -/
def distinct (as : List α) : List α :=
  as.foldr insertDistinct []

theorem mem_insertDistinct {a c : α} {bs : List α} :
    c ∈ insertDistinct a bs ↔ c = a ∨ c ∈ bs := by
  induction bs with
  | nil => simp [insertDistinct]
  | cons b bs ih =>
    rw [insertDistinct]
    split
    · simp
    · split
      · next h => subst h; simp
      · rw [List.mem_cons, ih, List.mem_cons]
        exact or_left_comm

theorem pairwise_insertDistinct (trans : ∀ a b c : α, a < b → b < c → a < c)
    (connex : ∀ a b : α, ¬a < b → a ≠ b → b < a) (a : α) {bs : List α}
    (h : bs.Pairwise (· < ·)) : (insertDistinct a bs).Pairwise (· < ·) := by
  induction bs with
  | nil => exact List.pairwise_singleton _ a
  | cons b bs ih =>
    obtain ⟨hb, hbs⟩ := List.pairwise_cons.1 h
    rw [insertDistinct]
    split
    · next hab =>
      refine List.pairwise_cons.2 ⟨fun c hc => ?_, h⟩
      rcases List.mem_cons.1 hc with rfl | hc
      · exact hab
      · exact trans a b c hab (hb c hc)
    · next hab =>
      split
      · exact h
      · next hne =>
        refine List.pairwise_cons.2 ⟨fun c hc => ?_, ih hbs⟩
        rcases mem_insertDistinct.1 hc with rfl | hc
        · exact connex c b hab hne
        · exact hb c hc

end Distinct

/-- Of two different strings one comes first. -/
theorem string_lt_of_not_lt (a b : String) (h : ¬a < b) (hne : a ≠ b) : b < a :=
  Classical.byContradiction fun h' =>
    hne (String.le_antisymm (String.not_lt.mp h') (String.not_lt.mp h))

/-- Names stay in increasing order with one more among them. -/
theorem pairwise_insertDistinct_string {names : List String} (h : names.Pairwise (· < ·))
    (name : String) : (insertDistinct name names).Pairwise (· < ·) :=
  pairwise_insertDistinct (fun _ _ _ => String.lt_trans) string_lt_of_not_lt name h

end Dossier.Order
