import Dossier.Source.Language
import Dossier.Source.QualifiedName
import Mathlib.Data.List.DropRight

/-!
# The last segment of a name

A qualified name is put together of segments with separators between them, and nothing keeps a
segment from holding separators itself. What can be told of a name is where it ends: if the last
segment has no separators then it is what stands after the last separator of the name
(`Dossier.QualifiedName.ending_intercalate`).
-/

namespace Dossier.QualifiedName

/-- Whether a text has no separator in it. -/
def IsSegment (s : String) : Prop :=
  ∀ c ∈ s.toList, isSeparator c = false

/-- Whether a class of characters holds no separator. -/
def NoSeparator (p : Char → Bool) : Prop :=
  ∀ c, p c = true → isSeparator c = false

/-- What stands after the last separator of a name. -/
def ending (name : String) : String :=
  String.ofList (name.toList.rtakeWhile fun c => !isSeparator c)

variable {before name segment : String} {scope : List String} {l : Language}

theorem noSeparator_of {p : Char → Bool} (hpoint : p '.' = false) (hcolon : p ':' = false) :
    NoSeparator p := by
  intro c hc
  rw [isSeparator, Bool.or_eq_false_iff, beq_eq_false_iff_ne, beq_eq_false_iff_ne]
  constructor <;> rintro rfl
  · exact Bool.noConfusion (hpoint.symm.trans hc)
  · exact Bool.noConfusion (hcolon.symm.trans hc)

/-- Nothing but the ending of a name is a segment as a whole. -/
theorem ending_of_isSegment (h : IsSegment segment) : ending segment = segment := by
  rw [ending, List.rtakeWhile_eq_self_iff.mpr fun c hc => by rw [h c hc]; rfl,
    String.ofList_toList]

/-- All separators end in a character that separates. -/
theorem exists_separator (l : Language) :
    ∃ cs c, l.separator.toList = cs ++ [c] ∧ isSeparator c = true := by
  cases l with
  | rust => exact ⟨[':'], ':', rfl, rfl⟩
  | python | go | java => exact ⟨[], '.', rfl, rfl⟩

/-- A search from the end stops at the first character that it does not take. -/
theorem rtakeWhile_append {p : Char → Bool} {c : Char} (hc : p c = false) (as bs : List Char) :
    (as ++ [c] ++ bs).rtakeWhile p = bs.rtakeWhile p := by
  induction bs using List.reverseRecOn with
  | nil =>
    rw [List.append_nil, List.rtakeWhile_concat_neg _ _ _ (by simp [hc]), List.rtakeWhile_nil]
  | append_singleton bs b ih =>
    rw [← List.append_assoc]
    by_cases hb : p b = true
    · rw [List.rtakeWhile_concat_pos _ _ _ hb, List.rtakeWhile_concat_pos _ _ _ hb, ih]
    · rw [List.rtakeWhile_concat_neg _ _ _ hb, List.rtakeWhile_concat_neg _ _ _ hb]

/-- What stands before a separator is no part of the ending. -/
theorem ending_append (l : Language) (before name : String) :
    ending (before ++ l.separator ++ name) = ending name := by
  obtain ⟨cs, c, hseparator, hc⟩ := exists_separator l
  rw [ending, ending, String.toList_append, String.toList_append, hseparator, ← List.append_assoc,
    rtakeWhile_append (by rw [hc]; rfl)]

/-- **A name that is put together of segments** ends like the last one. -/
theorem ending_intercalate (l : Language) (scope : List String) (segment : String) :
    ending (l.separator.intercalate (scope ++ [segment])) = ending segment := by
  induction scope with
  | nil => simp
  | cons first scope ih =>
    obtain ⟨second, rest, hrest⟩ : ∃ second rest, scope ++ [segment] = second :: rest :=
      List.exists_cons_of_ne_nil (by simp)
    rw [List.cons_append, ← ih, hrest, String.intercalate_cons_cons, ending_append]

end Dossier.QualifiedName
