/-!
# Cutting a text at byte offsets

Places in a source text are counted in UTF-8 bytes, while the text itself is a list of
characters. `splitBytes?` cuts a text at a byte offset and refuses an offset that falls
inside a character or beyond the end; `slice?` cuts out what lies between two offsets.
-/

namespace Dossier.Text

/-- The text before and after the first `n` bytes, when `n` lies between two characters. -/
def splitBytes? : Nat → List Char → Option (List Char × List Char)
  | 0, cs => some ([], cs)
  | _ + 1, [] => none
  | n + 1, c :: cs =>
    if c.utf8Size ≤ n + 1 then
      (splitBytes? (n + 1 - c.utf8Size) cs).map fun r => (c :: r.1, r.2)
    else none
termination_by structural _ cs => cs

/-- Cutting loses nothing. -/
theorem append_of_splitBytes? {n : Nat} {cs a b : List Char}
    (h : splitBytes? n cs = some (a, b)) : a ++ b = cs := by
  induction cs generalizing n a with
  | nil => cases n <;> simp_all [splitBytes?]
  | cons c cs ih =>
    cases n with
    | zero => simp_all [splitBytes?]
    | succ n =>
      rw [splitBytes?] at h
      split at h
      · obtain ⟨r, hr, he⟩ := Option.map_eq_some_iff.1 h
        obtain ⟨rfl, rfl⟩ := Prod.mk.inj he
        simp [ih hr]
      · cases h

/-- The characters between two byte offsets, when both lie between characters and in
order. -/
def sliceChars? (start stop : Nat) (cs : List Char) : Option (List Char) :=
  if start ≤ stop then
    (splitBytes? start cs).bind fun r => (splitBytes? (stop - start) r.2).map Prod.fst
  else none

/-- The text between two byte offsets, when both lie between characters and in order. -/
def slice? (start stop : Nat) (s : String) : Option String :=
  (sliceChars? start stop s.toList).map String.ofList

/-- The text between two byte offsets, empty when there is none. -/
def slice (start stop : Nat) (s : String) : String :=
  (slice? start stop s).getD ""

end Dossier.Text
