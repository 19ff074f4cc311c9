import Dossier.Syntax.Token
import Dossier.Text.Blank
import Dossier.Text.Slice
import Mathlib.Data.List.Basic

/-!
# Places in a text

A text is read from left to right, and a place in it is counted along. That the count is right is
an invariant of the reading (`Dossier.Position.Before`): the bytes counted are those of what has
been read, so the text that is cut out between two places is what was read on the way from one to
the other (`Dossier.Position.Before.slice_eq`).
-/

namespace Dossier

namespace Text

@[simp] theorem byteSize_nil : byteSize [] = 0 :=
  rfl

/-- Sizes add up. -/
@[simp] theorem byteSize_cons (c : Char) (cs : List Char) :
    byteSize (c :: cs) = c.utf8Size + byteSize cs := by
  have hfoldl : ∀ (cs : List Char) (n : Nat),
      cs.foldl (fun n c => n + c.utf8Size) n = n + byteSize cs := by
    intro cs
    induction cs with
    | nil => exact fun n => rfl
    | cons d cs ih =>
      intro n
      rw [byteSize, List.foldl_cons, List.foldl_cons, ih, ih (0 + _)]
      omega
  rw [byteSize, List.foldl_cons, hfoldl, Nat.zero_add]

@[simp] theorem byteSize_append (as bs : List Char) :
    byteSize (as ++ bs) = byteSize as + byteSize bs := by
  induction as with
  | nil => simp
  | cons c as ih => simp [ih, Nat.add_assoc]

/-- A text is cut where its first part ends. -/
theorem splitBytes?_append (as bs : List Char) :
    splitBytes? (byteSize as) (as ++ bs) = some (as, bs) := by
  induction as with
  | nil =>
    rw [byteSize_nil, List.nil_append]
    cases bs <;> rfl
  | cons c as ih =>
    obtain ⟨n, hn⟩ : ∃ n, byteSize (c :: as) = n + 1 :=
      ⟨byteSize (c :: as) - 1, by have := c.utf8Size_pos; rw [byteSize_cons]; omega⟩
    have hrest : n + 1 - c.utf8Size = byteSize as := by
      rw [byteSize_cons] at hn
      omega
    have hle : c.utf8Size ≤ n + 1 := by
      rw [byteSize_cons] at hn
      omega
    rw [hn, List.cons_append, splitBytes?, if_pos hle, hrest, ih]
    rfl

theorem slice?_append {source : String} {as bs cs : List Char}
    (h : source.toList = as ++ (bs ++ cs)) :
    slice? (byteSize as) (byteSize (as ++ bs)) source = some (String.ofList bs) := by
  have hsize : byteSize (as ++ bs) - byteSize as = byteSize bs := by
    rw [byteSize_append]
    omega
  have hle : byteSize as ≤ byteSize (as ++ bs) := by
    rw [byteSize_append]
    omega
  rw [slice?, sliceChars?, if_pos hle, h, splitBytes?_append, hsize, Option.bind_some,
    splitBytes?_append]
  rfl

/-- **What stands between two places** of a text is cut out there. -/
theorem slice_append {source : String} {as bs cs : List Char}
    (h : source.toList = as ++ (bs ++ cs)) :
    slice (byteSize as) (byteSize (as ++ bs)) source = String.ofList bs := by
  rw [slice, slice?_append h, Option.getD_some]

/-- **What stands between two characters** of a text is cut out, if they are in order. -/
theorem isSome_slice? {source : String} {as bs : List Char} (has : as <+: source.toList)
    (hbs : bs <+: source.toList) (h : byteSize as ≤ byteSize bs) :
    (slice? (byteSize as) (byteSize bs) source).isSome := by
  have hcut : ∀ as more : List Char, as ++ more <+: source.toList →
      (slice? (byteSize as) (byteSize (as ++ more)) source).isSome := by
    rintro as more ⟨rest, hrest⟩
    rw [slice?_append (by rw [← hrest, List.append_assoc])]
    rfl
  obtain ⟨more, rfl⟩ | ⟨more, rfl⟩ := List.prefix_or_prefix_of_prefix has hbs
  · exact hcut as more hbs
  · -- The other way round nothing stands between them.
    obtain rfl : more = [] := by
      rcases more with _ | ⟨c, more⟩
      · rfl
      · have hpos := c.utf8Size_pos
        rw [byteSize_append, byteSize_cons] at h
        omega
    have hself := hcut bs [] (by rwa [List.append_nil])
    rwa [List.append_nil] at hself ⊢

theorem byteSize_of_splitBytes? {n : Nat} {cs as bs : List Char}
    (h : splitBytes? n cs = some (as, bs)) : byteSize as = n := by
  induction cs generalizing n as with
  | nil =>
    cases n with
    | zero =>
      obtain ⟨rfl, -⟩ := Prod.mk.inj (Option.some.inj h)
      rfl
    | succ n => cases h
  | cons c cs ih =>
    cases n with
    | zero =>
      obtain ⟨rfl, -⟩ := Prod.mk.inj (Option.some.inj h)
      rfl
    | succ n =>
      rw [splitBytes?] at h
      split at h
      · next hle =>
        obtain ⟨⟨before, after⟩, hr, heq⟩ := Option.map_eq_some_iff.mp h
        obtain ⟨rfl, rfl⟩ := Prod.mk.inj heq
        rw [byteSize_cons, ih hr]
        omega
      · cases h

/-- A text with another one in front is cut further on. -/
theorem splitBytes?_add (as cs : List Char) (n : Nat) :
    splitBytes? (byteSize as + n) (as ++ cs) =
      (splitBytes? n cs).map fun r => (as ++ r.1, r.2) := by
  induction as with
  | nil =>
    rw [byteSize_nil, Nat.zero_add, List.nil_append]
    exact Option.map_id'.symm
  | cons c as ih =>
    have hpos := c.utf8Size_pos
    obtain ⟨m, hm⟩ : ∃ m, byteSize (c :: as) + n = m + 1 :=
      ⟨byteSize (c :: as) + n - 1, by rw [byteSize_cons]; omega⟩
    have hrest : m + 1 - c.utf8Size = byteSize as + n := by
      rw [byteSize_cons] at hm
      omega
    have hle : c.utf8Size ≤ m + 1 := by
      rw [byteSize_cons] at hm
      omega
    rw [hm, List.cons_append, splitBytes?, if_pos hle, hrest, ih, Option.map_map]
    rfl

/-- A text with another one behind is cut in the same place. -/
theorem splitBytes?_append_of_le {n : Nat} {cs : List Char} (h : n ≤ byteSize cs)
    (bs : List Char) :
    splitBytes? n (cs ++ bs) = (splitBytes? n cs).map fun r => (r.1, r.2 ++ bs) := by
  induction cs generalizing n with
  | nil =>
    obtain rfl := Nat.le_zero.mp h
    cases bs <;> rfl
  | cons c cs ih =>
    cases n with
    | zero => rfl
    | succ n =>
      rw [byteSize_cons] at h
      rw [List.cons_append, splitBytes?, splitBytes?]
      split
      · rw [ih (by omega), Option.map_map, Option.map_map]
        rfl
      · rfl

/-- **What stands in a text with others around it** is cut out further on. -/
theorem slice_surrounded {whole core : String} {as bs : List Char} {m n : Nat}
    (h : whole.toList = as ++ core.toList ++ bs) (hm : m ≤ byteSize core.toList)
    (hn : n ≤ byteSize core.toList) :
    slice (byteSize as + m) (byteSize as + n) whole = slice m n core := by
  have hle : (byteSize as + m ≤ byteSize as + n) = (m ≤ n) := by
    rw [Nat.add_le_add_iff_left]
  have hsub : byteSize as + n - (byteSize as + m) = n - m := by omega
  rw [slice, slice, slice?, slice?, sliceChars?, sliceChars?, h, List.append_assoc,
    splitBytes?_add, splitBytes?_append_of_le hm, hsub, Option.map_map]
  simp only [hle]
  split
  · rcases hsplit : splitBytes? m core.toList with _ | ⟨before, after⟩
    · rfl
    · have hsize := byteSize_of_splitBytes? hsplit
      rw [← append_of_splitBytes? hsplit, byteSize_append] at hn
      simp only [Option.map_some, Option.bind_some, Function.comp,
        splitBytes?_append_of_le (show n - m ≤ byteSize after by omega), Option.map_map]
      rfl
  · rfl

/-- Nothing stands between a place and itself. -/
theorem slice_self (n : Nat) (source : String) : slice n n source = "" := by
  rw [slice, slice?, sliceChars?, if_pos (Nat.le_refl n), Nat.sub_self]
  rcases splitBytes? n source.toList with _ | ⟨before, after⟩
  · rfl
  · cases after <;> rfl

end Text

namespace Position

/-- **Whether a place is the one before the rest of a text**, going by the bytes. -/
def Before (source : String) (rest : List Char) (p : Position) : Prop :=
  ∃ read, source.toList = read ++ rest ∧ p.offset = Text.byteSize read

variable {source : String} {as rest : List Char} {p : Position}

theorem offset_advance (p : Position) (as : List Char) :
    (p.advance as).offset = p.offset + Text.byteSize as := by
  induction as generalizing p with
  | nil => rfl
  | cons c as ih =>
    rw [advance, List.foldl_cons, ← advance, ih, offset_next, Text.byteSize_cons, Nat.add_assoc]

theorem before_origin (source : String) : origin.Before source source.toList :=
  ⟨[], rfl, rfl⟩

/-- Reading on. -/
theorem Before.advance (h : p.Before source (as ++ rest)) : (p.advance as).Before source rest := by
  obtain ⟨read, hsource, hoffset⟩ := h
  refine ⟨read ++ as, by rw [hsource, List.append_assoc], ?_⟩
  rw [offset_advance, hoffset, Text.byteSize_append]

/-- Reading on by some number of characters. -/
theorem Before.advance_take (h : p.Before source rest) (n : Nat) :
    (p.advance (rest.take n)).Before source (rest.drop n) :=
  Before.advance (by rwa [List.take_append_drop])

/-- **What is read on the way** is what stands between the two places. -/
theorem Before.slice_eq (h : p.Before source (as ++ rest)) :
    Text.slice p.offset (p.advance as).offset source = String.ofList as := by
  obtain ⟨read, hsource, hoffset⟩ := h
  rw [offset_advance, hoffset, ← Text.byteSize_append]
  exact Text.slice_append hsource

/-- The place after a byte order mark is where the rest of the text begins. -/
theorem before_skipByteOrderMark (source : String) :
    (skipByteOrderMark source.toList).1.Before source (skipByteOrderMark source.toList).2 := by
  unfold skipByteOrderMark
  split
  · next h => exact h ▸ before_origin source
  · next c cs h =>
    split
    · next hmark =>
      obtain rfl : c = Char.ofNat 0xFEFF := Char.toNat_inj.mp hmark
      exact ⟨[Char.ofNat 0xFEFF], h, rfl⟩
    · exact h ▸ before_origin source

end Position

end Dossier
