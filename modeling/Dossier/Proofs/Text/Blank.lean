import Dossier.Text.Blank
import Mathlib.Data.List.Basic
import Mathlib.Data.List.TakeWhile

/-!
# Prefixes and pieces of texts

What a text begins with can be taken off it again, be it a given prefix or all characters of a
kind, and its last piece ends as the text does. What is trimmed off a text is blank, so that a text
is blank exactly if nothing is left of it.
-/

namespace Dossier.Text

@[simp]
theorem dropPrefix?_append (p cs : List Char) : dropPrefix? p (p ++ cs) = some cs := by
  induction p with
  | nil => rw [List.nil_append, dropPrefix?]
  | cons c p ih => rw [List.cons_append, dropPrefix?, if_pos rfl, ih]

/-- A prefix that can be taken off a text stands at its head. -/
theorem eq_append_of_dropPrefix? {p cs rest : List Char} (h : dropPrefix? p cs = some rest) :
    cs = p ++ rest := by
  induction p generalizing cs with
  | nil =>
    rw [dropPrefix?] at h
    exact Option.some.inj h
  | cons c p ih =>
    rcases cs with _ | ⟨d, cs⟩
    · cases h
    · rw [dropPrefix?] at h
      split at h
      · next hcd => rw [hcd, ih h, List.cons_append]
      · cases h

theorem drop_of_dropPrefix? {p cs rest : List Char} (h : dropPrefix? p cs = some rest) :
    cs.drop p.length = rest := by
  rw [eq_append_of_dropPrefix? h, List.drop_left]

/-! ### Marks in a text with something around it -/

section Around

variable {p as bs : List Char}

/-- A mark does not reach into what begins with a character that is none of its own. -/
theorem dropPrefix?_append_of_head? (h : ∀ c ∈ bs.head?, c ∉ p) (cs : List Char) :
    dropPrefix? p (cs ++ bs) = (dropPrefix? p cs).map (· ++ bs) := by
  induction p generalizing cs with
  | nil => rfl
  | cons c p ih =>
    rcases cs with _ | ⟨d, cs⟩
    · rcases bs with _ | ⟨b, bs⟩
      · rfl
      · exact if_neg fun hcb : c = b => h b rfl (hcb ▸ List.mem_cons_self)
    · rw [List.cons_append, dropPrefix?, dropPrefix?]
      split
      · exact ih (fun c hc hmem => h c hc (List.mem_cons_of_mem _ hmem)) cs
      · rfl

theorem startsWith_append_of_head? (h : ∀ c ∈ bs.head?, c ∉ p) (cs : List Char) :
    startsWith p (cs ++ bs) = startsWith p cs := by
  rw [startsWith, startsWith, dropPrefix?_append_of_head? h, Option.isSome_map]

/-- A mark is not found where none of its characters are. -/
theorem cut?_of_notMem (h : ∀ c ∈ bs, c ∉ p) (hne : p ≠ []) : cut? p bs = none := by
  obtain ⟨x, p, rfl⟩ := List.exists_cons_of_ne_nil hne
  induction bs with
  | nil => rfl
  | cons b bs ih =>
    obtain ⟨hb, hbs⟩ := List.forall_mem_cons.mp h
    rw [cut?, dropPrefix?, if_neg fun hxb : x = b => hb (hxb ▸ List.mem_cons_self), ih hbs]
    rfl

/-- A mark is found with something behind the text where it is found without. -/
theorem cut?_append_of_notMem (h : ∀ c ∈ bs, c ∉ p) (hne : p ≠ []) (cs : List Char) :
    cut? p (cs ++ bs) = (cut? p cs).map fun r => (r.1, r.2 ++ bs) := by
  induction cs with
  | nil =>
    rw [List.nil_append, cut?_of_notMem h hne, cut?_of_notMem (List.forall_mem_nil _) hne]
    rfl
  | cons c cs ih =>
    have hdrop := dropPrefix?_append_of_head? (fun y hy => h y (List.mem_of_mem_head? hy)) (c :: cs)
    rw [List.cons_append, cut?, cut?, ← List.cons_append, hdrop, ih]
    rcases dropPrefix? p (c :: cs) with _ | rest
    · rcases cut? p cs with _ | r <;> rfl
    · rfl

/-- A mark is not found among characters that are none of its own. -/
theorem cut?_append_left (h : ∀ c ∈ as, c ∉ p) (hne : p ≠ []) (cs : List Char) :
    cut? p (as ++ cs) = (cut? p cs).map fun r => (as ++ r.1, r.2) := by
  induction as with
  | nil => exact Option.map_id'.symm
  | cons a as ih =>
    obtain ⟨ha, has⟩ := List.forall_mem_cons.mp h
    have hdrop : dropPrefix? p (a :: (as ++ cs)) = none := by
      obtain ⟨x, p, rfl⟩ := List.exists_cons_of_ne_nil hne
      exact if_neg fun hxa : x = a => ha (hxa ▸ List.mem_cons_self)
    rw [List.cons_append, cut?, hdrop, ih has, Option.map_map]
    rfl

end Around

theorem runLength_le (p : Char → Bool) (cs : List Char) : runLength p cs ≤ cs.length :=
  (List.takeWhile_prefix p).length_le

/-- A run goes as far as it can. -/
theorem any_head?_drop_runLength (p : Char → Bool) (cs : List Char) :
    (cs.drop (runLength p cs)).head?.any p = false := by
  induction cs with
  | nil => rfl
  | cons c cs ih =>
    by_cases hc : p c = true
    · rw [runLength, List.takeWhile_cons_of_pos hc]
      exact ih
    · rw [runLength, List.takeWhile_cons_of_neg hc]
      exact Bool.eq_false_iff.mpr hc

theorem runLength_of_forall {p : Char → Bool} {cs : List Char} (h : ∀ c ∈ cs, p c = true) :
    runLength p cs = cs.length := by
  rw [runLength, List.takeWhile_eq_self_iff.mpr h]

/-- A run that stops in a text does not go on behind it. -/
theorem runLength_append_of_lt {p : Char → Bool} {cs : List Char} (h : runLength p cs < cs.length)
    (ds : List Char) : runLength p (cs ++ ds) = runLength p cs := by
  rw [runLength] at h
  rw [runLength, runLength, List.takeWhile_append, if_neg (Nat.ne_of_lt h)]

theorem length_le_of_startsWith {p cs : List Char} (h : startsWith p cs = true) :
    p.length ≤ cs.length := by
  obtain ⟨rest, hrest⟩ := Option.isSome_iff_exists.mp h
  rw [eq_append_of_dropPrefix? hrest, List.length_append]
  exact Nat.le_add_right _ _

/-- A separator that does not stand in a text is found right after it. -/
theorem cut?_append {c : Char} {as : List Char} (h : c ∉ as) (bs : List Char) :
    cut? [c] (as ++ c :: bs) = some (as, bs) := by
  induction as with
  | nil => simp [cut?, dropPrefix?]
  | cons a as ih =>
    obtain ⟨hca, has⟩ := not_or.mp (mt List.mem_cons.mpr h)
    rw [List.cons_append, cut?, dropPrefix?, if_neg hca, ih has]
    rfl

/-- What a text is cut into stands before the cut and after it. -/
theorem eq_append_of_cut? {p cs as bs : List Char} (h : cut? p cs = some (as, bs)) :
    cs = as ++ p ++ bs := by
  induction cs generalizing as with
  | nil =>
    rw [cut?] at h
    split at h
    · next hp =>
      obtain ⟨rfl, rfl⟩ := Prod.mk.inj (Option.some.inj h)
      rw [List.isEmpty_iff.mp hp]
      rfl
    · cases h
  | cons c cs ih =>
    rw [cut?] at h
    split at h
    · next hdrop =>
      obtain ⟨rfl, rfl⟩ := Prod.mk.inj (Option.some.inj h)
      exact eq_append_of_dropPrefix? hdrop
    · obtain ⟨r, hr, heq⟩ := Option.map_eq_some_iff.mp h
      obtain ⟨rfl, rfl⟩ := Prod.mk.inj heq
      rw [ih hr]
      rfl

/-- What is taken from the head of a text ends where it stops. -/
theorem takeWhile_append {p : Char → Bool} {cs rest : List Char} (h : ∀ c ∈ cs, p c = true)
    (hrest : ∀ c ∈ rest.head?, p c = false) : (cs ++ rest).takeWhile p = cs := by
  rw [List.takeWhile_append_of_pos h]
  rcases rest with _ | ⟨c, rest⟩
  · simp
  · rw [List.takeWhile_cons_of_neg (by simp [hrest c rfl]), List.append_nil]

theorem dropBlank_cons {c : Char} (h : isBlank c = false) (cs : List Char) :
    dropBlank (c :: cs) = c :: cs := by
  rw [dropBlank, List.dropWhile_cons_of_neg (by simp [h])]

/-- The last piece of a text ends as the text does. -/
theorem splitAt_concat {p : Char → Bool} {c : Char} (h : p c = false) (cs : List Char) :
    ∃ pieces piece, splitAt p (cs ++ [c]) = pieces ++ [piece ++ [c]] := by
  induction cs with
  | nil => exact ⟨[], [], by simp [splitAt, h]⟩
  | cons d cs ih =>
    obtain ⟨pieces, piece, heq⟩ := ih
    rw [List.cons_append, splitAt, heq]
    by_cases hd : p d = true
    · exact ⟨[] :: pieces, piece, by simp [hd]⟩
    · rw [if_neg hd]
      rcases pieces with _ | ⟨first, pieces⟩
      · exact ⟨[], d :: piece, rfl⟩
      · exact ⟨(d :: first) :: pieces, piece, rfl⟩

theorem splitAt_ne_nil (p : Char → Bool) (cs : List Char) : splitAt p cs ≠ [] := by
  cases cs with
  | nil => exact List.cons_ne_nil _ _
  | cons c cs =>
    rw [splitAt]
    split
    · exact List.cons_ne_nil _ _
    · split <;> exact List.cons_ne_nil _ _

/-- A text is split where the separator stands, before it and after it. -/
theorem splitAt_append {p : Char → Bool} {c : Char} (h : p c = true) (as bs : List Char) :
    splitAt p (as ++ c :: bs) = splitAt p as ++ splitAt p bs := by
  induction as with
  | nil => simp [splitAt, h]
  | cons a as ih =>
    obtain ⟨piece, pieces, hpieces⟩ := List.exists_cons_of_ne_nil (splitAt_ne_nil p as)
    rw [List.cons_append, splitAt, splitAt, ih, hpieces]
    by_cases ha : p a = true
    · rw [if_pos ha, if_pos ha]
      rfl
    · rw [if_neg ha, if_neg ha]
      rfl

/-- A text without separators is one piece. -/
theorem splitAt_of_forall {p : Char → Bool} {cs : List Char} (h : ∀ c ∈ cs, p c = false) :
    splitAt p cs = [cs] := by
  induction cs with
  | nil => rfl
  | cons c cs ih =>
    obtain ⟨hc, hcs⟩ := List.forall_mem_cons.mp h
    rw [splitAt, ih hcs, if_neg (by simp [hc])]

/-- No separator stands in a piece. -/
theorem forall_mem_splitAt (p : Char → Bool) (cs : List Char) :
    ∀ piece ∈ splitAt p cs, ∀ c ∈ piece, p c = false := by
  induction cs with
  | nil => simp [splitAt]
  | cons c cs ih =>
    rw [splitAt]
    split
    · exact List.forall_mem_cons.mpr ⟨by simp, ih⟩
    · next hc =>
      split
      · simpa using hc
      · next first pieces heq =>
        obtain ⟨hfirst, hpieces⟩ := List.forall_mem_cons.mp (heq ▸ ih)
        exact List.forall_mem_cons.mpr
          ⟨List.forall_mem_cons.mpr ⟨by simpa using hc, hfirst⟩, hpieces⟩

/-- The first piece of a text stands before the first separator, if it is not the only one. -/
theorem exists_of_splitAt_eq {p : Char → Bool} {cs piece next : List Char}
    {pieces : List (List Char)} (h : splitAt p cs = piece :: next :: pieces) :
    ∃ c rest, p c = true ∧ cs = piece ++ c :: rest ∧ splitAt p rest = next :: pieces := by
  induction cs generalizing piece with
  | nil =>
    rw [splitAt] at h
    cases h
  | cons c cs ih =>
    rw [splitAt] at h
    split at h
    · next hc =>
      obtain ⟨rfl, hrest⟩ := List.cons.inj h
      exact ⟨c, cs, hc, rfl, hrest⟩
    · split at h
      · cases h
      · next first others hsplit =>
        obtain ⟨rfl, rfl⟩ := List.cons.inj h
        obtain ⟨d, rest, hd, rfl, hrest⟩ := ih hsplit
        exact ⟨d, rest, hd, rfl, hrest⟩

/-- **The pieces of a text other than its last** stand before a separator, at the head of the text
or right after another separator. -/
theorem mem_dropLast_splitAt_iff {s : Char} {cs piece : List Char} (h : s ∉ piece) :
    piece ∈ (splitAt (· == s) cs).dropLast ↔
      ∃ rest, cs = piece ++ s :: rest ∨ ∃ front, cs = front ++ s :: (piece ++ s :: rest) := by
  have hself : splitAt (· == s) piece = [piece] :=
    splitAt_of_forall fun c hc => beq_false_of_ne (ne_of_mem_of_not_mem hc h)
  have hbefore : ∀ rest, piece ∈ (splitAt (· == s) (piece ++ s :: rest)).dropLast := by
    intro rest
    rw [splitAt_append (p := (· == s)) (beq_self_eq_true s), hself,
      List.dropLast_append_of_ne_nil (splitAt_ne_nil _ _)]
    exact List.mem_append_left _ (List.mem_singleton_self piece)
  constructor
  · obtain ⟨pieces, hpieces⟩ : ∃ pieces, splitAt (· == s) cs = pieces := ⟨_, rfl⟩
    rw [hpieces]
    intro hmem
    induction pieces generalizing cs with
    | nil => exact absurd hmem List.not_mem_nil
    | cons first pieces ih =>
      rcases pieces with _ | ⟨next, pieces⟩
      · exact absurd hmem List.not_mem_nil
      obtain ⟨d, after, hd, rfl, hafter⟩ := exists_of_splitAt_eq hpieces
      obtain rfl := beq_iff_eq.mp hd
      rw [List.dropLast_cons_cons, List.mem_cons] at hmem
      -- It is the first piece, or one of those behind the first separator.
      rcases hmem with rfl | hmem
      · exact ⟨after, .inl rfl⟩
      · obtain ⟨rest, rfl | ⟨front, rfl⟩⟩ := ih hafter hmem
        · exact ⟨rest, .inr ⟨first, rfl⟩⟩
        · exact ⟨rest, .inr ⟨first ++ d :: front, by simp⟩⟩
  · rintro ⟨rest, rfl | ⟨front, rfl⟩⟩
    · exact hbefore rest
    · rw [splitAt_append (p := (· == s)) (beq_self_eq_true s),
        List.dropLast_append_of_ne_nil (splitAt_ne_nil _ _)]
      exact List.mem_append_right _ (hbefore rest)

/-! ### What is trimmed off -/

/-- Nothing is dropped at the right of a text that ends with something. -/
theorem dropBlankRight_concat {c : Char} (h : isBlank c = false) (cs : List Char) :
    dropBlankRight (cs ++ [c]) = cs ++ [c] := by
  rw [dropBlankRight, List.reverse_append, List.reverse_singleton, List.singleton_append,
    dropBlank_cons h, List.reverse_cons, List.reverse_reverse]

/-- Blanks are dropped up to what is not blank. -/
theorem dropBlank_append_cons {c : Char} (h : isBlank c = false) (as bs : List Char) :
    dropBlank (as ++ c :: bs) = dropBlank as ++ c :: bs := by
  rw [dropBlank, List.dropWhile_append]
  split
  · next hall =>
    rw [dropBlank, List.isEmpty_iff.mp hall, List.nil_append]
    exact dropBlank_cons h bs
  · rfl

theorem dropBlank_eq_self_iff {cs : List Char} :
    dropBlank cs = cs ↔ ∀ c ∈ cs.head?, isBlank c = false := by
  cases cs with
  | nil => simp [dropBlank]
  | cons c cs =>
    refine ⟨fun h => ?_, fun h => dropBlank_cons (h c rfl) cs⟩
    intro d hd
    obtain rfl := Option.some.inj hd
    by_contra hblank
    have hlength := congrArg List.length h
    rw [dropBlank, List.dropWhile_cons_of_pos (by simpa using hblank), List.length_cons] at hlength
    have hle := List.length_dropWhile_le isBlank cs
    omega

/-- What is left where blanks are dropped begins with none. -/
theorem isBlank_head?_dropBlank (cs : List Char) :
    ∀ c ∈ (dropBlank cs).head?, isBlank c = false := by
  intro c hc
  have hnot := List.head?_dropWhile_not isBlank cs
  rw [dropBlank] at hc
  rwa [Option.mem_def.mp hc] at hnot

/-- A text without blanks stays as it is. -/
theorem trimChars_of_forall {cs : List Char} (h : ∀ c ∈ cs, isBlank c = false) :
    trimChars cs = cs := by
  have hhead : ∀ ds : List Char, (∀ c ∈ ds, isBlank c = false) → dropBlank ds = ds :=
    fun ds hds => dropBlank_eq_self_iff.mpr fun c hc => hds c (List.mem_of_mem_head? hc)
  rw [trimChars, hhead cs h, dropBlankRight, hhead cs.reverse (by simpa using h),
    List.reverse_reverse]

theorem dropBlankRight_append {bs : List Char} (h : ∀ c ∈ bs, isBlank c = true) (cs : List Char) :
    dropBlankRight (cs ++ bs) = dropBlankRight cs := by
  rw [dropBlankRight, List.reverse_append, dropBlank,
    List.dropWhile_append_of_pos (by simpa using h)]
  rfl

/-- Blanks after a text are trimmed off. -/
theorem trimChars_append {bs : List Char} (h : ∀ c ∈ bs, isBlank c = true) (cs : List Char) :
    trimChars (cs ++ bs) = trimChars cs := by
  have hblank : dropBlank bs = [] := List.dropWhile_eq_nil_iff.mpr h
  rw [trimChars, dropBlank, List.dropWhile_append]
  split
  · next hcs =>
    rw [trimChars, dropBlank, List.isEmpty_iff.mp hcs]
    exact congrArg dropBlankRight hblank
  · exact dropBlankRight_append h _

/-- **What stands between the blanks at the ends of a text** is left of it. -/
theorem trimChars_between {as cs bs : List Char} (has : ∀ c ∈ as, isBlank c = true)
    (hhead : ∀ c ∈ cs.head?, isBlank c = false) (hlast : ∀ c ∈ cs.getLast?, isBlank c = false)
    (hbs : ∀ c ∈ bs, isBlank c = true) : trimChars (as ++ cs ++ bs) = cs := by
  have hblank : dropBlank as = [] := List.dropWhile_eq_nil_iff.mpr has
  rw [trimChars_append hbs, trimChars]
  rcases cs with _ | ⟨c, cs⟩
  · rw [List.append_nil, hblank]
    rfl
  rw [dropBlank_append_cons (hhead c rfl), hblank, List.nil_append]
  obtain ⟨front, d, heq⟩ := (List.eq_nil_or_concat' (c :: cs)).resolve_left (List.cons_ne_nil _ _)
  rw [heq] at hlast ⊢
  exact dropBlankRight_concat (hlast d (by rw [List.getLast?_concat]; rfl)) front

/-- A text is what is left of it when it is trimmed, between blanks. -/
theorem exists_trimChars (cs : List Char) :
    ∃ lead trail, cs = lead ++ (trimChars cs ++ trail) ∧ (∀ c ∈ lead, isBlank c = true) ∧
      (∀ c ∈ trail, isBlank c = true) ∧ ∀ c ∈ (trimChars cs).head?, isBlank c = false := by
  have htaken : ∀ ds : List Char, ∀ c ∈ ds.takeWhile isBlank, isBlank c = true :=
    fun _ => List.all_eq_true.mp List.all_takeWhile
  have hsplit : ∀ ds : List Char, ds.takeWhile isBlank ++ dropBlank ds = ds :=
    fun _ => List.takeWhile_append_dropWhile
  have hright : dropBlank cs =
      trimChars cs ++ ((dropBlank cs).reverse.takeWhile isBlank).reverse := by
    rw [trimChars, dropBlankRight, ← List.reverse_append, hsplit, List.reverse_reverse]
  refine ⟨cs.takeWhile isBlank, ((dropBlank cs).reverse.takeWhile isBlank).reverse, ?_, htaken cs,
    ?_, ?_⟩
  · rw [← hright, hsplit]
  · exact fun c hc => htaken _ c (List.mem_reverse.mp hc)
  · intro c hc
    refine isBlank_head?_dropBlank cs c ?_
    rw [hright, List.head?_append, Option.mem_def.mp hc]
    rfl

theorem all_dropBlank (cs : List Char) : (dropBlank cs).all isBlank = cs.all isBlank := by
  have htaken : (cs.takeWhile isBlank).all isBlank = true := List.all_takeWhile
  calc (dropBlank cs).all isBlank
    _ = ((cs.takeWhile isBlank).all isBlank && (dropBlank cs).all isBlank) := by
      rw [htaken, Bool.true_and]
    _ = cs.all isBlank := by
      rw [← List.all_append, dropBlank, List.takeWhile_append_dropWhile]

theorem all_trimChars (cs : List Char) : (trimChars cs).all isBlank = cs.all isBlank := by
  rw [trimChars, dropBlankRight, List.all_reverse, all_dropBlank, List.all_reverse, all_dropBlank]

theorem trimChars_eq_nil_iff {cs : List Char} : trimChars cs = [] ↔ cs.all isBlank = true := by
  refine ⟨fun h => ?_, fun h => ?_⟩
  · rw [← all_trimChars, h, List.all_nil]
  · have hdrop : dropBlank cs = [] := List.dropWhile_eq_nil_iff.mpr (List.all_eq_true.mp h)
    rw [trimChars, hdrop]
    rfl

/-- Trimming leaves something of every text that is not blank. -/
@[simp]
theorem isAllBlank_trim (s : String) : isAllBlank (trim s) = isAllBlank s := by
  rw [isAllBlank, isAllBlank, trim, String.toList_ofList, all_trimChars]

@[simp]
theorem isEmpty_trim (s : String) : (trim s).isEmpty = isAllBlank s := by
  rw [Bool.eq_iff_iff, String.isEmpty_iff, trim, isAllBlank, ← trimChars_eq_nil_iff,
    String.ofList_eq_empty_iff]

/-! ### Lines -/

section Lines

variable {as : List Char}

/-- The lines of a text are its first line and those after it. A carriage return at the end of a
line is no part of it. -/
theorem exists_lines_append (h : '\n' ∉ as) (bs : List Char) :
    ∃ l returns, as = l ++ returns ∧ (∀ c ∈ returns, isBlank c = true) ∧
      lines (as ++ '\n' :: bs) = l :: lines bs := by
  induction as with
  | nil => exact ⟨[], [], rfl, fun _ hc => absurd hc List.not_mem_nil, rfl⟩
  | cons a as ih =>
    obtain ⟨ha, has⟩ := not_or.mp (mt List.mem_cons.mpr h)
    obtain ⟨l, returns, rfl, hreturns, hlines⟩ := ih has
    -- A carriage return goes away only where the line ends right behind it.
    by_cases hend : a = '\r' ∧ l ++ returns = []
    · obtain ⟨rfl, hnil⟩ := hend
      obtain ⟨rfl, rfl⟩ := List.append_eq_nil_iff.mp hnil
      exact ⟨[], ['\r'], rfl, List.forall_mem_singleton.mpr (by decide), rfl⟩
    · refine ⟨a :: l, returns, rfl, hreturns, ?_⟩
      rw [List.cons_append, lines, hlines]
      · rintro rfl
        exact ha rfl
      · rintro rest rfl hrest
        refine hend ⟨rfl, ?_⟩
        by_contra hne
        obtain ⟨b, tail, heq⟩ := List.exists_cons_of_ne_nil hne
        rw [heq, List.cons_append] at hrest
        rw [heq, (List.cons.inj hrest).1] at has
        exact has List.mem_cons_self

/-- No line feed is in a line. -/
theorem notMem_of_mem_lines (cs : List Char) : ∀ l ∈ lines cs, '\n' ∉ l := by
  fun_induction lines cs with
  | case1 => exact List.forall_mem_nil _
  | case2 cs ih | case3 cs ih => exact List.forall_mem_cons.mpr ⟨List.not_mem_nil, ih⟩
  | case4 x cs hx => exact List.forall_mem_singleton.mpr (by simpa using fun h => hx h.symm)
  | case5 x cs hx _ l ls hlines ih =>
    rw [hlines] at ih
    obtain ⟨hl, hls⟩ := List.forall_mem_cons.mp ih
    exact List.forall_mem_cons.mpr ⟨by simpa [hl] using fun h => hx h.symm, hls⟩

/-- A text that no line feed is in is one line, unless it is empty. -/
theorem lines_of_notMem (h : '\n' ∉ as) : lines as = if as = [] then [] else [as] := by
  induction as with
  | nil => rfl
  | cons a as ih =>
    obtain ⟨ha, has⟩ := not_or.mp (mt List.mem_cons.mpr h)
    rw [if_neg (List.cons_ne_nil _ _), lines, ih has]
    · rcases as with _ | ⟨b, as⟩ <;> rfl
    · rintro rfl
      exact ha rfl
    · rintro rest rfl rfl
      exact has List.mem_cons_self

end Lines

end Dossier.Text
