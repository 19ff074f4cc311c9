import Dossier.Proofs.Text.Blank
import Dossier.Source.CodeLines

/-!
# Comments

What a comment is is said by a reading of the whole text from left to right
(`Dossier.Comments.read`): outside comments, a line mark begins one to the end of the line and an
opening mark one up to the next closing mark, and within a comment no other mark has a meaning. The
lines of code are those that have something left in them besides blanks once the comments are taken
away (`Dossier.Comments.codeLines`).

A mark has no blanks in it, so it does not go on from one line to the next, and the text can be read
line by line with no more than the news whether a block comment is open
(`Dossier.Comments.countP_lines_kept`).
-/

namespace Dossier

/-! ### The marks of comments -/

/-- **Whether a text can be a mark**: there is something of it, and no blanks. -/
structure Text.IsMark (m : List Char) : Prop where
  ne_nil : m ≠ []
  notBlank : ∀ c ∈ m, Text.isBlank c = false

/-- **Whether comments are written with marks.** -/
structure CommentSyntax.Solid (c : CommentSyntax) : Prop where
  line : Text.IsMark c.lineMark.toList
  opener : ∀ {opener closer}, c.block = some (opener, closer) → Text.IsMark opener.toList
  closer : ∀ {opener closer}, c.block = some (opener, closer) → Text.IsMark closer.toList

theorem Text.IsMark.notMem {m : List Char} (hm : Text.IsMark m) {x : Char}
    (hx : Text.isBlank x = true) : x ∉ m :=
  fun hmem => Bool.false_ne_true ((hm.notBlank x hmem).symm.trans hx)

/-- The marks of all languages are marks. -/
theorem Language.solid_comments (l : Language) : l.comments.Solid := by
  have hash : Text.IsMark "#".toList := ⟨by decide, by simp; decide⟩
  have slashes : Text.IsMark "//".toList := ⟨by decide, by simp; decide⟩
  have opener : Text.IsMark "/*".toList := ⟨by decide, by simp; decide⟩
  have closer : Text.IsMark "*/".toList := ⟨by decide, by simp; decide⟩
  cases l with
  | python => exact ⟨hash, nofun, nofun⟩
  | go | java | rust =>
    refine ⟨slashes, fun h => ?_, fun h => ?_⟩ <;>
      obtain ⟨rfl, rfl⟩ := Prod.mk.inj (Option.some.inj h)
    · exact opener
    · exact closer

/-- What is found on the lines of a text, one after the other, given what is found on a line if a
block comment is open at its start, and if not. -/
def CodeLines.findings (line : Bool → List Char → Finding) : Bool → List (List Char) → List Finding
  | _, [] => []
  | b, l :: ls => line b l :: findings line (line b l).inBlock ls

namespace Comments

/-- What a character of a text belongs to. -/
inductive Mode where
  | code
  /-- A comment to the end of the line. -/
  | line
  /-- A comment up to a closing mark. -/
  | block
deriving DecidableEq, Repr

/-- The mark that stands at the head of a text and has a meaning there: what comes after it, and how
long it is. -/
def mark? (c : CommentSyntax) (mode : Mode) (cs : List Char) : Option (Mode × Nat) :=
  match mode, c.block with
  | .code, some (opener, _) =>
    if Text.startsWith c.lineMark.toList cs then some (.line, c.lineMark.toList.length)
    else if Text.startsWith opener.toList cs then some (.block, opener.toList.length)
    else none
  | .code, none =>
    if Text.startsWith c.lineMark.toList cs then some (.line, c.lineMark.toList.length) else none
  | .block, some (_, closer) =>
    if Text.startsWith closer.toList cs then some (.code, closer.toList.length) else none
  | .block, none | .line, _ => none

/-- What is read of a text: the characters outside comments and the ends of lines, and what the text
after it belongs to. -/
structure Reading where
  kept : List Char
  mode : Mode
deriving DecidableEq, Repr

/-- **Reading a text from left to right**, given how many characters belong to the last mark. -/
def read (c : CommentSyntax) : Nat → Mode → List Char → Reading
  | _, mode, [] => ⟨[], mode⟩
  | n + 1, mode, _ :: cs => read c n mode cs
  | 0, mode, x :: cs =>
    match mark? c mode (x :: cs) with
    | some (next, n) => read c (n - 1) next cs
    | none =>
      let next := if mode = .line ∧ x = '\n' then .code else mode
      let rest := read c 0 next cs
      if mode = .code ∨ x = '\n' then { rest with kept := x :: rest.kept } else rest

/-- **The number of lines of code**: those that are not blank without their comments. -/
def codeLines (c : CommentSyntax) (text : String) : Nat :=
  (Text.lines (read c 0 .code text.toList).kept).countP fun l => !l.all Text.isBlank

/-- The first mark in code: what stands before it, what begins with it, and what comes after it. -/
def nextMark? (c : CommentSyntax) : List Char → Option (List Char × Mode × List Char)
  | [] => none
  | x :: cs =>
    match mark? c .code (x :: cs) with
    | some (mode, n) => some ([], mode, (x :: cs).drop n)
    | none => (nextMark? c cs).map fun r => (x :: r.1, r.2)

/-- Whether something is left besides blanks, and whether a block comment is open at the end. -/
def Reading.finding (r : Reading) : CodeLines.Finding :=
  ⟨!r.kept.all Text.isBlank, r.mode = .block⟩

/-- **What a line holds**, given whether a block comment is open at its start. -/
def line (c : CommentSyntax) (inBlock : Bool) (cs : List Char) : CodeLines.Finding :=
  (read c 0 (if inBlock then .block else .code) cs).finding

/-! ### Marks and what stands around them -/

section Marks

variable {c : CommentSyntax} {opener closer : String} {mode : Mode} {cs blanks rest : List Char}

theorem mark?_nil (hc : c.Solid) : mark? c mode [] = none := by
  have hstarts : ∀ {m : List Char}, Text.IsMark m → Text.startsWith m [] = false := by
    intro m hm
    obtain ⟨x, m, rfl⟩ := List.exists_cons_of_ne_nil hm.ne_nil
    rfl
  rcases hblock : c.block with _ | ⟨opener, closer⟩
  · cases mode <;> simp only [mark?.eq_def, hblock, hstarts hc.line, if_neg Bool.false_ne_true]
  · cases mode <;>
      simp only [mark?.eq_def, hblock, hstarts hc.line, hstarts (hc.opener hblock),
        hstarts (hc.closer hblock), if_neg Bool.false_ne_true]

/-- Marks do not reach into what begins with a blank. -/
theorem mark?_append (hc : c.Solid) (h : ∀ y ∈ blanks.head?, Text.isBlank y = true)
    (cs : List Char) : mark? c mode (cs ++ blanks) = mark? c mode cs := by
  have hstarts : ∀ {m : List Char}, Text.IsMark m →
      Text.startsWith m (cs ++ blanks) = Text.startsWith m cs :=
    fun hm => Text.startsWith_append_of_head? (fun y hy => hm.notMem (h y hy)) cs
  rcases hblock : c.block with _ | ⟨opener, closer⟩
  · cases mode <;> simp only [mark?.eq_def, hblock, hstarts hc.line]
  · cases mode <;>
      simp only [mark?.eq_def, hblock, hstarts hc.line, hstarts (hc.opener hblock),
        hstarts (hc.closer hblock)]

theorem mark?_cons_of_isBlank (hc : c.Solid) {x : Char} (hx : Text.isBlank x = true) :
    mark? c mode (x :: cs) = none :=
  (mark?_append hc (by simpa using hx) []).trans (mark?_nil hc)

/-- What is taken for a mark is one. -/
theorem exists_isMark_of_mark? (hc : c.Solid) {next : Mode} {n : Nat}
    (h : mark? c mode cs = some (next, n)) :
    next ≠ mode ∧ ∃ m, Text.IsMark m ∧ m.length = n ∧ Text.startsWith m cs = true := by
  have hmark : ∀ {m : List Char} {next' : Mode}, Text.IsMark m → next' ≠ mode →
      (if Text.startsWith m cs then some (next', m.length) else none) = some (next, n) →
      next ≠ mode ∧ ∃ m, Text.IsMark m ∧ m.length = n ∧ Text.startsWith m cs = true := by
    intro m next' hm hnext h
    split at h
    · next hstarts =>
      obtain ⟨rfl, hlength⟩ := Prod.mk.inj (Option.some.inj h)
      exact ⟨hnext, m, hm, hlength, hstarts⟩
    · cases h
  rcases hblock : c.block with _ | ⟨opener, closer⟩ <;> cases mode <;>
    simp only [mark?.eq_def, hblock, reduceCtorEq] at h
  · exact hmark hc.line (by decide) h
  · by_cases hline : Text.startsWith c.lineMark.toList cs = true
    · rw [if_pos hline] at h
      exact hmark hc.line (by decide) ((if_pos hline).trans h)
    · rw [if_neg hline] at h
      exact hmark (hc.opener hblock) (by decide) h
  · exact hmark (hc.closer hblock) (by decide) h

theorem length_le_of_mark? (hc : c.Solid) {next : Mode} {n : Nat}
    (h : mark? c mode cs = some (next, n)) : n ≤ cs.length := by
  obtain ⟨-, m, -, rfl, hstarts⟩ := exists_isMark_of_mark? hc h
  exact Text.length_le_of_startsWith hstarts

theorem pos_of_mark? (hc : c.Solid) {next : Mode} {n : Nat}
    (h : mark? c mode cs = some (next, n)) : 0 < n := by
  obtain ⟨-, m, hm, rfl, -⟩ := exists_isMark_of_mark? hc h
  exact List.length_pos_of_ne_nil hm.ne_nil

theorem mark?_code_of_line (h : Text.startsWith c.lineMark.toList cs = true) :
    mark? c .code cs = some (.line, c.lineMark.toList.length) := by
  rcases hblock : c.block with _ | ⟨opener, closer⟩ <;> simp only [mark?.eq_def, hblock, if_pos h]

/-- In code, an opening mark has a meaning where no line mark stands. -/
theorem mark?_code_of_opener (hblock : c.block = some (opener, closer))
    (hline : Text.startsWith c.lineMark.toList cs = false) :
    mark? c .code cs =
      (Text.dropPrefix? opener.toList cs).map fun _ => (.block, opener.toList.length) := by
  simp only [mark?.eq_def, hblock, hline, if_neg Bool.false_ne_true]
  rw [Text.startsWith]
  cases Text.dropPrefix? opener.toList cs <;> rfl

theorem mark?_code_of_none (hblock : c.block = none)
    (hline : Text.startsWith c.lineMark.toList cs = false) : mark? c .code cs = none := by
  simp only [mark?.eq_def, hblock, hline, if_neg Bool.false_ne_true]

theorem mark?_block (hblock : c.block = some (opener, closer)) (cs : List Char) :
    mark? c .block cs =
      (Text.dropPrefix? closer.toList cs).map fun _ => (.code, closer.toList.length) := by
  simp only [mark?.eq_def, hblock]
  rw [Text.startsWith]
  cases Text.dropPrefix? closer.toList cs <;> rfl

theorem mark?_line (c : CommentSyntax) (cs : List Char) : mark? c .line cs = none :=
  rfl

end Marks

/-! ### The first mark in code -/

section NextMark

variable {c : CommentSyntax} {opener closer : String} {cs as blanks rest : List Char} {mode : Mode}

/-- Blanks before a text stand before its first mark. -/
theorem nextMark?_append_left (hc : c.Solid) (h : ∀ y ∈ blanks, Text.isBlank y = true)
    (cs : List Char) :
    nextMark? c (blanks ++ cs) = (nextMark? c cs).map fun r => (blanks ++ r.1, r.2) := by
  induction blanks with
  | nil => exact Option.map_id'.symm
  | cons b blanks ih =>
    obtain ⟨hb, hblanks⟩ := List.forall_mem_cons.mp h
    rw [List.cons_append, nextMark?, mark?_cons_of_isBlank hc hb, ih hblanks, Option.map_map]
    rfl

/-- A mark in code begins a comment. -/
theorem mode_of_mark? {n : Nat} (h : mark? c .code cs = some (mode, n)) :
    mode = .line ∨ mode = .block ∧ c.block.isSome = true := by
  by_cases hline : Text.startsWith c.lineMark.toList cs = true
  · rw [mark?_code_of_line hline] at h
    exact .inl (Prod.mk.inj (Option.some.inj h)).1.symm
  · rw [Bool.not_eq_true] at hline
    rcases hblock : c.block with _ | ⟨opener, closer⟩
    · rw [mark?_code_of_none hblock hline] at h
      cases h
    · rw [mark?_code_of_opener hblock hline] at h
      obtain ⟨-, -, heq⟩ := Option.map_eq_some_iff.mp h
      exact .inr ⟨(Prod.mk.inj heq).1.symm, rfl⟩

theorem mode_of_nextMark? (h : nextMark? c cs = some (as, mode, rest)) :
    mode = .line ∨ mode = .block ∧ c.block.isSome = true := by
  induction cs generalizing as with
  | nil => cases h
  | cons x cs ih =>
    rw [nextMark?] at h
    rcases hmark : mark? c .code (x :: cs) with _ | ⟨next, n⟩ <;> rw [hmark] at h
    · obtain ⟨⟨before, next⟩, hnext, heq⟩ := Option.map_eq_some_iff.mp h
      obtain ⟨-, rfl⟩ := Prod.mk.inj heq
      exact ih hnext
    · obtain ⟨-, heq⟩ := Prod.mk.inj (Option.some.inj h)
      obtain ⟨rfl, -⟩ := Prod.mk.inj heq
      exact mode_of_mark? hmark

/-- A text is what stands before its first mark, the mark, and what comes after it. -/
theorem eq_append_of_nextMark? (hc : c.Solid) (h : nextMark? c cs = some (as, mode, rest)) :
    ∃ m, Text.IsMark m ∧ cs = as ++ m ++ rest := by
  induction cs generalizing as with
  | nil => cases h
  | cons x cs ih =>
    rw [nextMark?] at h
    rcases hmark : mark? c .code (x :: cs) with _ | ⟨next, n⟩ <;> rw [hmark] at h
    · obtain ⟨⟨before, next⟩, hnext, heq⟩ := Option.map_eq_some_iff.mp h
      obtain ⟨rfl, hpair⟩ := Prod.mk.inj heq
      obtain ⟨m, hm, rfl⟩ := ih (hnext.trans (congrArg (fun r => some (before, r)) hpair))
      exact ⟨m, hm, rfl⟩
    · obtain ⟨rfl, heq⟩ := Prod.mk.inj (Option.some.inj h)
      obtain ⟨rfl, rfl⟩ := Prod.mk.inj heq
      obtain ⟨-, m, hm, rfl, hstarts⟩ := exists_isMark_of_mark? hc hmark
      obtain ⟨rest, hdrop⟩ := Option.isSome_iff_exists.mp hstarts
      rw [Text.drop_of_dropPrefix? hdrop]
      exact ⟨m, hm, Text.eq_append_of_dropPrefix? hdrop⟩

theorem nextMark?_of_mark? (hc : c.Solid) {n : Nat} (h : mark? c .code cs = some (mode, n)) :
    nextMark? c cs = some ([], mode, cs.drop n) := by
  rcases cs with _ | ⟨x, cs⟩
  · rw [mark?_nil hc] at h
    cases h
  · rw [nextMark?, h]

/-- **The first opening mark** of a text has a meaning if it is the first mark of all. -/
theorem cut?_opener (hc : c.Solid) (hblock : c.block = some (opener, closer)) (cs : List Char)
    (h : ∀ as rest, nextMark? c cs ≠ some (as, .line, rest)) :
    Text.cut? opener.toList cs = (nextMark? c cs).map fun r => (r.1, r.2.2) := by
  have hne := (hc.opener hblock).ne_nil
  induction cs with
  | nil => exact Text.cut?_of_notMem (List.forall_mem_nil _) hne
  | cons x cs ih =>
    have hline : Text.startsWith c.lineMark.toList (x :: cs) = false := by
      by_contra hline
      refine h [] ((x :: cs).drop c.lineMark.toList.length) ?_
      rw [nextMark?, mark?_code_of_line (Bool.of_not_eq_false hline)]
    rw [nextMark?, mark?_code_of_opener hblock hline] at h ⊢
    rw [Text.cut?]
    rcases hdrop : Text.dropPrefix? opener.toList (x :: cs) with _ | rest <;> rw [hdrop] at h
    · have htail : ∀ as rest, nextMark? c cs ≠ some (as, .line, rest) := by
        intro as rest hnext
        refine h (x :: as) rest ?_
        rw [hnext]
        rfl
      dsimp only
      rw [ih htail]
      rcases nextMark? c cs with _ | r <;> rfl
    · rw [← Text.drop_of_dropPrefix? hdrop]
      rfl

end NextMark

/-! ### Reading -/

section Read

variable {c : CommentSyntax} {opener closer : String} {cs as bs blanks rest : List Char}
  {mode : Mode}

/-- The rest of a mark is passed over. -/
theorem read_skip (n : Nat) (mode : Mode) (cs : List Char) :
    read c n mode cs = read c 0 mode (cs.drop n) := by
  induction cs generalizing n with
  | nil => rw [List.drop_nil, read, read]
  | cons x cs ih =>
    rcases n with _ | n
    · rfl
    · exact ih n

/-- **A text is read up to a blank and from there on.** -/
theorem read_append (hc : c.Solid) (hbs : ∀ y ∈ bs.head?, Text.isBlank y = true) {n : Nat}
    (hn : n ≤ cs.length) :
    read c n mode (cs ++ bs) =
      ⟨(read c n mode cs).kept ++ (read c 0 (read c n mode cs).mode bs).kept,
        (read c 0 (read c n mode cs).mode bs).mode⟩ := by
  induction cs generalizing n mode with
  | nil =>
    obtain rfl := Nat.le_zero.mp hn
    simp only [read, List.nil_append]
  | cons x cs ih =>
    rcases n with _ | n
    · have hmark : mark? c mode (x :: cs ++ bs) = mark? c mode (x :: cs) :=
        mark?_append hc hbs _
      rw [List.cons_append] at hmark
      rw [List.cons_append, read, read, hmark]
      rcases hnext : mark? c mode (x :: cs) with _ | ⟨next, n⟩
      · dsimp only
        rw [ih (Nat.zero_le _)]
        split <;> rfl
      · have hle := length_le_of_mark? hc hnext
        exact ih (Nat.sub_le_of_le_add hle)
    · exact ih (Nat.le_of_succ_le_succ hn)

/-- The end of a line is kept, and it ends the comments that go no further. -/
theorem read_end (hc : c.Solid) (mode : Mode) (cs : List Char) :
    read c 0 mode ('\n' :: cs) =
      ⟨'\n' :: (read c 0 (if mode = .block then .block else .code) cs).kept,
        (read c 0 (if mode = .block then .block else .code) cs).mode⟩ := by
  rw [read, mark?_cons_of_isBlank hc (by decide)]
  dsimp only
  rw [if_pos (Or.inr rfl)]
  cases mode <;> rfl

/-- What is kept is of the text. -/
theorem mem_of_mem_kept {x : Char} {n : Nat} (h : x ∈ (read c n mode cs).kept) : x ∈ cs := by
  induction cs generalizing n mode with
  | nil =>
    rw [read] at h
    exact h
  | cons y cs ih =>
    rcases n with _ | n
    · rw [read] at h
      split at h
      · exact List.mem_cons_of_mem y (ih h)
      · dsimp only at h
        split at h
        · obtain rfl | h := List.mem_cons.mp h
          · exact List.mem_cons_self
          · exact List.mem_cons_of_mem y (ih h)
        · exact List.mem_cons_of_mem y (ih h)
    · exact List.mem_cons_of_mem y (ih h)

theorem read_line (h : '\n' ∉ cs) : read c 0 .line cs = ⟨[], .line⟩ := by
  induction cs with
  | nil => rfl
  | cons x cs ih =>
    obtain ⟨hx, hcs⟩ := not_or.mp (mt List.mem_cons.mpr h)
    rw [read, mark?_line, if_neg (by simp [Ne.symm hx]), if_neg (by simp [Ne.symm hx])]
    exact ih hcs

/-- A mark is passed over, and what comes after it is of its kind. -/
theorem read_of_mark? (hc : c.Solid) {next : Mode} {n : Nat}
    (h : mark? c mode cs = some (next, n)) : read c 0 mode cs = read c 0 next (cs.drop n) := by
  rcases cs with _ | ⟨x, cs⟩
  · rw [mark?_nil hc] at h
    cases h
  · obtain ⟨n, rfl⟩ := Nat.exists_eq_add_of_lt (pos_of_mark? hc h)
    rw [read, h, List.drop]
    exact read_skip _ next cs

/-- A block comment goes up to the next closing mark. -/
theorem read_block (hc : c.Solid) (hblock : c.block = some (opener, closer)) (h : '\n' ∉ cs) :
    read c 0 .block cs =
      match Text.cut? closer.toList cs with
      | some (_, rest) => read c 0 .code rest
      | none => ⟨[], .block⟩ := by
  have hne := (hc.closer hblock).ne_nil
  induction cs with
  | nil =>
    rw [Text.cut?_of_notMem (List.forall_mem_nil _) hne]
    rfl
  | cons x cs ih =>
    obtain ⟨hx, hcs⟩ := not_or.mp (mt List.mem_cons.mpr h)
    rw [Text.cut?]
    have hmark := mark?_block hblock (x :: cs)
    rcases hdrop : Text.dropPrefix? closer.toList (x :: cs) with _ | rest
    · rw [hdrop, Option.map_none] at hmark
      rw [read, hmark, if_neg (by simp [Ne.symm hx]), if_neg (by simp)]
      dsimp only
      rw [ih hcs]
      rcases Text.cut? closer.toList cs with _ | r <;> rfl
    · rw [hdrop, Option.map_some] at hmark
      rw [read_of_mark? hc hmark, Text.drop_of_dropPrefix? hdrop]

/-- Code goes up to the first mark. -/
theorem read_code (hc : c.Solid) (cs : List Char) :
    read c 0 .code cs =
      match nextMark? c cs with
      | some (as, mode, rest) => ⟨as ++ (read c 0 mode rest).kept, (read c 0 mode rest).mode⟩
      | none => ⟨cs, .code⟩ := by
  induction cs with
  | nil => rfl
  | cons x cs ih =>
    rw [nextMark?]
    rcases hmark : mark? c .code (x :: cs) with _ | ⟨mode, n⟩
    · rw [read, hmark]
      dsimp only
      rw [if_pos (Or.inl rfl), if_neg (by simp), ih]
      rcases nextMark? c cs with _ | r <;> rfl
    · rw [read_of_mark? hc hmark]
      rfl

theorem finding_append_left (h : ∀ y ∈ blanks, Text.isBlank y = true) (r : Reading) :
    (Reading.mk (blanks ++ r.kept) r.mode).finding = r.finding := by
  rw [Reading.finding, List.all_append, List.all_eq_true.mpr h, Bool.true_and, Reading.finding]

theorem finding_append_right (h : ∀ y ∈ blanks, Text.isBlank y = true) (r : Reading) :
    (Reading.mk (r.kept ++ blanks) r.mode).finding = r.finding := by
  rw [Reading.finding, List.all_append, List.all_eq_true.mpr h, Bool.and_true, Reading.finding]

/-- Blanks that end no line are read as blanks. -/
theorem exists_read_blanks (hc : c.Solid) (h : ∀ y ∈ blanks, Text.isBlank y = true)
    (hend : '\n' ∉ blanks) (mode : Mode) :
    ∃ kept, (∀ y ∈ kept, Text.isBlank y = true) ∧ ∀ cs, read c 0 mode (blanks ++ cs) =
      ⟨kept ++ (read c 0 mode cs).kept, (read c 0 mode cs).mode⟩ := by
  induction blanks with
  | nil => exact ⟨[], List.forall_mem_nil _, fun _ => rfl⟩
  | cons x blanks ih =>
    obtain ⟨hx, hblanks⟩ := List.forall_mem_cons.mp h
    obtain ⟨hxend, hend⟩ := not_or.mp (mt List.mem_cons.mpr hend)
    obtain ⟨kept, hkept, hread⟩ := ih hblanks hend
    by_cases hmode : mode = .code
    · refine ⟨x :: kept, List.forall_mem_cons.mpr ⟨hx, hkept⟩, fun cs => ?_⟩
      rw [List.cons_append, read, mark?_cons_of_isBlank hc hx]
      dsimp only
      rw [if_pos (Or.inl hmode), if_neg (by simp [Ne.symm hxend]), hread]
      rfl
    · refine ⟨kept, hkept, fun cs => ?_⟩
      rw [List.cons_append, read, mark?_cons_of_isBlank hc hx]
      dsimp only
      rw [if_neg (not_or.mpr ⟨hmode, Ne.symm hxend⟩), if_neg (by simp [Ne.symm hxend]), hread]

end Read

/-! ### Reading a line -/

section Line

variable {c : CommentSyntax} {opener closer : String} {cs as blanks rest : List Char} {b : Bool}

theorem line_append_left (hc : c.Solid) (h : ∀ y ∈ blanks, Text.isBlank y = true)
    (hend : '\n' ∉ blanks) (cs : List Char) : line c b (blanks ++ cs) = line c b cs := by
  obtain ⟨kept, hkept, hread⟩ := exists_read_blanks hc h hend (if b then .block else .code)
  rw [line, hread, finding_append_left hkept, line]

theorem line_append_right (hc : c.Solid) (h : ∀ y ∈ blanks, Text.isBlank y = true)
    (hend : '\n' ∉ blanks) (cs : List Char) : line c b (cs ++ blanks) = line c b cs := by
  rw [line, read_append hc (fun y hy => h y (List.mem_of_mem_head? hy)) (Nat.zero_le _)]
  generalize hr : read c 0 (if b then Mode.block else Mode.code) cs = r
  obtain ⟨kept, hkept, hread⟩ := exists_read_blanks hc h hend r.mode
  have hblanks : read c 0 r.mode blanks = ⟨kept, r.mode⟩ := by
    have hnil := hread []
    rwa [List.append_nil, read, List.append_nil] at hnil
  rw [hblanks, finding_append_right hkept, line, hr]

theorem line_true_of_cut? (hc : c.Solid) (hblock : c.block = some (opener, closer))
    (hend : '\n' ∉ cs) (h : Text.cut? closer.toList cs = some (as, rest)) :
    line c true cs = line c false rest := by
  rw [line, if_pos rfl, read_block hc hblock hend, h]
  rfl

theorem line_true_of_none (hc : c.Solid) (hblock : c.block = some (opener, closer))
    (hend : '\n' ∉ cs) (h : Text.cut? closer.toList cs = none) :
    line c true cs = ⟨false, true⟩ := by
  rw [line, if_pos rfl, read_block hc hblock hend, h]
  rfl

theorem line_false_of_none (hc : c.Solid) (h : nextMark? c cs = none) :
    line c false cs = ⟨!cs.all Text.isBlank, false⟩ := by
  rw [line, if_neg Bool.false_ne_true, read_code hc, h]
  rfl

theorem line_false_of_line (hc : c.Solid) (hend : '\n' ∉ cs)
    (h : nextMark? c cs = some (as, .line, rest)) :
    line c false cs = ⟨!as.all Text.isBlank, false⟩ := by
  obtain ⟨m, -, rfl⟩ := eq_append_of_nextMark? hc h
  rw [line, if_neg Bool.false_ne_true, read_code hc, h]
  dsimp only
  rw [read_line (fun hrest => hend (List.mem_append_right _ hrest)), List.append_nil]
  rfl

theorem line_false_of_block (hc : c.Solid) (h : nextMark? c cs = some (as, .block, rest)) :
    line c false cs =
      ⟨!as.all Text.isBlank || (line c true rest).hasCode, (line c true rest).inBlock⟩ := by
  rw [line, if_neg Bool.false_ne_true, read_code hc, h]
  dsimp only [Reading.finding]
  rw [List.all_append, Bool.not_and]
  rfl

end Line

/-! ### Whole texts -/

section Findings

variable {c : CommentSyntax} {cs : List Char} {b : Bool}

/-- A block comment can only be open where there are block comments. -/
theorem isSome_block_of_inBlock (hc : c.Solid) (hend : '\n' ∉ cs)
    (hb : b = true → c.block.isSome = true) (h : (line c b cs).inBlock = true) :
    c.block.isSome = true := by
  rcases b with _ | _
  · rcases hfirst : nextMark? c cs with _ | ⟨as, mode, rest⟩
    · rw [line_false_of_none hc hfirst] at h
      cases h
    · obtain rfl | ⟨-, hblock⟩ := mode_of_nextMark? hfirst
      · rw [line_false_of_line hc hend hfirst] at h
        cases h
      · exact hblock
  · exact hb rfl

/-- The first line of what is kept of a text is what is kept of its first line. -/
theorem exists_lines_kept (hc : c.Solid) (b : Bool) {as : List Char} (hend : '\n' ∉ as)
    (bs : List Char) :
    ∃ l, Text.lines (read c 0 (if b then .block else .code) (as ++ '\n' :: bs)).kept =
        l :: Text.lines (read c 0 (if (line c b as).inBlock then .block else .code) bs).kept ∧
      (!l.all Text.isBlank) = (line c b as).hasCode := by
  have hfeed : ∀ y ∈ ('\n' :: bs).head?, Text.isBlank y = true :=
    fun y hy => Option.some.inj hy ▸ by decide
  have hkept : '\n' ∉ (read c 0 (if b then .block else .code) as).kept :=
    fun hmem => hend (mem_of_mem_kept hmem)
  rw [read_append hc hfeed (Nat.zero_le as.length), read_end hc, line]
  generalize read c 0 (if b then .block else .code) as = first at hkept ⊢
  obtain ⟨l, returns, hfirst, hreturns, hlines⟩ := Text.exists_lines_append hkept
    (read c 0 (if first.mode = .block then .block else .code) bs).kept
  refine ⟨l, ?_, ?_⟩
  · simp only [Reading.finding, decide_eq_true_eq]
    exact hlines
  · rw [Reading.finding, hfirst, List.all_append, List.all_eq_true.mpr hreturns, Bool.and_true]

/-- **What a whole text holds** is what its lines hold, one after the other. -/
theorem countP_lines_kept (hc : c.Solid) (b : Bool) (cs : List Char) :
    (Text.lines (read c 0 (if b then .block else .code) cs).kept).countP
        (fun l => !l.all Text.isBlank) =
      (CodeLines.findings (line c) b (Text.lines cs)).countP (·.hasCode) := by
  induction hlength : cs.length using Nat.strong_induction_on generalizing b cs with
  | _ length ih =>
  -- The first line is read up to its end, and the rest from the state it leaves.
  by_cases hfeed : '\n' ∈ cs
  · obtain ⟨as, bs, rfl, hend⟩ := List.eq_append_cons_of_mem hfeed
    obtain ⟨l', hkept, hcode⟩ := exists_lines_kept hc b hend bs
    obtain ⟨l, returns, rfl, hreturns, hlines⟩ := Text.exists_lines_append hend bs
    rw [List.mem_append, not_or] at hend
    rw [List.length_append, List.length_cons] at hlength
    rw [line_append_right hc hreturns hend.2] at hkept hcode
    rw [hkept, hlines, CodeLines.findings, List.countP_cons, List.countP_cons, hcode,
      ih bs.length (by omega) (line c b l).inBlock bs rfl]
  · have hkept : '\n' ∉ (read c 0 (if b then .block else .code) cs).kept :=
      fun hmem => hfeed (mem_of_mem_kept hmem)
    rw [Text.lines_of_notMem hfeed, Text.lines_of_notMem hkept]
    rcases cs with _ | ⟨x, cs⟩
    · rfl
    · rw [if_neg (List.cons_ne_nil x cs), CodeLines.findings, CodeLines.findings, line,
        List.countP_singleton]
      generalize read c 0 (if b then .block else .code) (x :: cs) = r
      rw [Reading.finding]
      by_cases hnil : r.kept = []
      · rw [if_pos hnil, hnil]
        rfl
      · rw [if_neg hnil, List.countP_singleton]

end Findings

end Comments

end Dossier
