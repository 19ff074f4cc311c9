import Dossier.Proofs.Source.Comments

/-!
# The count of the lines of code

The count is made line by line, and it looks for a line mark only where no code has been seen since
the line began or the last comment ended. Behind code, a line mark does not keep an opening mark
after it from being taken for one. So a line with a comment behind code that mentions an opening
mark can *mislead* the count (`Dossier.Comments.Misleads`): the line itself is counted, as it should
be, but the lines after it are taken to be in a comment. This is the only way in which the count
goes wrong (`Dossier.CodeLines.findings_eq_iff`).
-/

namespace Dossier

namespace Comments

/-! ### Lines that mislead the count -/

/-- **Whether an opening mark in a comment behind code is taken for one.** The comment goes to the
end of the line, and `rest` comes after the mark. -/
def Hides (c : CommentSyntax) (cs rest : List Char) : Prop :=
  ∃ opener closer before code comment, c.block = some (opener, closer) ∧
    nextMark? c cs = some (code, .line, comment) ∧ code.all Text.isBlank = false ∧
    Text.cut? opener.toList cs = some (before, rest)

/-- **Whether a line misleads the count**, given whether a block comment is open at its start: an
opening mark is found in a comment behind code, and no closing mark after it, or if there is one,
then the rest of the comment misleads the count again. -/
inductive Misleads (c : CommentSyntax) : Bool → List Char → Prop
  | comment {cs rest : List Char} :
    Hides c cs rest → (line c true rest).inBlock = true → Misleads c false cs
  | again {cs rest : List Char} : Hides c cs rest → Misleads c true rest → Misleads c false cs
  | opened {cs code rest : List Char} :
    nextMark? c cs = some (code, .block, rest) → Misleads c true rest → Misleads c false cs
  | closed {opener closer : String} {cs comment rest : List Char} :
    c.block = some (opener, closer) → Text.cut? closer.toList cs = some (comment, rest) →
      Misleads c false rest → Misleads c true cs

section Misleads

variable {c : CommentSyntax} {opener closer : String} {cs as blanks rest : List Char} {b : Bool}

theorem misleads_true_iff (hblock : c.block = some (opener, closer)) :
    Misleads c true cs ↔
      ∃ as rest, Text.cut? closer.toList cs = some (as, rest) ∧ Misleads c false rest := by
  constructor
  · rintro (_ | _ | _ | ⟨hblock', hcut, hrest⟩)
    obtain ⟨rfl, rfl⟩ := Prod.mk.inj (Option.some.inj (hblock.symm.trans hblock'))
    exact ⟨_, _, hcut, hrest⟩
  · rintro ⟨as, rest, hcut, hrest⟩
    exact .closed hblock hcut hrest

theorem misleads_false_iff :
    Misleads c false cs ↔
      (∃ rest, Hides c cs rest ∧ ((line c true rest).inBlock = true ∨ Misleads c true rest)) ∨
        ∃ code rest, nextMark? c cs = some (code, .block, rest) ∧ Misleads c true rest := by
  constructor
  · rintro (⟨hides, hopen⟩ | ⟨hides, hrest⟩ | ⟨hnext, hrest⟩ | _)
    · exact .inl ⟨_, hides, .inl hopen⟩
    · exact .inl ⟨_, hides, .inr hrest⟩
    · exact .inr ⟨_, _, hnext, hrest⟩
  · rintro (⟨rest, hides, hopen | hrest⟩ | ⟨code, rest, hnext, hrest⟩)
    · exact .comment hides hopen
    · exact .again hides hrest
    · exact .opened hnext hrest

theorem not_misleads_of_none (hblock : c.block = none) : ¬Misleads c b cs := by
  have hblocked : ∀ {cs}, ¬Misleads c true cs := by
    rintro cs (_ | _ | _ | ⟨h, -, -⟩)
    cases hblock.symm.trans h
  have hhides : ∀ {rest}, ¬Hides c cs rest := by
    rintro rest ⟨opener, closer, -, -, -, h, -⟩
    cases hblock.symm.trans h
  rintro (⟨hides, -⟩ | ⟨hides, -⟩ | ⟨-, hrest⟩ | ⟨h, -, -⟩)
  · exact hhides hides
  · exact hhides hides
  · exact hblocked hrest
  · cases hblock.symm.trans h

theorem not_misleads_nil (hc : c.Solid) : ¬Misleads c b [] := by
  rintro (⟨⟨_, _, _, _, _, _, hnext, _⟩, -⟩ | ⟨⟨_, _, _, _, _, _, hnext, _⟩, -⟩ | ⟨hnext, -⟩ |
    ⟨hblock, hcut, -⟩)
  · cases hnext
  · cases hnext
  · cases hnext
  · rw [Text.cut?_of_notMem (List.forall_mem_nil _) (hc.closer hblock).ne_nil] at hcut
    cases hcut

/-- A line that misleads the count has no block comment open at its end. -/
theorem inBlock_of_misleads (hc : c.Solid) (hend : '\n' ∉ cs) (h : Misleads c b cs) :
    (line c b cs).inBlock = false := by
  induction h with
  | comment hides _ | again hides _ =>
    obtain ⟨-, -, -, code, comment, -, hnext, -⟩ := hides
    rw [line_false_of_line hc hend hnext]
  | opened hnext _ ih =>
    rw [line_false_of_block hc hnext]
    obtain ⟨m, -, rfl⟩ := eq_append_of_nextMark? hc hnext
    exact ih fun hmem => hend (List.mem_append_right _ hmem)
  | closed hblock hcut _ ih =>
    rw [line_true_of_cut? hc hblock hend hcut]
    rw [Text.eq_append_of_cut? hcut] at hend
    exact ih fun hmem => hend (List.mem_append_right _ hmem)

theorem hides_append_left (hc : c.Solid) (h : ∀ y ∈ blanks, Text.isBlank y = true) :
    Hides c (blanks ++ cs) rest ↔ Hides c cs rest := by
  have hcode : ∀ code : List Char,
      (blanks ++ code).all Text.isBlank = code.all Text.isBlank := by
    intro code
    rw [List.all_append, List.all_eq_true.mpr h, Bool.true_and]
  constructor
  · -- Blanks in front neither are nor hold an opener, so that the same one is found.
    rintro ⟨opener, closer, before, code, comment, hblock, hnext, hall, hcut⟩
    have hmark := hc.opener hblock
    rw [nextMark?_append_left hc h] at hnext
    rw [Text.cut?_append_left (fun y hy => hmark.notMem (h y hy)) hmark.ne_nil] at hcut
    obtain ⟨⟨code, mark⟩, hfirst, heq⟩ := Option.map_eq_some_iff.mp hnext
    obtain ⟨⟨before, rest⟩, hfound, heq'⟩ := Option.map_eq_some_iff.mp hcut
    cases heq
    cases heq'
    exact ⟨opener, closer, before, code, comment, hblock, hfirst, hcode code ▸ hall, hfound⟩
  · rintro ⟨opener, closer, before, code, comment, hblock, hnext, hall, hcut⟩
    have hmark := hc.opener hblock
    refine ⟨opener, closer, blanks ++ before, blanks ++ code, comment, hblock, ?_,
      (hcode code).trans hall, ?_⟩
    · rw [nextMark?_append_left hc h, hnext]
      rfl
    · rw [Text.cut?_append_left (fun y hy => hmark.notMem (h y hy)) hmark.ne_nil, hcut]
      rfl

/-- Blanks before a line have no part in whether it misleads the count. -/
theorem misleads_append_left (hc : c.Solid) (h : ∀ y ∈ blanks, Text.isBlank y = true) :
    Misleads c b (blanks ++ cs) ↔ Misleads c b cs := by
  rcases b
  · rw [misleads_false_iff, misleads_false_iff, nextMark?_append_left hc h]
    simp only [hides_append_left hc h, Option.map_eq_some_iff, Prod.mk.injEq]
    refine or_congr_right ⟨?_, ?_⟩
    · rintro ⟨-, rest, ⟨⟨code, mode, rest'⟩, hnext, rfl, heq⟩, hrest⟩
      exact ⟨code, rest, heq ▸ hnext, hrest⟩
    · rintro ⟨code, rest, hnext, hrest⟩
      exact ⟨_, rest, ⟨_, hnext, rfl, rfl⟩, hrest⟩
  · rcases hblock : c.block with _ | ⟨opener, closer⟩
    · exact iff_of_false (not_misleads_of_none hblock) (not_misleads_of_none hblock)
    · have hmark := hc.closer hblock
      rw [misleads_true_iff hblock, misleads_true_iff hblock,
        Text.cut?_append_left (fun y hy => hmark.notMem (h y hy)) hmark.ne_nil]
      simp only [Option.map_eq_some_iff, Prod.mk.injEq]
      constructor
      · rintro ⟨-, rest, ⟨⟨as, rest'⟩, hcut, rfl, rfl⟩, hrest⟩
        exact ⟨as, _, hcut, hrest⟩
      · rintro ⟨as, rest, hcut, hrest⟩
        exact ⟨_, rest, ⟨_, hcut, rfl, rfl⟩, hrest⟩

end Misleads

/-- **Whether a line misleads the count**, of the lines of a text. -/
def SomeMisleads (c : CommentSyntax) : Bool → List (List Char) → Prop
  | _, [] => False
  | b, l :: ls => Misleads c b l ∨ SomeMisleads c (line c b l).inBlock ls

/-! ### What the count finds on a line -/

/-- **Whether the count finds on the rest of a line what stands there**, except that it may be
misled on whether a block comment is open at the end. -/
structure Follows (c : CommentSyntax) (found : CodeLines.Finding) (cs : List Char)
    (result : CodeLines.Finding) : Prop where
  hasCode : result.hasCode = (found.hasCode || (line c found.inBlock cs).hasCode)
  inBlock : result.inBlock = true ↔
    (line c found.inBlock cs).inBlock = true ∨ Misleads c found.inBlock cs

section Follows

variable {c : CommentSyntax} {opener closer : String} {cs as blanks rest : List Char} {b : Bool}
  {found result : CodeLines.Finding}

theorem follows_append_left (hc : c.Solid) (h : ∀ y ∈ blanks, Text.isBlank y = true)
    (hend : '\n' ∉ blanks) :
    Follows c found (blanks ++ cs) result ↔ Follows c found cs result := by
  refine ⟨fun hfollows => ⟨?_, ?_⟩, fun hfollows => ⟨?_, ?_⟩⟩
  · rw [hfollows.hasCode, line_append_left hc h hend]
  · rw [hfollows.inBlock, line_append_left hc h hend, misleads_append_left hc h]
  · rw [hfollows.hasCode, line_append_left hc h hend]
  · rw [hfollows.inBlock, line_append_left hc h hend, misleads_append_left hc h]

/-- There is nothing on a blank line. -/
theorem follows_blanks (hc : c.Solid) (h : ∀ y ∈ blanks, Text.isBlank y = true)
    (hend : '\n' ∉ blanks) : Follows c found blanks found := by
  rw [← List.append_nil blanks, follows_append_left hc h hend]
  rcases found with ⟨code, _ | _⟩
  · refine ⟨(Bool.or_false code).symm, ?_⟩
    simp [not_misleads_nil hc, line, read, Reading.finding]
  · refine ⟨(Bool.or_false code).symm, ?_⟩
    simp [not_misleads_nil hc, line, read, Reading.finding]

/-- The count goes on after a closing mark. -/
theorem Follows.closed (hc : c.Solid) (hblock : c.block = some (opener, closer)) {code : Bool}
    (hend : '\n' ∉ cs) (hcut : Text.cut? closer.toList cs = some (as, rest))
    (h : Follows c ⟨code, false⟩ rest result) : Follows c ⟨code, true⟩ cs result := by
  have hline := line_true_of_cut? hc hblock hend hcut
  refine ⟨?_, ?_⟩
  · rw [h.hasCode, hline]
  · rw [h.inBlock, hline, misleads_true_iff hblock, hcut]
    simp

/-- The count goes on after an opening mark with a meaning. -/
theorem Follows.opened (hc : c.Solid) {code : Bool}
    (hnext : nextMark? c cs = some (as, .block, rest))
    (h : Follows c ⟨code || !as.all Text.isBlank, true⟩ rest result) :
    Follows c ⟨code, false⟩ cs result := by
  have hline := line_false_of_block hc hnext
  have hhides : ∀ rest, ¬Hides c cs rest := by
    rintro rest ⟨_, _, _, _, _, _, hnext', _⟩
    cases hnext.symm.trans hnext'
  refine ⟨?_, ?_⟩
  · rw [h.hasCode, hline, Bool.or_assoc]
  · rw [h.inBlock, hline, misleads_false_iff]
    simp [hhides, hnext]

/-- The count goes on after an opening mark in a comment behind code. -/
theorem Follows.hidden (hc : c.Solid) {code : Bool} {comment before : List Char}
    (hend : '\n' ∉ cs) (hblock : c.block = some (opener, closer))
    (hnext : nextMark? c cs = some (as, .line, comment)) (hcode : as.all Text.isBlank = false)
    (hcut : Text.cut? opener.toList cs = some (before, rest))
    (h : Follows c ⟨true, true⟩ rest result) : Follows c ⟨code, false⟩ cs result := by
  have hline := line_false_of_line hc hend hnext
  have hhides : ∀ rest', Hides c cs rest' ↔ rest' = rest := by
    refine fun rest' => ⟨?_, ?_⟩
    · rintro ⟨opener', closer', _, _, _, hblock', _, _, hcut'⟩
      cases hblock.symm.trans hblock'
      cases hcut.symm.trans hcut'
      rfl
    · rintro rfl
      exact ⟨_, _, _, _, _, hblock, hnext, hcode, hcut⟩
  refine ⟨?_, ?_⟩
  · rw [h.hasCode, hline, hcode]
    simp
  · rw [h.inBlock, hline, misleads_false_iff]
    simp [hhides, hnext]

/-- Nothing more is found on a line where no opening mark stands. -/
theorem follows_of_code (hc : c.Solid) (hend : '\n' ∉ cs) {code : Bool}
    (hcode : (line c false cs).hasCode = true)
    (h : ∀ opener closer, c.block = some (opener, closer) → Text.cut? opener.toList cs = none) :
    Follows c ⟨code, false⟩ cs ⟨true, false⟩ := by
  have hhides : ∀ rest, ¬Hides c cs rest := by
    rintro rest ⟨opener, closer, _, _, _, hblock, _, _, hcut⟩
    cases (h opener closer hblock).symm.trans hcut
  have hnext : ∀ as rest, nextMark? c cs ≠ some (as, .block, rest) := by
    intro as rest hnext
    obtain hmode | ⟨-, hblock⟩ := mode_of_nextMark? hnext
    · cases hmode
    · obtain ⟨⟨opener, closer⟩, hblock⟩ := Option.isSome_iff_exists.mp hblock
      have hcut := cut?_opener hc hblock cs fun as' rest' hline => nomatch hnext.symm.trans hline
      rw [hnext, h opener closer hblock] at hcut
      cases hcut
  have hclosed : (line c false cs).inBlock = false := by
    rcases hfirst : nextMark? c cs with _ | ⟨as, mode, rest⟩
    · rw [line_false_of_none hc hfirst]
    · obtain rfl | ⟨rfl, -⟩ := mode_of_nextMark? hfirst
      · rw [line_false_of_line hc hend hfirst]
      · exact absurd hfirst (hnext as rest)
  refine ⟨?_, ?_⟩
  · rw [hcode, Bool.or_true]
  · rw [misleads_false_iff, hclosed]
    simp [hhides, hnext]

/-- Nothing more is found on a line where a comment begins. -/
theorem follows_of_comment (hc : c.Solid) (hend : '\n' ∉ cs) {code : Bool}
    (h : nextMark? c cs = some ([], .line, rest)) : Follows c ⟨code, false⟩ cs ⟨code, false⟩ := by
  have hhides : ∀ rest, ¬Hides c cs rest := by
    rintro rest ⟨_, _, _, _, _, _, hnext, hcode, _⟩
    cases h.symm.trans hnext
    cases hcode
  have hline := line_false_of_line hc hend h
  refine ⟨?_, ?_⟩
  · rw [hline]
    exact (Bool.or_false code).symm
  · rw [misleads_false_iff, hline]
    simp [hhides, h]

/-- What is not blank and begins no comment is code. -/
theorem hasCode_of_mark? {x : Char} (hmark : mark? c .code (x :: cs) = none)
    (hx : Text.isBlank x = false) : (line c false (x :: cs)).hasCode = true := by
  rw [line, if_neg Bool.false_ne_true, read, hmark]
  dsimp only
  rw [if_pos (Or.inl rfl), Reading.finding, List.all_cons, hx]
  rfl

theorem all_of_nextMark? {x : Char} {mode : Mode} (hmark : mark? c .code (x :: cs) = none)
    (hx : Text.isBlank x = false) (h : nextMark? c (x :: cs) = some (as, mode, rest)) :
    as.all Text.isBlank = false := by
  rw [nextMark?, hmark] at h
  obtain ⟨r, -, heq⟩ := Option.map_eq_some_iff.mp h
  rw [← (Prod.mk.inj heq).1, List.all_cons, hx, Bool.false_and]

/-- The count goes on after the first opening mark behind code, be it one with a meaning or not. -/
theorem Follows.behind (hc : c.Solid) {code : Bool} {x : Char} (hx : Text.isBlank x = false)
    (hend : '\n' ∉ x :: cs) (hblock : c.block = some (opener, closer))
    (hmark : mark? c .code (x :: cs) = none)
    (hcut : Text.cut? opener.toList (x :: cs) = some (as, rest))
    (h : Follows c ⟨true, true⟩ rest result) : Follows c ⟨code, false⟩ (x :: cs) result := by
  by_cases hline : ∃ before comment, nextMark? c (x :: cs) = some (before, .line, comment)
  · obtain ⟨before, comment, hnext⟩ := hline
    exact h.hidden hc hend hblock hnext (all_of_nextMark? hmark hx hnext) hcut
  · have hfirst := cut?_opener hc hblock (x :: cs) fun before comment hnext =>
      hline ⟨before, comment, hnext⟩
    rw [hcut] at hfirst
    obtain ⟨⟨before, mode, after⟩, hnext, heq⟩ := Option.map_eq_some_iff.mp hfirst.symm
    cases heq
    obtain rfl | ⟨rfl, -⟩ := mode_of_nextMark? hnext
    · exact absurd ⟨_, _, hnext⟩ hline
    · refine .opened hc hnext ?_
      rw [all_of_nextMark? hmark hx hnext, Bool.not_false, Bool.or_true]
      exact h

section Scan

variable {x : Char} {n : Nat}

/-- **A step of the count in code**, if the rest of the line is found as it should be. -/
theorem follows_scan_code (hc : c.Solid) (h : ∀ y ∈ blanks, Text.isBlank y = true)
    (hend : '\n' ∉ x :: cs ++ blanks) (hx : Text.isBlank x = false) {code : Bool}
    (hafter : ∀ {code : Bool} {as m after : List Char}, c.block.isSome = true → Text.IsMark m →
      x :: cs = as ++ m ++ after → ∀ {rest}, rest = after ∨ rest = Text.dropBlank after →
        Follows c ⟨code, true⟩ (after ++ blanks) (CodeLines.scan c n ⟨code, true⟩ rest)) :
    Follows c ⟨code, false⟩ (x :: cs ++ blanks)
      (CodeLines.scan c (n + 1) ⟨code, false⟩ (x :: cs)) := by
  have hmark : mark? c .code (x :: cs ++ blanks) = mark? c .code (x :: cs) :=
    mark?_append hc (fun y hy => h y (List.mem_of_mem_head? hy)) _
  rw [CodeLines.scan, if_neg Bool.false_ne_true]
  -- A mark of a line comes before an opener, as in the count.
  by_cases hline : Text.startsWith c.lineMark.toList (x :: cs) = true
  · rw [mark?_code_of_line hline] at hmark
    rw [if_pos hline]
    exact follows_of_comment hc hend (nextMark?_of_mark? hc hmark)
  rw [if_neg hline]
  rw [Bool.not_eq_true] at hline
  rcases hblock : c.block with _ | ⟨opener, closer⟩
  · rw [mark?_code_of_none hblock hline] at hmark
    exact follows_of_code hc hend (hasCode_of_mark? hmark hx) fun _ _ h =>
      nomatch hblock.symm.trans h
  have hm := hc.opener hblock
  have hcut := Text.cut?_append_of_notMem (fun y hy => hm.notMem (h y hy)) hm.ne_nil (x :: cs)
  have hsome := Option.isSome_of_eq_some hblock
  rw [mark?_code_of_opener hblock hline] at hmark
  dsimp only
  rcases hopens : Text.dropPrefix? opener.toList (x :: cs) with _ | after <;>
    rw [hopens] at hmark
  · -- There is code before the next opener, or no opener at all.
    dsimp only
    rcases hfound : Text.cut? opener.toList (x :: cs) with _ | ⟨as, after⟩ <;>
      rw [hfound] at hcut
    · refine follows_of_code hc hend (hasCode_of_mark? hmark hx) ?_
      intro opener' closer' hblock'
      cases hblock.symm.trans hblock'
      exact hcut
    · exact .behind hc hx hend hblock hmark hcut
        (hafter hsome hm (Text.eq_append_of_cut? hfound) (.inr rfl))
  · -- An opener stands here.
    have htext := Text.eq_append_of_dropPrefix? hopens
    have hrest := nextMark?_of_mark? hc hmark
    rw [htext, List.append_assoc, List.drop_left] at hrest
    rw [htext, List.append_assoc]
    refine .opened hc hrest ?_
    rw [List.all_nil, Bool.not_true, Bool.or_false]
    exact hafter hsome hm (show x :: cs = [] ++ _ ++ after from htext) (.inl rfl)

/-- **A step of the count in a block comment.** -/
theorem follows_scan_block (hc : c.Solid) (h : ∀ y ∈ blanks, Text.isBlank y = true)
    (hend : '\n' ∉ x :: cs ++ blanks) (hblock : c.block = some (opener, closer)) {code : Bool}
    (hafter : ∀ {as m after : List Char}, Text.IsMark m → x :: cs = as ++ m ++ after →
      Follows c ⟨code, false⟩ (after ++ blanks)
        (CodeLines.scan c n ⟨code, false⟩ (Text.dropBlank after))) :
    Follows c ⟨code, true⟩ (x :: cs ++ blanks)
      (CodeLines.scan c (n + 1) ⟨code, true⟩ (x :: cs)) := by
  have hm := hc.closer hblock
  have hcut := Text.cut?_append_of_notMem (fun y hy => hm.notMem (h y hy)) hm.ne_nil (x :: cs)
  rw [CodeLines.scan, if_pos rfl, hblock]
  dsimp only
  rcases hfound : Text.cut? closer.toList (x :: cs) with _ | ⟨as, after⟩ <;> rw [hfound] at hcut
  · have hopen := line_true_of_none hc hblock hend hcut
    refine ⟨?_, ?_⟩
    · rw [hopen, Bool.or_false]
    · rw [hopen]
      simp
  · exact .closed hc hblock hend hcut (hafter hm (Text.eq_append_of_cut? hfound))

/-- **The count finds what stands on a line**, whatever blanks come after it. -/
theorem follows_scan (hc : c.Solid) (h : ∀ y ∈ blanks, Text.isBlank y = true)
    (hblanksEnd : '\n' ∉ blanks) (hn : cs.length < n) (hend : '\n' ∉ cs)
    (hhead : found.inBlock = false → ∀ y ∈ cs.head?, Text.isBlank y = false)
    (hb : found.inBlock = true → c.block.isSome = true) :
    Follows c found (cs ++ blanks) (CodeLines.scan c n found cs) := by
  induction n generalizing found cs with
  | zero => exact absurd hn (Nat.not_lt_zero _)
  | succ n ih =>
    rcases cs with _ | ⟨x, cs⟩
    · rw [CodeLines.scan]
      exact follows_blanks hc h hblanksEnd
    -- what comes after a mark is shorter, with its first blanks or without them
    have hafter : ∀ {found : CodeLines.Finding} {as m after rest : List Char}, Text.IsMark m →
        x :: cs = as ++ m ++ after → rest = after ∨ rest = Text.dropBlank after →
        (found.inBlock = false → ∀ y ∈ rest.head?, Text.isBlank y = false) →
        (found.inBlock = true → c.block.isSome = true) →
        Follows c found (after ++ blanks) (CodeLines.scan c n found rest) := by
      intro found as m after rest hm htext hrest hhead hb
      obtain ⟨lead, hlead, rfl⟩ : ∃ lead, (∀ y ∈ lead, Text.isBlank y = true) ∧
          after = lead ++ rest := by
        obtain rfl | rfl := hrest
        · exact ⟨[], List.forall_mem_nil _, rfl⟩
        · exact ⟨_, List.all_eq_true.mp List.all_takeWhile, List.takeWhile_append_dropWhile.symm⟩
      have hlength := congrArg List.length htext
      have hpos := List.length_pos_of_ne_nil hm.ne_nil
      simp only [List.length_append] at hlength
      rw [htext, List.mem_append, List.mem_append (t := rest), not_or, not_or] at hend
      rw [List.append_assoc, follows_append_left hc hlead hend.2.1]
      exact ih (by omega) hend.2.2 hhead hb
    have hend' : '\n' ∉ x :: cs ++ blanks := by
      rw [List.mem_append]
      exact not_or.mpr ⟨hend, hblanksEnd⟩
    -- The count goes on in code or in a comment, and `hafter` is the induction behind either mark.
    obtain ⟨code, _ | _⟩ := found
    · refine follows_scan_code hc h hend' (hhead rfl x rfl) fun hblock hm htext _ hrest => ?_
      exact hafter hm htext hrest nofun fun _ => hblock
    · obtain ⟨⟨opener, closer⟩, hblock⟩ := Option.isSome_iff_exists.mp (hb rfl)
      refine follows_scan_block hc h hend' hblock fun hm htext => ?_
      exact hafter hm htext (.inr rfl) (fun _ => Text.isBlank_head?_dropBlank _) nofun

end Scan

/-- **What the count finds on a line** is what the line holds, except that it may be misled. -/
theorem follows_line (hc : c.Solid) (hend : '\n' ∉ cs) (hb : b = true → c.block.isSome = true) :
    Follows c ⟨false, b⟩ cs (CodeLines.line c b cs) := by
  obtain ⟨lead, trail, htext, hlead, htrail, hhead⟩ := Text.exists_trimChars cs
  rw [CodeLines.line]
  generalize Text.trimChars cs = trimmed at htext hhead ⊢
  subst htext
  rw [List.mem_append, List.mem_append, not_or, not_or] at hend
  rw [follows_append_left hc hlead hend.1]
  exact follows_scan hc htrail hend.2.2 (by omega) hend.2.1 (fun _ => hhead) hb

end Follows

end Comments

namespace CodeLines

section

variable {c : CommentSyntax} {b : Bool} {ls : List (List Char)}

theorem countFrom_eq (c : CommentSyntax) (b : Bool) (ls : List (List Char)) :
    countFrom c b ls = (findings (line c) b ls).countP (·.hasCode) := by
  induction ls generalizing b with
  | nil => rfl
  | cons l ls ih => rw [countFrom, findings, List.countP_cons, ih, Nat.add_comm]

/-- **The count finds what the lines hold** unless one of them misleads it. -/
theorem findings_eq_findings_iff (hc : c.Solid) (hb : b = true → c.block.isSome = true)
    (hend : ∀ l ∈ ls, '\n' ∉ l) :
    findings (line c) b ls = findings (Comments.line c) b ls ↔ ¬Comments.SomeMisleads c b ls := by
  have hext : ∀ {f g : Finding}, f.hasCode = g.hasCode → f.inBlock = g.inBlock → f = g := by
    rintro ⟨_, _⟩ ⟨_, _⟩ rfl rfl
    rfl
  induction ls generalizing b with
  | nil => exact iff_of_true rfl not_false
  | cons l ls ih =>
    obtain ⟨hl, hls⟩ := List.forall_mem_cons.mp hend
    have hfollows := Comments.follows_line hc hl hb
    have hhas := hfollows.hasCode
    have hin := hfollows.inBlock
    rw [Bool.false_or] at hhas
    dsimp only at hhas hin
    rw [findings, findings, Comments.SomeMisleads, not_or, List.cons.injEq]
    -- A line that misleads leaves a block open that the count takes for closed.
    by_cases hmisleads : Comments.Misleads c b l
    · refine iff_of_false (fun h => ?_) (fun h => h.1 hmisleads)
      have hclosed := Comments.inBlock_of_misleads hc hl hmisleads
      rw [← h.1, hin.mpr (.inr hmisleads)] at hclosed
      cases hclosed
    · have hline : line c b l = Comments.line c b l := by
        refine hext hhas (Bool.eq_iff_iff.mpr ?_)
        rw [hin, or_iff_left hmisleads]
      have hrest := ih (Comments.isSome_block_of_inBlock hc hl hb) hls
      rw [hline]
      exact and_congr (iff_of_true rfl hmisleads) hrest

end

/-- **The count of the lines of code** finds on every line what stands there, code and open
comments, unless a line misleads it; so it then comes to the number of lines of code. -/
theorem findings_eq_iff (l : Language) (text : String) :
    (findings (line l.comments) false (Text.lines text.toList) =
        findings (Comments.line l.comments) false (Text.lines text.toList) ↔
      ¬Comments.SomeMisleads l.comments false (Text.lines text.toList)) ∧
    (¬Comments.SomeMisleads l.comments false (Text.lines text.toList) →
      count l.comments text = Comments.codeLines l.comments text) := by
  have hiff := findings_eq_findings_iff (b := false) l.solid_comments nofun
    (Text.notMem_of_mem_lines text.toList)
  refine ⟨hiff, fun h => ?_⟩
  rw [count, countFrom_eq, hiff.mpr h, ← Comments.countP_lines_kept l.solid_comments false]
  rfl

/-- An opening mark in a comment behind code hides the line after it from the count. -/
theorem count_hidden :
    count Language.rust.comments "a(); // see /* here\nb();\n" = 1 ∧
      Comments.codeLines Language.rust.comments "a(); // see /* here\nb();\n" = 2 := by
  decide +kernel

/-- A text with comments of both kinds, the one within the other. -/
def commented : String :=
  "x(); // say a\n/* one\n// two */ y(); /* z */\n/* // */ w(); // b /* c */\n"

theorem findings_eq_iff_commented :
    ¬Comments.SomeMisleads Language.go.comments false (Text.lines commented.toList) ∧
      count Language.go.comments commented = 3 ∧
      Comments.codeLines Language.go.comments commented = 3 := by
  have hcount : count Language.go.comments commented = 3 := by decide +kernel
  have hclear := (findings_eq_iff .go commented).1.mp (by decide +kernel)
  exact ⟨hclear, hcount, (findings_eq_iff .go commented).2 hclear ▸ hcount⟩

end CodeLines

end Dossier
