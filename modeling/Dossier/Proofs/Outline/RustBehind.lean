import Dossier.Outline.Rust
import Dossier.Proofs.Outline.Behind
import Mathlib.Data.List.Induction

/-!
# The outline of a Rust text behind another

A Rust text is outlined by its tree, by the text that its nodes cover, and by the bytes that are
counted to the places of its functions. The byte offset of a place is found by going down the lines
of the text and along the line of the place (`Dossier.Outline.Rust.offsetAt_wholeLines`), so a place
of a text that has other text around it is found further on, by as many bytes as stand in front of
the text (`Dossier.Outline.Rust.offsetAt_surrounded`). A text that stands in another one so
(`Dossier.Outline.Rust.StandsIn`) has the same outline further on
(`Dossier.Outline.Rust.StandsIn.ofItems`).
-/

namespace Dossier

/-! ### From lines and characters back to bytes -/

/-- Whether a text is made of lines that have an end. -/
def Text.WholeLines (cs : List Char) : Prop :=
  ∀ c ∈ cs.getLast?, c = '\n'

namespace Position

open Text (WholeLines)

variable {p : Position} {cs before line : List Char}

theorem row_advance (p : Position) (cs : List Char) :
    (p.advance cs).row = p.row + cs.count '\n' := by
  induction cs generalizing p with
  | nil => rfl
  | cons c cs ih =>
    rw [advance, List.foldl_cons, ← advance, ih, next, List.count_cons]
    by_cases hc : c = '\n'
    · rw [if_pos hc, if_pos (by simp [hc])]
      exact Nat.add_right_comm _ 1 _
    · rw [if_neg hc, if_neg (by simp [hc])]
      rfl

theorem place_advance_line (p : Position) (h : '\n' ∉ line) :
    (p.advance line).place = p.place + line.length := by
  induction line generalizing p with
  | nil => rfl
  | cons c line ih =>
    obtain ⟨hc, hline⟩ : '\n' ≠ c ∧ '\n' ∉ line := by simpa using h
    rw [advance, List.foldl_cons, ← advance, ih _ hline, next, if_neg (Ne.symm hc),
      List.length_cons]
    exact Nat.add_right_comm _ 1 _

/-- A line begins behind whole lines. -/
theorem place_advance_wholeLines (hp : p.place = 0) (h : WholeLines before) :
    (p.advance before).place = 0 := by
  rcases List.eq_nil_or_concat' before with rfl | ⟨front, c, rfl⟩
  · exact hp
  · obtain rfl := h c (by rw [List.getLast?_concat]; rfl)
    rw [advance_append]
    rfl

/-- **Where something stands** is told by the lines before it and by what is before it on its own.
-/
theorem row_place_advance (hrow : p.row = 0) (hplace : p.place = 0) (hbefore : WholeLines before)
    (hline : '\n' ∉ line) :
    (p.advance (before ++ line)).row = before.count '\n' ∧
      (p.advance (before ++ line)).place = line.length := by
  constructor
  · rw [row_advance, hrow, Nat.zero_add, List.count_append, List.count_eq_zero.mpr hline,
      Nat.add_zero]
  · rw [advance_append, place_advance_line _ hline, place_advance_wholeLines hplace hbefore,
      Nat.zero_add]

end Position

namespace Text

variable {cs before rest : List Char}

theorem wholeLines_nil : WholeLines [] :=
  fun _ hc => nomatch hc

theorem WholeLines.of_cons {c : Char} (h : WholeLines (c :: cs)) (hcs : cs ≠ []) :
    WholeLines cs := by
  intro d hd
  refine h d ?_
  rwa [List.getLast?_cons_of_ne_nil hcs]

/-- Whole lines are told by their ends. -/
theorem WholeLines.eq_nil_of_count (h : WholeLines cs) (hcount : cs.count '\n' = 0) : cs = [] := by
  rcases List.eq_nil_or_concat' cs with rfl | ⟨front, c, rfl⟩
  · rfl
  · obtain rfl := h c (by rw [List.getLast?_concat]; rfl)
    exact absurd (List.mem_append_right _ List.mem_cons_self) (List.count_eq_zero.mp hcount)

theorem WholeLines.append (h : WholeLines cs) (hcs : cs ≠ []) (before : List Char) :
    WholeLines (before ++ cs) := by
  intro c hc
  rw [List.getLast?_append_of_ne_nil _ hcs] at hc
  exact h c hc

/-- **A text ends in the line it has begun.** -/
theorem exists_wholeLines (cs : List Char) :
    ∃ before line, cs = before ++ line ∧ WholeLines before ∧ '\n' ∉ line := by
  induction cs using List.reverseRecOn with
  | nil => exact ⟨[], [], rfl, wholeLines_nil, List.not_mem_nil⟩
  | append_singleton cs c ih =>
    by_cases hc : c = '\n'
    · refine ⟨cs ++ [c], [], (List.append_nil _).symm, fun d hd => ?_, List.not_mem_nil⟩
      rw [List.getLast?_concat] at hd
      rw [← Option.mem_some.mp hd, hc]
    · obtain ⟨before, line, rfl, hbefore, hline⟩ := ih
      refine ⟨before, line ++ [c], List.append_assoc .., hbefore, ?_⟩
      rw [List.mem_append, List.mem_singleton]
      rintro (hmem | rfl)
      · exact hline hmem
      · exact hc rfl

end Text

namespace Outline.Rust

open Text (WholeLines byteSize)

variable {cs before rest line : List Char} {p q : Position} {n : Nat}

theorem offsetInLine_cons (n : Nat) (c : Char) (cs : List Char) :
    offsetInLine n (c :: cs) =
      if c = '\n' ∨ c = '\r' ∧ cs.head? = some '\n' then 0
      else
        match n with
        | 0 => 0
        | n + 1 => c.utf8Size + offsetInLine n cs := by
  by_cases hfeed : c = '\n'
  · subst hfeed
    cases n <;> rfl
  by_cases hreturn : c = '\r' ∧ cs.head? = some '\n'
  · obtain ⟨rfl, hhead⟩ := hreturn
    obtain ⟨rest, rfl⟩ := List.head?_eq_some_iff.mp hhead
    cases n <;> rfl
  rw [if_neg (by simp [hfeed, hreturn])]
  have hpair : ∀ rest, c = '\r' → cs = '\n' :: rest → False := by
    rintro rest rfl rfl
    exact hreturn ⟨rfl, rfl⟩
  cases n with
  | zero => rw [offsetInLine] <;> simp_all
  | succ n => rw [offsetInLine] <;> simp_all

theorem offsetInLine_le (n : Nat) (cs : List Char) : offsetInLine n cs ≤ byteSize cs := by
  induction cs generalizing n with
  | nil => cases n <;> exact Nat.le_refl 0
  | cons c cs ih =>
    rw [offsetInLine_cons, Text.byteSize_cons]
    split
    · omega
    · cases n with
      | zero => exact Nat.zero_le _
      | succ n => exact Nat.add_le_add_left (ih n) _

theorem offsetAt_le (row place : Nat) (cs : List Char) : offsetAt row place cs ≤ byteSize cs := by
  induction cs generalizing row with
  | nil => cases row <;> [exact offsetInLine_le place []; exact Nat.le_refl 0]
  | cons c cs ih =>
    cases row with
    | zero => exact offsetInLine_le place (c :: cs)
    | succ row =>
      rw [offsetAt, Text.byteSize_cons]
      split <;> exact Nat.add_le_add_left (ih _) _

@[simp] theorem offsetInLine_zero (cs : List Char) : offsetInLine 0 cs = 0 := by
  rcases cs with _ | ⟨c, cs⟩
  · rfl
  · rw [offsetInLine_cons]
    split <;> rfl

/-- What stands behind the end of a text is not needed to find a place of it. -/
theorem offsetInLine_append (h : n ≤ cs.length) (hend : ∀ c ∈ cs.getLast?, c ≠ '\r')
    (trail : List Char) : offsetInLine n (cs ++ trail) = offsetInLine n cs := by
  induction cs generalizing n with
  | nil =>
    obtain rfl := Nat.le_zero.mp h
    rw [offsetInLine_zero, offsetInLine_zero]
  | cons c cs ih =>
    cases n with
    | zero => rw [offsetInLine_zero, offsetInLine_zero]
    | succ n =>
      have hn : n ≤ cs.length := Nat.le_of_succ_le_succ h
      rw [List.cons_append, offsetInLine_cons, offsetInLine_cons]
      rcases cs with _ | ⟨d, cs⟩
      · obtain rfl := Nat.le_zero.mp hn
        simp [hend c rfl]
      · dsimp only
        rw [ih hn hend]
        rfl

/-- A place on a line is found from any place before it on the line. -/
theorem offsetInLine_line (hline : '\n' ∉ line) (hrest : rest.head? ≠ some '\n') (n : Nat) :
    offsetInLine (line.length + n) (line ++ rest) = byteSize line + offsetInLine n rest := by
  induction line with
  | nil => rw [List.length_nil, Nat.zero_add, List.nil_append, Text.byteSize_nil, Nat.zero_add]
  | cons c line ih =>
    obtain ⟨hc, hline⟩ : '\n' ≠ c ∧ '\n' ∉ line := by simpa using hline
    have hhead : (line ++ rest).head? ≠ some '\n' := by
      rcases line with _ | ⟨d, line⟩
      · exact hrest
      · exact fun h => hline (Option.some.inj h ▸ List.mem_cons_self)
    have hopen : ¬(c = '\n' ∨ c = '\r' ∧ (line ++ rest).head? = some '\n') := by
      rintro (rfl | ⟨-, h⟩)
      · exact hc rfl
      · exact hhead h
    have hlength : (c :: line).length + n = line.length + n + 1 := by
      rw [List.length_cons]
      omega
    rw [hlength, List.cons_append, offsetInLine_cons, if_neg hopen]
    dsimp only
    rw [ih hline, Text.byteSize_cons, Nat.add_assoc]

/-- **A place is found down the lines of the text and along its own.** -/
theorem offsetAt_wholeLines (h : WholeLines before) (n : Nat) (rest : List Char) :
    offsetAt (before.count '\n') n (before ++ rest) = byteSize before + offsetInLine n rest := by
  induction before with
  | nil => rw [List.count_nil, offsetAt, List.nil_append, Text.byteSize_nil, Nat.zero_add]
  | cons c before ih =>
    rw [List.cons_append, Text.byteSize_cons]
    rcases before with _ | ⟨d, before⟩
    · obtain rfl := h c rfl
      rw [List.count_singleton_self, offsetAt, if_pos rfl, List.nil_append, offsetAt,
        Text.byteSize_nil, Nat.add_zero]
    · have hrest := h.of_cons (List.cons_ne_nil _ _)
      have hcount : (d :: before).count '\n' ≠ 0 := fun hzero =>
        List.cons_ne_nil _ _ (hrest.eq_nil_of_count hzero)
      rw [List.count_cons, Nat.add_assoc, ← ih hrest]
      by_cases hc : c = '\n'
      · rw [if_pos (by simp [hc]), offsetAt, if_pos hc]
      · obtain ⟨row, hrow⟩ := Nat.exists_eq_succ_of_ne_zero hcount
        rw [if_neg (by simp [hc]), Nat.add_zero, hrow, offsetAt, if_neg hc]

/-- **Whether a place is one of a text**, by its line and by the characters before it there. -/
def Stands (cs : List Char) (p : Position) : Prop :=
  ∃ before rest, cs = before ++ rest ∧ WholeLines before ∧ p.row = before.count '\n' ∧
    p.place ≤ rest.length

/-- **A place of a text with others around it** is found further on. The text neither begins nor
ends within the end of a line. -/
theorem offsetAt_surrounded {lead core trail : List Char} (h : Stands core p)
    (hhead : core.head? ≠ some '\n') (hlast : ∀ c ∈ core.getLast?, c ≠ '\r') (hcore : core ≠ []) :
    offsetAt ((Position.origin.advance lead).behind p).row
        ((Position.origin.advance lead).behind p).place (lead ++ core ++ trail) =
      byteSize lead + offsetAt p.row p.place core := by
  obtain ⟨before, rest, rfl, hbefore, hrow, hplace⟩ := h
  have hend : ∀ c ∈ rest.getLast?, c ≠ '\r' := fun c hc =>
    hlast c (by rw [List.getLast?_append, Option.mem_def.mp hc]; rfl)
  have hlead : (Position.origin.advance lead).row = lead.count '\n' := by
    rw [Position.row_advance]
    exact Nat.zero_add _
  rw [hrow, offsetAt_wholeLines hbefore, ← offsetInLine_append hplace hend trail,
    Position.behind, hlead]
  dsimp only
  rw [hrow]
  by_cases hfirst : before.count '\n' = 0
  · -- The place is on the line that the text in front has begun.
    obtain rfl := hbefore.eq_nil_of_count hfirst
    obtain ⟨front, line, rfl, hfront, hline⟩ := Text.exists_wholeLines lead
    have hbegun := (Position.row_place_advance (p := .origin) rfl rfl hfront hline).2
    have hnext : (rest ++ trail).head? ≠ some '\n' := by
      rw [List.nil_append] at hhead hcore
      rwa [List.head?_append_of_ne_nil _ hcore]
    rw [if_pos hfirst, hbegun, hfirst, Nat.add_zero, List.count_append,
      List.count_eq_zero.mpr hline, Nat.add_zero, List.nil_append, List.append_assoc,
      List.append_assoc, offsetAt_wholeLines hfront, offsetInLine_line hline hnext,
      Text.byteSize_append, Text.byteSize_nil]
    omega
  · -- It is on a line of its own, below all that stands in front.
    have hne : before ≠ [] := by
      rintro rfl
      exact hfirst rfl
    have hall := hbefore.append hne lead
    have htext : lead ++ (before ++ rest) ++ trail = (lead ++ before) ++ (rest ++ trail) := by
      simp only [List.append_assoc]
    rw [if_neg hfirst, ← List.count_append, htext, offsetAt_wholeLines hall, Text.byteSize_append,
      Nat.add_assoc]

open Syntax.Rust

/-! ### A text in another one -/

/-- **Whether a text stands in another one further on**, also by the lines and the characters that
its places are counted in. -/
structure StandsIn (q : Position) (P : Position → Prop) (whole core : String) : Prop where
  moved : MovedBy q P whole core
  offset : ∀ p, P p → offsetOf whole (q.behind p) = q.offset + offsetOf core p
  between : ∀ a b, P a → P b →
    Text.slice (q.offset + offsetOf core a) (q.offset + offsetOf core b) whole =
      Text.slice (offsetOf core a) (offsetOf core b) core
  column : q.column = q.place

/-- What is found in a body of a text behind a text that ends at `q`. -/
def BodyFindings.behind (q : Position) (f : BodyFindings) : BodyFindings where
  decisions := f.decisions
  calls := f.calls.map fun c => (c.1, q.row + c.2)
  nested := f.nested.behind q

theorem BodyFindings.add_behind (q : Position) (f g : BodyFindings) :
    (f.add g).behind q = (f.behind q).add (g.behind q) := by
  simp only [behind, add, List.map_append, Findings.add_behind]

variable {P : Position → Prop} {whole core : String}

/-! ### Names -/

theorem segments_behind (h : MovedBy q P whole core) {t : Tree Kind} (ht : t.Within P) :
    segments whole (t.behind q) = segments core t := by
  rw [segments, segments, Tree.filter_children_behind q t (· == .segment), List.map_map]
  exact List.map_congr_left fun c hc => h.text (ht.children c (List.mem_of_mem_filter hc))

mutual

theorem typeName?_behind (h : MovedBy q P whole core) : ∀ t : Tree Kind, t.Within P →
    typeName? whole (t.behind q) = typeName? core t
  | .node k r a b ts, ht => by
    have hsegments := segments_behind h ht
    have hoperand := operandName?_behind h ts ht.children
    rw [Tree.behind] at hsegments ⊢
    rw [Tree.behindAll_eq] at hsegments ⊢
    rw [typeName?, typeName?, hsegments, hoperand]

theorem operandName?_behind (h : MovedBy q P whole core) : ∀ ts : List (Tree Kind),
    (∀ t ∈ ts, t.Within P) →
      operandName? whole (ts.map (Tree.behind q)) = operandName? core ts
  | [], _ => rfl
  | t :: ts, hts => by
    obtain ⟨ht, hts⟩ := List.forall_mem_cons.mp hts
    rw [List.map_cons, operandName?, operandName?, Tree.role_behind, typeName?_behind h t ht,
      operandName?_behind h ts hts]

end

theorem nameOf_behind (h : MovedBy q P whole core) {t : Tree Kind} (ht : t.Within P) :
    nameOf whole (t.behind q) = nameOf core t := by
  rw [nameOf, nameOf, h.child_text ht]

/-! ### What nodes make by themselves -/

theorem ownDecisions_behind (h : MovedBy q P whole core) {t : Tree Kind} (ht : t.Within P) :
    ownDecisions whole (t.behind q) = ownDecisions core t := by
  have harms := Tree.filter_children_behind q t (· == .arm)
  have hguards : ((t.children.filter fun c => c.kind == .arm).map (Tree.behind q)).filter
        (fun a => a.children.any fun c => c.kind == .guard) =
      ((t.children.filter fun c => c.kind == .arm).filter fun a =>
        a.children.any fun c => c.kind == .guard).map (Tree.behind q) := by
    rw [List.filter_map]
    congr 2
    funext a
    simp only [Function.comp_def, Tree.children_behind, List.any_map, Tree.kind_behind]
  simp only [ownDecisions, Tree.kind_behind, harms, hguards, List.length_map, Tree.child?_behind]
  split
  · rfl
  · rfl
  · rfl
  · rfl
  · rfl
  · rcases ho : t.child? .operator with _ | o
    · rfl
    · simp only [Option.map_some, h.text (ht.child? ho)]
  · rfl

theorem ownCalls_behind (h : MovedBy q P whole core) (selfType : Option String) {t : Tree Kind}
    (ht : t.Within P) :
    ownCalls whole selfType (t.behind q) =
      (ownCalls core selfType t).map fun c => (c.1, q.row + c.2) := by
  simp only [ownCalls, Tree.kind_behind, Tree.child?_behind]
  split
  · rcases hf : t.child? .callee with _ | f
    · rfl
    · simp only [Option.map_some, Tree.kind_behind, Tree.start_behind,
        segments_behind h (ht.child? hf)]
      split
      · rcases calleeName? selfType (segments core f) with _ | name <;> rfl
      · rfl
  · rcases hm : t.child? .member with _ | m
    · rfl
    · simp only [Option.map_some, h.text (ht.child? hm), Tree.start_behind]
      rfl
  · rfl

/-! ### Functions -/

theorem StandsIn.definition (h : StandsIn q P whole core) (s : Setting) {t body : Tree Kind}
    (ht : t.Within P) (hbody : body.Within P) (name : String) (decisions : Nat) :
    definition whole s (t.behind q) name (body.behind q) decisions =
      (Rust.definition core s t name body decisions).behind q := by
  have hparameters :
      (Rust.definition whole s (t.behind q) name (body.behind q) decisions).parameters =
        (Rust.definition core s t name body decisions).parameters := by
    unfold Rust.definition
    dsimp only
    rw [Tree.child?_behind]
    rcases t.child? .parameters with _ | ps
    · rfl
    · dsimp only [Option.map_some]
      rw [Tree.filter_children_behind q ps (· == .parameter), List.length_map]
  have hsignature := h.between _ _ ht.start hbody.start
  have hcode := h.between _ _ hbody.start hbody.stop
  have hspan : ∀ a b : Position, ∀ m n,
      ({ start := q.offset + m, stop := q.offset + n, startLine := (q.behind a).row + 1,
         stopLine := (q.behind b).row + 1, startColumn := (q.behind a).place } : Span) =
        Span.behind q ⟨m, n, a.row + 1, b.row + 1, a.place⟩ := fun a b m n => by
    simp only [Span.behind, Position.behind, Nat.add_assoc, Nat.add_eq_right, h.column]
  simp only [Rust.definition, Tree.start_behind, Tree.stop_behind,
    h.offset _ ht.start, h.offset _ hbody.start, h.offset _ hbody.stop, hsignature, hcode, hspan,
    Definition.behind]
  congr 1

theorem StandsIn.record (h : StandsIn q P whole core) (s : Setting) {t : Tree Kind}
    (ht : t.Within P) (found : BodyFindings) :
    record whole s (t.behind q) (found.behind q) = (Rust.record core s t found).behind q := by
  unfold Rust.record
  rw [Tree.child?_behind, Tree.child?_behind]
  rcases hname : t.child? .name with _ | n
  · rfl
  rcases hbody : t.child? .body with _ | body
  · rfl
  · simp only [Option.map_some, h.moved.text (ht.child? hname),
      h.definition s ht (ht.child? hbody), BodyFindings.behind, Findings.behind, List.map_cons,
      List.map_append, List.map_map]
    rfl

mutual

/-- **What is found in a piece of a body** that stands further on is the same further on. -/
theorem StandsIn.inBody (h : StandsIn q P whole core) (s : Setting) : ∀ t : Tree Kind,
    t.Within P → Rust.inBody whole s (t.behind q) = (Rust.inBody core s t).behind q
  | .node k r a b ts, ht => by
    have hname := nameOf_behind h.moved ht
    have hrecord := fun s found => h.record s ht found
    have hdecisions := ownDecisions_behind h.moved ht
    have hcalls := ownCalls_behind h.moved s.selfType ht
    have hfunction := fun s => inFunction h s ts ht.children
    have hbodies := inBodies h s ts ht.children
    rw [Tree.behind, Tree.behindAll_eq] at hname hrecord hdecisions hcalls ⊢
    rw [Rust.inBody, Rust.inBody]
    dsimp only
    split
    · rw [hname, hfunction, hrecord]
      rfl
    · split
      · rfl
      · rw [hdecisions, hcalls, hbodies, BodyFindings.add_behind]
        rfl

theorem StandsIn.inBodies (h : StandsIn q P whole core) (s : Setting) : ∀ ts : List (Tree Kind),
    (∀ t ∈ ts, t.Within P) → Rust.inBodies whole s (ts.map (Tree.behind q)) =
      (Rust.inBodies core s ts).behind q
  | [], _ => rfl
  | t :: ts, hts => by
    obtain ⟨ht, hts⟩ := List.forall_mem_cons.mp hts
    rw [List.map_cons, Rust.inBodies, Rust.inBodies, inBody h s t ht, inBodies h s ts hts,
      BodyFindings.add_behind]

theorem StandsIn.inFunction (h : StandsIn q P whole core) (s : Setting) : ∀ ts : List (Tree Kind),
    (∀ t ∈ ts, t.Within P) → Rust.inFunction whole s (ts.map (Tree.behind q)) =
      (Rust.inFunction core s ts).behind q
  | [], _ => rfl
  | t :: ts, hts => by
    obtain ⟨ht, hts⟩ := List.forall_mem_cons.mp hts
    rw [List.map_cons, Rust.inFunction, Rust.inFunction, Tree.role_behind, inBody h s t ht,
      inFunction h s ts hts]
    split <;> rfl

end

/-! ### Declarations -/

theorem StandsIn.ofFunction (h : StandsIn q P whole core) (s : Setting) {t : Tree Kind}
    (ht : t.Within P) :
    Rust.ofFunction whole s (t.behind q) = (Rust.ofFunction core s t).behind q := by
  rw [Rust.ofFunction, Rust.ofFunction, nameOf_behind h.moved ht, Tree.children_behind,
    h.inFunction _ _ ht.children, h.record s ht]

theorem StandsIn.ofMembers (h : StandsIn q P whole core) (s : Setting) {ts : List (Tree Kind)}
    (hts : ∀ t ∈ ts, t.Within P) :
    Rust.ofMembers whole s (ts.map (Tree.behind q)) = (Rust.ofMembers core s ts).behind q := by
  have hfilter : (ts.map (Tree.behind q)).filter (fun t => t.kind == .function) =
      (ts.filter fun t => t.kind == .function).map (Tree.behind q) := by
    rw [List.filter_map]
    congr 2
    funext t
    exact congrArg (· == Kind.function) (Tree.kind_behind q t)
  have hfold : ∀ (ts : List (Tree Kind)) (f : Findings), (∀ t ∈ ts, t.Within P) →
      (ts.map (Tree.behind q)).foldl (fun f t => f.add (Rust.ofFunction whole s t)) (f.behind q) =
        (ts.foldl (fun f t => f.add (Rust.ofFunction core s t)) f).behind q := by
    intro ts
    induction ts with
    | nil => exact fun _ _ => rfl
    | cons t ts ih =>
      intro f hts
      obtain ⟨ht, hts⟩ := List.forall_mem_cons.mp hts
      rw [List.map_cons, List.foldl_cons, List.foldl_cons, h.ofFunction s ht,
        ← Findings.add_behind, ih _ hts]
  rw [Rust.ofMembers, Rust.ofMembers, hfilter]
  exact hfold _ .none fun t ht => hts t (List.mem_of_mem_filter ht)

mutual

/-- **What the functions of a declaration amount to** that stands further on is the same further
on. -/
theorem StandsIn.ofItem (h : StandsIn q P whole core) (scope : List String) : ∀ t : Tree Kind,
    t.Within P → Rust.ofItem whole scope (t.behind q) = (Rust.ofItem core scope t).behind q
  | .node k r a b ts, ht => by
    have hfunction := h.ofFunction ⟨scope, none⟩ ht
    have htype : ((((Tree.node k r a b ts).behind q).child? .type).bind (typeName? whole)) =
        ((Tree.node k r a b ts).child? .type).bind (typeName? core) :=
      Tree.bind_child?_behind fun c hc => typeName?_behind h.moved c (ht.child? hc)
    have hname := nameOf_behind h.moved ht
    have hmembers := fun s => h.ofMembers s ht.children
    have hitems := fun scope => ofItems h scope ts ht.children
    rw [Tree.behind, Tree.behindAll_eq] at hfunction htype hname ⊢
    unfold Rust.ofItem
    dsimp only
    split
    · exact hfunction
    · rw [htype]
      split
      · exact hmembers _
      · rfl
    · rw [hname]
      exact hmembers _
    · rw [hname]
      exact hitems _
    · rfl

theorem StandsIn.ofItems (h : StandsIn q P whole core) (scope : List String) :
    ∀ ts : List (Tree Kind), (∀ t ∈ ts, t.Within P) →
      Rust.ofItems whole scope (ts.map (Tree.behind q)) =
        (Rust.ofItems core scope ts).behind q
  | [], _ => rfl
  | t :: ts, hts => by
    obtain ⟨ht, hts⟩ := List.forall_mem_cons.mp hts
    rw [List.map_cons, Rust.ofItems, Rust.ofItems, ofItem h scope t ht, ofItems h scope ts hts,
      Findings.add_behind]

end

end Outline.Rust

end Dossier
