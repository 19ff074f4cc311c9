import Dossier.Outline.Source
import Dossier.Proofs.Lexicon.Marked
import Dossier.Proofs.Lexicon.Python
import Dossier.Proofs.Lexicon.Rust
import Dossier.Proofs.Outline.RustBehind

/-!
# The outline of a program between blanks

A program is outlined alike with the blanks at its ends and without them, but for where its
functions stand: the blanks in front of it move them (`Dossier.Outline.Framed.exists_ofText`). The
four languages have one argument in common. Their tokens are the same tokens further on
(`Dossier.Lexicon.Reading`), so their trees are, and the outlines are read off those.

Two things have to be said of the blanks for that. Those in front of the program keep what has a
meaning at the very beginning of a file only from having it, and what the program ends with, the
continuation of a line or a comment that counts, may go on in those behind it. Few comments count:
in Python a function may end where its last comment does, and in Rust a line of documentation is
part of the program.
-/

namespace Dossier

open Lexicon (Plain Closed)

/-- **Whether a text opens with what has a meaning only at the beginning of a file**: a byte order
mark or, in Rust, the line that names the interpreter. -/
def Language.opensFile : Language → List Char → Bool
  | .rust, cs => Lexicon.Rust.opensFile cs
  | .python, cs | .go, cs | .java, cs => cs.head?.any (·.toNat == 0xFEFF)

/-- **Whether the blanks in front of a program and behind it are no part of what it says.** -/
structure Outline.Framed (l : Language) (lead core trail : List Char) : Prop where
  plain : Plain lead
  head : ∀ c ∈ core.head?, Text.isBlank c = false
  opens : lead ≠ [] → l.opensFile core = false
  closed : Closed l core trail

/-- The places of a text, behind the byte order mark that it may begin with. -/
def Position.In (cs : List Char) : Position → Prop :=
  (skipByteOrderMark cs).1.Of (skipByteOrderMark cs).2

namespace Lexicon

/-- The tokens of a text, behind the byte order mark that it may begin with. -/
def tokensOf (tokens : Position → List Char → List Token) (cs : List Char) : List Token :=
  tokens (Position.skipByteOrderMark cs).1 (Position.skipByteOrderMark cs).2

/-- **What is common to the ways to cut a text into tokens.** -/
structure Reading (l : Language) (tokens : Position → List Char → List Token) : Prop where
  behind : ∀ q p cs, tokens (q.behind p) cs = (tokens p cs).map (Token.behind q)
  within : ∀ p cs, ∀ t ∈ tokens p cs, t.Within (p.Of cs)
  before : ∀ {lead cs : List Char} (p : Position), Plain lead →
    (lead ≠ [] → l.opensFile cs = false) →
      tokens p (lead ++ cs) = tokens (p.advance lead) cs
  after : ∀ {cs trail : List Char} (p : Position), Closed l cs trail →
    (∀ t ∈ tokens p (cs ++ trail), t.kind ≠ .stray) → tokens p (cs ++ trail) = tokens p cs

theorem Confines.reading {l : Language} {lx : Lexicon} (h : lx.Confines l) :
    Reading l lx.tokens where
  behind := tokens_behind
  within := within_tokens
  before p hlead _ := h.tokens_plain_append p hlead _
  after p hclosed _ := h.tokens_append p hclosed

theorem Go.reading : Reading .go Go.tokens :=
  (confines_ofSpelling Go.confined_spelling .go).reading

theorem Java.reading : Reading .java Java.tokens :=
  (confines_ofSpelling Java.confined_spelling .java).reading

theorem Python.reading : Reading .python Python.tokens where
  behind := Python.tokens_behind
  within := Python.within_tokens
  before p hlead _ := Python.tokens_plain_append p hlead _
  after := Python.tokens_append

theorem Rust.reading : Reading .rust Rust.tokens where
  behind := Rust.tokens_behind
  within := Rust.within_tokens
  before := Rust.tokens_plain_append
  after p hclosed _ := Rust.tokens_append p hclosed

/-! ### The tokens of a program between blanks -/

variable {l : Language} {lead core trail : List Char}
  {tokens : Position → List Char → List Token}

theorem opensFile_append (h : Plain trail) (l : Language) (core : List Char) :
    l.opensFile (core ++ trail) = l.opensFile core := by
  have hmark := h.any_head? (by decide : Solid fun c => c.toNat == 0xFEFF) core
  cases l with
  | rust =>
    show Rust.opensFile (core ++ trail) = Rust.opensFile core
    rw [Rust.opensFile, Rust.opensFile, Rust.opensWithInterpreter_blanks h, hmark]
  | python | go | java => exact hmark

/-- A text that begins with a blank opens no file. -/
theorem opensFile_of_isPlain {c : Char} (h : isPlain c = true) (l : Language) (cs : List Char) :
    l.opensFile (c :: cs) = false := by
  have hfile := Rust.opensFile_of_isPlain h cs
  cases l with
  | rust => exact hfile
  | python | go | java => exact (Bool.or_eq_false_iff.mp hfile).1

/-- A text that begins like any other has no byte order mark. -/
theorem skipByteOrderMark_of_not_opensFile (h : l.opensFile core = false) :
    Position.skipByteOrderMark core = (Position.origin, core) := by
  have hnone : core.head?.any (fun c => c.toNat == 0xFEFF) = false := by
    cases l with
    | rust => exact (Bool.or_eq_false_iff.mp h).1
    | python | go | java => exact h
  rcases core with _ | ⟨c, cs⟩
  · rfl
  · have hmark : c.toNat ≠ 0xFEFF := by simpa using hnone
    rw [Position.skipByteOrderMark, if_neg hmark]

/-- Blanks behind a text leave the byte order mark of it. -/
theorem skipByteOrderMark_append (h : Plain trail) (core : List Char) :
    Position.skipByteOrderMark (core ++ trail) =
      ((Position.skipByteOrderMark core).1, (Position.skipByteOrderMark core).2 ++ trail) := by
  rcases core with _ | ⟨c, cs⟩
  · rcases trail with _ | ⟨b, trail⟩
    · rfl
    · have hopens : Language.python.opensFile (b :: trail) = false :=
        opensFile_of_isPlain h.of_cons.1 .python trail
      rw [List.nil_append, skipByteOrderMark_of_not_opensFile hopens]
      rfl
  · rw [List.cons_append, Position.skipByteOrderMark, Position.skipByteOrderMark]
    split <;> rfl

theorem Closed.skipByteOrderMark (h : Closed l core trail) :
    Closed l (Position.skipByteOrderMark core).2 trail := by
  rcases core with _ | ⟨c, cs⟩
  · exact h
  · rw [Position.skipByteOrderMark]
    split
    · exact h.of_cons
    · exact h

/-- **The tokens of a program between blanks** are those of the program further on. -/
theorem Reading.tokensOf_framed (hreading : Reading l tokens)
    (h : Outline.Framed l lead core trail)
    (hstray : ∀ t ∈ tokensOf tokens (lead ++ core ++ trail), t.kind ≠ .stray) :
    tokensOf tokens (lead ++ core ++ trail) =
      (tokensOf tokens core).map (Token.behind (Position.origin.advance lead)) := by
  have htrail := h.closed.plain
  -- A byte order mark is taken off at the head of the text, unless a blank stands there.
  rcases lead with _ | ⟨b, lead⟩
  · have hid : Token.behind (Position.origin.advance []) = id := by
      funext t
      exact congrArg₂ (fun a b => (⟨t.kind, t.text, a, b, t.freshLine⟩ : Token))
        (Position.origin_behind t.start) (Position.origin_behind t.stop)
    rw [List.nil_append] at hstray ⊢
    rw [hid, List.map_id]
    simp only [tokensOf, skipByteOrderMark_append htrail] at hstray ⊢
    exact hreading.after _ h.closed.skipByteOrderMark hstray
  · have hopens := h.opens (List.cons_ne_nil _ _)
    have hwhole : l.opensFile (b :: lead ++ core ++ trail) = false :=
      opensFile_of_isPlain h.plain.of_cons.1 l _
    have hmoved := hreading.before .origin h.plain
      fun _ => (opensFile_append htrail l core).trans hopens
    rw [tokensOf, skipByteOrderMark_of_not_opensFile hwhole] at hstray ⊢
    rw [tokensOf, skipByteOrderMark_of_not_opensFile hopens, ← hreading.behind,
      Position.behind_origin]
    rw [List.append_assoc, hmoved] at hstray ⊢
    exact hreading.after _ h.closed hstray

/-- The tokens of a text stand at places of the text. -/
theorem Reading.within_tokensOf (hreading : Reading l tokens) (cs : List Char) :
    ∀ t ∈ tokensOf tokens cs, t.Within (Position.In cs) :=
  hreading.within _ _

end Lexicon

/-! ### Grammars that take only tokens of the language -/

namespace Syntax

theorem Go.noStray_rule (s : Go.Symbol) : (Go.rule s).noStray = true := by
  cases s with
  | simple p | expressions p | primary p => cases p <;> rfl
  | binary p level =>
    rw [Go.rule]
    rcases Go.operators[level]? with _ | marks
    · rfl
    · cases p <;> simp [Go.infixChain, Go.goesOn]
  | _ => rfl

theorem Java.noStray_rule (s : Java.Symbol) : (Java.rule s).noStray = true := by
  cases s with
  | binary level =>
    rw [Java.rule]
    rcases Java.operators[level]? with _ | marks
    · rfl
    · have htest : Java.typeTest.noStray = true := rfl
      by_cases hlevel : level = Java.relationalLevel <;> simp [Java.infixChain, hlevel, htest]
  | _ => rfl

theorem Python.noStray_rule (s : Python.Symbol) : (Python.rule s).noStray = true := by
  cases s with
  | binary level =>
    rw [Python.rule]
    rcases Python.operators[level]? with _ | marks
    · rfl
    · simp [Python.infixChain]
  | _ => rfl

end Syntax

/-! ### Reading a program between blanks -/

variable {l : Language} {lead core trail : List Char} {whole : String} {o : Outline}

theorem Position.In.offset_le {p : Position} (h : In core p) : p.offset ≤ Text.byteSize core := by
  obtain ⟨read, ⟨rest, hrest⟩, rfl⟩ := h
  obtain ⟨start, hcore, hoffset⟩ := before_skipByteOrderMark (String.ofList core)
  rw [String.toList_ofList] at hcore hoffset
  rw [offset_advance, hoffset, hcore, ← hrest, Text.byteSize_append, Text.byteSize_append]
  omega

theorem Position.offset_advance_origin (cs : List Char) :
    (origin.advance cs).offset = Text.byteSize cs := by
  rw [offset_advance]
  exact Nat.zero_add _

/-- What stands in a program stands in the text further on. -/
theorem slice_framed (hwhole : whole.toList = lead ++ core ++ trail) {m n : Nat}
    (hm : m ≤ Text.byteSize core) (hn : n ≤ Text.byteSize core) :
    Text.slice ((Position.origin.advance lead).offset + m)
        ((Position.origin.advance lead).offset + n) whole =
      Text.slice m n (String.ofList core) := by
  have hcore : (String.ofList core).toList = core := String.toList_ofList
  rw [Position.offset_advance_origin]
  exact Text.slice_surrounded (by rw [hcore, hwhole]) (by rwa [hcore]) (by rwa [hcore])

theorem movedBy_framed (hwhole : whole.toList = lead ++ core ++ trail) :
    MovedBy (Position.origin.advance lead) (Position.In core) whole (String.ofList core) :=
  fun _ _ ha hb => slice_framed hwhole ha.offset_le hb.offset_le

/-- **The tree of a program between blanks** is the tree of the program further on, if it has
tokens at all. -/
theorem Lexicon.Reading.parse?_framed {σ κ : Type} {g : Grammar σ κ} {t : Tree κ}
    {tokens : Position → List Char → List Token} (hreading : Reading l tokens)
    (h : Outline.Framed l lead core trail)
    (hstray : ∀ t ∈ tokensOf tokens (lead ++ core ++ trail), t.kind ≠ .stray)
    (hparse : g.parse? (tokensOf tokens (lead ++ core ++ trail)) = some t) :
    tokensOf tokens core = [] ∧ g.parse? [] = some t ∨
      tokensOf tokens core ≠ [] ∧ ∃ t', g.parse? (tokensOf tokens core) = some t' ∧
        t'.Within (Position.In core) ∧ t = t'.behind (Position.origin.advance lead) := by
  rw [hreading.tokensOf_framed h hstray] at hparse
  by_cases htokens : tokensOf tokens core = []
  · rw [htokens] at hparse
    exact .inl ⟨htokens, hparse⟩
  · rw [Grammar.parse?_behind _ _ htokens] at hparse
    obtain ⟨t', ht', rfl⟩ := Option.map_eq_some_iff.mp hparse
    have hwithin := g.within_of_parse? (hreading.within_tokensOf core) htokens ht'
    exact .inr ⟨htokens, t', ht', hwithin, rfl⟩

namespace Outline

/-- **A program between blanks is outlined like the program**, by a dialect that asks for nothing
but the pieces of the text. -/
theorem exists_of_dialect {σ κ : Type} {g : Grammar σ κ} {d : Dialect κ}
    {tokens : Position → List Char → List Token} {ofText : String → Except Diagnosis Outline}
    (hok : ∀ {source o}, ofText source = .ok o ↔
      ∃ t, g.parse? (Lexicon.tokensOf tokens source.toList) = some t ∧ d.outline source t = o)
    (hreading : Lexicon.Reading l tokens) (hrules : ∀ s, (g.rule s).noStray = true)
    (hd : ∀ {q P whole core}, MovedBy q P whole core → d.MovedBy q P whole core)
    (hnone : ∀ {t}, g.parse? [] = some t → ∀ source, d.outline source t = ⟨d.language, [], []⟩)
    (h : Framed l lead core trail) (hwhole : whole.toList = lead ++ core ++ trail)
    (ho : ofText whole = .ok o) :
    ∃ o', ofText (String.ofList core) = .ok o' ∧
      o = o'.behind (Position.origin.advance lead) := by
  obtain ⟨t, hparse, rfl⟩ := hok.mp ho
  rw [hwhole] at hparse
  have hcoreok : ∀ {t'}, g.parse? (Lexicon.tokensOf tokens core) = some t' →
      ofText (String.ofList core) = .ok (d.outline (String.ofList core) t') := fun ht' =>
    hok.mpr ⟨_, String.toList_ofList.symm ▸ ht', rfl⟩
  have hstray := Grammar.noStray_of_parse? hrules hparse
  obtain ⟨htokens, hempty⟩ | ⟨-, t', hcore, hwithin, rfl⟩ :=
    hreading.parse?_framed h hstray hparse
  · refine ⟨_, hcoreok (htokens ▸ hempty), ?_⟩
    rw [hnone hempty, hnone hempty]
    rfl
  · exact ⟨_, hcoreok hcore, (hd (movedBy_framed hwhole)).outline hwithin⟩

/-! ### Rust -/

namespace Rust

open Text (WholeLines)

/-- **What is skipped at the beginning of a text**: a byte order mark, if the text begins with one,
and neither a line nor a character of the rest. -/
structure Skipped (cs mark : List Char) (start : Position) (rest : List Char) : Prop where
  text : cs = mark ++ rest
  mark_eq : mark = if cs.head? = some '\ufeff' then ['\ufeff'] else []
  offset : start.offset = Text.byteSize mark
  row : start.row = 0
  place : start.place = 0

theorem Skipped.notMem {cs mark rest : List Char} {start : Position}
    (h : Skipped cs mark start rest) : '\n' ∉ mark := by
  rw [h.mark_eq]
  split <;> decide

theorem exists_skipped (cs : List Char) :
    ∃ mark, Skipped cs mark (Position.skipByteOrderMark cs).1
      (Position.skipByteOrderMark cs).2 := by
  rcases cs with _ | ⟨c, cs⟩
  · exact ⟨[], rfl, rfl, rfl, rfl, rfl⟩
  · rw [Position.skipByteOrderMark]
    split
    · next hmark =>
      obtain rfl : c = '\ufeff' := Char.toNat_inj.mp hmark
      exact ⟨['\ufeff'], rfl, rfl, rfl, rfl, rfl⟩
    · next hmark =>
      have hhead : (c :: cs).head? ≠ some '\ufeff' := fun heq =>
        hmark (Option.some.inj heq ▸ rfl)
      exact ⟨[], rfl, (if_neg hhead).symm, rfl, rfl, rfl⟩

theorem stands_of_in {p : Position} (h : Position.In core p) : Stands core p := by
  obtain ⟨read, ⟨rest, hrest⟩, rfl⟩ := h
  obtain ⟨mark, hskipped⟩ := exists_skipped core
  have hmark := hskipped.notMem
  obtain ⟨before, line, rfl, hbefore, hline⟩ := Text.exists_wholeLines read
  obtain ⟨hcount, hlength⟩ :=
    Position.row_place_advance hskipped.row hskipped.place hbefore hline
  have hcore := hskipped.text
  rw [← hrest] at hcore
  by_cases hfirst : before = []
  · -- The place is on the first line, which has the byte order mark on it.
    refine ⟨[], core, rfl, Text.wholeLines_nil, by rw [hcount, hfirst], ?_⟩
    rw [hlength, hcore]
    simp only [List.length_append]
    omega
  · -- It is on a later line, and the mark is on one of those above.
    refine ⟨mark ++ before, line ++ rest, ?_, hbefore.append hfirst mark, ?_, ?_⟩
    · rw [hcore]
      simp only [List.append_assoc]
    · rw [hcount, List.count_append, List.count_eq_zero.mpr hmark, Nat.zero_add]
    · rw [hlength, List.length_append]
      exact Nat.le_add_right _ _

theorem column_advance (h : Lexicon.Plain lead) {p : Position} (hp : p.column = p.place) :
    (p.advance lead).column = (p.advance lead).place := by
  induction lead generalizing p with
  | nil => exact hp
  | cons b lead ih =>
    obtain ⟨hb, hlead⟩ := h.of_cons
    have hsize : b.utf8Size = 1 := by
      have hall : ∀ c ∈ [' ', '\t', '\n', '\r', '\x0c'], c.utf8Size = 1 := by decide
      exact hall b (List.contains_iff_mem.mp hb)
    refine ih hlead ?_
    rw [Position.next]
    split
    · rfl
    · dsimp only
      rw [hsize, hp]

theorem standsIn_framed (h : Framed l lead core trail) (hcore : core ≠ [])
    (hwhole : whole.toList = lead ++ core ++ trail) :
    StandsIn (Position.origin.advance lead) (Position.In core) whole (String.ofList core) where
  moved := movedBy_framed hwhole
  offset p hp := by
    have hhead : core.head? ≠ some '\n' := fun heq => absurd (h.head '\n' heq) (by decide)
    have hlast : ∀ c ∈ core.getLast?, c ≠ '\r' := by
      rintro c hc rfl
      exact absurd (h.closed.notBlank '\r' hc) (by decide)
    rw [offsetOf, offsetOf, hwhole, String.toList_ofList, Position.offset_advance_origin]
    exact offsetAt_surrounded (stands_of_in hp) hhead hlast hcore
  between a b _ _ := by
    refine slice_framed hwhole ?_ ?_ <;>
      (rw [offsetOf, String.toList_ofList]; exact offsetAt_le _ _ _)
  column := column_advance h.plain rfl

theorem ofText_eq_ok_iff :
    ofText whole = .ok o ↔
      Lexicon.Rust.mismatch? [] (Lexicon.tokensOf Lexicon.Rust.tokens whole.toList) = none ∧
        ∃ t, Syntax.Rust.grammar.parse? (Lexicon.tokensOf Lexicon.Rust.tokens whole.toList) =
          some t ∧
          .ofUnordered .rust (ofItems whole [] t.children).definitions
            (ofItems whole [] t.children).calls = o := by
  unfold ofText Lexicon.tokensOf
  dsimp only
  split
  · next hmismatch => simp [hmismatch]
  · next hmatch =>
    split
    · next t hparse => simp [hmatch, hparse]
    · next hparse => simp [hparse]

theorem exists_ofText_framed (h : Framed .rust lead core trail)
    (hwhole : whole.toList = lead ++ core ++ trail) (ho : ofText whole = .ok o) :
    ∃ o', ofText (String.ofList core) = .ok o' ∧
      o = o'.behind (Position.origin.advance lead) := by
  have hreading := Lexicon.Rust.reading
  obtain ⟨hmatch, t, hparse, rfl⟩ := ofText_eq_ok_iff.mp ho
  rw [hwhole] at hmatch hparse
  have hstray := Lexicon.Rust.noStray_of_mismatch? hmatch
  -- The brackets match without the blanks, since they match further on.
  have hcorematch :
      Lexicon.Rust.mismatch? [] (Lexicon.tokensOf Lexicon.Rust.tokens core) = none := by
    have hbehind := Lexicon.Rust.mismatch?_behind (Position.origin.advance lead) []
      (Lexicon.tokensOf Lexicon.Rust.tokens core)
    rw [hreading.tokensOf_framed h hstray] at hmatch
    rw [List.map_nil, hmatch] at hbehind
    exact Option.map_eq_none_iff.mp hbehind.symm
  have hok : ∀ {t'}, Syntax.Rust.grammar.parse? (Lexicon.tokensOf Lexicon.Rust.tokens core) =
      some t' → ofText (String.ofList core) = .ok (.ofUnordered .rust
        (ofItems (String.ofList core) [] t'.children).definitions
        (ofItems (String.ofList core) [] t'.children).calls) := fun ht' => by
    refine ofText_eq_ok_iff.mpr ?_
    rw [String.toList_ofList]
    exact ⟨hcorematch, _, ht', rfl⟩
  obtain ⟨htokens, hempty⟩ | ⟨htokens, t', hcore, hwithin, rfl⟩ :=
    hreading.parse?_framed h hstray hparse
  · -- There is nothing between the blanks.
    refine ⟨_, hok (htokens ▸ hempty), ?_⟩
    have htree : Syntax.Rust.grammar.parse? [] = some (.node .file none .origin .origin []) := rfl
    obtain rfl := Option.some.inj (htree.symm.trans hempty)
    rfl
  · have hne : core ≠ [] := by
      rintro rfl
      exact htokens rfl
    have hitems := (standsIn_framed h hne hwhole).ofItems [] t'.children hwithin.children
    refine ⟨_, hok hcore, ?_⟩
    rw [Tree.children_behind, hitems]
    exact ofUnordered_behind _ _ _ _

end Rust

/-! ### Every language -/

section Dialects

open Lexicon (tokensOf)

theorem Go.ofText_eq_ok_iff :
    Go.ofText whole = .ok o ↔
      ∃ t, Syntax.Go.grammar.parse? (tokensOf Lexicon.Go.tokens whole.toList) = some t ∧
        Go.dialect.outline whole t = o := by
  unfold Go.ofText tokensOf
  dsimp only
  split <;> simp [*]

theorem Java.ofText_eq_ok_iff :
    Java.ofText whole = .ok o ↔
      ∃ t, Syntax.Java.grammar.parse? (tokensOf Lexicon.Java.tokens whole.toList) = some t ∧
        Java.dialect.outline whole t = o := by
  unfold Java.ofText tokensOf
  dsimp only
  split <;> simp [*]

theorem Python.ofText_eq_ok_iff :
    Python.ofText whole = .ok o ↔
      ∃ t, Syntax.Python.grammar.parse? (tokensOf Lexicon.Python.tokens whole.toList) = some t ∧
        Python.dialect.outline whole t = o := by
  unfold Python.ofText tokensOf
  dsimp only
  split <;> simp [*]

end Dialects

/-- A text without tokens is a file without functions. -/
theorem outline_of_parse?_nil {σ κ : Type} {g : Grammar σ κ} {d : Dialect κ} {t file : Tree κ}
    (hfile : g.parse? [] = some file)
    (hoff : ∀ source, d.outline source file = ⟨d.language, [], []⟩) (h : g.parse? [] = some t)
    (source : String) : d.outline source t = ⟨d.language, [], []⟩ := by
  obtain rfl := Option.some.inj (hfile.symm.trans h)
  exact hoff source

theorem Go.parse?_nil :
    Syntax.Go.grammar.parse? [] = some (.node .file none .origin .origin []) :=
  rfl

theorem Java.parse?_nil :
    Syntax.Java.grammar.parse? [] = some (.node .file none .origin .origin []) :=
  rfl

theorem Python.parse?_nil :
    Syntax.Python.grammar.parse? [] = some (.node .file none .origin .origin []) :=
  rfl

/-- **A program between blanks is outlined like the program further on.** -/
theorem Framed.exists_ofText (h : Framed l lead core trail)
    (hwhole : whole.toList = lead ++ core ++ trail) (ho : ofText l whole = .ok o) :
    ∃ o', ofText l (String.ofList core) = .ok o' ∧
      o = o'.behind (Position.origin.advance lead) := by
  unfold ofText at ho ⊢
  cases l with
  | python =>
    dsimp only at ho ⊢
    exact exists_of_dialect Python.ofText_eq_ok_iff Lexicon.Python.reading
      Syntax.Python.noStray_rule Python.movedBy
      (outline_of_parse?_nil Python.parse?_nil fun _ => rfl) h hwhole ho
  | go =>
    dsimp only at ho ⊢
    exact exists_of_dialect Go.ofText_eq_ok_iff Lexicon.Go.reading Syntax.Go.noStray_rule
      Go.movedBy (outline_of_parse?_nil Go.parse?_nil fun _ => rfl) h hwhole ho
  | java =>
    dsimp only at ho ⊢
    exact exists_of_dialect Java.ofText_eq_ok_iff Lexicon.Java.reading Syntax.Java.noStray_rule
      Java.movedBy (outline_of_parse?_nil Java.parse?_nil fun _ => rfl) h hwhole ho
  | rust => exact Rust.exists_ofText_framed h hwhole ho

end Outline

end Dossier
