import Dossier.Proofs.Outline.Framed
import Dossier.Proofs.Outline.Rust

/-!
# Where the functions of a Rust file are said to stand

A function with a body lies in the text that is read for it: its signature begins with one of a few
words, its body follows in curly brackets, and the places that the tree has for them are those to
which the text has been read (`Dossier.Outline.Rust.laid_of_runs`). A definition has byte offsets
instead, which are found by the lines and the characters of these places. They always lie between
characters of the text and in order (`Dossier.Outline.Rust.isSome_slice?_advance`).

They are the offsets of the places, whatever the characters of the text and the ends of its lines,
but on one line: a byte order mark at the beginning of the text is skipped, and is no character of
the first line, where it is counted as one again. So the definition of a function is exact unless
the function begins on the first line of such a text (`Dossier.Outline.Rust.span_exact_iff`).
-/

namespace Dossier

deriving instance DecidableEq for Rule

namespace Outline.Rust

open Syntax.Rust
open Rule (inOrder oneOf oneMark opt word mark braces)

/-! ### Rules that build functions -/

/-- The parts of a function that has a body. -/
def functionParts : R :=
  inOrder [signature, .role .body (.sym .block)]

/-- **Whether a rule builds functions only of their parts.** -/
@[simp] def wholeFunctions : R → Bool
  | .node k a => (k != .function || decide (a = functionParts)) && wholeFunctions a
  | .wrap k _ a => k != .function && wholeFunctions a
  | .both a b | .either a b => wholeFunctions a && wholeFunctions b
  | .many a | .role _ a => wholeFunctions a
  | .empty | .never | .sym _ | .token _ | .ahead _ | .notAhead _ | .freshLine => true

@[simp] theorem wholeFunctions_inOrder (rs : List R) :
    wholeFunctions (inOrder rs) = rs.all wholeFunctions :=
  Rule.all_inOrder rfl (fun _ _ => rfl) rs

@[simp] theorem wholeFunctions_oneOf (rs : List R) :
    wholeFunctions (oneOf rs) = rs.all wholeFunctions :=
  Rule.all_oneOf rfl (fun _ _ => rfl) rs

/-- Marks build nothing. -/
@[simp] theorem wholeFunctions_oneMark (ss : List String) : wholeFunctions (oneMark ss) = true := by
  rw [oneMark, wholeFunctions_oneOf, List.all_map]
  exact List.all_eq_true.mpr fun _ _ => rfl

theorem wholeFunctions_rule (s : Symbol) : wholeFunctions (rule s) = true := by
  cases s with
  | range p | atom p => cases p <;> rfl
  | binary p level =>
    rw [rule]
    rcases operators[level]? with _ | marks
    · rfl
    · by_cases hlevel : level = comparisonLevel <;> simp [infixChain, hlevel, opt]
  | function => decide +kernel
  | _ => rfl

/-- Only a function puts something in the role of its body. -/
theorem leavesNo_rule (s : Symbol) : (rule s).leavesNo .body = true := by
  cases s with
  | range p | atom p => cases p <;> rfl
  | binary p level =>
    rw [rule]
    rcases operators[level]? with _ | marks
    · rfl
    · by_cases hlevel : level = comparisonLevel <;> simp [infixChain, hlevel, opt]
  | _ => rfl

/-! ### Signatures and bodies -/

/-- The words that the signature of a function can begin with. -/
def introducers : List String :=
  ["const", "async", "unsafe", "safe", "extern", "fn"]

/-- What stands in curly brackets. -/
def block (inner : List Char) : List Char :=
  '\x7b' :: (inner ++ ['\x7d'])

theorem getLast?_block (before inner : List Char) :
    (before ++ block inner).getLast? = some '\x7d' := by
  rw [block, ← List.cons_append, ← List.append_assoc, List.getLast?_concat]

/-- No signature begins with the end of a line. -/
theorem head?_ne_of_introducer {w : String} {signature : List Char} (hw : w ∈ introducers)
    (h : w.toList <+: signature) (rest : List Char) : (signature ++ rest).head? ≠ some '\n' := by
  have hall : ∀ w ∈ introducers, w.toList ≠ [] ∧ w.toList.head? ≠ some '\n' := by decide
  obtain ⟨hne, hhead⟩ := hall w hw
  obtain ⟨more, rfl⟩ := h
  rwa [List.append_assoc, List.head?_append_of_ne_nil _ hne]

section Runs

variable {start : Position} {cs read : List Char} {words : List Token} {p q : Parse Kind}

theorem of_word {s : String} (h : grammar.Runs (word s) p q) (hp : p.ReadTo start cs words read) :
    ∃ gap, ∃ w ∈ words, w.text = s ∧ p.nextStart = w.start ∧
      p.nextStart = start.advance (read ++ gap) ∧
      q.ReadTo start cs words (read ++ gap ++ s.toList) := by
  cases h with
  | token h =>
    obtain ⟨gap, piece, hq, hnext, ⟨t, ts, htokens, haccepts, rfl⟩ | ⟨s', hs'⟩⟩ := hp.consume? h
    · obtain ⟨hkind, htext⟩ := Bool.and_eq_true_iff.mp haccepts
      have htext := beq_iff_eq.mp htext
      have hmem : t ∈ words := hp.words t (htokens ▸ List.mem_cons_self) hkind
      exact ⟨gap, t, hmem, htext, by rw [Parse.nextStart, htokens], hnext, htext ▸ hq⟩
    · cases hs'

theorem of_mark {s : String} (h : grammar.Runs (mark s) p q) (hp : p.ReadTo start cs words read) :
    ∃ gap, p.nextStart = start.advance (read ++ gap) ∧
      q.ReadTo start cs words (read ++ gap ++ s.toList) := by
  cases h with
  | token h =>
    obtain ⟨gap, piece, hq, hnext, ⟨t, ts, htokens, haccepts, rfl⟩ | ⟨s', hs'⟩⟩ := hp.consume? h
    · have htext := beq_iff_eq.mp (Bool.and_eq_true_iff.mp haccepts).2
      exact ⟨gap, hnext, htext ▸ hq⟩
    · cases hs'

/-- **A signature begins with one of these words.** All that may stand before `fn` may be left out,
so there is one case for each of them. -/
theorem of_signature (h : grammar.Runs signature p q) (hp : p.ReadTo start cs words read) :
    ∃ gap, ∃ w ∈ words, ∃ more, w.text ∈ introducers ∧ p.nextStart = w.start ∧
      p.nextStart = start.advance (read ++ gap) ∧
      q.ReadTo start cs words (read ++ gap ++ (w.text.toList ++ more)) := by
  -- What is read first is the word, and the rest of the signature goes on from there.
  have hopened : ∀ {s : String} {r : R} {m : Parse Kind}, s ∈ introducers →
      grammar.Runs (word s) p m → grammar.Runs r m q →
      ∃ gap, ∃ w ∈ words, ∃ more, w.text ∈ introducers ∧ p.nextStart = w.start ∧
        p.nextStart = start.advance (read ++ gap) ∧
        q.ReadTo start cs words (read ++ gap ++ (w.text.toList ++ more)) := by
    intro s r m hs hword hrest
    obtain ⟨gap, w, hw, rfl, hstart, hnext, hm⟩ := of_word hword hp
    obtain ⟨more, hq⟩ := hrest.readTo hm
    exact ⟨gap, w, hw, more, hs, hstart, hnext, List.append_assoc .. ▸ hq⟩
  obtain ⟨m, hconst, hrest⟩ := Grammar.Runs.exists_of_both h
  obtain hconst | rfl := hconst.of_opt
  · exact hopened (by decide) hconst hrest
  obtain ⟨m, hasync, hrest⟩ := hrest.exists_of_both
  obtain hasync | rfl := hasync.of_opt
  · exact hopened (by decide) hasync hrest
  obtain ⟨m, hsafety, hrest⟩ := hrest.exists_of_both
  obtain hsafety | rfl := hsafety.of_opt
  · cases hsafety with
    | first hunsafe => exact hopened (by decide) hunsafe hrest
    | second hsafe =>
      obtain ⟨m', hsafe, hahead⟩ := Grammar.Runs.exists_of_both hsafe
      exact hopened (by decide) hsafe (.both hahead hrest)
  obtain ⟨m, habi, hrest⟩ := hrest.exists_of_both
  obtain habi | rfl := habi.of_opt
  · obtain ⟨m', hextern, hname⟩ := Grammar.Runs.exists_of_both habi
    exact hopened (by decide) hextern (.both hname hrest)
  obtain ⟨m, hfn, hrest⟩ := hrest.exists_of_both
  exact hopened (by decide) hfn hrest

theorem of_braces {r : R} (h : grammar.Runs (braces r) p q) (hp : p.ReadTo start cs words read) :
    ∃ gap inner, p.nextStart = start.advance (read ++ gap) ∧
      q.ReadTo start cs words (read ++ gap ++ block inner) := by
  obtain ⟨m, hopen, hrest⟩ := Grammar.Runs.exists_of_both h
  obtain ⟨m', hinner, hclose⟩ := hrest.exists_of_both
  obtain ⟨gap, hnext, hm⟩ := of_mark hopen hp
  obtain ⟨more, hm'⟩ := hinner.readTo hm
  obtain ⟨gap', -, hq⟩ := of_mark hclose hm'
  have htext : read ++ gap ++ "\x7b".toList ++ more ++ gap' ++ "\x7d".toList =
      read ++ gap ++ block (more ++ gap') := by
    simp [block]
  exact ⟨gap, more ++ gap', hnext, htext ▸ hq⟩

/-- **A body stands between curly brackets.** -/
theorem of_body (h : grammar.Runs (.role .body (.sym .block)) p q)
    (hp : p.ReadTo start cs words read) :
    ∃ gap inner body, q.trees = body :: p.trees ∧ body.role = some .body ∧
      body.start = start.advance (read ++ gap) ∧ body.stop = q.last ∧
      q.ReadTo start cs words (read ++ gap ++ block inner) := by
  cases h with
  | role h =>
  cases h with
  | sym h =>
  have hnode : ∀ {r : R} {q : Parse Kind},
      grammar.Runs (.node .block (braces r)) { p with trees := [] } q →
      ∃ gap inner body, q.trees.map (Tree.withRole .body) ++ p.trees = body :: p.trees ∧
        body.role = some .body ∧ body.start = start.advance (read ++ gap) ∧
        body.stop = q.last ∧ q.ReadTo start cs words (read ++ gap ++ block inner) := by
    intro r q h
    cases h with
    | node h =>
    obtain ⟨gap, inner, hnext, hq⟩ := of_braces h (hp.withTrees _)
    refine ⟨gap, inner, _, rfl, rfl, ?_, rfl, hq.withTrees _⟩
    exact ((hp.withTrees []).startOf (List.append_assoc .. ▸ hq) (by simp [block])).trans hnext
  obtain ⟨gap, inner, body, htrees, hrole, hstart, hstop, hq⟩ := hnode h
  exact ⟨gap, inner, body, htrees, hrole, hstart, hstop, hq.withTrees _⟩

/-! ### Functions -/

/-- **Whether a function and its body lie in a text** so: behind the lead there is a signature that
begins with one of the words, and behind that the body in its brackets. -/
structure Lies (start : Position) (cs : List Char) (words : List Token)
    (lead signature inner : List Char) (t body : Tree Kind) : Prop where
  opened : ∃ w ∈ words, w.text ∈ introducers ∧ w.start = t.start ∧ w.text.toList <+: signature
  inText : lead ++ (signature ++ block inner) <+: cs
  start_eq : t.start = start.advance lead
  body_start : body.start = start.advance (lead ++ signature)
  body_stop : body.stop = start.advance (lead ++ (signature ++ block inner))

/-- Whether a node lies in a text, if it is a function with a body. -/
def Laid (start : Position) (cs : List Char) (words : List Token) (t : Tree Kind) : Prop :=
  t.kind = .function → ∀ body, t.child? .body = some body →
    ∃ lead signature inner, Lies start cs words lead signature inner t body

/-- The role of a function is no matter for where it lies. -/
theorem Laid.withRole (t : Tree Kind) (r : Role) (h : Laid start cs words t) :
    Laid start cs words (t.withRole r) := by
  cases t with
  | node k r' a b ts =>
    intro hkind body hbody
    obtain ⟨lead, signature, inner, hlies⟩ := h hkind body hbody
    exact ⟨lead, signature, inner, hlies.opened, hlies.inText, hlies.start_eq, hlies.body_start,
      hlies.body_stop⟩

/-- **A function with a body lies in the text that is read for it.** -/
theorem of_functionParts (h : grammar.Runs functionParts { p with trees := [] } q)
    (hp : p.ReadTo start cs words read) :
    Laid start cs words (.node .function none (p.startOf q) q.last q.trees.reverse) := by
  intro _ body hbody
  obtain ⟨m, hsignature, hblock⟩ := Grammar.Runs.exists_of_both h
  obtain ⟨gap, w, hw, more, hopens, hstart, hnext, hm⟩ := of_signature hsignature (hp.withTrees [])
  obtain ⟨gap', inner, last, htrees, hrole, hbegin, hend, hq⟩ := of_body hblock hm
  -- The body is the last child, and the first one in its role.
  have hchild : q.trees.reverse.find? (fun c => c.role == some .body) = some last := by
    have hnone : m.trees.reverse.find? (fun c => c.role == some .body) = none := by
      refine List.find?_eq_none.mpr fun c hc hbody' => ?_
      exact hsignature.leavesNo leavesNo_rule (by decide +kernel)
        (fun _ h => absurd h List.not_mem_nil) c (List.mem_reverse.mp hc) (beq_iff_eq.mp hbody')
    rw [htrees, List.reverse_cons, List.find?_append, hnone, Option.none_or, List.find?_singleton,
      hrole]
    rfl
  obtain rfl : last = body := Option.some.inj (hchild.symm.trans hbody)
  have hsplit : read ++ gap ++ (w.text.toList ++ more) ++ gap' =
      read ++ gap ++ (w.text.toList ++ more ++ gap') := List.append_assoc ..
  rw [hsplit] at hbegin hq
  rw [List.append_assoc] at hq
  have hnode : p.startOf q = p.nextStart :=
    hp.startOf (List.append_assoc .. ▸ hq) (by simp [block])
  refine ⟨read ++ gap, w.text.toList ++ more ++ gap', inner, ⟨w, hw, hopens, ?_, ?_⟩, hq.inText,
    hnode.trans hnext, hbegin, hend.trans hq.last⟩
  · exact hstart.symm.trans hnode.symm
  · exact List.append_assoc .. ▸ List.prefix_append _ _

/-- **A run leaves functions that lie in the text.** -/
theorem laid_of_runs {r : R} (h : grammar.Runs r p q) (hr : wholeFunctions r = true)
    (hp : p.ReadTo start cs words read) (htrees : ∀ t ∈ p.trees, t.Every (Laid start cs words)) :
    ∀ t ∈ q.trees, t.Every (Laid start cs words) := by
  -- Nodes of other kinds lie in the text if those below them do.
  have hother : ∀ {k : Kind} {a b : Position} {ts : List (Tree Kind)}, k ≠ .function →
      (∀ t ∈ ts, t.Every (Laid start cs words)) →
        (Tree.node k none a b ts.reverse).Every (Laid start cs words) := fun hk hts =>
    .node (fun hkind => absurd hkind hk) fun t ht => hts t (List.mem_reverse.mp ht)
  induction h generalizing read with
  | empty | stop | ahead | notAhead | freshLine => exact htrees
  | sym _ ih => exact ih (wholeFunctions_rule _) hp htrees
  | token h =>
    rw [Grammar.trees_of_consume? h]
    exact htrees
  | both ha _ iha ihb =>
    obtain ⟨hra, hrb⟩ := Bool.and_eq_true_iff.mp hr
    obtain ⟨more, hm⟩ := ha.readTo hp
    exact ihb hrb hm (iha hra hp htrees)
  | first _ ih => exact ih (Bool.and_eq_true_iff.mp hr).1 hp htrees
  | second _ ih => exact ih (Bool.and_eq_true_iff.mp hr).2 hp htrees
  | more ha _ iha ihb =>
    obtain ⟨more, hm⟩ := ha.readTo hp
    exact ihb hr hm (iha hr hp htrees)
  | @node k a p q h ih =>
    obtain ⟨hparts, ha⟩ := Bool.and_eq_true_iff.mp hr
    have hbelow := ih ha (hp.withTrees _) fun _ h => absurd h List.not_mem_nil
    refine List.forall_mem_cons.mpr ⟨?_, htrees⟩
    -- A function is made by the rule for its parts, and by no other.
    by_cases hk : k = .function
    · subst hk
      obtain rfl : a = functionParts := by simpa using hparts
      exact .node (of_functionParts h hp) fun t ht => hbelow t (List.mem_reverse.mp ht)
    · exact hother hk hbelow
  | @wrap k r a p q t ts ht _ ih =>
    obtain ⟨hk, ha⟩ := Bool.and_eq_true_iff.mp hr
    obtain ⟨hfirst, hrest⟩ := List.forall_mem_cons.mp (ht ▸ htrees)
    have hbelow := ih ha (hp.withTrees _) fun c hc => by
      rw [List.mem_singleton.mp hc]
      exact hfirst.withRole Laid.withRole r
    exact List.forall_mem_cons.mpr ⟨hother (bne_iff_ne.mp hk) hbelow, hrest⟩
  | @role r a p q _ ih =>
    have hbelow := ih hr (hp.withTrees _) fun _ h => absurd h List.not_mem_nil
    exact List.forall_mem_append.mpr
      ⟨List.forall_mem_map.mpr fun t ht => (hbelow t ht).withRole Laid.withRole r, htrees⟩

end Runs

/-! ### Places and offsets -/

section Offsets

open Text (WholeLines byteSize)

variable {cs rest line read mark : List Char} {start : Position} {m n r r' : Nat} {source : String}

/-- Further on in a line is further on in the bytes. -/
theorem offsetInLine_mono (h : m ≤ n) (cs : List Char) :
    offsetInLine m cs ≤ offsetInLine n cs := by
  induction cs generalizing m n with
  | nil => cases m <;> cases n <;> exact Nat.le_refl 0
  | cons c cs ih =>
    rw [offsetInLine_cons, offsetInLine_cons]
    split
    · exact Nat.le_refl 0
    · cases m with
      | zero => exact Nat.zero_le _
      | succ m =>
        obtain ⟨n, rfl⟩ := Nat.exists_eq_add_of_lt h
        exact Nat.add_le_add_left (ih (by omega)) _

/-- What is on the first line is before what is on a later one. -/
theorem offsetInLine_le_offsetAt (m r n : Nat) (cs : List Char) :
    offsetInLine m cs ≤ offsetAt (r + 1) n cs := by
  induction cs generalizing m with
  | nil => cases m <;> exact Nat.zero_le _
  | cons c cs ih =>
    rw [offsetInLine_cons, offsetAt]
    split
    · exact Nat.zero_le _
    · next hopen =>
      rw [if_neg fun hc => hopen (.inl hc)]
      cases m with
      | zero => exact Nat.zero_le _
      | succ m => exact Nat.add_le_add_left (ih m) _

/-- **Further on in a text is further on in the bytes.** -/
theorem offsetAt_mono (h : r < r' ∨ r = r' ∧ m ≤ n) (cs : List Char) :
    offsetAt r m cs ≤ offsetAt r' n cs := by
  induction cs generalizing r r' with
  | nil =>
    cases r with
    | zero => cases m <;> exact Nat.zero_le _
    | succ r => exact Nat.zero_le _
  | cons c cs ih =>
    cases r with
    | zero =>
      cases r' with
      | zero => exact offsetInLine_mono (h.resolve_left (Nat.lt_irrefl 0)).2 _
      | succ r' => exact offsetInLine_le_offsetAt m r' n _
    | succ r =>
      cases r' with
      | zero => omega
      | succ r' =>
        rw [offsetAt, offsetAt]
        split <;> exact Nat.add_le_add_left (ih (by omega)) _

/-- **An offset in a line lies between two characters.** -/
theorem exists_prefix_offsetInLine (n : Nat) (cs : List Char) :
    ∃ as, as <+: cs ∧ offsetInLine n cs = byteSize as ∧ as.length ≤ n := by
  induction cs generalizing n with
  | nil => exact ⟨[], List.nil_prefix, by cases n <;> rfl, Nat.zero_le _⟩
  | cons c cs ih =>
    rw [offsetInLine_cons]
    split
    · exact ⟨[], List.nil_prefix, rfl, Nat.zero_le _⟩
    · cases n with
      | zero => exact ⟨[], List.nil_prefix, rfl, Nat.zero_le _⟩
      | succ n =>
        obtain ⟨as, has, hsize, hlength⟩ := ih n
        refine ⟨c :: as, List.cons_prefix_cons.mpr ⟨rfl, has⟩, ?_, Nat.succ_le_succ hlength⟩
        rw [Text.byteSize_cons, ← hsize]

theorem exists_prefix_offsetAt (r n : Nat) (cs : List Char) :
    ∃ as, as <+: cs ∧ offsetAt r n cs = byteSize as := by
  have hline : ∀ cs, ∃ as, as <+: cs ∧ offsetAt 0 n cs = byteSize as := fun cs =>
    (exists_prefix_offsetInLine n cs).imp fun _ h => ⟨h.1, by rw [offsetAt, h.2.1]⟩
  induction cs generalizing r with
  | nil =>
    cases r with
    | zero => exact hline []
    | succ r => exact ⟨[], List.nil_prefix, rfl⟩
  | cons c cs ih =>
    cases r with
    | zero => exact hline (c :: cs)
    | succ r =>
      obtain ⟨as, has, hsize⟩ : ∃ as, as <+: cs ∧
          (if c = '\n' then offsetAt r n cs else offsetAt (r + 1) n cs) = byteSize as := by
        split
        · exact ih r
        · exact ih (r + 1)
      refine ⟨c :: as, List.cons_prefix_cons.mpr ⟨rfl, has⟩, ?_⟩
      rw [offsetAt, hsize, Text.byteSize_cons]

/-- What is read later is not further up, and on the same line not further left. -/
theorem before_advance (p : Position) (cs : List Char) :
    p.row < (p.advance cs).row ∨ p.row = (p.advance cs).row ∧ p.place ≤ (p.advance cs).place := by
  by_cases hline : '\n' ∈ cs
  · have hcount := List.count_pos_iff.mpr hline
    rw [Position.row_advance]
    omega
  · rw [Position.row_advance, List.count_eq_zero.mpr hline, Position.place_advance_line p hline]
    omega

/-- **Between two places there is a piece of the text.** -/
theorem isSome_slice?_advance (source : String) (p : Position) (cs : List Char) :
    (Text.slice? (offsetOf source p) (offsetOf source (p.advance cs)) source).isSome := by
  obtain ⟨as, has, hstart⟩ := exists_prefix_offsetAt p.row p.place source.toList
  obtain ⟨bs, hbs, hstop⟩ :=
    exists_prefix_offsetAt (p.advance cs).row (p.advance cs).place source.toList
  have hle := offsetAt_mono (before_advance p cs) source.toList
  rw [hstart, hstop] at hle
  rw [offsetOf, offsetOf, hstart, hstop]
  exact Text.isSome_slice? has hbs hle

/-- **Whether a place is shifted**: it is on the first line, with a byte order mark before it. -/
def Shifted (source : String) (read : List Char) : Prop :=
  source.toList.head? = some '\ufeff' ∧ '\n' ∉ read

/-- A place in a line is where it is in the bytes, unless it is within the end of the line. -/
theorem offsetInLine_length (hline : '\n' ∉ line)
    (hjoint : rest.head? ≠ some '\n' ∨ ∀ c ∈ line.getLast?, c ≠ '\r') :
    offsetInLine line.length (line ++ rest) = byteSize line := by
  obtain hhead | hlast := hjoint
  · simpa using offsetInLine_line hline hhead 0
  · rw [offsetInLine_append (Nat.le_refl _) hlast]
    have hend : ([] : List Char).head? ≠ some '\n' := nofun
    simpa using offsetInLine_line hline hend 0

/-- **A place is found where it is in the bytes** if it is not shifted. -/
theorem Skipped.offsetOf_eq (h : Skipped source.toList mark start (read ++ rest))
    (hjoint : rest.head? ≠ some '\n' ∨ ∀ c ∈ read.getLast?, c ≠ '\r')
    (hread : ¬Shifted source read) :
    offsetOf source (start.advance read) = byteSize (mark ++ read) := by
  obtain ⟨before, line, rfl, hbefore, hline⟩ := Text.exists_wholeLines read
  obtain ⟨hrow, hplace⟩ := Position.row_place_advance h.row h.place hbefore hline
  have hcount : (mark ++ before).count '\n' = before.count '\n' := by
    rw [List.count_append, List.count_eq_zero.mpr h.notMem, Nat.zero_add]
  have hwhole : WholeLines (mark ++ before) := by
    by_cases hempty : before = []
    · rw [hempty, h.mark_eq, if_neg fun hhead => hread ⟨hhead, by rwa [hempty]⟩]
      exact Text.wholeLines_nil
    · exact hbefore.append hempty mark
  have hjoint' : rest.head? ≠ some '\n' ∨ ∀ c ∈ line.getLast?, c ≠ '\r' :=
    hjoint.imp_right fun hlast c hc =>
      hlast c (by rw [List.getLast?_append, Option.mem_def.mp hc]; rfl)
  have htext : source.toList = mark ++ before ++ (line ++ rest) := by
    rw [h.text]
    simp only [List.append_assoc]
  rw [offsetOf, hrow, hplace, htext, ← hcount, offsetAt_wholeLines hwhole,
    offsetInLine_length hline hjoint', ← Text.byteSize_append, List.append_assoc]

/-- **A shifted place is found too far left.** -/
theorem Skipped.offsetOf_lt (h : Skipped source.toList mark start (read ++ rest))
    (hread : Shifted source read) :
    offsetOf source (start.advance read) < byteSize (mark ++ read) := by
  obtain ⟨hhead, hline⟩ := hread
  have hmark : mark = ['\ufeff'] := h.mark_eq.trans (if_pos hhead)
  obtain ⟨hrow, hplace⟩ := Position.row_place_advance h.row h.place Text.wholeLines_nil hline
  obtain ⟨as, has, hsize, hlength⟩ := exists_prefix_offsetInLine read.length source.toList
  have hwhole : mark ++ read <+: source.toList := by
    rw [h.text, ← List.append_assoc]
    exact List.prefix_append _ _
  have hlonger : as.length < (mark ++ read).length := by
    rw [hmark, List.length_append, List.length_singleton]
    omega
  obtain ⟨more, hmore⟩ := List.prefix_of_prefix_length_le has hwhole hlonger.le
  rw [List.nil_append] at hrow hplace
  rw [offsetOf, hrow, hplace, List.count_nil, offsetAt, hsize, ← hmore, Text.byteSize_append]
  rcases more with _ | ⟨c, more⟩
  · rw [← hmore, List.append_nil] at hlonger
    exact absurd hlonger (Nat.lt_irrefl _)
  · have hpos := c.utf8Size_pos
    rw [Text.byteSize_cons]
    omega

end Offsets

/-! ### Definitions -/

open Text (byteSize)

/-- The tokens of a text. -/
def tokensOf (source : String) : List Token :=
  Lexicon.tokensOf Lexicon.Rust.tokens source.toList

/-- **Whether a definition covers a function** in the text: its span goes from the signature, which
begins with a token of the text, to the closing bracket of the body, and its signature is all that
is before the body. -/
structure Covers (source : String) (lead signature inner trail : List Char) (t body : Tree Kind)
    (d : Definition) : Prop where
  text : source.toList = lead ++ (signature ++ block inner ++ trail)
  opened : ∃ w ∈ tokensOf source, w.text ∈ introducers ∧ w.start = t.start ∧
    w.text.toList <+: signature
  node_start : t.start.offset = byteSize lead
  body_start : body.start.offset = byteSize (lead ++ signature)
  body_stop : body.stop.offset = byteSize (lead ++ (signature ++ block inner))
  span_start : d.span.start = t.start.offset
  span_stop : d.span.stop = body.stop.offset
  signature : d.signature = Text.collapse (String.ofList signature)

/-- **Whether a definition is exact.** -/
def Exact (source : String) (t body : Tree Kind) (d : Definition) : Prop :=
  ∃ lead signature inner trail, Covers source lead signature inner trail t body d

variable {source : String} {tree t body : Tree Kind} {f : Occurrence Kind} {d : Definition}
  {lead signature inner trail mark cs : List Char} {start : Position}

/-- The text of an exact span. -/
theorem Covers.text? (h : Covers source lead signature inner trail t body d) :
    d.span.text? source = some (String.ofList (signature ++ block inner)) := by
  rw [Span.text?, h.span_start, h.span_stop, h.node_start, h.body_stop]
  exact Text.slice?_append h.text

/-- **A function of a text lies in it.** -/
theorem exists_lies (htree : tree? source = some tree) (hf : f ∈ tree.occurrences [])
    (hkind : f.node.kind = .function) (hbody : f.node.child? .body = some body) :
    ∃ lead signature inner, Lies (Position.skipByteOrderMark source.toList).1
      (Position.skipByteOrderMark source.toList).2 (tokensOf source) lead signature inner f.node
        body := by
  have hlies : ∀ (start : Position) (cs read : List Char) (tokens : List Token),
      (Grammar.before tokens : Parse Kind).ReadTo start cs tokens read →
        grammar.parse? tokens = some tree →
          ∃ lead signature inner, Lies start cs tokens lead signature inner f.node body := by
    intro start cs read tokens hp hparse
    obtain ⟨q, hq, hroot⟩ := Grammar.runs_of_parse? hparse
    have hall := laid_of_runs hq rfl hp (fun _ h => absurd h List.not_mem_nil) tree
      (List.mem_of_mem_head? hroot)
    exact hall.of_mem_occurrences hf hkind body hbody
  have hparse : grammar.parse? (tokensOf source) = some tree := htree
  by_cases hempty : tokensOf source = []
  · -- A text without tokens has no functions.
    rw [hempty] at hparse
    obtain ⟨lead, signature, inner, h⟩ := hlies .origin [] [] []
      ⟨List.nil_prefix, rfl, .nil, fun _ h => absurd h List.not_mem_nil⟩ hparse
    have hnil := List.prefix_nil.mp h.inText
    simp [block] at hnil
  · have hsequence := Lexicon.Rust.sequence_tokens (Position.skipByteOrderMark source.toList).1
      (Position.skipByteOrderMark source.toList).2
    obtain ⟨read, hp⟩ := Grammar.readTo_before (κ := Kind) hsequence hempty
    exact hlies _ _ read _ hp hparse

section Lies

variable {s : Setting} {name : String} {k : Nat} (hskip : Skipped source.toList mark start cs)
  (h : Lies start cs (tokensOf source) lead signature inner t body)
  (hd : withoutDecisions d = definition source s t name body k)

include hskip in
/-- What is skipped counts as bytes. -/
theorem Skipped.offset_advance (read : List Char) :
    (start.advance read).offset = byteSize (mark ++ read) := by
  rw [Position.offset_advance, hskip.offset, Text.byteSize_append]

include hd in
theorem span_eq : d.span = (definition source s t name body k).span :=
  show (withoutDecisions d).span = _ from congrArg _ hd

include hskip h hd in
/-- The line of a function tells whether it is shifted. -/
theorem Lies.shifted_iff :
    Shifted source lead ↔ source.toList.head? = some '\ufeff' ∧ d.span.startLine = 1 := by
  have hline : d.span.startLine = lead.count '\n' + 1 := by
    have hrow : t.start.row = lead.count '\n' := by
      rw [h.start_eq, Position.row_advance, hskip.row, Nat.zero_add]
    rw [span_eq hd, ← hrow]
    rfl
  rw [hline, Shifted, ← List.count_eq_zero, Nat.add_eq_right]

include hskip h hd in
theorem Lies.not_exact (hread : Shifted source lead) : ¬Exact source t body d := by
  rintro ⟨_, _, _, _, hcovers⟩
  obtain ⟨trail, rfl⟩ := h.inText
  rw [List.append_assoc] at hskip
  have hlt := hskip.offsetOf_lt hread
  have hstart : offsetOf source t.start = t.start.offset := by
    rw [← hcovers.span_start, span_eq hd]
    rfl
  rw [h.start_eq, hskip.offset_advance] at hstart
  omega

include hskip h hd in
theorem Lies.exact (hread : ¬Shifted source lead) : Exact source t body d := by
  -- What is not shifted up to the function is not shifted further on in it.
  have hmore : ∀ more, ¬Shifted source (lead ++ more) := fun more hmore =>
    hread ⟨hmore.1, fun hmem => hmore.2 (List.mem_append_left _ hmem)⟩
  obtain ⟨w, hw, hopens, hstart, hbegins⟩ := h.opened
  obtain ⟨trail, htrail⟩ := h.inText
  have hcs : cs = lead ++ (signature ++ block inner ++ trail) ∧
      cs = lead ++ signature ++ (block inner ++ trail) := by
    rw [← htrail]
    simp only [List.append_assoc, and_self]
  have hfirst : offsetOf source t.start = byteSize (mark ++ lead) := by
    rw [h.start_eq]
    refine (hcs.1 ▸ hskip).offsetOf_eq (.inl ?_) hread
    exact List.append_assoc .. ▸ head?_ne_of_introducer hopens hbegins _
  have hopening : offsetOf source body.start = byteSize (mark ++ (lead ++ signature)) := by
    rw [h.body_start]
    exact (hcs.2 ▸ hskip).offsetOf_eq (.inl (by simp [block])) (hmore _)
  have hclosing : offsetOf source body.stop =
      byteSize (mark ++ (lead ++ (signature ++ block inner))) := by
    rw [h.body_stop]
    refine (htrail ▸ hskip).offsetOf_eq (.inr fun c hc => ?_) (hmore _)
    rw [← List.append_assoc, getLast?_block] at hc
    obtain rfl := Option.some.inj hc
    decide
  have htext : source.toList = mark ++ lead ++ (signature ++ block inner ++ trail) := by
    rw [List.append_assoc, ← hcs.1, hskip.text]
  have hnode : t.start.offset = byteSize (mark ++ lead) := by
    rw [h.start_eq, hskip.offset_advance]
  have hend : body.stop.offset = byteSize (mark ++ (lead ++ (signature ++ block inner))) := by
    rw [h.body_stop, hskip.offset_advance]
  refine ⟨mark ++ lead, signature, inner, trail, htext, ⟨w, hw, hopens, hstart, hbegins⟩,
    hnode, ?_, ?_, ?_, ?_, ?_⟩
  · rw [h.body_start, hskip.offset_advance, List.append_assoc]
  · rw [hend, List.append_assoc]
  · rw [span_eq hd, hnode]
    exact hfirst
  · rw [span_eq hd, hend]
    exact hclosing
  · have hsignature : d.signature = Text.collapse
        (Text.slice (offsetOf source t.start) (offsetOf source body.start) source) :=
      show (withoutDecisions d).signature = _ from congrArg _ hd
    rw [hsignature, hfirst, hopening, ← List.append_assoc]
    rw [List.append_assoc signature] at htext
    rw [Text.slice_append htext]

end Lies

/-- **Definitions are exact** but for those of functions on the first line of a text that begins
with a byte order mark, and even there the span is one of the text. -/
theorem span_exact_iff {o : Outline} (h : ofText source = .ok o) :
    ∃ tree, tree? source = some tree ∧ ∀ d ∈ o.definitions, ∃ f ∈ tree.occurrences [], ∃ body,
      bare? source f = some (withoutDecisions d) ∧ f.node.child? .body = some body ∧
      (d.span.text? source).isSome ∧
      (Exact source f.node body d ↔
        ¬(source.toList.head? = some '\ufeff' ∧ d.span.startLine = 1)) := by
  obtain ⟨tree, htree, hall⟩ := exists_of_mem_definitions h
  refine ⟨tree, htree, fun d hd => ?_⟩
  obtain ⟨f, hf, hbare⟩ := hall d hd
  obtain ⟨hkind, n, body, -, hbody, hdefinition⟩ := exists_of_bare? hbare
  obtain ⟨lead, signature, inner, hlies⟩ := exists_lies htree hf hkind hbody
  obtain ⟨mark, hskip⟩ := exists_skipped source.toList
  refine ⟨f, hf, body, hbare, hbody, ?_, ?_⟩
  · have hpiece := isSome_slice?_advance source f.node.start (signature ++ block inner)
    rw [hlies.start_eq, ← Position.advance_append, ← hlies.body_stop, ← hlies.start_eq] at hpiece
    rw [span_eq hdefinition]
    exact hpiece
  · rw [← hlies.shifted_iff hskip hdefinition]
    exact ⟨fun hexact hread => hlies.not_exact hskip hdefinition hread hexact,
      hlies.exact hskip hdefinition⟩

/-! ### Two texts with a byte order mark -/

/-- A function below the first line, which has a byte order mark and an interpreter on it. -/
def sampleMarked : String :=
  "\ufeff#!/x\r\n// ü\r\npub const fn é(a: u8) -> u8 \x7b\r\n    a\r\n\x7d\n"

theorem definitions_sampleMarked :
    (ofText sampleMarked).toOption.map (fun o => o.definitions.map fun d =>
      (d.span, d.signature)) = some [(⟨20, 56, 3, 5, 4⟩, "const fn é(a: u8) -> u8")] := by
  decide +kernel

/-- Its definition is exact. -/
theorem span_exact_iff_below :
    ∃ o tree d, ofText sampleMarked = .ok o ∧ tree? sampleMarked = some tree ∧
      o.definitions = [d] ∧ d.span = ⟨20, 56, 3, 5, 4⟩ ∧
      d.signature = "const fn é(a: u8) -> u8" ∧
      ∃ f ∈ tree.occurrences [], ∃ body, Exact sampleMarked f.node body d := by
  obtain ⟨o, ho, hvalues⟩ := Option.map_eq_some_iff.mp definitions_sampleMarked
  have hok := eq_ok_of_toOption ho
  obtain ⟨d, hdefinitions, hd⟩ := List.map_eq_singleton_iff.mp hvalues
  obtain ⟨hspan, hsignature⟩ := Prod.mk.inj hd
  obtain ⟨tree, htree, hall⟩ := span_exact_iff hok
  obtain ⟨f, hf, body, -, -, -, hexact⟩ := hall d (hdefinitions ▸ List.mem_singleton_self d)
  refine ⟨o, tree, d, hok, htree, hdefinitions, hspan, hsignature, f, hf, body, ?_⟩
  refine hexact.mpr fun hfirst => ?_
  rw [hspan] at hfirst
  exact absurd hfirst.2 (by decide)

/-- A function on the first line, behind a byte order mark. -/
def sampleShifted : String :=
  "\ufefffn f() \x7b\x7d\n"

theorem definitions_sampleShifted :
    (ofText sampleShifted).toOption.map (fun o => o.definitions.map fun d =>
      (d.span.text? sampleShifted, d.signature)) =
        some [(some "\ufefffn f() \x7b", "\ufefffn f()")] := by
  decide +kernel

/-- **Its span begins with the mark and ends before the closing bracket**, so nothing that it could
cover makes it exact, and its signature begins with the mark, too. -/
theorem shifted_by_mark :
    ∃ o d, ofText sampleShifted = .ok o ∧ o.definitions = [d] ∧
      d.span.text? sampleShifted = some "\ufefffn f() \x7b" ∧ d.signature = "\ufefffn f()" ∧
      ∀ t body, ¬Exact sampleShifted t body d := by
  obtain ⟨o, ho, hvalues⟩ := Option.map_eq_some_iff.mp definitions_sampleShifted
  obtain ⟨d, hdefinitions, hd⟩ := List.map_eq_singleton_iff.mp hvalues
  obtain ⟨htext, hsignature⟩ := Prod.mk.inj hd
  refine ⟨o, d, eq_ok_of_toOption ho, hdefinitions, htext, hsignature, ?_⟩
  rintro t body ⟨_, signature, inner, _, hcovers⟩
  have hsame : "\ufefffn f() \x7b".toList = signature ++ block inner := by
    rw [Option.some.inj (htext.symm.trans hcovers.text?), String.toList_ofList]
  have hlast := getLast?_block signature inner
  rw [← hsame] at hlast
  exact absurd hlast (by decide)

end Outline.Rust

end Dossier
