import Dossier.Proofs.Syntax.Grammar
import Dossier.Proofs.Text.Blank
import Dossier.Proofs.Text.Slice

/-!
# Where trees stand, and which tokens they take

Every place in a tree is one at which a token or a piece of it starts or stops, so what holds of
these places holds of all places in the tree (`Dossier.Grammar.within_of_parse?`). And every token
of a text that has a tree is accepted by some terminal. If no terminal of the rules accepts what is
no token of the language, there is nothing of the kind in a text that has a tree
(`Dossier.Grammar.noStray_of_parse?`).
-/

namespace Dossier

variable {σ κ : Type} {g : Grammar σ κ} {P : Position → Prop}

/-! ### Places -/

/-- Whether all places in a tree are such. -/
inductive Tree.Within (P : Position → Prop) : Tree κ → Prop
  | node {k : κ} {r : Option Role} {a b : Position} {ts : List (Tree κ)} (start : P a) (stop : P b)
      (below : ∀ t ∈ ts, Within P t) : Within P (.node k r a b ts)

namespace Tree.Within

variable {t : Tree κ}

theorem start (h : t.Within P) : P t.start := by
  obtain ⟨hstart, -, -⟩ := h
  exact hstart

theorem stop (h : t.Within P) : P t.stop := by
  obtain ⟨-, hstop, -⟩ := h
  exact hstop

theorem children (h : t.Within P) : ∀ c ∈ t.children, c.Within P := by
  obtain ⟨-, -, hbelow⟩ := h
  exact hbelow

theorem withRole (h : t.Within P) (r : Role) : (t.withRole r).Within P := by
  obtain ⟨hstart, hstop, hbelow⟩ := h
  exact .node hstart hstop hbelow

theorem child? {r : Role} {c : Tree κ} (h : t.Within P) (hc : t.child? r = some c) : c.Within P :=
  h.children c (List.mem_of_find?_eq_some hc)

end Tree.Within

/-- Whether all places in a token are such, also those at which it can be cut in two. -/
structure Token.Within (P : Position → Prop) (t : Token) : Prop where
  start : P t.start
  stop : P t.stop
  inside : ∀ s, s <+: t.text.toList → P (t.start.advance s)

/-- Whether all places in a state of a run are such. -/
structure Parse.Within (P : Position → Prop) (p : Parse κ) : Prop where
  last : P p.last
  tokens : ∀ t ∈ p.tokens, t.Within P
  trees : ∀ t ∈ p.trees, t.Within P

namespace Parse.Within

variable {p q : Parse κ}

theorem nextStart (h : p.Within P) : P p.nextStart := by
  unfold Parse.nextStart
  split
  · exact h.last
  · next t ts htokens => exact (h.tokens t (htokens ▸ List.mem_cons_self)).start

theorem startOf (hp : p.Within P) (hq : q.Within P) : P (p.startOf q) := by
  unfold Parse.startOf
  split
  · exact hp.nextStart
  · exact hq.last

/-- What a rule builds anew. -/
theorem withTrees {ts : List (Tree κ)} (h : p.Within P) (hts : ∀ t ∈ ts, t.Within P) :
    Parse.Within P { p with trees := ts } :=
  ⟨h.last, h.tokens, hts⟩

theorem consume? {w : Terminal} (hp : p.Within P) (h : p.consume? w = some q) : q.Within P := by
  obtain ⟨t, ts, htokens, htrees, hcases⟩ := Grammar.consume?_cases h
  obtain ⟨ht, hts⟩ := List.forall_mem_cons.mp (htokens ▸ hp.tokens)
  rcases hcases with ⟨-, hq, hlast⟩ | ⟨s, c, rest, -, -, htext, hq, hlast⟩
  · exact ⟨hlast ▸ ht.stop, hq ▸ hts, htrees ▸ hp.trees⟩
  · have hmiddle : P (t.start.advance s.toList) :=
      ht.inside s.toList (htext ▸ List.prefix_append _ _)
    refine ⟨hlast ▸ hmiddle, ?_, htrees ▸ hp.trees⟩
    rw [hq]
    refine List.forall_mem_cons.mpr ⟨⟨hmiddle, ht.stop, fun s' hs' => ?_⟩, hts⟩
    rw [String.toList_ofList] at hs'
    rw [← Position.advance_append]
    exact ht.inside _ (htext ▸ (List.prefix_append_right_inj _).mpr hs')

end Parse.Within

namespace Grammar

variable {p q : Parse κ} {r : Rule σ κ} {ts : List Token}

/-- A run leaves only trees that stand where its tokens do. -/
theorem Runs.within (h : g.Runs r p q) (hp : p.Within P) : q.Within P := by
  have hnode : ∀ {p q : Parse κ} {k : κ} {a : Position}, q.Within P → P a →
      (Tree.node k none a q.last q.trees.reverse).Within P := fun hq ha =>
    .node ha hq.last fun t ht => hq.trees t (List.mem_reverse.mp ht)
  induction h with
  | empty | stop | ahead | notAhead | freshLine => exact hp
  | sym _ ih | first _ ih | second _ ih => exact ih hp
  | token h => exact hp.consume? h
  | both _ _ iha ihb | more _ _ iha ihb => exact ihb (iha hp)
  | node _ ih =>
    have hq := ih (hp.withTrees (by simp))
    exact hq.withTrees (List.forall_mem_cons.mpr ⟨hnode (p := q) hq (hp.startOf hq), hp.trees⟩)
  | wrap ht _ ih =>
    obtain ⟨hfirst, hrest⟩ := List.forall_mem_cons.mp (ht ▸ hp.trees)
    have hq := ih (hp.withTrees (by simpa using hfirst.withRole _))
    exact hq.withTrees (List.forall_mem_cons.mpr ⟨hnode (p := q) hq hfirst.start, hrest⟩)
  | role _ ih =>
    have hq := ih (hp.withTrees (by simp))
    refine hq.withTrees (List.forall_mem_append.mpr ⟨?_, hp.trees⟩)
    exact List.forall_mem_map.mpr fun t ht => (hq.trees t ht).withRole _

/-- **A tree stands where the tokens of its text do.** -/
theorem within_of_parse? {t : Tree κ} (hts : ∀ t ∈ ts, t.Within P) (hne : ts ≠ [])
    (h : g.parse? ts = some t) : t.Within P := by
  obtain ⟨q, hq, ht⟩ := runs_of_parse? h
  obtain ⟨first, rest, rfl⟩ := List.exists_cons_of_ne_nil hne
  have hbefore : (before (first :: rest) : Parse κ).Within P :=
    ⟨(hts first List.mem_cons_self).start, hts, fun _ h => absurd h List.not_mem_nil⟩
  exact (hq.within hbefore).trees t (List.mem_of_mem_head? ht)

end Grammar

/-! ### Reading on -/

/-- **Whether tokens stand in a text one after the other**, behind what has been read of it. -/
inductive Token.Sequence (start : Position) (cs : List Char) : List Char → List Token → Prop
  | nil {read : List Char} : Sequence start cs read []
  | cons {read : List Char} {t : Token} {ts : List Token} (gap : List Char)
      (inText : read ++ gap ++ t.text.toList <+: cs)
      (start_eq : t.start = start.advance (read ++ gap))
      (stop_eq : t.stop = t.start.advance t.text.toList)
      (rest : Sequence start cs (read ++ gap ++ t.text.toList) ts) :
      Sequence start cs read (t :: ts)

/-- **Whether a run has read so much of a text**: the rest of the tokens stands behind it, and the
words among them are words of the text. -/
structure Parse.ReadTo (start : Position) (cs : List Char) (words : List Token) (read : List Char)
    (p : Parse κ) : Prop where
  inText : read <+: cs
  last : p.last = start.advance read
  tokens : Token.Sequence start cs read p.tokens
  words : ∀ t ∈ p.tokens, t.kind.isWord = true → t ∈ words

namespace Parse.ReadTo

variable {start : Position} {cs read more : List Char} {words : List Token} {p q : Parse κ}
  {w : Terminal}

/-- What has been built is no matter for what has been read. -/
theorem withTrees (h : p.ReadTo start cs words read) (ts : List (Tree κ)) :
    Parse.ReadTo start cs words read { p with trees := ts } :=
  ⟨h.inText, h.last, h.tokens, h.words⟩

/-- **What a terminal reads**: a token that it accepts, or the front piece of a mark. -/
theorem consume? (h : p.ReadTo start cs words read) (hq : p.consume? w = some q) :
    ∃ gap piece, q.ReadTo start cs words (read ++ gap ++ piece) ∧
      p.nextStart = start.advance (read ++ gap) ∧
      ((∃ t ts, p.tokens = t :: ts ∧ w.accepts t = true ∧ piece = t.text.toList) ∨
        ∃ s, w = .head s) := by
  obtain ⟨hin, hlast, htokens, hwords⟩ := h
  obtain ⟨t, ts, heq, -, hcases⟩ := Grammar.consume?_cases hq
  rw [Parse.nextStart]
  rw [heq] at htokens hwords ⊢
  obtain _ | ⟨gap, hpiece, hstart, hstop, hrest⟩ := htokens
  obtain ⟨-, hwords⟩ := List.forall_mem_cons.mp hwords
  rcases hcases with ⟨haccepts, hleft, hend⟩ | ⟨s, c, rest, rfl, hmark, htext, hleft, hend⟩
  · refine ⟨gap, t.text.toList, ⟨hpiece, ?_, hleft ▸ hrest, hleft ▸ hwords⟩, hstart,
      .inl ⟨t, ts, rfl, haccepts, rfl⟩⟩
    rw [hend, hstop, hstart, ← Position.advance_append]
  · have hwhole : read ++ gap ++ s.toList ++ [] ++ (String.ofList (c :: rest)).toList =
        read ++ gap ++ t.text.toList := by
      rw [htext, String.toList_ofList, List.append_nil, List.append_assoc]
    have hmiddle : t.start.advance s.toList = start.advance (read ++ gap ++ s.toList) := by
      rw [hstart, ← Position.advance_append]
    refine ⟨gap, s.toList, ⟨?_, hend.trans hmiddle, ?_, ?_⟩, hstart, .inr ⟨s, rfl⟩⟩
    · rw [htext, ← List.append_assoc] at hpiece
      exact (List.prefix_append _ _).trans hpiece
    · rw [hleft]
      refine .cons [] (hwhole ▸ hpiece) ?_ ?_ (hwhole ▸ hrest)
      · rw [hmiddle, List.append_nil]
      · rw [hstop, htext, Position.advance_append, String.toList_ofList]
    · rw [hleft]
      refine List.forall_mem_cons.mpr ⟨fun hword => ?_, hwords⟩
      rw [hmark] at hword
      cases hword

/-- Something is built where the next token is, if anything has been read for it. -/
theorem startOf (hp : p.ReadTo start cs words read) (hq : q.ReadTo start cs words (read ++ more))
    (hmore : more ≠ []) : p.startOf q = p.nextStart := by
  obtain ⟨c, more, rfl⟩ := List.exists_cons_of_ne_nil hmore
  have hoffset : q.last.offset ≠ p.last.offset := by
    have hpos := c.utf8Size_pos
    rw [hq.last, hp.last, Position.offset_advance, Position.offset_advance, Text.byteSize_append,
      Text.byteSize_cons]
    omega
  rw [Parse.startOf, Parse.moved, bne_iff_ne.mpr hoffset, Bool.or_true, if_pos rfl]

end Parse.ReadTo

namespace Grammar

variable {start : Position} {cs read : List Char} {words : List Token} {p q : Parse κ}
  {r : Rule σ κ}

/-- **A run reads on.** -/
theorem Runs.readTo (h : g.Runs r p q) (hp : p.ReadTo start cs words read) :
    ∃ more, q.ReadTo start cs words (read ++ more) := by
  have hnone : ∀ {p : Parse κ} {read}, p.ReadTo start cs words read →
      ∃ more, p.ReadTo start cs words (read ++ more) := fun {_ read} hp =>
    ⟨[], (List.append_nil read).symm ▸ hp⟩
  induction h generalizing read with
  | empty | stop | ahead | notAhead | freshLine => exact hnone hp
  | sym _ ih | first _ ih | second _ ih => exact ih hp
  | token h =>
    obtain ⟨gap, piece, hq, -⟩ := hp.consume? h
    exact ⟨gap ++ piece, List.append_assoc .. ▸ hq⟩
  | both _ _ iha ihb | more _ _ iha ihb =>
    obtain ⟨more, hm⟩ := iha hp
    obtain ⟨more', hq⟩ := ihb hm
    exact ⟨more ++ more', List.append_assoc .. ▸ hq⟩
  | node _ ih | wrap _ _ ih | role _ ih =>
    obtain ⟨more, hq⟩ := ih (hp.withTrees _)
    exact ⟨more, hq.withTrees _⟩

/-- The state before the first of the tokens of a text. -/
theorem readTo_before {ts : List Token} (h : Token.Sequence start cs [] ts) (hne : ts ≠ []) :
    ∃ read, (before ts : Parse κ).ReadTo start cs ts read := by
  obtain ⟨t, ts, rfl⟩ := List.exists_cons_of_ne_nil hne
  obtain _ | ⟨gap, hpiece, hstart, hstop, hrest⟩ := h
  refine ⟨gap, ⟨?_, hstart, .cons [] ?_ ?_ hstop ?_, fun t ht _ => ht⟩⟩
  · exact (List.prefix_append _ _).trans hpiece
  · rw [List.append_nil]
    exact hpiece
  · rw [List.append_nil]
    exact hstart
  · rw [List.append_nil]
    exact hrest

end Grammar

/-! ### Tokens of the language -/

/-- Whether a terminal accepts what is no token of the language. -/
def Terminal.takesStray : Terminal → Bool
  | any => true
  | kind k => k == .stray
  | word _ | mark _ | head _ | anyWord => false

/-- **Whether no terminal of a rule accepts what is no token of the language.** -/
@[simp] def Rule.noStray : Rule σ κ → Bool
  | .token w => !w.takesStray
  | .both a b | .either a b => noStray a && noStray b
  | .many a | .node _ a | .wrap _ _ a | .role _ a => noStray a
  | .empty | .never | .sym _ | .ahead _ | .notAhead _ | .freshLine => true

namespace Rule

@[simp] theorem noStray_inOrder (rs : List (Rule σ κ)) : (inOrder rs).noStray = rs.all noStray :=
  all_inOrder rfl (fun _ _ => rfl) rs

@[simp] theorem noStray_oneOf (rs : List (Rule σ κ)) : (oneOf rs).noStray = rs.all noStray :=
  all_oneOf rfl (fun _ _ => rfl) rs

/-- Marks are tokens of the language. -/
@[simp] theorem noStray_oneMark (ss : List String) : (oneMark ss : Rule σ κ).noStray = true := by
  rw [oneMark, noStray_oneOf, List.all_map]
  exact List.all_eq_true.mpr fun _ _ => rfl

end Rule

namespace Grammar

variable {p q : Parse κ} {r : Rule σ κ} {ts : List Token}

theorem kind_ne_stray_of_accepts {w : Terminal} {t : Token} (hw : w.takesStray = false)
    (h : w.accepts t = true) : t.kind ≠ .stray := by
  intro hkind
  cases w with
  | kind k =>
    have hk : k ≠ .stray := by simpa [Terminal.takesStray] using hw
    have hstray : TokenKind.stray = k := by simpa [Terminal.accepts, hkind] using h
    exact hk hstray.symm
  | any => cases hw
  | _ => simp [Terminal.accepts, hkind] at h

/-- What is no token of the language is left by a run over rules that do not accept it. -/
theorem Runs.stray_left (h : g.Runs r p q) (hrules : ∀ s, (g.rule s).noStray = true)
    (hr : r.noStray = true) (hp : ∃ t ∈ p.tokens, t.kind = .stray) :
    ∃ t ∈ q.tokens, t.kind = .stray := by
  induction h with
  | empty | stop | ahead | notAhead | freshLine => exact hp
  | sym _ ih => exact ih (hrules _) hp
  | first _ ih => exact ih (Bool.and_eq_true_iff.mp hr).1 hp
  | second _ ih => exact ih (Bool.and_eq_true_iff.mp hr).2 hp
  | both _ _ iha ihb =>
    exact ihb (Bool.and_eq_true_iff.mp hr).2 (iha (Bool.and_eq_true_iff.mp hr).1 hp)
  | more _ _ iha ihb => exact ihb hr (iha hr hp)
  | node _ ih | wrap _ _ ih | role _ ih => exact ih hr hp
  | @token w p q h =>
    obtain ⟨stray, hmem, hkind⟩ := hp
    have hw : w.takesStray = false := by simpa using hr
    obtain ⟨t, ts, htokens, -, hcases⟩ := consume?_cases h
    rw [htokens] at hmem
    rcases hcases with ⟨haccepts, hq, -⟩ | ⟨s, c, rest, -, hmark, -, hq, -⟩ <;> rw [hq]
    · rcases List.mem_cons.mp hmem with rfl | hmem
      · exact absurd hkind (kind_ne_stray_of_accepts hw haccepts)
      · exact ⟨stray, hmem, hkind⟩
    · rcases List.mem_cons.mp hmem with rfl | hmem
      · -- Only marks are cut in two.
        cases hmark.symm.trans hkind
      · exact ⟨stray, List.mem_cons_of_mem _ hmem, hkind⟩

/-- **A text that has a tree has only tokens of the language.** -/
theorem noStray_of_parse? {t : Tree κ} (hrules : ∀ s, (g.rule s).noStray = true)
    (h : g.parse? ts = some t) : ∀ x ∈ ts, x.kind ≠ .stray := by
  unfold parse? runAll at h
  split at h
  · next q hq =>
    split at h
    · next hempty =>
      intro x hx hkind
      obtain ⟨left, hleft, -⟩ := (runs_of_run hq).stray_left hrules rfl ⟨x, hx, hkind⟩
      rw [List.isEmpty_iff.mp hempty] at hleft
      exact List.not_mem_nil hleft
    · cases h
  · cases h

end Grammar

end Dossier
