import Dossier.Proofs.Text.Blank
import Dossier.Syntax.Grammar
import Mathlib.Data.List.Basic

/-!
# What the names in a tree cover

The trees of a text are built by running rules, and what can be said of every tree is said of the
rules. Here it is that a node in the role of a name covers a word, which is a token of its own. It
holds of every tree that a grammar builds if the rules of the grammar put nothing else in that role
(`Dossier.Rule.namesWords`), and this can be read off the rules.

A run that matches is told by what it does (`Dossier.Grammar.Runs`), whatever fuel it had and
however far it looked ahead, and what it keeps is shown by induction on that: the trees that it
leaves are well named (`Dossier.Grammar.Runs.wellNamed`), and the words among the tokens that are
left are words of the text. Marks may be cut in two on the way, but words are not. In the same way
it is read off the rules which roles the trees can have that a run leaves
(`Dossier.Grammar.Runs.leavesNo`).
-/

namespace Dossier

/-- Whether a token of the kind is a word, reserved or not. -/
def TokenKind.isWord (k : TokenKind) : Bool :=
  k == .keyword || k == .name

/-- Whether a terminal accepts only words. -/
def Terminal.isWord : Terminal → Bool
  | word _ | anyWord => true
  | kind k => k.isWord
  | mark _ | head _ | any => false

namespace Rule

variable {σ κ : Type}

/-- Whether every tree that a rule leaves covers a word. -/
def leavesWords : Rule σ κ → Bool
  | .node _ (.token w) => w.isWord
  | .both a b | .either a b => leavesWords a && leavesWords b
  | .many a => leavesWords a
  | .empty | .never | .token _ | .ahead _ | .notAhead _ | .freshLine => true
  | .sym _ | .node .. | .wrap .. | .role .. => false

/-- **Whether a rule puts only words in the role of a name.** -/
@[simp] def namesWords : Rule σ κ → Bool
  | .role r a => (r != .name || leavesWords a) && namesWords a
  | .wrap _ r a => r != .name && namesWords a
  | .both a b | .either a b => namesWords a && namesWords b
  | .many a | .node _ a => namesWords a
  | .empty | .never | .sym _ | .token _ | .ahead _ | .notAhead _ | .freshLine => true

/-- What holds of rules in order if it holds of each of them. -/
theorem all_inOrder {f : Rule σ κ → Bool} (hempty : f .empty = true)
    (hboth : ∀ a b, f (.both a b) = (f a && f b)) (rs : List (Rule σ κ)) :
    f (inOrder rs) = rs.all f := by
  induction rs with
  | nil => exact hempty
  | cons r rs ih =>
    -- The last rule of a list stands for itself.
    cases rs with
    | nil => exact (Bool.and_true _).symm
    | cons r' rs => exact (hboth r _).trans (congrArg (f r && ·) ih)

/-- What holds of a choice of rules if it holds of each of them. -/
theorem all_oneOf {f : Rule σ κ → Bool} (hnever : f .never = true)
    (heither : ∀ a b, f (.either a b) = (f a && f b)) (rs : List (Rule σ κ)) :
    f (oneOf rs) = rs.all f := by
  induction rs with
  | nil => exact hnever
  | cons r rs ih =>
    cases rs with
    | nil => exact (Bool.and_true _).symm
    | cons r' rs => exact (heither r _).trans (congrArg (f r && ·) ih)

/-- Whether no tree that a rule leaves is in the role. -/
@[simp] def leavesNo (r : Role) : Rule σ κ → Bool
  | .role r' _ => r' != r
  | .both a b | .either a b => leavesNo r a && leavesNo r b
  | .many a => leavesNo r a
  | .empty | .never | .sym _ | .token _ | .ahead _ | .notAhead _ | .freshLine | .node ..
  | .wrap .. => true

@[simp] theorem leavesNo_inOrder (r : Role) (rs : List (Rule σ κ)) :
    (inOrder rs).leavesNo r = rs.all (leavesNo r) :=
  all_inOrder rfl (fun _ _ => rfl) rs

@[simp] theorem leavesNo_oneOf (r : Role) (rs : List (Rule σ κ)) :
    (oneOf rs).leavesNo r = rs.all (leavesNo r) :=
  all_oneOf rfl (fun _ _ => rfl) rs

@[simp] theorem leavesNo_oneMark (r : Role) (ss : List String) :
    (oneMark ss : Rule σ κ).leavesNo r = true := by
  rw [oneMark, leavesNo_oneOf, List.all_map]
  exact List.all_eq_true.mpr fun _ _ => rfl

@[simp] theorem namesWords_inOrder (rs : List (Rule σ κ)) :
    (inOrder rs).namesWords = rs.all namesWords :=
  all_inOrder rfl (fun _ _ => rfl) rs

@[simp] theorem namesWords_oneOf (rs : List (Rule σ κ)) :
    (oneOf rs).namesWords = rs.all namesWords :=
  all_oneOf rfl (fun _ _ => rfl) rs

/-- Marks are no names. -/
@[simp] theorem namesWords_oneMark (ss : List String) :
    (oneMark ss : Rule σ κ).namesWords = true := by
  rw [oneMark, namesWords_oneOf, List.all_map]
  exact List.all_eq_true.mpr fun _ _ => rfl

end Rule

/-- **Whether the names in a tree are such as they should be**, going by where they start and
stop. -/
inductive Tree.WellNamed {κ : Type} (good : Position → Position → Prop) : Tree κ → Prop
  | node {k : κ} {r : Option Role} {a b : Position} {ts : List (Tree κ)}
      (names : ∀ t ∈ ts, t.role = some .name → good t.start t.stop)
      (below : ∀ t ∈ ts, WellNamed good t) : WellNamed good (.node k r a b ts)

namespace Tree

variable {κ : Type} {good : Position → Position → Prop} {t : Tree κ}

@[simp] theorem role_withRole (r : Role) : (t.withRole r).role = some r := by
  cases t
  rfl

@[simp] theorem start_withRole (r : Role) : (t.withRole r).start = t.start := by
  cases t
  rfl

@[simp] theorem stop_withRole (r : Role) : (t.withRole r).stop = t.stop := by
  cases t
  rfl

/-- The role of a tree is no matter for the names in it. -/
theorem WellNamed.withRole (h : t.WellNamed good) (r : Role) : (t.withRole r).WellNamed good := by
  obtain ⟨names, below⟩ := h
  exact .node names below

end Tree

namespace Grammar

variable {σ κ : Type} {g : Grammar σ κ} {good : Position → Position → Prop} {p q : Parse κ}
  {w : Terminal}

/-! ### Tokens -/

/-- Whether the words among the tokens are such as names should be. -/
def GoodWords (good : Position → Position → Prop) (ts : List Token) : Prop :=
  ∀ t ∈ ts, t.kind.isWord = true → good t.start t.stop

theorem goodWords_nil : GoodWords good [] :=
  fun _ ht => absurd ht List.not_mem_nil

/-- A terminal that accepts only words takes a whole word. -/
theorem isWord_of_accepts {t : Token} (hw : w.isWord = true) (h : w.accepts t = true) :
    t.kind.isWord = true := by
  cases w with
  | word s => exact (Bool.and_eq_true_iff.mp h).1
  | anyWord => exact h
  | kind k =>
    have hk : t.kind = k := by simpa [Terminal.accepts] using h
    rw [hk]
    exact hw
  | mark s | head s | any => cases hw

/-- **What a terminal takes**: the first token, if it accepts it, or the front piece of a mark, and
then the rest of the mark stays. -/
theorem consume?_cases (h : p.consume? w = some q) :
    ∃ t ts, p.tokens = t :: ts ∧ q.trees = p.trees ∧
      ((w.accepts t = true ∧ q.tokens = ts ∧ q.last = t.stop) ∨
        ∃ s c rest, w = .head s ∧ t.kind = .mark ∧ t.text.toList = s.toList ++ c :: rest ∧
          q.tokens = ⟨t.kind, String.ofList (c :: rest), t.start.advance s.toList, t.stop, false⟩ ::
            ts ∧
          q.last = t.start.advance s.toList) := by
  unfold Parse.consume? at h
  split at h
  · cases h
  next t ts htokens =>
  split at h
  · next haccepts =>
    obtain rfl := Option.some.inj h
    exact ⟨t, ts, htokens, rfl, .inl ⟨haccepts, rfl, rfl⟩⟩
  · obtain ⟨r, hr, rfl⟩ := Option.map_eq_some_iff.mp h
    -- Only a `head` has front pieces.
    cases w with
    | head s =>
      simp only [Terminal.front?, Terminal.splitToken?] at hr
      split at hr
      · next hmark =>
        split at hr
        · next c rest hdrop =>
          obtain rfl := Option.some.inj hr
          exact ⟨t, ts, htokens, rfl, .inr ⟨s, c, rest, rfl, beq_iff_eq.mp hmark,
            Text.eq_append_of_dropPrefix? hdrop, rfl, rfl⟩⟩
        · cases hr
      · cases hr
    | _ => cases hr

/-- What is left when a terminal has taken a token. -/
theorem goodWords_of_consume? (hp : GoodWords good p.tokens) (h : p.consume? w = some q) :
    GoodWords good q.tokens := by
  obtain ⟨t, ts, htokens, -, hcases⟩ := consume?_cases h
  rw [htokens] at hp
  obtain ⟨-, hrest⟩ := List.forall_mem_cons.mp hp
  rcases hcases with ⟨-, hq, -⟩ | ⟨s, c, rest, -, hmark, -, hq, -⟩
  · rwa [hq]
  · rw [hq]
    refine List.forall_mem_cons.mpr ⟨fun hword => ?_, hrest⟩
    rw [hmark] at hword
    cases hword

/-- A terminal builds nothing. -/
theorem trees_of_consume? (h : p.consume? w = some q) : q.trees = p.trees := by
  obtain ⟨_, _, -, htrees, -⟩ := consume?_cases h
  exact htrees

/-- What a word covers, from the state before it to the one after it. -/
theorem good_of_consume? (hrefl : ∀ a, good a a) (hp : GoodWords good p.tokens)
    (hw : w.isWord = true) (h : p.consume? w = some q) : good (p.startOf q) q.last := by
  obtain ⟨t, ts, htokens, -, ⟨haccepts, -, hlast⟩ | ⟨s, _, _, rfl, -⟩⟩ := consume?_cases h
  · unfold Parse.startOf
    split
    · rw [Parse.nextStart, htokens, hlast]
      exact hp t (by rw [htokens]; exact List.mem_cons_self) (isWord_of_accepts hw haccepts)
    · exact hrefl _
  · cases hw

/-! ### Runs -/

/-- **What a rule does when it matches**, from the state before it to the one after it. Where a
rule only looks ahead, or a repetition ends, nothing is done, and it is left out why. -/
inductive Runs (g : Grammar σ κ) : Rule σ κ → Parse κ → Parse κ → Prop
  | empty {p : Parse κ} : Runs g .empty p p
  | sym {s : σ} {p q : Parse κ} : Runs g (g.rule s) p q → Runs g (.sym s) p q
  | token {w : Terminal} {p q : Parse κ} : p.consume? w = some q → Runs g (.token w) p q
  | both {a b : Rule σ κ} {p m q : Parse κ} : Runs g a p m → Runs g b m q → Runs g (.both a b) p q
  | first {a b : Rule σ κ} {p q : Parse κ} : Runs g a p q → Runs g (.either a b) p q
  | second {a b : Rule σ κ} {p q : Parse κ} : Runs g b p q → Runs g (.either a b) p q
  | stop {a : Rule σ κ} {p : Parse κ} : Runs g (.many a) p p
  | more {a : Rule σ κ} {p m q : Parse κ} :
      Runs g a p m → Runs g (.many a) m q → Runs g (.many a) p q
  | ahead {a : Rule σ κ} {p : Parse κ} : Runs g (.ahead a) p p
  | notAhead {a : Rule σ κ} {p : Parse κ} : Runs g (.notAhead a) p p
  | freshLine {p : Parse κ} : Runs g .freshLine p p
  | node {k : κ} {a : Rule σ κ} {p q : Parse κ} : Runs g a { p with trees := [] } q →
      Runs g (.node k a) p
        { q with trees := .node k none (p.startOf q) q.last q.trees.reverse :: p.trees }
  | wrap {k : κ} {r : Role} {a : Rule σ κ} {p q : Parse κ} {t : Tree κ} {ts : List (Tree κ)} :
      p.trees = t :: ts → Runs g a { p with trees := [t.withRole r] } q →
        Runs g (.wrap k r a) p
          { q with trees := .node k none t.start q.last q.trees.reverse :: ts }
  | role {r : Role} {a : Rule σ κ} {p q : Parse κ} : Runs g a { p with trees := [] } q →
      Runs g (.role r a) p { q with trees := q.trees.map (Tree.withRole r) ++ p.trees }

theorem Runs.exists_of_both {a b : Rule σ κ} (h : g.Runs (.both a b) p q) :
    ∃ m, g.Runs a p m ∧ g.Runs b m q := by
  cases h with
  | both ha hb => exact ⟨_, ha, hb⟩

/-- What may be left out is there, or nothing is done. -/
theorem Runs.of_opt {a : Rule σ κ} (h : g.Runs (.opt a) p q) : g.Runs a p q ∨ p = q := by
  cases h with
  | first h => exact .inl h
  | second h =>
    cases h
    exact .inr rfl

/-- A run that matches does what its rule says. -/
theorem runs_of_run {n : Nat} {r : Rule σ κ} {f : Reach} (h : (g.run n r p f).1 = some q) :
    g.Runs r p q := by
  -- The induction is on the fuel, with one case for each rule.
  induction n generalizing r p f q with
  | zero => cases h
  | succ n ih =>
    cases r with
    | empty =>
      obtain rfl := Option.some.inj h
      exact .empty
    | never => cases h
    | sym s => exact .sym (ih h)
    | token w =>
      simp only [run] at h
      split at h
      · next hq =>
        obtain rfl := Option.some.inj h
        exact .token hq
      · cases h
    | both a b =>
      simp only [run] at h
      split at h
      · next m f' hm => exact .both (ih (congrArg Prod.fst hm)) (ih h)
      · cases h
    | either a b =>
      simp only [run] at h
      split at h
      · next m f' hm =>
        obtain rfl := Option.some.inj h
        exact .first (ih (congrArg Prod.fst hm))
      · exact .second (ih h)
    | many a =>
      simp only [run] at h
      split at h
      · next m f' hm =>
        split at h
        · exact .more (ih (congrArg Prod.fst hm)) (ih h)
        · obtain rfl := Option.some.inj h
          exact .stop
      · obtain rfl := Option.some.inj h
        exact .stop
    | ahead a =>
      simp only [run] at h
      split at h
      · obtain rfl := Option.some.inj h
        exact .ahead
      · cases h
    | notAhead a =>
      simp only [run] at h
      split at h
      · cases h
      · obtain rfl := Option.some.inj h
        exact .notAhead
    | freshLine =>
      simp only [run] at h
      split at h
      · obtain rfl := Option.some.inj h
        exact .freshLine
      · cases h
    | node k a =>
      simp only [run] at h
      split at h
      · next m f' hm =>
        obtain rfl := Option.some.inj h
        exact .node (ih (congrArg Prod.fst hm))
      · cases h
    | wrap k r a =>
      simp only [run] at h
      split at h
      · cases h
      · next t ts htrees =>
        split at h
        · next m f' hm =>
          obtain rfl := Option.some.inj h
          exact .wrap htrees (ih (congrArg Prod.fst hm))
        · cases h
    | role r a =>
      simp only [run] at h
      split at h
      · next m f' hm =>
        obtain rfl := Option.some.inj h
        exact .role (ih (congrArg Prod.fst hm))
      · cases h

/-- **The tree of a text** is what a run of the start symbol leaves on top. -/
theorem runs_of_parse? {ts : List Token} {t : Tree κ} (h : g.parse? ts = some t) :
    ∃ q, g.Runs (.sym g.start) (before ts) q ∧ q.trees.head? = some t := by
  unfold parse? runAll at h
  split at h
  · next q hq =>
    split at h
    · exact ⟨q, runs_of_run hq, h⟩
    · cases h
  · cases h

/-- The root of a tree is the node that the start symbol stands for. -/
theorem kind_of_parse? {k : κ} {a : Rule σ κ} {ts : List Token} {t : Tree κ}
    (hrule : g.rule g.start = .node k a) (h : g.parse? ts = some t) : t.kind = k := by
  obtain ⟨q, hq, ht⟩ := runs_of_parse? h
  obtain _ | hq := hq
  rw [hrule] at hq
  cases hq
  obtain rfl := Option.some.inj ht
  rfl

/-! ### Names -/

/-- A run leaves words that are such as names should be. -/
theorem Runs.goodWords {r : Rule σ κ} (h : g.Runs r p q) (hp : GoodWords good p.tokens) :
    GoodWords good q.tokens := by
  induction h with
  | empty | stop | ahead | notAhead | freshLine => exact hp
  | sym _ ih | first _ ih | second _ ih | node _ ih | wrap _ _ ih | role _ ih => exact ih hp
  | token h => exact goodWords_of_consume? hp h
  | both _ _ iha ihb | more _ _ iha ihb => exact ihb (iha hp)

/-- **A rule that leaves words** leaves such as names should be. -/
theorem Runs.leavesWords {r : Rule σ κ} (h : g.Runs r p q) (hrefl : ∀ a, good a a)
    (hr : r.leavesWords = true) (hp : GoodWords good p.tokens)
    (htrees : ∀ t ∈ p.trees, good t.start t.stop) : ∀ t ∈ q.trees, good t.start t.stop := by
  induction h with
  | empty | stop | ahead | notAhead | freshLine => exact htrees
  | token h =>
    rw [trees_of_consume? h]
    exact htrees
  | both ha _ iha ihb =>
    obtain ⟨hra, hrb⟩ := Bool.and_eq_true_iff.mp hr
    exact ihb hrb (ha.goodWords hp) (iha hra hp htrees)
  | first _ ih => exact ih (Bool.and_eq_true_iff.mp hr).1 hp htrees
  | second _ ih => exact ih (Bool.and_eq_true_iff.mp hr).2 hp htrees
  | more ha _ iha ihb => exact ihb hr (ha.goodWords hp) (iha hr hp htrees)
  | @node k a p q h =>
    -- The only such node is that over a single word.
    cases a with
    | token w =>
      cases h with
      | token hq =>
        have hword : good (p.startOf q) q.last :=
          good_of_consume? (p := { p with trees := [] }) hrefl hp hr hq
        exact List.forall_mem_cons.mpr ⟨hword, htrees⟩
    | _ => cases hr
  | sym | wrap | role => cases hr

/-- **A run names words**: it leaves only trees whose names are such as they should be. -/
theorem Runs.wellNamed {r : Rule σ κ} (h : g.Runs r p q) (hrefl : ∀ a, good a a)
    (hrules : ∀ s, (g.rule s).namesWords = true) (hr : r.namesWords = true)
    (hp : GoodWords good p.tokens)
    (htrees : ∀ t ∈ p.trees, (t.role = some .name → good t.start t.stop) ∧ t.WellNamed good) :
    ∀ t ∈ q.trees, (t.role = some .name → good t.start t.stop) ∧ t.WellNamed good := by
  have hnode : ∀ {k : κ} {a b : Position} {ts : List (Tree κ)},
      (∀ t ∈ ts, (t.role = some .name → good t.start t.stop) ∧ t.WellNamed good) →
        (Tree.node k none a b ts.reverse).WellNamed good := fun hts =>
    .node (fun t ht => (hts t (List.mem_reverse.mp ht)).1)
      fun t ht => (hts t (List.mem_reverse.mp ht)).2
  induction h with
  | empty | stop | ahead | notAhead | freshLine => exact htrees
  | sym _ ih => exact ih (hrules _) hp htrees
  | token h =>
    rw [trees_of_consume? h]
    exact htrees
  | both ha _ iha ihb =>
    obtain ⟨hra, hrb⟩ := Bool.and_eq_true_iff.mp hr
    exact ihb hrb (ha.goodWords hp) (iha hra hp htrees)
  | first _ ih => exact ih (Bool.and_eq_true_iff.mp hr).1 hp htrees
  | second _ ih => exact ih (Bool.and_eq_true_iff.mp hr).2 hp htrees
  | more ha _ iha ihb => exact ihb hr (ha.goodWords hp) (iha hr hp htrees)
  | node _ ih =>
    have hbelow := ih hr hp fun _ h => absurd h List.not_mem_nil
    exact List.forall_mem_cons.mpr ⟨⟨nofun, hnode hbelow⟩, htrees⟩
  | @wrap k r a p q t ts ht _ ih =>
    obtain ⟨hrole, ha⟩ := Bool.and_eq_true_iff.mp hr
    rw [ht] at htrees
    have hfirst : (t.withRole r).role = some .name →
        good (t.withRole r).start (t.withRole r).stop := by
      rw [Tree.role_withRole]
      exact fun h => absurd (Option.some.inj h) (by simpa using hrole)
    have hbelow := ih ha hp fun c hc => by
      rw [List.mem_singleton.mp hc]
      exact ⟨hfirst, (htrees t List.mem_cons_self).2.withRole r⟩
    exact List.forall_mem_cons.mpr
      ⟨⟨nofun, hnode hbelow⟩, fun c hc => htrees c (List.mem_cons_of_mem t hc)⟩
  | @role r a p q h ih =>
    obtain ⟨hrole, ha⟩ := Bool.and_eq_true_iff.mp hr
    have hbelow := ih ha hp fun _ h => absurd h List.not_mem_nil
    refine List.forall_mem_append.mpr ⟨fun c hc => ?_, htrees⟩
    obtain ⟨t, ht, rfl⟩ := List.mem_map.mp hc
    refine ⟨fun hname => ?_, (hbelow t ht).2.withRole r⟩
    rw [Tree.role_withRole] at hname
    obtain rfl := Option.some.inj hname
    -- In the role of a name there are only words.
    have hwords : a.leavesWords = true := by simpa using hrole
    rw [Tree.start_withRole, Tree.stop_withRole]
    exact h.leavesWords hrefl hwords hp (fun _ h => absurd h List.not_mem_nil) t ht

/-- **The names in the tree of a text are words**: whatever is true of the words among the tokens is
true of the names, if the rules of the grammar name words. -/
theorem wellNamed_of_parse? {ts : List Token} {t : Tree κ} (hrefl : ∀ a, good a a)
    (hrules : ∀ s, (g.rule s).namesWords = true) (hwords : GoodWords good ts)
    (h : g.parse? ts = some t) : t.WellNamed good := by
  obtain ⟨q, hq, ht⟩ := runs_of_parse? h
  have htrees := hq.wellNamed hrefl hrules rfl hwords fun _ h => absurd h List.not_mem_nil
  exact (htrees t (List.mem_of_mem_head? ht)).2

/-! ### Roles -/

/-- **A run leaves no tree in a role** if its rule leaves none. -/
theorem Runs.leavesNo {r : Rule σ κ} {role : Role} (h : g.Runs r p q)
    (hrules : ∀ s, (g.rule s).leavesNo role = true) (hr : r.leavesNo role = true)
    (hp : ∀ t ∈ p.trees, t.role ≠ some role) : ∀ t ∈ q.trees, t.role ≠ some role := by
  induction h with
  | empty | stop | ahead | notAhead | freshLine => exact hp
  | sym _ ih => exact ih (hrules _) hp
  | token h =>
    rw [trees_of_consume? h]
    exact hp
  | both _ _ iha ihb =>
    obtain ⟨hra, hrb⟩ := Bool.and_eq_true_iff.mp hr
    exact ihb hrb (iha hra hp)
  | first _ ih => exact ih (Bool.and_eq_true_iff.mp hr).1 hp
  | second _ ih => exact ih (Bool.and_eq_true_iff.mp hr).2 hp
  | more _ _ iha ihb => exact ihb hr (iha hr hp)
  | node => exact List.forall_mem_cons.mpr ⟨nofun, hp⟩
  | wrap ht =>
    exact List.forall_mem_cons.mpr ⟨nofun, fun t hmem => hp t (ht ▸ List.mem_cons_of_mem _ hmem)⟩
  | role =>
    refine List.forall_mem_append.mpr ⟨List.forall_mem_map.mpr fun t _ => ?_, hp⟩
    rw [Tree.role_withRole]
    exact fun heq => bne_iff_ne.mp hr (Option.some.inj heq)

end Grammar

end Dossier
