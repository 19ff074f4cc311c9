import Dossier.Proofs.Syntax.Grammar

/-!
# A text behind another

When a text is put behind another one, its bytes and lines are counted on from where the other one
ends, and on its first line the bytes and characters of the line, too (`Dossier.Position.behind`).
Rules do not ask where a token stands but only whether something has been taken since, so a run over
tokens that stand elsewhere does the same and leaves the same trees elsewhere
(`Dossier.Grammar.parse?_behind`).
-/

namespace Dossier

namespace Position

variable {p q : Position}

/-- A place of a text, counted from the beginning of another text that ends at `q` and has the text
behind it. -/
def behind (q p : Position) : Position where
  offset := q.offset + p.offset
  row := q.row + p.row
  column := if p.row = 0 then q.column + p.column else p.column
  place := if p.row = 0 then q.place + p.place else p.place

@[simp] theorem behind_origin (q : Position) : q.behind origin = q :=
  rfl

@[simp] theorem origin_behind (p : Position) : origin.behind p = p := by
  simp [behind, origin]

theorem behind_next (q p : Position) (c : Char) : q.behind (p.next c) = (q.behind p).next c := by
  unfold next
  split
  · simp [behind, Nat.add_assoc]
  · by_cases h : p.row = 0 <;> simp [behind, h, Nat.add_assoc]

/-- The places behind another text go on as the text does. -/
theorem behind_advance (q p : Position) (cs : List Char) :
    q.behind (p.advance cs) = (q.behind p).advance cs := by
  induction cs generalizing p with
  | nil => rfl
  | cons c cs ih =>
    show q.behind ((p.next c).advance cs) = ((q.behind p).next c).advance cs
    rw [ih, behind_next]

end Position

/-- A token behind a text that ends at `q`. -/
def Token.behind (q : Position) (t : Token) : Token where
  kind := t.kind
  text := t.text
  start := q.behind t.start
  stop := q.behind t.stop
  freshLine := t.freshLine

namespace Tree

variable {κ : Type} (q : Position)

mutual

/-- A tree behind a text that ends at `q`. -/
def behind : Tree κ → Tree κ
  | node k r a b ts => node k r (q.behind a) (q.behind b) (behindAll ts)

/-- Trees behind a text that ends at `q`. -/
def behindAll : List (Tree κ) → List (Tree κ)
  | [] => []
  | t :: ts => behind t :: behindAll ts

end

theorem behindAll_eq (ts : List (Tree κ)) : behindAll q ts = ts.map (behind q) := by
  induction ts with
  | nil => rfl
  | cons t ts ih => rw [behindAll, ih, List.map_cons]

variable (t : Tree κ)

@[simp] theorem kind_behind : (t.behind q).kind = t.kind := by
  cases t
  rfl

@[simp] theorem role_behind : (t.behind q).role = t.role := by
  cases t
  rfl

@[simp] theorem start_behind : (t.behind q).start = q.behind t.start := by
  cases t
  rfl

@[simp] theorem stop_behind : (t.behind q).stop = q.behind t.stop := by
  cases t
  rfl

@[simp] theorem children_behind : (t.behind q).children = t.children.map (behind q) := by
  cases t
  exact behindAll_eq q _

theorem behind_withRole (r : Role) : (t.withRole r).behind q = (t.behind q).withRole r := by
  cases t
  rfl

@[simp] theorem child?_behind (r : Role) : (t.behind q).child? r = (t.child? r).map (behind q) := by
  rw [child?, child?, children_behind, List.find?_map]
  congr 2
  funext c
  exact congrArg (· == some r) (role_behind q c)

end Tree

namespace Parse

variable {κ : Type} (q : Position)

/-- A state of a run over the tokens of a text behind another one that ends at `q`. -/
def behind (p : Parse κ) : Parse κ where
  tokens := p.tokens.map (Token.behind q)
  left := p.left
  last := q.behind p.last
  trees := p.trees.map (Tree.behind q)

variable (p p' : Parse κ)

/-- Whether something has been taken is told from offsets alone, and these go on alike. -/
theorem moved_behind : (p.behind q).moved (p'.behind q) = p.moved p' := by
  have hoffset : (q.offset + p'.last.offset != q.offset + p.last.offset) =
      (p'.last.offset != p.last.offset) := by
    rw [Bool.eq_iff_iff, bne_iff_ne, bne_iff_ne]
    omega
  exact congrArg (p'.left != p.left || ·) hoffset

theorem nextStart_behind : (p.behind q).nextStart = q.behind p.nextStart := by
  rw [nextStart, nextStart]
  rcases h : p.tokens with _ | ⟨t, ts⟩
  · simp only [behind, h, List.map_nil]
  · simp only [behind, h, List.map_cons, Token.behind]

theorem atFreshLine_behind : (p.behind q).atFreshLine = p.atFreshLine := by
  rw [atFreshLine, atFreshLine]
  rcases h : p.tokens with _ | ⟨t, ts⟩
  · simp only [behind, h, List.map_nil]
  · simp only [behind, h, List.map_cons, Token.behind]

theorem startOf_behind : (p.behind q).startOf (p'.behind q) = q.behind (p.startOf p') := by
  rw [startOf, startOf, moved_behind]
  split
  · exact nextStart_behind q p
  · rfl

end Parse

namespace Grammar

variable {σ κ : Type} (g : Grammar σ κ) (q : Position)

theorem accepts_behind (w : Terminal) (t : Token) : w.accepts (t.behind q) = w.accepts t := by
  cases w <;> rfl

/-- The pieces of a token that is cut in two. -/
theorem splitToken?_behind (s : String) (t : Token) :
    Terminal.splitToken? s (t.behind q) =
      (Terminal.splitToken? s t).map fun r => (r.1.behind q, r.2.behind q) := by
  unfold Terminal.splitToken?
  rcases h : Text.dropPrefix? s.toList t.text.toList with _ | _ | ⟨c, rest⟩
  · simp only [Token.behind, h, Option.map_none]
  · simp only [Token.behind, h, Option.map_none]
  · simp only [Token.behind, h, Option.map_some, Position.behind_advance]

theorem front?_behind (w : Terminal) (t : Token) :
    w.front? (t.behind q) = (w.front? t).map fun r => (r.1.behind q, r.2.behind q) := by
  cases w with
  | head s =>
    rw [Terminal.front?, Terminal.front?, splitToken?_behind]
    show (if t.kind == .mark then _ else _) = _
    split <;> rfl
  | _ => rfl

theorem consume?_behind (p : Parse κ) (w : Terminal) :
    (p.behind q).consume? w = (p.consume? w).map (Parse.behind q) := by
  rw [Parse.consume?, Parse.consume?]
  rcases h : p.tokens with _ | ⟨t, ts⟩
  · simp only [Parse.behind, h, List.map_nil, Option.map_none]
  · simp only [Parse.behind, h, List.map_cons, accepts_behind, front?_behind]
    split
    · rfl
    · rcases w.front? t with _ | r <;> rfl

/-- **A run over tokens that stand elsewhere** does the same. -/
theorem run_behind (n : Nat) (r : Rule σ κ) (p : Parse κ) (f : Reach) :
    g.run n r (p.behind q) f = ((g.run n r p f).1.map (Parse.behind q), (g.run n r p f).2) := by
  induction n generalizing r p f with
  | zero => rfl
  | succ n ih =>
    -- A state without trees is one without trees wherever it stands.
    have hnone : ∀ p : Parse κ, ({ p.behind q with trees := [] } : Parse κ) =
        Parse.behind q { p with trees := [] } := fun _ => rfl
    cases r with
    | empty => rfl
    | never => rfl
    | sym s => exact ih (g.rule s) p f
    | token w =>
      rw [run, run, consume?_behind]
      rcases p.consume? w with _ | p' <;> rfl
    | both a b =>
      rw [run, run, ih]
      rcases g.run n a p f with ⟨_ | m, f'⟩
      · rfl
      · exact ih b m f'
    | either a b =>
      rw [run, run, ih]
      rcases g.run n a p f with ⟨_ | m, f'⟩
      · exact ih b p f'
      · rfl
    | many a =>
      rw [run, run, ih]
      rcases g.run n a p f with ⟨_ | m, f'⟩
      · rfl
      · simp only [Option.map_some, Parse.moved_behind]
        split
        · exact ih (.many a) m f'
        · rfl
    | ahead a =>
      rw [run, run, ih]
      rcases g.run n a p f with ⟨_ | m, f'⟩ <;> rfl
    | notAhead a =>
      rw [run, run, ih]
      rcases g.run n a p f with ⟨_ | m, f'⟩ <;> rfl
    | freshLine =>
      rw [run, run, Parse.atFreshLine_behind]
      split <;> rfl
    | node k a =>
      rw [run, run, hnone, ih]
      rcases g.run n a { p with trees := [] } f with ⟨_ | m, f'⟩
      · rfl
      · simp only [Option.map_some, Parse.startOf_behind]
        simp only [Parse.behind, List.map_cons, Tree.behind, Tree.behindAll_eq, List.map_reverse]
    | wrap k r a =>
      rw [run, run]
      rcases h : p.trees with _ | ⟨t, ts⟩
      · simp only [Parse.behind, h, List.map_nil, Option.map_none]
      · have hfirst : ({ p.behind q with trees := [(t.behind q).withRole r] } : Parse κ) =
            Parse.behind q { p with trees := [t.withRole r] } := by
          simp only [Parse.behind, List.map_cons, List.map_nil, Tree.behind_withRole]
        have htrees : (p.behind q).trees = t.behind q :: ts.map (Tree.behind q) := by
          simp only [Parse.behind, h, List.map_cons]
        rw [htrees]
        dsimp only
        rw [hfirst, ih]
        rcases g.run n a { p with trees := [t.withRole r] } f with ⟨_ | m, f'⟩
        · rfl
        · simp only [Option.map_some, Parse.behind, List.map_cons, Tree.behind, Tree.behindAll_eq,
            List.map_reverse, Tree.start_behind]
    | role r a =>
      rw [run, run, hnone, ih]
      rcases g.run n a { p with trees := [] } f with ⟨_ | m, f'⟩
      · rfl
      · simp only [Option.map_some, Parse.behind, List.map_append, List.map_map,
          Function.comp_def, Tree.behind_withRole]

/-- **The tree of tokens that stand elsewhere** is the same tree elsewhere. -/
theorem parse?_behind {ts : List Token} (h : ts ≠ []) :
    g.parse? (ts.map (Token.behind q)) = (g.parse? ts).map (Tree.behind q) := by
  obtain ⟨t, ts, rfl⟩ := List.exists_cons_of_ne_nil h
  have hbefore : (before ((t :: ts).map (Token.behind q)) : Parse κ) =
      (before (t :: ts)).behind q := by
    simp [before, Parse.behind, Token.behind]
  rw [parse?, parse?, runAll, runAll, hbefore, List.length_map, run_behind]
  rcases (g.run (fuelFor (t :: ts).length) (.sym g.start) (before (t :: ts))
    ⟨(t :: ts).length + 1, []⟩).1 with _ | p
  · rfl
  · simp only [Option.map_some, Parse.behind, List.isEmpty_map, List.head?_map]
    split <;> rfl

end Grammar

end Dossier
