import Dossier.Syntax.Grammar

/-!
# What is wrong with a text

When the tokens of a text do not fit a grammar, the place to look at is the token that the
run could not get past. If the text makes sense without that token, the token is what is
wrong. If it makes sense with one more token before it, that one is missing: a name if it
can be one, then a closing bracket, then whatever else the run would have accepted. If it
makes sense without the token before, that one is wrong. Where none of this helps and a
bracket could be closed, it should have been. Something missing is reported at the end of
the token before, something unexpected where it starts.
-/

namespace Dossier

/-- A place and what is wrong there. -/
structure Diagnosis where
  place : Position
  message : String
deriving DecidableEq, Repr, Inhabited

namespace Diagnosis

/-- Something unexpected: its first line, at most twenty-four characters of it. -/
def unexpected (t : Token) : Diagnosis :=
  let shown := ((Text.lines t.text.toList).headD []).take 24
  ⟨t.start, "unexpected `" ++ String.ofList (Text.trimChars shown) ++ "`"⟩

/-- Something missing. -/
def missing (place : Position) (w : Terminal) : Diagnosis :=
  ⟨place, "missing `" ++ w.describe ++ "`"⟩

end Diagnosis

namespace Terminal

/-- A token that the terminal accepts, of no width. -/
def sample (w : Terminal) (place : Position) : Token :=
  let make (k : TokenKind) (s : String) : Token := ⟨k, s, place, place, false⟩
  match w with
  | word s => make .keyword s
  | mark s => make .mark s
  | head s => make .mark s
  | kind k => make k "x"
  | anyWord => make .name "x"
  | any => make .name "x"

/-- Whether a terminal closes a bracket. -/
def closes (w : Terminal) : Bool :=
  w == mark ")" || w == mark "]" || w == mark "\x7d"

/-- The terminals in the order in which they are tried as what is missing: names, then
closing brackets, then all others. -/
def byPreference (ws : List Terminal) : List Terminal :=
  let isName := fun w : Terminal => w == kind .name || w == anyWord
  ws.filter isName ++ ws.filter closes ++ ws.filter fun w => !isName w && !closes w

end Terminal

namespace Grammar

variable {σ κ : Type}

/-- **What is wrong with a text whose tokens do not fit the grammar.** -/
def diagnose (g : Grammar σ κ) (ts : List Token) : Diagnosis :=
  let (state, reach) := g.runAll ts
  let left :=
    match state with
    | some q => min q.left reach.left
    | none => reach.left
  let fits (ts : List Token) : Bool := (g.parse? ts).isSome
  let before := ts.take (ts.length - left)
  let after := ts.drop (ts.length - left)
  let place := (before.getLast?.map Token.stop).getD .origin
  let wanted := Terminal.byPreference reach.wanted.eraseDups
  let missing := wanted.find? fun w => fits (before ++ w.sample place :: after)
  match after with
  | [] =>
    match missing <|> wanted.head? with
    | some w => .missing place w
    | none => ⟨place, "syntax error"⟩
  | t :: rest =>
    if t.kind == .stray || fits (before ++ rest) then .unexpected t
    else
      match missing, before.getLast? with
      | some w, _ => .missing place w
      | none, some s =>
        if fits (before.dropLast ++ after) then .unexpected s
        else
          match wanted.find? Terminal.closes with
          | some w => .missing place w
          | none => .unexpected t
      | none, none => .unexpected t

end Grammar

end Dossier
