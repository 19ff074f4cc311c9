import Dossier.Decimal.Digits
import Dossier.Files.Error
import Dossier.Record.Commit
import Dossier.Reply

/-!
# Version control

What an analysis may ask of the version control of a repository, and what it may get for an
answer. A call is answered, or fails for a reason, or does not return in time; a version
control is what answers every call. That a path or a function has no history is an answer
and no failure.

An `Inquiry` is a computation that makes such calls. It stops at the first call that fails
or does not return, and it keeps the list of the calls it has made, so what was asked can
be told from what came back.
-/

namespace Dossier

/-- Why a call failed. -/
inductive VcsError where
  | notARepository (path : String)
  /-- The program could not be started. -/
  | spawn (cause : FileError)
  /-- The program refused. -/
  | command (arguments stderr : String)
  | invalidOutput (message : String)
deriving DecidableEq, Repr, Inhabited

/-- The name of the kind of a failure. -/
def VcsError.kind : VcsError → String
  | notARepository _ => "NotARepository"
  | spawn _ => "Spawn"
  | command .. => "Command"
  | invalidOutput _ => "InvalidOutput"

/-- The failure in words. -/
def VcsError.text : VcsError → String
  | notARepository path => "not a git repository: " ++ path
  | spawn cause => "failed to invoke git: " ++ cause.text
  | command arguments stderr => "git " ++ arguments ++ " failed: " ++ stderr
  | invalidOutput message => "unexpected git output: " ++ message

/-- The part of a file that a history is about. -/
inductive LineRange where
  /-- From one line to another, both counted from one and included. -/
  | lines (first last : Nat)
  /-- Wherever a function of this name is. -/
  | function (name : String)
deriving DecidableEq, Repr, Inhabited

/-- A call of the version control. -/
inductive VcsCall where
  /-- Fails unless there is a repository. -/
  | ensureRepository
  /-- The full hash of a revision. -/
  | resolve (revision : String)
  /-- The text of a file at a revision, if it is there. -/
  | showFile (revision path : String)
  /-- The files that belong to a revision. -/
  | listFiles (revision : String)
  /-- The commits up to a revision that touched a part of a file. -/
  | listCommits (path : String) (range : LineRange) (revision : String)
  /-- What a commit changed in a part of a file. -/
  | diff (hash path : String) (range : LineRange)
deriving DecidableEq, Repr, Inhabited

/-- What a call asks for. -/
abbrev VcsCall.Answer : VcsCall → Type
  | ensureRepository => Unit
  | resolve _ => String
  | showFile _ _ => Option String
  | listFiles _ => List String
  | listCommits _ _ _ => List Commit
  | diff _ _ _ => String

/-- What answers every call. -/
abbrev VersionControl :=
  (call : VcsCall) → Reply VcsError call.Answer

/-- A computation that makes calls: the calls it has made, and what it has come to. -/
structure Inquiry (α : Type) where
  calls : List VcsCall
  reply : Reply VcsError α
deriving Repr, Inhabited

namespace Inquiry

variable {α β : Type}

/-- The computation that makes no call. -/
def pure (a : α) : Inquiry α :=
  ⟨[], .answer a⟩

/-- One computation after another; the second is not begun if the first does not come to an
answer. -/
def bind (x : Inquiry α) (f : α → Inquiry β) : Inquiry β :=
  match x.reply with
  | .answer a => ⟨x.calls ++ (f a).calls, (f a).reply⟩
  | .failure e => ⟨x.calls, .failure e⟩
  | .stall => ⟨x.calls, .stall⟩

instance : Monad Inquiry where
  pure := pure
  bind := bind

/-- A single call. -/
def ask (v : VersionControl) (call : VcsCall) : Inquiry call.Answer :=
  ⟨[call], v call⟩

/-- A computation whose failure is a value. -/
def attempt (x : Inquiry α) : Inquiry (Except VcsError α) where
  calls := x.calls
  reply :=
    match x.reply with
    | .answer a => .answer (.ok a)
    | .failure e => .answer (.error e)
    | .stall => .stall

/-- A computation for every item of a list, in order. -/
def forAll (f : α → Inquiry β) : List α → Inquiry (List β)
  | [] => pure []
  | a :: as => (f a).bind fun b => (forAll f as).bind fun bs => pure (b :: bs)

end Inquiry

end Dossier
