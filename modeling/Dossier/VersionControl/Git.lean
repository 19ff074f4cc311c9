import Dossier.Files.Tree
import Dossier.Text.Utf8
import Dossier.VersionControl.Basic

/-!
# Version control by git

Every call of the version control is one run of git in the directory of the repository.
`arguments` says which, `answer` reads what git has written, and `absence` tells from what
git complains about that there is nothing to show, which is an answer and no failure.

A log is asked for in a format of our own: a record separator before every commit, and
field separators after its hash, author, time and message; what follows is the patch.
-/

namespace Dossier.Git

/-- What comes of a run of git. -/
structure Output where
  success : Bool
  stdout : List UInt8
  stderr : List UInt8
deriving Repr, Inhabited

/-- A git program: what a run with some arguments comes to. -/
abbrev Program :=
  List String → Output

/-! ### Arguments -/

/-- Stands before every commit of a log. -/
def recordSeparator : Char := '\u001e'

/-- Stands after every field of a commit. -/
def fieldSeparator : Char := '\u001f'

/-- How a log is to be written. -/
def logFormat : String :=
  "--format=%x1e%H%x1f%an%x1f%at%x1f%B%x1f"

/-- The characters that mean something in a regular expression. -/
def special : List Char :=
  ['\\', '.', '+', '*', '?', '(', ')', '|', '[', ']', '\x7b', '\x7d', '^', '$', '#', '&', '-',
    '~']

/-- The regular expression that a text alone matches. -/
def escape (s : String) : String :=
  String.ofList (s.toList.flatMap fun c => if special.contains c then ['\\', c] else [c])

/-- The argument that restricts a log to a part of a file. -/
def rangeArgument (path : String) : LineRange → String
  | .lines first last =>
    String.join ["-L", Decimal.ofNat first, ",", Decimal.ofNat last, ":", path]
  | .function name => String.join ["-L:", escape name, ":", path]

/-- **The arguments of git** for a call. -/
def arguments : VcsCall → List String
  | .ensureRepository => ["rev-parse", "--git-dir"]
  | .resolve revision => ["rev-parse", "--verify", "--quiet", revision ++ "^\x7bcommit\x7d"]
  | .showFile revision path => ["show", revision ++ ":" ++ path]
  | .listFiles revision => ["ls-tree", "-r", "-z", "--name-only", revision]
  | .listCommits path range revision =>
    ["log", "--no-color", "--no-ext-diff", logFormat, rangeArgument path range, revision]
  | .diff hash path range =>
    ["log", "-1", "--no-color", "--no-ext-diff", "--format=", rangeArgument path range, hash]

/-! ### Reading -/

/-- The number of a text, which may have a sign, in sixty-four bits. -/
def int64? (cs : List Char) : Option Int :=
  match cs with
  | '-' :: ds => (Decimal.value? ds).bind fun n => Decimal.signed? (-n)
  | '+' :: ds => (Decimal.value? ds).bind fun n => Decimal.signed? n
  | ds => (Decimal.value? ds).bind fun n => Decimal.signed? n

/-- The text up to a separator and the text after it. -/
def field? (cs : List Char) : Option (List Char × List Char) :=
  Text.cut? [fieldSeparator] cs

/-- A text without the line breaks at its ends. -/
def dropBreaks (cs : List Char) : List Char :=
  ((cs.dropWhile (· == '\n')).reverse.dropWhile (· == '\n')).reverse

/-- What is wrong with a record that has too few fields. -/
def truncated (record : List Char) : VcsError :=
  .invalidOutput ("truncated log record: " ++ String.ofList (record.take 60))

/-- A commit of its fields, without the issues it names. -/
def commit (hash author time message patch : List Char) : Except VcsError Commit :=
  match int64? (Text.trimChars time) with
  | none => .error (.invalidOutput ("invalid commit timestamp `" ++ String.ofList time ++ "`"))
  | some timestamp =>
    .ok {
      hash := String.ofList (Text.trimChars hash)
      message := String.ofList (Text.trimChars message)
      author := String.ofList (Text.trimChars author)
      timestamp := timestamp
      issueIds := []
      diff := String.ofList (dropBreaks patch) }

/-- Reads a record. The message ends the record when no separator follows it. -/
def readRecord (record : List Char) : Except VcsError Commit :=
  let fields? : Option (Except VcsError Commit) := do
    let (hash, rest) ← field? record
    let (author, rest) ← field? rest
    let (time, rest) ← field? rest
    let (message, patch) := (field? rest).getD (rest, [])
    return commit hash author time message patch
  fields?.getD (.error (truncated record))

/-- **Reads a log**; blank records are passed over. -/
def readLog (log : String) : Except VcsError (List Commit) :=
  ((Text.splitAt (· == recordSeparator) log.toList).filter fun r => !r.all Text.isBlank).mapM
    readRecord

/-- The names of a listing, each of which ends with a zero character. -/
def readListing (listing : String) : List String :=
  ((Text.splitAt (· == '\x00') listing.toList).filter (!·.isEmpty)).map String.ofList

/-- The answer to a call in what git has written. -/
def answer : (call : VcsCall) → String → Except VcsError call.Answer
  | .ensureRepository, _ => .ok ()
  | .resolve revision, hash =>
    if hash.isEmpty then .error (.invalidOutput ("cannot resolve " ++ revision)) else .ok hash
  | .showFile _ _, text => .ok (some text)
  | .listFiles _, listing => .ok (readListing listing)
  | .listCommits _ _ _, log => readLog log
  | .diff _ _ _, patch => .ok patch

/-! ### Nothing to show -/

/-- Whether a text occurs in another. -/
def occurs (part whole : String) : Bool :=
  (Text.cut? part.toList whole.toList).isSome

/-- Whether git complains that a path or a range of lines has nothing to show. -/
def saysNoHistory (complaint : String) : Bool :=
  ["no match", "There is no path", "does not exist", "has only",
    "does not have any commits yet"].any fun part => occurs part complaint

/-- Whether git complains that there is no such file at the revision. -/
def saysNoFile (complaint : String) : Bool :=
  saysNoHistory complaint ||
    ["exists on disk, but not in", "invalid object name"].any fun part => occurs part complaint

/-- The answer to a call when git complains and there is nothing to show. -/
def absence : (call : VcsCall) → String → Option call.Answer
  | .showFile _ _, complaint => if saysNoFile complaint then some none else none
  | .listCommits _ _ _, complaint => if saysNoHistory complaint then some [] else none
  | .diff _ _ _, complaint => if saysNoHistory complaint then some "" else none
  | _, _ => none

/-! ### Running -/

/-- Bytes as text, without the blanks at its ends. -/
def written (bytes : List UInt8) : String :=
  Text.trim (Text.decode bytes)

/-- What a run of git comes to for a call. -/
def outcome (call : VcsCall) (o : Output) : Except VcsError call.Answer :=
  if o.success then answer call (written o.stdout)
  else
    match absence call (written o.stderr) with
    | some a => .ok a
    | none => .error (.command (" ".intercalate (arguments call)) (written o.stderr))

/-- Why git cannot be run in a directory, if it cannot. Without a program nothing is found,
and without the directory there is no repository. -/
def obstacle? (program : Option Program) (files : Place) (root : String) (args : List String) :
    Option VcsError :=
  if args.any fun a => a.toList.contains '\x00' then some (.spawn .invalidArgument)
  else
    match files.resolve root with
    | .error .notFound => some (.notARepository root)
    | .error e => some (.spawn e)
    | .ok ⟨.directory _, _⟩ => if program.isSome then none else some (.spawn .notFound)
    | .ok _ => some (.spawn .notADirectory)

/-- Runs git for a call. -/
def run (program : Option Program) (files : Place) (root : String) (call : VcsCall) :
    Except VcsError call.Answer :=
  match obstacle? program files root (arguments call), program with
  | some e, _ => .error e
  | none, none => .error (.spawn .notFound)
  | none, some git => outcome call (git (arguments call))

/-- **The version control of a repository**, by git. Whatever keeps git from answering the
question whether there is a repository means that there is none. -/
def versionControl (program : Option Program) (files : Place) (root : String) :
    VersionControl := fun call =>
  match call, run program files root call with
  | _, .ok a => .answer a
  | .ensureRepository, .error _ => .failure (.notARepository root)
  | _, .error e => .failure e

end Dossier.Git
