/-!
# Glob patterns

A pattern is read character by character. A question mark stands for one unit of a path, a
star for any run of them, slashes included; square brackets hold a class, negated by `!`
or `^` at its head; curly brackets hold alternatives, which may be nested; a backslash
takes the next character as it is.

Two stars are more than two stars only as a whole component of a path. At the head of a
pattern or of an alternative they stand for any directories that lead to what follows,
between slashes for any directories between two others, and at the end for everything
below a directory.
-/

namespace Dossier.Glob

/-- A piece of a pattern. -/
inductive Token where
  | literal (c : Char)
  /-- One unit. -/
  | anyOne
  /-- Any number of units. -/
  | anyRun
  /-- Nothing, or directories up to and with a slash. -/
  | leadingDirectories
  /-- A slash and all that follows. -/
  | trailingDirectories
  /-- A slash, or directories between two slashes. -/
  | innerDirectories
  | oneOf (negated : Bool) (ranges : List (Char × Char))
  | choice (alternatives : List (List Token))
deriving Repr, Inhabited

/-- A pattern. -/
abbrev Pattern :=
  List Token

/-! ### Classes -/

/-- A class that is being read. -/
structure OpenClass where
  negated : Bool
  /-- Whether nothing has been read, so that a closing bracket stands for itself. -/
  first : Bool
  /-- Whether a hyphen has been read that may make a range. -/
  inRange : Bool
  /-- The ranges, last one first. -/
  ranges : List (Char × Char)
deriving Repr, Inhabited

namespace OpenClass

/-- The class with one more character, unless that ends a range before its start. -/
def add (k : OpenClass) (c : Char) : Option OpenClass :=
  if k.inRange then
    match k.ranges with
    | (a, _) :: rs =>
      if c < a then none else some ⟨k.negated, false, false, (a, c) :: rs⟩
    | [] => none
  else some ⟨k.negated, false, false, (c, c) :: k.ranges⟩

/-- The class when it is closed; a hyphen left over stands for itself. -/
def close (k : OpenClass) : Token :=
  let ranges := if k.inRange then ('-', '-') :: k.ranges else k.ranges
  .oneOf k.negated ranges.reverse

end OpenClass

/-! ### Alternatives -/

/-- Alternatives that are being read: those that are complete, last one first, and the
tokens of the last one, last one first. -/
structure Frame where
  complete : List (List Token)
  current : List Token
deriving Repr, Inhabited

/-- Where reading is: outside of brackets, after a backslash, after one or two stars, or in
a class. -/
inductive Mode where
  | plain
  | escaped
  /-- After a star, with the character before it. -/
  | star (before : Option Char)
  /-- After two stars, with the character before them. -/
  | twoStars (before : Option Char)
  /-- Just after the bracket that opens a class. -/
  | classStart
  | inClass (k : OpenClass)
deriving Repr, Inhabited

/-- What has been read: the mode, the innermost alternatives and those around them, and the
last character. -/
structure Reading where
  mode : Mode
  top : Frame
  outer : List Frame
  previous : Option Char
deriving Repr, Inhabited

namespace Reading

/-- Nothing read yet. -/
def start : Reading :=
  ⟨.plain, ⟨[], []⟩, [], none⟩

/-- One more token. -/
def push (r : Reading) (t : Token) : Reading :=
  { r with mode := .plain, top := { r.top with current := t :: r.top.current } }

/-- A group of alternatives begins. -/
def openGroup (r : Reading) : Reading :=
  { r with top := ⟨[], []⟩, outer := r.top :: r.outer }

/-- The innermost group ends, if there is one. -/
def closeGroup (r : Reading) : Option Reading :=
  match r.outer with
  | [] => none
  | f :: fs =>
    let alternatives := (r.top.current.reverse :: r.top.complete).reverse
    some ({ r with top := f, outer := fs }.push (.choice alternatives))

/-- The next alternative of a group begins; outside of groups a comma stands for itself. -/
def comma (r : Reading) : Reading :=
  if r.outer.isEmpty then r.push (.literal ',')
  else { r with top := ⟨r.top.current.reverse :: r.top.complete, []⟩ }

/-- Two stars that are no component. -/
def twoRuns (r : Reading) : Reading :=
  (r.push .anyRun).push .anyRun

/-- Two stars after a slash, at the end of a path or with a slash after them; directories
that lead on or end a path already stay as they are. -/
def component (r : Reading) (isLast : Bool) : Reading :=
  match r.top.current with
  | [] => r
  | t :: ts =>
    let r := { r with top := { r.top with current := ts } }
    match t with
    | .leadingDirectories => r.push .leadingDirectories
    | .trailingDirectories => r.push .trailingDirectories
    | _ => r.push (if isLast then .trailingDirectories else .innerDirectories)

/-- Whether two stars with some token before them can be a component. -/
def startsComponent (r : Reading) (before : Option Char) : Bool :=
  before == some '/' || (!r.outer.isEmpty && (before == some ',' || before == some '\x7b'))

/-- One character outside of classes. -/
def plain (r : Reading) (c : Char) : Option Reading :=
  if c == '?' then some (r.push .anyOne)
  else if c == '*' then some { r with mode := .star r.previous }
  else if c == '[' then some { r with mode := .classStart }
  else if c == '\x7b' then some r.openGroup
  else if c == '\x7d' then r.closeGroup
  else if c == ',' then some r.comma
  else if c == '\\' then some { r with mode := .escaped }
  else some (r.push (.literal c))

/-- One character after two stars. -/
def afterTwoStars (r : Reading) (before : Option Char) (c : Char) : Option Reading :=
  if r.top.current.isEmpty then
    if c == '/' then some (r.push .leadingDirectories) else r.twoRuns.plain c
  else if r.startsComponent before then
    if c == '/' then some (r.component false)
    else if !r.outer.isEmpty && (c == ',' || c == '\x7d') then (r.component true).plain c
    else r.twoRuns.plain c
  else r.twoRuns.plain c

/-- One character of a class. -/
def classChar (r : Reading) (k : OpenClass) (c : Char) : Option Reading :=
  if c == ']' && !k.first then some (r.push k.close)
  else if c == '-' && !k.first && !k.inRange then
    some { r with mode := .inClass { k with inRange := true } }
  else (k.add c).map fun k => { r with mode := .inClass k }

/-- One more character. -/
def next (r : Reading) (c : Char) : Option Reading :=
  match r.mode with
  | .plain => r.plain c
  | .escaped => some (r.push (.literal c))
  | .star before =>
    if c == '*' then some { r with mode := .twoStars before } else (r.push .anyRun).plain c
  | .twoStars before => r.afterTwoStars before c
  | .classStart =>
    if c == '!' || c == '^' then some { r with mode := .inClass ⟨true, true, false, []⟩ }
    else r.classChar ⟨false, true, false, []⟩ c
  | .inClass k => r.classChar k c

/-- The pattern when all is read, if nothing is left open. -/
def finish (r : Reading) : Option Pattern :=
  let whole (r : Reading) : Option Pattern :=
    if r.outer.isEmpty then some r.top.current.reverse else none
  match r.mode with
  | .plain => whole r
  | .star _ => whole (r.push .anyRun)
  | .twoStars before =>
    if r.top.current.isEmpty then whole (r.push .leadingDirectories)
    else if r.startsComponent before then whole (r.component true)
    else whole r.twoRuns
  | _ => none

/-- The pattern that the rest of a text completes. -/
def read : Reading → List Char → Option Pattern
  | r, [] => r.finish
  | r, c :: cs =>
    match r.next c with
    | none => none
    | some r => read { r with previous := some c } cs

end Reading

/-- **Reads a pattern.** -/
def Pattern.parse? (s : String) : Option Pattern :=
  Reading.start.read s.toList

end Dossier.Glob
