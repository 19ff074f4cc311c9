import Dossier.Text.Blank

/-!
# Words of a command line

A command is given flags, options with their values, and operands, in any order. A word
that begins with two hyphens names a flag or an option; the value of an option stands
behind an equals sign, or else it is the next word. A word that begins with one hyphen is
made of the letters of flags. Every other word is an operand, a single hyphen and the
empty word included, and two hyphens alone make operands of all words after them.

Nothing is given twice, nothing is given that the command does not know, and a flag takes
no value. Which options have to be there, and which values they take, is for the command
to say.
-/

namespace Dossier.CommandLine

/-- What a word of a command line is. -/
inductive Word where
  /-- Two hyphens: only operands follow. -/
  | stop
  /-- A flag or an option, with what stands behind the equals sign. -/
  | named (name : String) (value : Option String)
  /-- Flags by their letters. -/
  | letters (letters : List Char)
  /-- Anything else. -/
  | plain (text : String)
deriving DecidableEq, Repr, Inhabited

/-- What a word is. -/
def Word.of (word : String) : Word :=
  match word.toList with
  | ['-', '-'] => .stop
  | '-' :: '-' :: cs =>
    match Text.cut? ['='] cs with
    | some (name, value) => .named (String.ofList name) (some (String.ofList value))
    | none => .named (String.ofList cs) none
  | '-' :: c :: cs => .letters (c :: cs)
  | _ => .plain word

/-- The flags and options that a command knows. -/
structure Vocabulary where
  flags : List String
  options : List String
deriving Repr, Inhabited

/-- What a command is given. -/
structure Given where
  flags : List String := []
  options : List (String × String) := []
  operands : List String := []
deriving DecidableEq, Repr, Inhabited

/-- The flag that every command knows. It asks for a log of the run, and has a letter. -/
def verboseFlag : String := "verbose"

/-- The letter of the flag that every command knows. -/
def verboseLetter : Char := 'v'

/-- The flag that some letters stand for. -/
def flagOfLetters? (letters : List Char) : Option String :=
  if letters = [verboseLetter] then some verboseFlag else none

/-- The value in a word, which must not look like a flag or an option. -/
def valueOf? (word : String) : Option String :=
  match Word.of word with
  | .plain value => some value
  | _ => none

namespace Given

/-- With one more flag, unless it was given before. -/
def addFlag? (g : Given) (name : String) : Option Given :=
  if g.flags.contains name then none else some { g with flags := g.flags ++ [name] }

/-- With one more option, unless it was given before. -/
def addOption? (g : Given) (name value : String) : Option Given :=
  if (g.options.lookup name).isSome then none
  else some { g with options := g.options ++ [(name, value)] }

/-- With more operands. -/
def addOperands (g : Given) (operands : List String) : Given :=
  { g with operands := g.operands ++ operands }

/-- Whether a flag is given. -/
def has (g : Given) (flag : String) : Bool :=
  g.flags.contains flag

/-- The value of an option, if it is given. -/
def value? (g : Given) (option : String) : Option String :=
  g.options.lookup option

end Given

/-- Adds what words give to what is given. -/
def Vocabulary.readOnto (v : Vocabulary) (g : Given) : List String → Option Given
  | [] => some g
  | word :: words =>
    match Word.of word with
    | .stop => some (g.addOperands words)
    | .plain operand => v.readOnto (g.addOperands [operand]) words
    | .letters letters => do
      let flag ← flagOfLetters? letters
      let g ← g.addFlag? flag
      v.readOnto g words
    | .named name (some value) =>
      if v.options.contains name then do
        let g ← g.addOption? name value
        v.readOnto g words
      else none
    | .named name none =>
      if name = verboseFlag ∨ v.flags.contains name then do
        let g ← g.addFlag? name
        v.readOnto g words
      else if v.options.contains name then
        match words with
        | [] => none
        | word :: words => do
          let value ← valueOf? word
          let g ← g.addOption? name value
          v.readOnto g words
      else none

/-- **What words give** to a command that knows these flags and options. -/
def Vocabulary.read? (v : Vocabulary) (words : List String) : Option Given :=
  v.readOnto {} words

/-- **The command that is named** and the words for it. Only the flag that every command
knows may stand before the name, and only once. -/
def command? : List String → Option (String × List String)
  | [] => none
  | word :: words =>
    match Word.of word with
    | .plain name => some (name, words)
    | .letters letters => do named (← flagOfLetters? letters) words
    | .named flag none => named flag words
    | _ => none
where
  /-- The command that is named after a flag. -/
  named (flag : String) : List String → Option (String × List String)
    | [] => none
    | word :: words =>
      if flag = verboseFlag then (valueOf? word).map fun name => (name, words) else none

end Dossier.CommandLine
