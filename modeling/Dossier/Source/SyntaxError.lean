import Dossier.Decimal.Digits

/-!
# Syntax errors

A syntax error names the file, the line and the column where the text stops making sense,
both counted from one, and says what is wrong there.
-/

namespace Dossier

/-- A place in a file where its text is no program. -/
structure SyntaxError where
  file : String
  line : Nat
  column : Nat
  message : String
deriving DecidableEq, Repr, Inhabited

/-- The place as it is written. -/
def SyntaxError.location (e : SyntaxError) : String :=
  e.file ++ ":" ++ Decimal.ofNat e.line ++ ":" ++ Decimal.ofNat e.column

/-- The whole message. -/
def SyntaxError.text (e : SyntaxError) : String :=
  "parse error at " ++ e.location ++ ": " ++ e.message

end Dossier
