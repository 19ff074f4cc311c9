/-!
# Errors of the file system

Why a file could not be read, listed or written.
-/

namespace Dossier

/-- A reason why a file cannot be had. -/
inductive FileError where
  | notFound
  | notADirectory
  | isADirectory
  | tooManyLinks
  /-- The file is no text. -/
  | notText
  /-- The path holds a zero character. -/
  | invalidPath
  | nameTooLong
  /-- An argument of a program holds a zero character. -/
  | invalidArgument
deriving DecidableEq, Repr, Inhabited

/-- The error in words. -/
def FileError.text : FileError → String
  | notFound => "No such file or directory (os error 2)"
  | notADirectory => "Not a directory (os error 20)"
  | isADirectory => "Is a directory (os error 21)"
  | tooManyLinks => "Too many levels of symbolic links (os error 40)"
  | notText => "stream did not contain valid UTF-8"
  | invalidPath => "file name contained an unexpected NUL byte"
  | nameTooLong => "File name too long (os error 36)"
  | invalidArgument => "nul byte found in provided data"

end Dossier
