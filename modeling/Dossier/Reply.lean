/-!
# Replies

What comes back from someone who is asked: an answer, a reason why there is none, or
nothing in time.
-/

namespace Dossier

/-- What comes back. -/
inductive Reply (ε α : Type) where
  | answer (value : α)
  | failure (error : ε)
  /-- Nothing comes back in time. -/
  | stall
deriving DecidableEq, Repr, Inhabited

end Dossier
