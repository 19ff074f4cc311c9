import Dossier.Order.Sorting
import Dossier.Text.Blank

/-!
# Commits

A commit that touched a function, with the part of its changes that lies within the
function. What an analysis keeps of it is a digest: the changes are stored elsewhere, and
of the message only the subject is kept, its first line. Commits are put in the order of
their times, and those of one time in the order of their hashes.
-/

namespace Dossier

/-- A commit that touched a function. -/
structure Commit where
  hash : String
  message : String
  author : String
  /-- The seconds since the beginning of 1970. -/
  timestamp : Int
  issueIds : List String
  diff : String
deriving DecidableEq, Repr, Inhabited

/-- What an analysis keeps of a commit. -/
structure CommitDigest where
  hash : String
  author : String
  timestamp : Int
  subject : String
  issueIds : List String
deriving DecidableEq, Repr, Inhabited

namespace Commit

/-- The first line of the message, without the blanks at its ends. -/
def subject (c : Commit) : String :=
  Text.trim (Text.firstLine c.message)

/-- What is kept of a commit. -/
def digest (c : Commit) : CommitDigest :=
  ⟨c.hash, c.author, c.timestamp, c.subject, c.issueIds⟩

/-- Whether a commit comes before another or beside it. -/
def notAfter (a b : Commit) : Bool :=
  a.timestamp < b.timestamp || (a.timestamp == b.timestamp && a.hash ≤ b.hash)

/-- **Commits in the order of their times**, and of their hashes at one time. -/
def sort (cs : List Commit) : List Commit :=
  Order.sort notAfter cs

/-- What it means that a commit comes before another or beside it. -/
theorem notAfter_iff {a b : Commit} :
    a.notAfter b ↔ a.timestamp < b.timestamp ∨ (a.timestamp = b.timestamp ∧ a.hash ≤ b.hash) := by
  simp [notAfter]

theorem notAfter_total (a b : Commit) : a.notAfter b || b.notAfter a := by
  rw [Bool.or_eq_true, notAfter_iff, notAfter_iff]
  rcases Int.lt_trichotomy a.timestamp b.timestamp with h | h | h
  · exact Or.inl (Or.inl h)
  · rcases String.le_total a.hash b.hash with hh | hh
    · exact Or.inl (Or.inr ⟨h, hh⟩)
    · exact Or.inr (Or.inr ⟨h.symm, hh⟩)
  · exact Or.inr (Or.inl h)

theorem notAfter_trans (a b c : Commit) : a.notAfter b → b.notAfter c → a.notAfter c := by
  rw [notAfter_iff, notAfter_iff, notAfter_iff]
  rintro (h | ⟨h, hh⟩) (h' | ⟨h', hh'⟩)
  · exact Or.inl (Int.lt_trans h h')
  · exact Or.inl (h' ▸ h)
  · exact Or.inl (h ▸ h')
  · exact Or.inr ⟨h.trans h', String.le_trans hh hh'⟩

/-- Sorted commits are in the order of their times, and of their hashes at one time. -/
theorem pairwise_sort (cs : List Commit) : (sort cs).Pairwise fun a b => a.notAfter b :=
  Order.pairwise_sort notAfter_total notAfter_trans cs

end Commit

end Dossier
