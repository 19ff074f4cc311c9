import Dossier.CommandLine.Session
import Dossier.Proofs.Files.Following
import Dossier.Proofs.Source.Path
import Mathlib.Logic.Function.Iterate

/-!
# Staying within the repository

The file of a function is looked for below the root of the repository. A file that is named from the
root of all files is resolved before its path is shortened, and such a path leads below the root
unless a backslash in a name is read as a slash later. A relative path is taken as it is written: it
leads below the root only if it comes back to it, and the same has to hold of what is left of the
path when all its leading `./` have been dropped, which may well be a path from the root of all
files (`Dossier.CommandLine.stays_within_iff`).
-/

namespace Dossier

namespace Place

variable {above : List String} {cs : List Char}

/-- A leading `./` makes no difference to where a relative path leads. -/
theorem reached_dotSlash (h : Path.isAbsolute (String.ofList cs) = false) :
    reached above (String.ofList ('.' :: '/' :: cs)) = reached above (String.ofList cs) := by
  have hcomponents : components (String.ofList ('.' :: '/' :: cs)) =
      "." :: components (String.ofList cs) := components_slash ['.'] cs
  have hrelative : Path.isAbsolute (String.ofList ('.' :: '/' :: cs)) = false := by
    rw [Path.isAbsolute, String.toList_ofList]
    rfl
  rw [reached, reached, h, hrelative, hcomponents]
  rfl

theorem bareChars_of_isAbsolute (h : Path.isAbsolute (String.ofList cs) = true) :
    Path.bareChars cs = cs := by
  unfold Path.bareChars
  split
  · rw [Path.isAbsolute, String.toList_ofList] at h
    cases h
  · rfl

/-- **However often a path is put into its usual form**, it leads below a directory if it does so at
first, and at last when no leading `./` is left. -/
theorem forall_liesWithin_iff (h : cs.map Path.slash = cs) :
    (∀ n, LiesWithin above (Path.normalize^[n] (String.ofList cs))) ↔
      LiesWithin above (String.ofList cs) ∧
        LiesWithin above (String.ofList (Path.bareChars cs)) := by
  induction cs using Path.bareChars.induct with
  | case1 rest ih =>
    obtain ⟨-, hrest⟩ := List.cons.inj h
    obtain ⟨-, hrest⟩ := List.cons.inj hrest
    have hnext : Path.normalize (String.ofList ('.' :: '/' :: rest)) = String.ofList rest := by
      rw [Path.normalize_ofList, Path.normalizeChars_dotSlash hrest]
    rw [← Nat.and_forall_add_one, Path.bareChars]
    simp only [Function.iterate_succ_apply, Function.iterate_zero_apply, hnext]
    rw [ih hrest]
    -- What the first `./` stands before leads to the same place, unless it is all that is left.
    rcases habsolute : Path.isAbsolute (String.ofList rest)
    · rw [LiesWithin, reached_dotSlash habsolute, ← LiesWithin]
      exact ⟨And.right, fun h => ⟨h.1, h⟩⟩
    · rw [bareChars_of_isAbsolute habsolute, and_self_iff]
  | case2 cs hstart =>
    have hsame : Path.normalize (String.ofList cs) = String.ofList cs := by
      rw [Path.normalize_ofList, Path.normalizeChars_of_not_dotSlash h hstart]
    have hbare : Path.bareChars cs = cs := by
      unfold Path.bareChars
      split
      · exact absurd rfl (hstart _)
      · rfl
    simp only [Function.iterate_fixed hsame, hbare, forall_const, and_self_iff]

end Place

namespace CommandLine

open Place

variable {files above : Place} {root file path : String}

/-- A relative path is taken as it is. -/
theorem pathWithin_of_relative (h : Path.isAbsolute file = false) :
    pathWithin files root file = .ok (Path.toSlashes file) := by
  rw [pathWithin, h, if_neg Bool.false_ne_true]

/-- **A file that is named from the root of all files** lies below the root of the repository, and
its path is made of the names below it. -/
theorem exists_names_of_pathWithin (hfile : Path.isAbsolute file = true)
    (hroot : files.resolve root = .ok above) (h : pathWithin files root file = .ok path) :
    ∃ place names, files.resolve file = .ok place ∧ place.names = above.names ++ names ∧
      path = Path.toSlashes (Listing.joinNames names) := by
  rw [pathWithin, if_pos hfile, hroot] at h
  rcases hplace : files.resolve file with e | place <;> rw [hplace] at h
  · cases h
  dsimp only at h
  split at h
  · next hprefix =>
    obtain ⟨names, hnames⟩ := List.isPrefixOf_iff_prefix.mp hprefix
    refine ⟨place, names, rfl, hnames.symm, (Except.ok.inj h).symm.trans ?_⟩
    rw [← hnames, List.drop_left]
    rfl
  · cases h

/-- The path of a file is a path with slashes only. -/
theorem pathWithin_slashed (hroot : files.resolve root = .ok above)
    (h : pathWithin files root file = .ok path) : path.toList.map Path.slash = path.toList := by
  rcases hfile : Path.isAbsolute file
  · rw [pathWithin_of_relative hfile] at h
    obtain rfl := Except.ok.inj h
    exact Path.toSlashes_slashed file
  · obtain ⟨place, names, -, -, rfl⟩ := exists_names_of_pathWithin hfile hroot h
    exact Path.toSlashes_slashed _

/-- Whether no name between a directory and a file has a backslash in it. -/
def IsPlainBelow (files above : Place) (file : String) : Prop :=
  ∀ place, files.resolve file = .ok place →
    ∀ name ∈ place.names.drop above.names.length, '\\' ∉ name.toList

/-- **Where the path of a file leads.** The path that is found for a file within a repository leads
below the root, in the form that is found and in every form that it is put into afterwards, exactly
if it comes back to the root and still does without any leading `./`. A file that is named from the
root of all files, without backslashes in the names below the root, has such a path; a relative file
is its own path, whether it comes back or not. And where no link is met, what is read at such a path
is below the root exactly if the path leads there. -/
theorem stays_within_iff (hroot : files.resolve root = .ok above)
    (h : pathWithin files root file = .ok path) :
    ((∀ n, LiesWithin above.names (Path.normalize^[n] path)) ↔
        ComesBack above.names path ∧ ComesBack above.names (Path.bare path)) ∧
      (Path.isAbsolute file = true → IsPlainBelow files above file →
        ComesBack above.names path ∧ ComesBack above.names (Path.bare path)) ∧
      (Path.isAbsolute file = false → path = Path.toSlashes file) ∧
      ∀ (n : ℕ) (q : Place), '\x00' ∉ (Path.normalize^[n] path).toList →
        (if Path.isAbsolute (Path.normalize^[n] path) then files.top else above).advance
          (components (Path.normalize^[n] path)) = .arrived q →
        files.resolve (Path.join root (Path.normalize^[n] path)) = .ok q ∧
          (above.names <+: q.names ↔ LiesWithin above.names (Path.normalize^[n] path)) := by
  have hiff : (∀ n, LiesWithin above.names (Path.normalize^[n] path)) ↔
      ComesBack above.names path ∧ ComesBack above.names (Path.bare path) := by
    rw [← liesWithin_iff, ← liesWithin_iff, Path.bare]
    -- The forms are those of the characters of the path.
    conv_rhs => lhs; rw [← String.ofList_toList (s := path)]
    rw [← forall_liesWithin_iff (pathWithin_slashed hroot h), String.ofList_toList]
  refine ⟨hiff, fun hfile hplain => hiff.mp ?_, fun hfile => ?_, fun n q hnull hadvance => ?_⟩
  · -- The path is made of the names below the root, in which there are no marks to lose.
    obtain ⟨place, names, hplace, hnames, rfl⟩ := exists_names_of_pathWithin hfile hroot h
    have hproper := isProper_of_resolve hfile hplace
    have hname : ∀ name ∈ names, FileNode.IsName name := fun name hmem =>
      { hproper name (hnames ▸ List.mem_append_right above.names hmem) with
        noBackslash := hplain place hplace name (by rwa [hnames, List.drop_left]) }
    have hslashes : Path.toSlashes (Listing.joinNames names) = Listing.joinNames names := by
      rw [Path.toSlashes, Listing.map_slash_joinNames hname, String.ofList_toList]
    intro n
    rw [hslashes, Function.iterate_fixed (Listing.normalize_joinNames hname)]
    exact liesWithin_joinNames (fun name hmem => (hname name hmem).toIsEntryName) _
  · rw [pathWithin_of_relative hfile] at h
    exact (Except.ok.inj h).symm
  · obtain ⟨hread, hnames⟩ := resolve_join_of_advance hroot hnull hadvance
    exact ⟨hread, by rw [hnames, LiesWithin]⟩

/-- A disk with a repository, and with a file beside it. -/
def besideTree : FileNode :=
  .directory
    [ ("repo", .directory [("a.py", .file (some "def g(): return 2\n"))]),
      ("outside.py", .file (some "def f(): return 1\n")) ]

theorem stays_within_iff_beside :
    ∃ above, (Place.root besideTree).resolve "/repo" = .ok above ∧
      pathWithin (Place.root besideTree) "/repo" "./../repo/a.py" = .ok "./../repo/a.py" ∧
      ∀ n, LiesWithin above.names (Path.normalize^[n] "./../repo/a.py") := by
  have hroot : (Place.root besideTree).resolve "/repo" = .ok
      ⟨.directory [("a.py", .file (some "def g(): return 2\n"))], [("repo", besideTree)]⟩ := rfl
  have hpath : pathWithin (Place.root besideTree) "/repo" "./../repo/a.py" =
      .ok "./../repo/a.py" := pathWithin_of_relative (by decide)
  exact ⟨_, hroot, hpath, (stays_within_iff hroot hpath).1.mpr (by decide +kernel)⟩

/-- **A file outside of the repository that is read**: it is refused where it is named from the root
of all files, but not where its path leads up and does not come back. -/
theorem outside_read :
    pathWithin (Place.root besideTree) "/repo" "/outside.py" =
      .error (.outside "/outside.py" "/repo") ∧
    pathWithin (Place.root besideTree) "/repo" "../outside.py" = .ok "../outside.py" ∧
    ¬LiesWithin ["repo"] "../outside.py" ∧
    (Place.root besideTree).readText (Path.join "/repo" "../outside.py") =
      .ok "def f(): return 1\n" := by
  refine ⟨rfl, pathWithin_of_relative (by decide), ?_, rfl⟩
  rw [liesWithin_iff]
  decide +kernel

end CommandLine

end Dossier
