import Dossier.Files.Listing
import Dossier.Proofs.Text.Blank

/-!
# Names along a path

A file of a directory is told by the names that lead to it, and by the path in which a slash stands
between them. Names have no slashes in them, so the path says what the names are
(`Dossier.Listing.joinNames_inj`), and being no dots and free of backslashes they make a path that
is in its usual form already (`Dossier.Listing.normalize_joinNames`).
-/

namespace Dossier

/-- **Whether a text can be the name of an entry**: there is something in it, but neither dots alone
that lead elsewhere nor slashes. -/
structure FileNode.IsEntryName (name : String) : Prop where
  nonempty : name ≠ ""
  notDot : name ≠ "."
  notUp : name ≠ ".."
  noSlash : '/' ∉ name.toList

/-- **Whether a text can be the name of an entry** whose path is written as it is, there being no
backslashes in it either. -/
structure FileNode.IsName (name : String) : Prop extends FileNode.IsEntryName name where
  noBackslash : '\\' ∉ name.toList

namespace Listing

open FileNode (IsName)

variable {name : String} {names names' : List String}

theorem joinNames_cons (name : String) (h : names ≠ []) :
    (joinNames (name :: names)).toList = name.toList ++ '/' :: (joinNames names).toList := by
  obtain ⟨second, rest, rfl⟩ := List.exists_cons_of_ne_nil h
  rw [joinNames, String.intercalate_cons_cons, String.toList_append, String.toList_append,
    List.append_assoc]
  rfl

theorem joinNames_singleton (name : String) : joinNames [name] = name := by
  rw [joinNames, String.intercalate_singleton]

/-- **The pieces of a path are its names.** -/
theorem splitAt_joinNames (hne : names ≠ []) (h : ∀ name ∈ names, '/' ∉ name.toList) :
    Text.splitAt (· == '/') (joinNames names).toList = names.map String.toList := by
  induction names with
  | nil => exact absurd rfl hne
  | cons name names ih =>
    obtain ⟨hname, hnames⟩ := List.forall_mem_cons.mp h
    have halone : Text.splitAt (· == '/') name.toList = [name.toList] :=
      Text.splitAt_of_forall fun c hc => beq_false_of_ne (ne_of_mem_of_not_mem hc hname)
    rcases names with _ | ⟨second, rest⟩
    · rw [joinNames_singleton, halone]
      rfl
    · rw [joinNames_cons name (List.cons_ne_nil _ _), Text.splitAt_append (by decide), halone,
        ih (List.cons_ne_nil _ _) hnames]
      rfl

/-- The names of a path can be told. -/
theorem map_splitAt_joinNames (hne : names ≠ []) (h : ∀ name ∈ names, '/' ∉ name.toList) :
    (Text.splitAt (· == '/') (joinNames names).toList).map String.ofList = names := by
  rw [splitAt_joinNames hne h, List.map_map]
  exact List.map_id'' (fun n => String.ofList_toList) names

/-- **A path tells its names.** -/
theorem joinNames_inj (hne : names ≠ []) (hne' : names' ≠ [])
    (h : ∀ name ∈ names, '/' ∉ name.toList) (h' : ∀ name ∈ names', '/' ∉ name.toList)
    (heq : joinNames names = joinNames names') : names = names' := by
  rw [← map_splitAt_joinNames hne h, heq, map_splitAt_joinNames hne' h']

/-- Whether the directories on a path are passed over is a matter of its names. -/
theorem isReached_joinNames (hne : names ≠ []) (h : ∀ name ∈ names, '/' ∉ name.toList) :
    isReached (joinNames names) = true ↔ ∀ dir ∈ names.dropLast, isSkipped dir = false := by
  rw [isReached, map_splitAt_joinNames hne h]
  simp

/-- A character that stands in a path stands in a name, unless it is a slash. -/
theorem not_mem_joinNames {c : Char} (hc : c ≠ '/') (h : ∀ name ∈ names, c ∉ name.toList) :
    c ∉ (joinNames names).toList := by
  induction names with
  | nil => exact List.not_mem_nil
  | cons name names ih =>
    obtain ⟨hname, hnames⟩ := List.forall_mem_cons.mp h
    rcases names with _ | ⟨second, rest⟩
    · rwa [joinNames_singleton]
    · rw [joinNames_cons name (List.cons_ne_nil _ _), List.mem_append, List.mem_cons]
      rintro (hmem | heq | hmem)
      · exact hname hmem
      · exact hc heq
      · exact ih hnames hmem

/-- A path does not begin with a dot for a name. -/
theorem not_dotSlash_joinNames (h : ∀ name ∈ names, IsName name) :
    ¬['.', '/'] <+: (joinNames names).toList := by
  rintro ⟨rest, hrest⟩
  rcases names with _ | ⟨name, names⟩
  · cases hrest
  have hslashes : ∀ n ∈ name :: names, '/' ∉ n.toList := fun n hn => (h n hn).noSlash
  have hsplit := splitAt_joinNames (List.cons_ne_nil name names) hslashes
  rw [← hrest, List.cons_append, List.cons_append, List.nil_append,
    show '.' :: '/' :: rest = ['.'] ++ '/' :: rest from rfl, Text.splitAt_append (by decide),
    Text.splitAt_of_forall (List.forall_mem_singleton.mpr (by decide))] at hsplit
  obtain ⟨hdot, -⟩ := List.cons.inj hsplit
  exact (h name List.mem_cons_self).notDot (String.toList_inj.mp hdot.symm)

theorem map_slash_joinNames (h : ∀ name ∈ names, IsName name) :
    (joinNames names).toList.map Path.slash = (joinNames names).toList := by
  refine (List.map_congr_left fun c hc => ?_).trans (List.map_id _)
  have hne : c ≠ '\\' := ne_of_mem_of_not_mem hc
    (not_mem_joinNames (by decide) fun name hname => (h name hname).noBackslash)
  rw [Path.slash, if_neg (by simpa using hne)]
  rfl

/-- **The path of a file is in its usual form.** -/
theorem normalize_joinNames (h : ∀ name ∈ names, IsName name) :
    Path.normalize (joinNames names) = joinNames names := by
  have hdrop : Text.dropPrefix? ['.', '/'] (joinNames names).toList = none :=
    Option.eq_none_iff_forall_ne_some.mpr fun rest hrest =>
      not_dotSlash_joinNames h ⟨rest, (Text.eq_append_of_dropPrefix? hrest).symm⟩
  rw [Path.normalize, Path.normalizeChars, map_slash_joinNames h, hdrop, Option.getD_none,
    String.ofList_toList]

end Listing

end Dossier
