import Dossier.Proofs.Files.Listing

/-!
# The order of a listing

The listing of a directory is in order name by name, and that of a revision in the order of the
paths. The two orders part where a path goes on with a slash and another one with a character that
comes before the slash, as the dot in `a.py` comes before the slash in `a/b.py`: name by name the
first of them, which *crosses* the other (`Dossier.Listing.Crosses`), comes first, and among the
paths it comes last. Where no path crosses another one, the orders are the same
(`Dossier.SourceTree.sourceFiles_increasing_iff`).
-/

namespace Dossier

namespace Order

variable {α : Type} [LT α] [DecidableLT α]

/-- **Different elements are in increasing order** when they have been sorted. -/
theorem pairwise_lt_sort (trans : ∀ a b c : α, a < b → b < c → a < c)
    (asymm : ∀ a b : α, a < b → ¬b < a) (connex : ∀ a b : α, ¬a < b → a ≠ b → b < a) {as : List α}
    (h : as.Nodup) : (sort (fun a b => !decide (b < a)) as).Pairwise (· < ·) := by
  have hnodup : (sort (fun a b => !decide (b < a)) as).Nodup := (sort_perm _ as).nodup_iff.mpr h
  have hsorted : (sort (fun a b => !decide (b < a)) as).Pairwise fun a b => ¬b < a := by
    refine (pairwise_sort ?_ ?_ as).imp fun hab => by simpa using hab
    · intro a b
      by_cases hba : b < a
      · simp [asymm b a hba]
      · simp [hba]
    · intro a b c hab hbc
      simp only [Bool.not_eq_true', decide_eq_false_iff_not] at hab hbc ⊢
      intro hca
      by_cases heq : b = a
      · exact hbc (heq ▸ hca)
      · exact hbc (trans c a b hca (connex b a hab heq))
  exact (hsorted.and hnodup).imp fun hab => connex _ _ hab.1 (Ne.symm hab.2)

/-- Of two elements of an ordered list one comes before the other. -/
theorem rel_or_rel {α : Type} {r : α → α → Prop} {as : List α} (h : as.Pairwise r) {a b : α}
    (ha : a ∈ as) (hb : b ∈ as) (hne : a ≠ b) : r a b ∨ r b a := by
  induction as with
  | nil => exact absurd ha List.not_mem_nil
  | cons c as ih =>
    obtain ⟨hc, has⟩ := List.pairwise_cons.mp h
    rcases List.mem_cons.mp ha with rfl | ha' <;> rcases List.mem_cons.mp hb with rfl | hb'
    · exact absurd rfl hne
    · exact Or.inl (hc b hb')
    · exact Or.inr (hc a ha')
    · exact ih has ha' hb'

end Order

namespace Listing

open FileNode (HasFile WellNamed)

/-! ### Names and paths -/

theorem names_trans (a b c : List String) (h : a < b) (h' : b < c) : a < c := by
  have : Trans (α := String) (β := String) (γ := String) (· < ·) (· < ·) (· < ·) :=
    ⟨String.lt_trans⟩
  exact List.lt_trans h h'

theorem names_asymm (a b : List String) (h : a < b) : ¬b < a := by
  have : Std.Asymm (α := String) (· < ·) :=
    ⟨fun a b hab hba => String.lt_irrefl a (String.lt_trans hab hba)⟩
  exact List.lt_asymm h

theorem names_connex (a b : List String) (h : ¬a < b) (hne : a ≠ b) : b < a := by
  have : Std.Trichotomous (α := String) (· < ·) :=
    ⟨fun a b hab hba => by_contra fun hne => hba (Order.string_lt_of_not_lt a b hab hne)⟩
  by_contra h'
  exact hne (List.le_antisymm (List.not_lt.mp h') (List.not_lt.mp h))

/-- A text comes before another one where they part, or where it ends. -/
theorem exists_of_lt {as bs : List Char} (h : as < bs) :
    (∃ c rest, bs = as ++ c :: rest) ∨
      ∃ p c d rest rest', as = p ++ c :: rest ∧ bs = p ++ d :: rest' ∧ c < d := by
  induction as generalizing bs with
  | nil =>
    rcases bs with _ | ⟨d, bs⟩
    · exact absurd h (List.not_lt_nil [])
    · exact Or.inl ⟨d, bs, rfl⟩
  | cons c as ih =>
    rcases bs with _ | ⟨d, bs⟩
    · exact absurd h (List.not_lt_nil _)
    rcases List.cons_lt_cons_iff.mp h with hcd | ⟨rfl, hrest⟩
    · exact Or.inr ⟨[], c, d, as, bs, rfl, rfl, hcd⟩
    · rcases ih hrest with ⟨e, rest, rfl⟩ | ⟨p, e, f, rest, rest', rfl, rfl, hef⟩
      · exact Or.inl ⟨e, rest, rfl⟩
      · exact Or.inr ⟨c :: p, e, f, rest, rest', rfl, rfl, hef⟩

theorem lt_of_part {c d : Char} (p rest rest' : List Char) (h : c < d) :
    p ++ c :: rest < p ++ d :: rest' :=
  List.append_left_lt (List.cons_lt_cons_iff.mpr (Or.inl h))

theorem lt_append_cons (as : List Char) (c : Char) (rest : List Char) : as < as ++ c :: rest := by
  have h : as ++ [] < as ++ c :: rest := List.append_left_lt (List.nil_lt_cons c rest)
  rwa [List.append_nil] at h

/-- **Whether a path crosses another one**: where they part, it goes on with a slash, and the other
one with a character that comes before the slash. -/
def Crosses (path other : String) : Prop :=
  ∃ p c rest rest', path.toList = p ++ '/' :: rest ∧ other.toList = p ++ c :: rest' ∧ c < '/'

/-- Of two paths that cross, the other one comes first. -/
theorem Crosses.lt {path other : String} (h : Crosses path other) : other < path := by
  obtain ⟨p, c, rest, rest', hpath, hother, hc⟩ := h
  rw [String.lt_iff, hpath, hother]
  exact lt_of_part p rest' rest hc

/-- After its first name a path ends or goes on with a slash. -/
theorem exists_tail (name : String) (names : List String) :
    ∃ tail, (joinNames (name :: names)).toList = name.toList ++ tail ∧
      (tail = [] ∨ ∃ more, tail = '/' :: more) := by
  rcases names with _ | ⟨second, rest⟩
  · exact ⟨[], by rw [joinNames_singleton, List.append_nil], Or.inl rfl⟩
  · exact ⟨_, joinNames_cons name (List.cons_ne_nil _ _), Or.inr ⟨_, rfl⟩⟩

variable {names names' : List String}

/-- **What comes first name by name** comes first among the paths, or it crosses the other path. -/
theorem lt_or_crosses (hne : names ≠ []) (hslash : ∀ name ∈ names', '/' ∉ name.toList)
    (h : names < names') :
    joinNames names < joinNames names' ∨ Crosses (joinNames names) (joinNames names') := by
  induction names generalizing names' with
  | nil => exact absurd rfl hne
  | cons name names ih =>
    rcases names' with _ | ⟨name', names'⟩
    · exact absurd h (List.not_lt_nil _)
    obtain ⟨hname', hnames'⟩ := List.forall_mem_cons.mp hslash
    obtain ⟨tail, htail, hends⟩ := exists_tail name names
    obtain ⟨tail', htail', -⟩ := exists_tail name' names'
    rw [String.lt_iff]
    rcases List.cons_lt_cons_iff.mp h with hlt | ⟨rfl, hrest⟩
    · rw [Crosses, htail, htail']
      rcases exists_of_lt (String.lt_iff.mp hlt) with
        ⟨c, more, hlonger⟩ | ⟨p, c, d, more, more', hpart, hpart', hcd⟩
      · -- The other name goes on where this one ends.
        have hc : c ≠ '/' := by
          rintro rfl
          exact hname' (by simp [hlonger])
        rw [hlonger, List.append_assoc, List.cons_append]
        rcases hends with rfl | ⟨after, rfl⟩
        · rw [List.append_nil]
          exact Or.inl (lt_append_cons _ _ _)
        · by_cases hbefore : c < '/'
          · exact Or.inr ⟨_, _, _, _, rfl, rfl, hbefore⟩
          · have hafter : '/' < c := by
              by_contra h
              exact hc (Char.le_antisymm (Char.not_lt.mp h) (Char.not_lt.mp hbefore))
            exact Or.inl (lt_of_part _ _ _ hafter)
      · rw [hpart, hpart', List.append_assoc, List.append_assoc, List.cons_append, List.cons_append]
        exact Or.inl (lt_of_part p _ _ hcd)
    · -- The first names are the same, so the rest decides.
      obtain ⟨second, rest', rfl⟩ : ∃ second rest', names' = second :: rest' :=
        List.exists_cons_of_ne_nil fun hnil => List.not_lt_nil names (hnil ▸ hrest)
      rw [joinNames_cons name (List.cons_ne_nil second rest')]
      rcases names with _ | ⟨_, _⟩
      · rw [joinNames_singleton]
        exact Or.inl (lt_append_cons _ _ _)
      rw [joinNames_cons name (List.cons_ne_nil _ _)]
      rcases ih (List.cons_ne_nil _ _) hnames' hrest with hlt |
        ⟨p, c, more, more', hpath, hother, hc⟩
      · exact Or.inl (List.append_left_lt
          (List.cons_lt_cons_iff.mpr (Or.inr ⟨rfl, String.lt_iff.mp hlt⟩)))
      · refine Or.inr ⟨name.toList ++ '/' :: p, c, more, more', ?_, ?_, hc⟩
        · rw [joinNames_cons name (List.cons_ne_nil _ _), hpath, List.append_assoc,
            List.cons_append]
        · rw [joinNames_cons name (List.cons_ne_nil _ _), hother, List.append_assoc,
            List.cons_append]

/-- A text that is cut at a separator and a text that goes on there have the same pieces up to the
one that goes on. -/
theorem exists_splitAt_of_part {p : List Char} {c : Char} (hc : c ≠ '/') (rest : List Char) :
    ∃ pieces piece more after, Text.splitAt (· == '/') p = pieces ++ [piece] ∧
      Text.splitAt (· == '/') (p ++ c :: rest) = pieces ++ (piece ++ c :: more) :: after := by
  induction p with
  | nil =>
    obtain ⟨first, after, hfirst⟩ :=
      List.exists_cons_of_ne_nil (Text.splitAt_ne_nil (· == '/') rest)
    refine ⟨[], [], first, after, rfl, ?_⟩
    rw [List.nil_append, Text.splitAt, if_neg (by simpa using hc), hfirst]
    rfl
  | cons d p ih =>
    obtain ⟨pieces, piece, more, after, hpieces, hlonger⟩ := ih
    rw [List.cons_append, Text.splitAt, Text.splitAt, hpieces, hlonger]
    by_cases hd : (d == '/') = true
    · rw [if_pos hd, if_pos hd]
      exact ⟨[] :: pieces, piece, more, after, rfl, rfl⟩
    · rw [if_neg hd, if_neg hd]
      rcases pieces with _ | ⟨first, pieces⟩
      · exact ⟨[], d :: piece, more, after, rfl, rfl⟩
      · exact ⟨(d :: first) :: pieces, piece, more, after, rfl, rfl⟩

/-- **What crosses another path** comes first name by name. -/
theorem Crosses.names_lt (hne : names ≠ []) (hne' : names' ≠ [])
    (hslash : ∀ name ∈ names, '/' ∉ name.toList) (hslash' : ∀ name ∈ names', '/' ∉ name.toList)
    (h : Crosses (joinNames names) (joinNames names')) : names < names' := by
  obtain ⟨p, c, rest, rest', hpath, hother, hc⟩ := h
  obtain ⟨pieces, piece, more, after, hpieces, hlonger⟩ :=
    @exists_splitAt_of_part p c (fun heq => Char.lt_irrefl '/' (heq ▸ hc)) rest'
  rw [← map_splitAt_joinNames hne hslash, ← map_splitAt_joinNames hne' hslash', hpath, hother,
    Text.splitAt_append (by decide), hpieces, hlonger, List.map_append, List.map_append,
    List.map_append, List.append_assoc]
  refine List.append_left_lt (List.cons_lt_cons_iff.mpr (Or.inl ?_))
  rw [String.lt_iff, String.toList_ofList, String.toList_ofList]
  exact lt_append_cons piece c more

variable {entries : List (String × FileNode)} {filter : PathFilter} {paths : List String}

/-- **A listing of a directory is increasing name by name.** -/
theorem pairwise_ofDirectory (htree : (FileNode.directory entries).WellNamed) :
    (ofDirectory filter entries).Pairwise (· < ·) :=
  Order.pairwise_lt_sort names_trans names_asymm names_connex
    ((Order.sort_perm _ _).nodup_iff.mp (nodup_ofDirectory htree))

/-- **The paths of a listing are increasing** exactly if none crosses another one. -/
theorem pairwise_map_joinNames_iff (htree : (FileNode.directory entries).WellNamed) :
    ((ofDirectory filter entries).map joinNames).Pairwise (· < ·) ↔
      ∀ path ∈ (ofDirectory filter entries).map joinNames,
        ∀ other ∈ (ofDirectory filter entries).map joinNames, ¬Crosses path other := by
  have hfile : ∀ names ∈ ofDirectory filter entries, HasFile entries names :=
    fun names hnames => (mem_ofDirectory.mp hnames).file
  have hslash : ∀ names ∈ ofDirectory filter entries, ∀ name ∈ names, '/' ∉ name.toList :=
    fun names hnames name hname => ((hfile names hnames).isName htree name hname).noSlash
  rw [List.pairwise_map]
  constructor
  · intro hincreasing path hpath other hother hcrosses
    obtain ⟨names, hnames, rfl⟩ := List.mem_map.mp hpath
    obtain ⟨names', hnames', rfl⟩ := List.mem_map.mp hother
    -- One of the two comes first in the listing, and neither can be it.
    have hne : names ≠ names' := fun heq => String.lt_irrefl _ (heq ▸ hcrosses).lt
    have hordered := (@pairwise_ofDirectory entries filter htree).and hincreasing
    rcases Order.rel_or_rel hordered hnames hnames' hne with h | h
    · exact String.lt_irrefl _ (String.lt_trans h.2 hcrosses.lt)
    · exact names_asymm _ _ h.1 (hcrosses.names_lt (hfile names hnames).ne_nil
        (hfile names' hnames').ne_nil (hslash names hnames) (hslash names' hnames'))
  · intro hnone
    refine (List.Pairwise.and_mem.mp (pairwise_ofDirectory htree)).imp
      fun {names names'} ⟨hnames, hnames', hlt⟩ => ?_
    refine (lt_or_crosses (hfile names hnames).ne_nil (hslash names' hnames') hlt).resolve_right ?_
    exact hnone _ (List.mem_map_of_mem hnames) _ (List.mem_map_of_mem hnames')

theorem pairwise_ofPaths (h : Tracks paths entries)
    (htree : (FileNode.directory entries).WellNamed) :
    (ofPaths filter paths).Pairwise (· < ·) :=
  Order.pairwise_lt_sort (fun _ _ _ => String.lt_trans)
    (fun a _ hab hba => String.lt_irrefl a (String.lt_trans hab hba)) Order.string_lt_of_not_lt
    ((Order.sort_perm _ _).nodup_iff.mp (nodup_ofPaths h htree))

end Listing

namespace SourceTree

open FileNode (WellNamed)
open Listing

variable {files : Place} {root : String} {entries : List (String × FileNode)}
  {trail : List (String × FileNode)} {v : VersionControl} {rev : String} {paths : List String}

/-- **The order of source files.** Those of a working tree are listed in increasing order name by
name, and so in increasing order of their paths exactly if no path crosses another one; those of a
revision are always listed in increasing order of their paths. -/
theorem sourceFiles_increasing_iff (hroot : files.resolve root = .ok ⟨.directory entries, trail⟩)
    (htree : (FileNode.directory entries).WellNamed) (hv : v (.listFiles rev) = .answer paths)
    (hpaths : Tracks paths entries) (filter : PathFilter) :
    ∃ (listing : List (List String)) (listed' : List String),
      ((workingTree files root).sourceFiles filter).reply =
        .answer (.ok (listing.map joinNames)) ∧ listing.Pairwise (· < ·) ∧
      ((listing.map joinNames).Pairwise (· < ·) ↔
        ∀ path ∈ listing.map joinNames, ∀ other ∈ listing.map joinNames, ¬Crosses path other) ∧
      ((revision v rev).sourceFiles filter).reply = .answer (.ok listed') ∧
      listed'.Pairwise (· < ·) :=
  ⟨_, _, reply_sourceFiles_workingTree hroot htree filter, pairwise_ofDirectory htree,
    pairwise_map_joinNames_iff htree, reply_sourceFiles_revision hv filter,
    pairwise_ofPaths hpaths htree⟩

/-- In the directory with hidden files no path crosses another one. -/
theorem sourceFiles_increasing_iff_sample :
    (Place.root (.directory [("r", .directory sampleEntries)])).resolve "/r" = .ok
      ⟨.directory sampleEntries, [("r", .directory [("r", .directory sampleEntries)])]⟩ ∧
    (FileNode.directory sampleEntries).WellNamed ∧
    sampleControl (.listFiles "HEAD") = .answer samplePaths ∧ Tracks samplePaths sampleEntries ∧
    ∃ listing : List (List String),
      ((workingTree (Place.root (.directory [("r", .directory sampleEntries)])) "/r").sourceFiles
        .standard).reply = .answer (.ok (listing.map joinNames)) ∧
      listing.map joinNames = [".top.py", "src/a.rs"] ∧
      ∀ path ∈ listing.map joinNames, ∀ other ∈ listing.map joinNames, ¬Crosses path other := by
  have hroot : (Place.root (.directory [("r", .directory sampleEntries)])).resolve "/r" = .ok
      ⟨.directory sampleEntries, [("r", .directory [("r", .directory sampleEntries)])]⟩ := rfl
  obtain ⟨listing, _, hlisted, -, hiff, -⟩ :=
    sourceFiles_increasing_iff hroot wellNamed_sampleEntries
      (show sampleControl (.listFiles "HEAD") = .answer samplePaths from rfl) tracks_sampleEntries
      .standard
  have hfound : (ofDirectory .standard sampleEntries).map joinNames = [".top.py", "src/a.rs"] := by
    decide +kernel
  have hlisting : listing.map joinNames = [".top.py", "src/a.rs"] := by
    have h := hlisted.symm.trans (reply_sourceFiles_workingTree hroot wellNamed_sampleEntries _)
    rw [hfound] at h
    exact Except.ok.inj (Reply.answer.inj h)
  refine ⟨hroot, wellNamed_sampleEntries, rfl, tracks_sampleEntries, listing, hlisted, hlisting,
    hiff.mp ?_⟩
  rw [hlisting]
  decide +kernel

/-- A directory with a file and a directory of one name, but for the extension. -/
def crossingEntries : List (String × FileNode) :=
  [("a", .directory [("b.py", .file (some ""))]), ("a.py", .file (some ""))]

/-- **Source files that are not listed in the order of their paths**: the directory comes before the
file, though the slash comes after the dot. -/
theorem crossing_listed : (FileNode.directory crossingEntries).WellNamed ∧
    ((workingTree (Place.root (.directory [("r", .directory crossingEntries)])) "/r").sourceFiles
      .standard).reply = .answer (.ok ["a/b.py", "a.py"]) ∧
    ¬["a/b.py", "a.py"].Pairwise (· < ·) := by
  have hname : ∀ name ∈ ["a", "b.py", "a.py"], FileNode.IsName name := by
    intro name hname
    refine ⟨⟨?_, ?_, ?_, ?_⟩, ?_⟩ <;> revert name <;> decide +kernel
  have htree : (FileNode.directory crossingEntries).WellNamed := by
    simp only [crossingEntries, FileNode.wellNamed_cons]
    simp [hname, FileNode.wellNamed_nil, FileNode.WellNamed.file]
  refine ⟨htree, ?_, by decide +kernel⟩
  have hfound : (ofDirectory .standard crossingEntries).map joinNames = ["a/b.py", "a.py"] := by
    decide +kernel
  rw [reply_sourceFiles_workingTree rfl htree, hfound]

end SourceTree

end Dossier
