import Dossier.Proofs.Files.Names
import Dossier.Proofs.VersionControl.Inquiry
import Dossier.Structure.SourceTree
import Mathlib.Data.List.Nodup

/-!
# The source files of a directory and of a revision

A directory is gone through name by name, and what lies below a directory that is passed over is
never seen. A revision is a list of paths, and each of them is judged by itself. Both come to the
same rule (`Dossier.Listing.IsListed`): a source file is one whose path the filter lets through, and
on the way to it no directory is passed over. So where a revision has the files of a directory, the
source files of both are the same (`Dossier.SourceTree.sourceFiles_agree`).
-/

namespace Dossier

namespace FileNode

/-- **Whether some names lead to a file** from a directory with these entries. -/
inductive HasFile : List (String × FileNode) → List String → Prop
  | here {entries : List (String × FileNode)} {name : String} {text : Option String} :
      (name, .file text) ∈ entries → HasFile entries [name]
  | inside {entries inner : List (String × FileNode)} {name : String} {names : List String} :
      (name, .directory inner) ∈ entries → HasFile inner names → HasFile entries (name :: names)

/-- **Whether a tree is named in order**: all entries have names, and those of a directory are
different. -/
inductive WellNamed : FileNode → Prop
  | file (text : Option String) : WellNamed (.file text)
  | link (target : String) : WellNamed (.link target)
  | directory {entries : List (String × FileNode)} (names : ∀ e ∈ entries, IsName e.1)
      (distinct : (entries.map Prod.fst).Nodup) (inner : ∀ e ∈ entries, WellNamed e.2) :
      WellNamed (.directory entries)

variable {entries : List (String × FileNode)} {name : String} {node : FileNode}
  {names : List String}

theorem WellNamed.of_mem (h : (FileNode.directory entries).WellNamed)
    (hmem : (name, node) ∈ entries) :
    IsName name ∧ node.WellNamed := by
  cases h with
  | directory hnames _ hbelow => exact ⟨hnames _ hmem, hbelow _ hmem⟩

theorem wellNamed_nil : (FileNode.directory []).WellNamed :=
  .directory (fun _ h => absurd h List.not_mem_nil) List.nodup_nil
    fun _ h => absurd h List.not_mem_nil

theorem wellNamed_cons {e : String × FileNode} : (FileNode.directory (e :: entries)).WellNamed ↔
    IsName e.1 ∧ e.1 ∉ entries.map Prod.fst ∧ e.2.WellNamed ∧
      (FileNode.directory entries).WellNamed := by
  constructor
  · rintro (_ | _ | ⟨hnames, hdistinct, hinner⟩)
    obtain ⟨hname, hnames⟩ := List.forall_mem_cons.mp hnames
    obtain ⟨hnew, hdistinct⟩ := List.nodup_cons.mp hdistinct
    obtain ⟨hnode, hinner⟩ := List.forall_mem_cons.mp hinner
    exact ⟨hname, hnew, hnode, .directory hnames hdistinct hinner⟩
  · rintro ⟨hname, hnew, hnode, _ | _ | ⟨hnames, hdistinct, hinner⟩⟩
    exact .directory (List.forall_mem_cons.mpr ⟨hname, hnames⟩)
      (List.nodup_cons.mpr ⟨hnew, hdistinct⟩) (List.forall_mem_cons.mpr ⟨hnode, hinner⟩)

theorem HasFile.ne_nil (h : HasFile entries names) : names ≠ [] := by
  cases h <;> exact List.cons_ne_nil _ _

theorem HasFile.exists_mem (h : HasFile entries (name :: names)) :
    ∃ node, (name, node) ∈ entries := by
  cases h with
  | here hmem => exact ⟨_, hmem⟩
  | inside hmem _ => exact ⟨_, hmem⟩

/-- What leads to a file are names. -/
theorem HasFile.isName (h : HasFile entries names)
    (htree : (FileNode.directory entries).WellNamed) :
    ∀ name ∈ names, IsName name := by
  induction h with
  | here hmem => exact fun name hname => List.mem_singleton.mp hname ▸ (htree.of_mem hmem).1
  | inside hmem _ ih =>
    obtain ⟨hname, hbelow⟩ := htree.of_mem hmem
    exact List.forall_mem_cons.mpr ⟨hname, ih hbelow⟩

theorem hasFile_cons {e : String × FileNode} :
    HasFile (e :: entries) names ↔ HasFile [e] names ∨ HasFile entries names := by
  constructor
  · rintro (hmem | ⟨hmem, hbelow⟩) <;> rcases List.mem_cons.mp hmem with heq | hmem
    · exact Or.inl (.here (List.mem_singleton.mpr heq))
    · exact Or.inr (.here hmem)
    · exact Or.inl (.inside (List.mem_singleton.mpr heq) hbelow)
    · exact Or.inr (.inside hmem hbelow)
  · rintro ((hmem | ⟨hmem, hbelow⟩) | (hmem | ⟨hmem, hbelow⟩))
    · exact .here (List.mem_cons.mpr (Or.inl (List.mem_singleton.mp hmem)))
    · exact .inside (List.mem_cons.mpr (Or.inl (List.mem_singleton.mp hmem))) hbelow
    · exact .here (List.mem_cons_of_mem e hmem)
    · exact .inside (List.mem_cons_of_mem e hmem) hbelow

theorem hasFile_file {text : Option String} :
    HasFile [(name, .file text)] names ↔ names = [name] := by
  constructor
  · rintro (hmem | ⟨hmem, -⟩)
    · rw [(Prod.mk.inj (List.mem_singleton.mp hmem)).1]
    · cases List.mem_singleton.mp hmem
  · rintro rfl
    exact .here (List.mem_singleton.mpr rfl)

theorem not_hasFile_link {target : String} : ¬HasFile [(name, .link target)] names := by
  rintro (hmem | ⟨hmem, -⟩) <;> cases List.mem_singleton.mp hmem

theorem hasFile_directory : HasFile [(name, .directory entries)] names ↔
    ∃ rest, HasFile entries rest ∧ names = name :: rest := by
  constructor
  · rintro (hmem | ⟨hmem, hbelow⟩)
    · cases List.mem_singleton.mp hmem
    · obtain ⟨rfl, hnode⟩ := Prod.mk.inj (List.mem_singleton.mp hmem)
      cases hnode
      exact ⟨_, hbelow, rfl⟩
  · rintro ⟨rest, hrest, rfl⟩
    exact .inside (List.mem_singleton.mpr rfl) hrest

end FileNode

namespace Listing

open FileNode (HasFile WellNamed)

variable {entries : List (String × FileNode)} {names : List String} {filter : PathFilter}

/-! ### What a walk finds -/

/-- Whether none of the directories on the way is passed over. -/
def IsOpen (names : List String) : Prop :=
  ∀ dir ∈ names.dropLast, isSkipped dir = false

theorem isOpen_cons (name : String) (h : names ≠ []) :
    IsOpen (name :: names) ↔ isSkipped name = false ∧ IsOpen names := by
  rw [IsOpen, List.dropLast_cons_of_ne_nil h, List.forall_mem_cons]
  rfl

mutual

/-- What a walk finds at a node are the files that an open way leads to. -/
theorem mem_filesAt (name : String) : ∀ (node : FileNode) (names : List String),
    names ∈ filesAt name node ↔ HasFile [(name, node)] names ∧ IsOpen names
  | .file _, names => by
    rw [filesAt, List.mem_singleton, FileNode.hasFile_file]
    refine (and_iff_left_of_imp ?_).symm
    rintro rfl dir hdir
    exact absurd hdir List.not_mem_nil
  | .link _, _ =>
    ⟨fun h => absurd h List.not_mem_nil, fun h => absurd h.1 FileNode.not_hasFile_link⟩
  | .directory entries, names => by
    have hbelow := mem_filesBelow entries
    rw [filesAt, FileNode.hasFile_directory]
    split
    · next hskipped =>
      refine ⟨fun h => absurd h List.not_mem_nil, ?_⟩
      rintro ⟨⟨rest, hrest, rfl⟩, hopen⟩
      rw [isOpen_cons name hrest.ne_nil, hskipped] at hopen
      cases hopen.1
    · next hkept =>
      rw [List.mem_map]
      constructor
      · rintro ⟨rest, hrest, rfl⟩
        obtain ⟨hfile, hopen⟩ := (hbelow rest).mp hrest
        exact ⟨⟨rest, hfile, rfl⟩,
          (isOpen_cons name hfile.ne_nil).mpr ⟨by simpa using hkept, hopen⟩⟩
      · rintro ⟨⟨rest, hfile, rfl⟩, hopen⟩
        exact ⟨rest, (hbelow rest).mpr ⟨hfile, ((isOpen_cons name hfile.ne_nil).mp hopen).2⟩, rfl⟩

/-- **What a walk finds** are the files that an open way leads to. -/
theorem mem_filesBelow : ∀ (entries : List (String × FileNode)) (names : List String),
    names ∈ filesBelow entries ↔ HasFile entries names ∧ IsOpen names
  | [], _ => by
    refine ⟨fun h => absurd h List.not_mem_nil, ?_⟩
    rintro ⟨hmem | ⟨hmem, -⟩, -⟩ <;> cases hmem
  | (name, node) :: entries, names => by
    rw [filesBelow, List.mem_append, mem_filesAt name node names, mem_filesBelow entries names,
      ← or_and_right, ← FileNode.hasFile_cons]

end

mutual

theorem nodup_filesAt (name : String) : ∀ node : FileNode, node.WellNamed →
    (filesAt name node).Nodup
  | .file _, _ => List.nodup_singleton _
  | .link _, _ => List.nodup_nil
  | .directory entries, h => by
    rw [filesAt]
    split
    · exact List.nodup_nil
    · refine List.Nodup.map (fun _ _ heq => (List.cons.inj heq).2) ?_
      cases h with
      | directory _ hdistinct hbelow => exact nodup_filesBelow entries hdistinct hbelow

/-- **A walk comes to every file once.** -/
theorem nodup_filesBelow : ∀ entries : List (String × FileNode), (entries.map Prod.fst).Nodup →
    (∀ e ∈ entries, WellNamed e.2) → (filesBelow entries).Nodup
  | [], _, _ => List.nodup_nil
  | (name, node) :: entries, hdistinct, hbelow => by
    obtain ⟨hnew, hrest⟩ := List.nodup_cons.mp hdistinct
    obtain ⟨hnode, hnodes⟩ := List.forall_mem_cons.mp hbelow
    rw [filesBelow]
    refine (nodup_filesAt name node hnode).append (nodup_filesBelow entries hrest hnodes) ?_
    -- The ways begin with the names of different entries.
    intro names hfirst hother
    obtain ⟨first, rest, rfl⟩ := List.exists_cons_of_ne_nil ((mem_filesAt _ _ _).mp hfirst).1.ne_nil
    obtain ⟨_, hmem⟩ := ((mem_filesAt _ _ _).mp hfirst).1.exists_mem
    obtain ⟨other, hother⟩ := ((mem_filesBelow _ _).mp hother).1.exists_mem
    obtain ⟨rfl, -⟩ := Prod.mk.inj (List.mem_singleton.mp hmem)
    exact hnew (List.mem_map.mpr ⟨_, hother, rfl⟩)

end

/-! ### Source files -/

/-- **Whether names lead to a source file** of a directory: to a file, on an open way, and by a path
of a language that the filter lets through. -/
structure IsListed (filter : PathFilter) (entries : List (String × FileNode))
    (names : List String) : Prop where
  file : HasFile entries names
  isOpen : IsOpen names
  isSource : isSource filter (joinNames names) = true

theorem mem_ofDirectory : names ∈ ofDirectory filter entries ↔ IsListed filter entries names := by
  rw [ofDirectory, (Order.sort_perm _ _).mem_iff, List.mem_filter, mem_filesBelow]
  exact ⟨fun ⟨⟨hfile, hopen⟩, hsource⟩ => ⟨hfile, hopen, hsource⟩,
    fun h => ⟨⟨h.file, h.isOpen⟩, h.isSource⟩⟩

theorem nodup_ofDirectory (h : (FileNode.directory entries).WellNamed) :
    (ofDirectory filter entries).Nodup := by
  cases h with
  | directory _ hdistinct hbelow =>
    exact (Order.sort_perm _ _).nodup_iff.mpr ((nodup_filesBelow entries hdistinct hbelow).filter _)

/-- **Whether paths are those of the files of a directory**, each once and in any order. -/
structure Tracks (paths : List String) (entries : List (String × FileNode)) : Prop where
  distinct : paths.Nodup
  files : ∀ path, path ∈ paths ↔ ∃ names, HasFile entries names ∧ joinNames names = path

variable {paths : List String}

/-- The paths of files are in their usual form. -/
theorem Tracks.map_normalize (h : Tracks paths entries)
    (htree : (FileNode.directory entries).WellNamed) : paths.map Path.normalize = paths := by
  refine (List.map_congr_left fun path hpath => ?_).trans (List.map_id _)
  obtain ⟨names, hfile, rfl⟩ := (h.files path).mp hpath
  exact normalize_joinNames (hfile.isName htree)

/-- **What is chosen among the paths of the files** is chosen by the rule. -/
theorem mem_ofPaths (h : Tracks paths entries) (htree : (FileNode.directory entries).WellNamed)
    {path : String} :
    path ∈ ofPaths filter paths ↔
      ∃ names, IsListed filter entries names ∧ joinNames names = path := by
  rw [ofPaths, (Order.sort_perm _ _).mem_iff, h.map_normalize htree, List.mem_filter, h.files]
  constructor
  · rintro ⟨⟨names, hfile, rfl⟩, hchosen⟩
    obtain ⟨hreached, hsource⟩ := Bool.and_eq_true_iff.mp hchosen
    have hslash : ∀ name ∈ names, '/' ∉ name.toList :=
      fun name hname => (hfile.isName htree name hname).noSlash
    exact ⟨names, ⟨hfile, (isReached_joinNames hfile.ne_nil hslash).mp hreached, hsource⟩, rfl⟩
  · rintro ⟨names, hlisted, rfl⟩
    have hslash : ∀ name ∈ names, '/' ∉ name.toList :=
      fun name hname => (hlisted.file.isName htree name hname).noSlash
    refine ⟨⟨names, hlisted.file, rfl⟩, Bool.and_eq_true_iff.mpr ⟨?_, hlisted.isSource⟩⟩
    exact (isReached_joinNames hlisted.file.ne_nil hslash).mpr hlisted.isOpen

theorem nodup_ofPaths (h : Tracks paths entries) (htree : (FileNode.directory entries).WellNamed) :
    (ofPaths filter paths).Nodup := by
  rw [ofPaths, (Order.sort_perm _ _).nodup_iff, h.map_normalize htree]
  exact h.distinct.filter _

/-- Different names make different paths. -/
theorem injOn_joinNames (htree : (FileNode.directory entries).WellNamed) {names' : List String}
    (h : HasFile entries names) (h' : HasFile entries names')
    (heq : joinNames names = joinNames names') :
    names = names' :=
  joinNames_inj h.ne_nil h'.ne_nil (fun name hname => (h.isName htree name hname).noSlash)
    (fun name hname => (h'.isName htree name hname).noSlash) heq

theorem nodup_map_joinNames (htree : (FileNode.directory entries).WellNamed) :
    ((ofDirectory filter entries).map joinNames).Nodup :=
  (nodup_ofDirectory htree).map_on fun _ h _ h' heq =>
    injOn_joinNames htree (mem_ofDirectory.mp h).file (mem_ofDirectory.mp h').file heq

end Listing

namespace SourceTree

open FileNode (HasFile WellNamed)
open Listing

variable {files : Place} {root : String} {entries : List (String × FileNode)}
  {trail : List (String × FileNode)} {filter : PathFilter} {v : VersionControl} {rev : String}
  {paths : List String}

/-- The source files of a working tree, by their names. -/
theorem reply_sourceFiles_workingTree (hroot : files.resolve root = .ok ⟨.directory entries, trail⟩)
    (htree : (FileNode.directory entries).WellNamed) (filter : PathFilter) :
    ((workingTree files root).sourceFiles filter).reply =
      .answer (.ok ((ofDirectory filter entries).map joinNames)) := by
  have hnormal : (ofDirectory filter entries).map (fun names => Path.normalize (joinNames names)) =
      (ofDirectory filter entries).map joinNames :=
    List.map_congr_left fun names hnames =>
      normalize_joinNames ((mem_ofDirectory.mp hnames).file.isName htree)
  show Reply.answer _ = _
  rw [ofPlace, hroot]
  dsimp only
  rw [hnormal]

theorem reply_sourceFiles_revision (hv : v (.listFiles rev) = .answer paths) (filter : PathFilter) :
    ((revision v rev).sourceFiles filter).reply = .answer (.ok (ofPaths filter paths)) := by
  rw [sourceFiles, Inquiry.attempt_bind_of_answer hv]
  rfl

/-- **The source files of a working tree and of a revision** with the same files are the same, under
every filter: those that the rule is for, each of them once. -/
theorem sourceFiles_agree (hroot : files.resolve root = .ok ⟨.directory entries, trail⟩)
    (htree : (FileNode.directory entries).WellNamed) (hv : v (.listFiles rev) = .answer paths)
    (hpaths : Tracks paths entries) (filter : PathFilter) :
    ∃ listed listed', ((workingTree files root).sourceFiles filter).reply = .answer (.ok listed) ∧
      ((revision v rev).sourceFiles filter).reply = .answer (.ok listed') ∧
      (∀ path, path ∈ listed ↔ path ∈ listed') ∧ listed.Nodup ∧ listed'.Nodup ∧
      ∀ path, path ∈ listed ↔ ∃ names, IsListed filter entries names ∧ joinNames names = path := by
  have hmem : ∀ path, path ∈ (ofDirectory filter entries).map joinNames ↔
      ∃ names, IsListed filter entries names ∧ joinNames names = path := by
    intro path
    simp only [List.mem_map, mem_ofDirectory]
  exact ⟨_, _, reply_sourceFiles_workingTree hroot htree filter,
    reply_sourceFiles_revision hv filter,
    fun path => (hmem path).trans (mem_ofPaths hpaths htree).symm, nodup_map_joinNames htree,
    nodup_ofPaths hpaths htree, hmem⟩

/-- A directory with a hidden directory, one of dependencies deeper down, a hidden file and one in
no known language. -/
def sampleEntries : List (String × FileNode) :=
  [ ("src", .directory
      [("vendor", .directory [("d.go", .file none)]), ("a.rs", .file (some "fn a() \x7b\x7d"))]),
    (".cache", .directory [("x.py", .file none)]),
    (".top.py", .file none),
    ("README.md", .file none) ]

/-- The paths of its files, in some order. -/
def samplePaths : List String :=
  ["README.md", "src/vendor/d.go", ".top.py", ".cache/x.py", "src/a.rs"]

/-- A version control that knows these paths. -/
def sampleControl : VersionControl
  | .listFiles _ => .answer samplePaths
  | .showFile _ _ => .answer none
  | .ensureRepository => .answer ()
  | .resolve name => .answer name
  | .listCommits _ _ _ => .answer []
  | .diff _ _ _ => .answer ""

theorem wellNamed_sampleEntries : (FileNode.directory sampleEntries).WellNamed := by
  have hname : ∀ name ∈ ["src", "vendor", "d.go", "a.rs", ".cache", "x.py", ".top.py", "README.md"],
      FileNode.IsName name := by
    intro name hname
    refine ⟨⟨?_, ?_, ?_, ?_⟩, ?_⟩ <;> revert name <;> decide +kernel
  simp only [sampleEntries, FileNode.wellNamed_cons]
  simp [hname, FileNode.wellNamed_nil, FileNode.WellNamed.file]

theorem tracks_sampleEntries : Tracks samplePaths sampleEntries where
  distinct := by decide +kernel
  files path := by
    have hdeep : joinNames ["src", "vendor", "d.go"] = "src/vendor/d.go" := by decide +kernel
    have hopen : joinNames ["src", "a.rs"] = "src/a.rs" := by decide +kernel
    have hhidden : joinNames [".cache", "x.py"] = ".cache/x.py" := by decide +kernel
    simp only [sampleEntries, samplePaths, @FileNode.hasFile_cons (_ :: _), FileNode.hasFile_file,
      FileNode.hasFile_directory, or_and_right, exists_or, exists_eq_left, hdeep, hopen, hhidden,
      joinNames_singleton, List.mem_cons, List.not_mem_nil, or_false]
    grind

theorem sourceFiles_agree_sample :
    (Place.root (.directory [("r", .directory sampleEntries)])).resolve "/r" = .ok
      ⟨.directory sampleEntries, [("r", .directory [("r", .directory sampleEntries)])]⟩ ∧
    (FileNode.directory sampleEntries).WellNamed ∧
    sampleControl (.listFiles "HEAD") = .answer samplePaths ∧ Tracks samplePaths sampleEntries ∧
    ∃ listed listed',
      ((workingTree (Place.root (.directory [("r", .directory sampleEntries)])) "/r").sourceFiles
        .standard).reply = .answer (.ok listed) ∧
      ((revision sampleControl "HEAD").sourceFiles .standard).reply = .answer (.ok listed') ∧
      (∀ path, path ∈ listed ↔ path ∈ listed') ∧
      "src/a.rs" ∈ listed' ∧ ".top.py" ∈ listed' ∧ listed'.length = 2 := by
  have hroot : (Place.root (.directory [("r", .directory sampleEntries)])).resolve "/r" = .ok
      ⟨.directory sampleEntries, [("r", .directory [("r", .directory sampleEntries)])]⟩ := rfl
  obtain ⟨listed, listed', hlisted, hlisted', hsame, -⟩ :=
    sourceFiles_agree hroot wellNamed_sampleEntries
      (show sampleControl (.listFiles "HEAD") = .answer samplePaths from rfl) tracks_sampleEntries
      .standard
  have hfound : ofPaths .standard samplePaths = [".top.py", "src/a.rs"] := by decide +kernel
  have hrevision := reply_sourceFiles_revision
    (show sampleControl (.listFiles "HEAD") = .answer samplePaths from rfl) .standard
  rw [hlisted', hfound] at hrevision
  obtain rfl := Except.ok.inj (Reply.answer.inj hrevision)
  exact ⟨hroot, wellNamed_sampleEntries, rfl, tracks_sampleEntries, listed, _, hlisted, hlisted',
    hsame, by simp, by simp, rfl⟩

end SourceTree

end Dossier
