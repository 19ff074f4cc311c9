import Dossier.Proofs.Files.Following
import Dossier.Proofs.Files.Listing
import Dossier.Proofs.Structure.Alias

/-!
# Spellings of a path

A file of a working tree can be named by its names with slashes between them, and by longer paths
that stay with a dot or go back with two dots on the way (`Dossier.Place.Spells`). All of them are
read alike, but only the first is the path that the file is listed by. So a file that is named by
another spelling is looked into twice, and what calls its functions from elsewhere is lost
(`Dossier.Structure.analyze_respelled`).
-/

namespace Dossier

open FileNode (HasFile WellNamed IsEntryName)
open Listing

variable {entries : List (String × FileNode)} {names : List String} {path : String}

/-! ### Following the names of a file -/

theorem FileNode.lookup?_of_mem {name : String} {node : FileNode}
    (hdistinct : (entries.map Prod.fst).Nodup) (h : (name, node) ∈ entries) :
    lookup? name entries = some node := by
  induction entries with
  | nil => cases h
  | cons e entries ih =>
    obtain ⟨n, first⟩ := e
    obtain ⟨hnew, hdistinct⟩ := List.nodup_cons.mp hdistinct
    rw [lookup?]
    rcases List.mem_cons.mp h with heq | hmem
    · obtain ⟨rfl, rfl⟩ := Prod.mk.inj heq
      rw [if_pos rfl]
    · have hne : n ≠ name := (ne_of_mem_of_not_mem (List.mem_map_of_mem hmem) hnew).symm
      rw [if_neg hne]
      exact ih hdistinct hmem

namespace Place

variable {files above q : Place} {root : String}

/-- **The names of a file lead to it.** -/
theorem advance_of_hasFile (h : HasFile entries names)
    (htree : (FileNode.directory entries).WellNamed)
    (trail : List (String × FileNode)) :
    ∃ text trail', advance ⟨.directory entries, trail⟩ names = .arrived ⟨.file text, trail'⟩ := by
  induction h generalizing trail with
  | @here entries name text hmem =>
    cases htree with
    | directory hnames hdistinct hbelow =>
      have hname := hnames _ hmem
      exact ⟨text, _, by
        rw [advance]
        dsimp only
        rw [if_neg hname.notDot, if_neg hname.notUp, FileNode.lookup?_of_mem hdistinct hmem]
        rfl⟩
  | @inside entries inner name names hmem _ ih =>
    cases htree with
    | directory hnames hdistinct hbelow =>
      have hname := hnames _ hmem
      obtain ⟨text, trail', harrived⟩ := ih (hbelow _ hmem) ((name, .directory entries) :: trail)
      exact ⟨text, trail', by
        rw [advance]
        dsimp only
        rw [if_neg hname.notDot, if_neg hname.notUp, FileNode.lookup?_of_mem hdistinct hmem]
        exact harrived⟩

/-- **Whether a path spells the way to a file** that some names lead to: it ends in the name of the
file, and leads there without meeting a link. -/
structure Spells (above : Place) (names : List String) (path : String) : Prop where
  relative : Path.isAbsolute path = false
  noNull : '\x00' ∉ path.toList
  fileName : Path.fileName? path = names.getLast?
  leads : above.advance (components path) = above.advance names

theorem noNull_of_resolve (h : files.resolve path = .ok q) : '\x00' ∉ path.toList := by
  intro hmem
  rw [resolve] at h
  split at h
  · cases h
  · rw [if_pos (List.elem_eq_true_of_mem hmem)] at h
    cases h

end Place

theorem Path.suffix_join (root path : String) : path.toList <:+ (Path.join root path).toList := by
  rw [Path.join]
  split
  · exact List.suffix_rfl
  · split <;> rw [String.toList_append] <;> exact List.suffix_append _ _

/-- The file of a path is the last of its names. -/
theorem Path.fileName?_joinNames (hne : names ≠ []) (h : ∀ name ∈ names, IsEntryName name) :
    Path.fileName? (joinNames names) = names.getLast? := by
  have hkept : Path.components (joinNames names).toList = names.map String.toList := by
    rw [Path.components, splitAt_joinNames hne fun name hname => (h name hname).noSlash]
    refine List.filter_eq_self.mpr fun piece hpiece => ?_
    obtain ⟨name, hname, rfl⟩ := List.mem_map.mp hpiece
    have hempty : name.toList ≠ [] := by simpa using (h name hname).nonempty
    have hdot : name.toList ≠ ['.'] := fun heq => (h name hname).notDot (String.toList_inj.mp heq)
    simp [hempty, hdot]
  obtain ⟨last, hlast⟩ := Option.isSome_iff_exists.mp (List.getLast?_isSome.mpr hne)
  have hup : (last.toList == ['.', '.']) = false :=
    beq_false_of_ne fun heq =>
      (h last (List.mem_of_getLast? hlast)).notUp (String.toList_inj.mp heq)
  rw [Path.fileName?, hkept, List.getLast?_map, hlast]
  simp only [Option.map_some, hup, Bool.false_eq_true, if_false, String.ofList_toList]

namespace SourceTree

variable {files : Place} {root : String} {trail : List (String × FileNode)} {filter : PathFilter}

theorem noNull_of_read {text : String}
    (h : ((workingTree files root).read path).reply = .answer (.ok text)) :
    '\x00' ∉ path.toList := by
  intro hmem
  have hread : (files.readText (Path.join root path)).mapError ReadError.file = .ok text :=
    Reply.answer.inj h
  rw [Place.readText] at hread
  rcases hresolve : files.resolve (Path.join root path) with e | q <;> rw [hresolve] at hread
  · cases hread
  · exact Place.noNull_of_resolve hresolve ((Path.suffix_join root path).subset hmem)

/-- **A spelling leads to the same file** as the path that is made of the names. -/
theorem sameFile_of_spells (hroot : files.resolve root = .ok ⟨.directory entries, trail⟩)
    (htree : (FileNode.directory entries).WellNamed) (hfile : HasFile entries names)
    (h : Place.Spells ⟨.directory entries, trail⟩ names path)
    (hnull : '\x00' ∉ (joinNames names).toList) :
    (workingTree files root).SameFile (joinNames names) path := by
  have hentry : ∀ name ∈ names, IsEntryName name :=
    fun name hname => (hfile.isName htree name hname).toIsEntryName
  obtain ⟨text, trail', harrived⟩ := Place.advance_of_hasFile hfile htree trail
  have hresolve : ∀ path : String, Path.isAbsolute path = false → '\x00' ∉ path.toList →
      Place.advance ⟨.directory entries, trail⟩ (Place.components path) =
        Place.advance ⟨.directory entries, trail⟩ names →
      files.resolve (Path.join root path) = .ok ⟨.file text, trail'⟩ := by
    intro path hrelative hnull hleads
    refine (Place.resolve_join_of_advance hroot hnull ?_).1
    rw [hrelative, if_neg Bool.false_ne_true, hleads, harrived]
  have hlisted := hresolve (joinNames names) (Place.isAbsolute_joinNames hentry) hnull
    (by rw [Place.components_joinNames hfile.ne_nil hentry])
  have hspelled := hresolve path h.relative h.noNull h.leads
  constructor
  · simp only [read, Place.readText, hlisted, hspelled]
  · rw [Language.ofPath?, Path.extension?, h.fileName,
      ← Path.fileName?_joinNames hfile.ne_nil hentry, ← Path.extension?, ← Language.ofPath?]

/-- A spelling that is the path of a file is the path of the file that it leads to. -/
theorem eq_of_spells (htree : (FileNode.directory entries).WellNamed)
    (hfile : HasFile entries names)
    (h : Place.Spells ⟨.directory entries, trail⟩ names path) {names' : List String}
    (hfile' : HasFile entries names') (hpath : joinNames names' = path) :
    path = joinNames names := by
  have hentry : ∀ {names}, HasFile entries names → ∀ name ∈ names, IsEntryName name :=
    fun hfile name hname => (hfile.isName htree name hname).toIsEntryName
  obtain ⟨text, trail', harrived⟩ := Place.advance_of_hasFile hfile htree trail
  have hleads := h.leads
  rw [← hpath, Place.components_joinNames hfile'.ne_nil (hentry hfile'), harrived] at hleads
  have hnames := (Place.names_of_advance hleads).symm.trans (Place.names_of_advance harrived)
  rw [Place.walk_of_isEntryName (hentry hfile'), Place.walk_of_isEntryName (hentry hfile)] at hnames
  rw [← hpath, List.append_cancel_left hnames]

end SourceTree

namespace Structure

variable {files : Place} {root spelling name : String} {trail : List (String × FileNode)}
  {filter : PathFilter} {a : Analysis}

/-- **A file that is named by another spelling.** In a working tree where the functions of a file
can be analyzed by its path, they can by every spelling of it. What a function calls elsewhere is
the same then. What calls it from elsewhere is the same exactly if nothing does, or the spelling is
the path in its usual form, or the file is none of those that are listed; and in the last two cases
a change of the function can reach as many others. -/
theorem analyze_respelled (hroot : files.resolve root = .ok ⟨.directory entries, trail⟩)
    (htree : (FileNode.directory entries).WellNamed) (hfile : HasFile entries names)
    (hspelled : Place.Spells ⟨.directory entries, trail⟩ names (Path.normalize spelling))
    (hcolons : ∀ path ∈ joinNames names :: Path.normalize spelling ::
      (ofDirectory filter entries).map joinNames, ¬[':', ':'] <:+: path.toList)
    (ha : (analyze (.workingTree files root) filter (joinNames names) name).reply =
      .answer (.ok a)) :
    ∃ a', (analyze (.workingTree files root) filter spelling name).reply = .answer (.ok a') ∧
      a'.target = a.target ∧
      elsewhere (Path.normalize spelling) a'.downstream =
        elsewhere (joinNames names) a.downstream ∧
      (elsewhere (Path.normalize spelling) a'.upstream = elsewhere (joinNames names) a.upstream ↔
        Path.normalize spelling = joinNames names ∨ ¬IsListed filter entries names ∨
          elsewhere (joinNames names) a.upstream = []) ∧
      (Path.normalize spelling = joinNames names ∨ ¬IsListed filter entries names →
        a'.impact.length = a.impact.length) := by
  have hnormal : Path.normalize (joinNames names) = joinNames names :=
    normalize_joinNames (hfile.isName htree)
  have hlisted : joinNames names ∈ (ofDirectory filter entries).map joinNames ↔
      IsListed filter entries names := by
    rw [List.mem_map, ← mem_ofDirectory]
    constructor
    · rintro ⟨names', hmem, heq⟩
      rwa [← injOn_joinNames htree (mem_ofDirectory.mp hmem).file hfile heq]
    · exact fun hmem => ⟨names, hmem, rfl⟩
  have hnull : '\x00' ∉ (joinNames names).toList := by
    obtain ⟨m⟩ := nonempty_assembly ha
    exact hnormal ▸ SourceTree.noNull_of_read m.read
  rw [← hlisted, ← hnormal]
  refine analyze_alias (SourceTree.returns_workingTree files root)
    (SourceTree.reply_sourceFiles_workingTree hroot htree filter) (nodup_map_joinNames htree)
    (hnormal.symm ▸ hcolons)
    (hnormal.symm ▸ SourceTree.sameFile_of_spells hroot htree hfile hspelled hnull)
    (fun hmem => ?_) ha
  obtain ⟨names', hmem, heq⟩ := List.mem_map.mp hmem
  rw [hnormal]
  exact SourceTree.eq_of_spells htree hfile hspelled (mem_ofDirectory.mp hmem).file heq

/-- A directory with a function, a file that calls it, and another directory. -/
def respelledEntries : List (String × FileNode) :=
  [ ("a.go", .file (some "package p\n\nfunc f() \x7b\x7d\n")),
    ("b.go", .file (some "package p\n\nfunc g() \x7b\n\tf()\n\x7d\n")),
    ("sub", .directory []) ]

/-- The working tree of this directory. -/
def respelledTree : SourceTree :=
  .workingTree (Place.root (.directory [("r", .directory respelledEntries)])) "/r"

/-- What calls a function of this tree, if it can be analyzed. -/
def respelledCallers (file : String) : Option (List String) :=
  match (analyze respelledTree ⟨none, []⟩ file "f").reply with
  | .answer (.ok a) => some (elsewhere file a.upstream)
  | _ => none

theorem exists_of_respelledCallers {file : String} {callers : List String}
    (h : respelledCallers file = some callers) :
    ∃ a, (analyze respelledTree ⟨none, []⟩ file "f").reply = .answer (.ok a) ∧
      elsewhere file a.upstream = callers := by
  unfold respelledCallers at h
  split at h
  · next a ha => exact ⟨a, ha, Option.some.inj h⟩
  · cases h

theorem wellNamed_respelledEntries : (FileNode.directory respelledEntries).WellNamed := by
  have hname : ∀ name ∈ ["a.go", "b.go", "sub"], FileNode.IsName name := by
    intro name hname
    refine ⟨⟨?_, ?_, ?_, ?_⟩, ?_⟩ <;> revert name <;> decide +kernel
  simp only [respelledEntries, FileNode.wellNamed_cons]
  simp [hname, FileNode.wellNamed_nil, FileNode.WellNamed.file]

/-- By the path of its file the function has a caller. -/
theorem exists_analyze_path :
    ∃ a, (analyze respelledTree ⟨none, []⟩ "a.go" "f").reply = .answer (.ok a) ∧
      elsewhere "a.go" a.upstream = ["b.go::g"] :=
  exists_of_respelledCallers (by decide +kernel)

/-- The function is found by another spelling of its path, and its caller is not. -/
theorem analyze_respelled_sample :
    ∃ a a', (analyze respelledTree ⟨none, []⟩ "a.go" "f").reply = .answer (.ok a) ∧
      (analyze respelledTree ⟨none, []⟩ "./sub/..//a.go" "f").reply = .answer (.ok a') ∧
      a'.target = a.target ∧
      elsewhere "sub/..//a.go" a'.downstream = elsewhere "a.go" a.downstream ∧
      elsewhere "sub/..//a.go" a'.upstream ≠ elsewhere "a.go" a.upstream := by
  have hroot : (Place.root (.directory [("r", .directory respelledEntries)])).resolve "/r" = .ok
      ⟨.directory respelledEntries, [("r", .directory [("r", .directory respelledEntries)])]⟩ := rfl
  have hfile : HasFile respelledEntries ["a.go"] := .here List.mem_cons_self
  have hpath : joinNames ["a.go"] = "a.go" := joinNames_singleton "a.go"
  have hspelling : Path.normalize "./sub/..//a.go" = "sub/..//a.go" := by decide +kernel
  have hspelled : Place.Spells
      ⟨.directory respelledEntries, [("r", .directory [("r", .directory respelledEntries)])]⟩
      ["a.go"] (Path.normalize "./sub/..//a.go") :=
    { relative := by decide +kernel
      noNull := by decide +kernel
      fileName := by decide +kernel
      leads := by rw [hspelling]; rfl }
  have hlisted : IsListed ⟨none, []⟩ respelledEntries ["a.go"] :=
    { file := hfile
      isOpen := fun _ h => absurd h List.not_mem_nil
      isSource := by decide +kernel }
  have hcolons : ∀ path ∈ joinNames ["a.go"] :: Path.normalize "./sub/..//a.go" ::
      (ofDirectory ⟨none, []⟩ respelledEntries).map joinNames, ¬[':', ':'] <:+: path.toList := by
    decide +kernel
  obtain ⟨a, ha, hcallers⟩ := exists_analyze_path
  obtain ⟨a', ha', htarget, hdownstream, hupstream, -⟩ := analyze_respelled hroot
    wellNamed_respelledEntries hfile hspelled hcolons (hpath.symm ▸ ha)
  rw [hpath, hspelling] at hdownstream hupstream
  refine ⟨a, a', ha, ha', htarget, hdownstream, fun hsame => ?_⟩
  rcases hupstream.mp hsame with heq | hnone | hempty
  · revert heq
    decide +kernel
  · exact hnone hlisted
  · rw [hcallers] at hempty
    cases hempty

/-- **Callers that are lost** by another spelling of the path. -/
theorem respelled_without_callers :
    ∃ a a', (analyze respelledTree ⟨none, []⟩ "a.go" "f").reply = .answer (.ok a) ∧
      elsewhere "a.go" a.upstream = ["b.go::g"] ∧
      (analyze respelledTree ⟨none, []⟩ "sub/../a.go" "f").reply = .answer (.ok a') ∧
      elsewhere "sub/../a.go" a'.upstream = [] := by
  obtain ⟨a, ha, hcallers⟩ := exists_analyze_path
  obtain ⟨a', ha', hcallers'⟩ :
      ∃ a', (analyze respelledTree ⟨none, []⟩ "sub/../a.go" "f").reply = .answer (.ok a') ∧
        elsewhere "sub/../a.go" a'.upstream = [] := exists_of_respelledCallers (by decide +kernel)
  exact ⟨a, a', ha, hcallers, ha', hcallers'⟩

end Structure

end Dossier
