import Dossier.Proofs.CallGraph.Build
import Dossier.Proofs.Source.Path
import Dossier.Proofs.Structure.Index
import Dossier.Proofs.Structure.Notes

/-!
# The graph of the calls that can be told

The graph that an analysis builds is a relation between functions, and this relation can be said
without tables and without an order (`Dossier.CallGraph.Resolves`): its nodes are the functions
that the files define, and a function is joined with another if it makes a call by a name that
means the other one. What a name means is found on four levels (`Dossier.Structure.Means`).

On the way to the graph much is done that could lose an edge or make one up: definitions of one
function are taken once, names are entered into tables, and calls whose ends are no nodes are
dropped. Nothing of this shows in the graph when the identifiers tell the functions apart, which
they do as long as no path has two colons in it
(`Dossier.Structure.Located.idOf_inj`). In particular the order of the files and of the calls does
not matter (`Dossier.Structure.assemble_resolves`).
-/

namespace Dossier

namespace Structure

/-! ### Identifiers tell functions apart -/

/-- Whether the end of a path can be told in an identifier: it has no two colons in a row, and
none at its end. -/
def Plain (path : String) : Prop :=
  ¬[':', ':'] <:+: path.toList ∧ ∀ cs, path.toList ≠ cs ++ [':']

/-- If the colons of one identifier stood behind those of the other, then the path of the first
would hold colons. -/
theorem Plain.nil_of_append {path path' : String} (h : Plain path') {more : List Char}
    {name name' : List Char} (hpath : path'.toList = path.toList ++ more)
    (hrest : ':' :: ':' :: name = more ++ ':' :: ':' :: name') : more = [] := by
  rcases more with _ | ⟨c, _ | ⟨c', more⟩⟩
  · rfl
  · obtain ⟨rfl, -⟩ := List.cons.inj hrest
    exact absurd hpath (h.2 _)
  · obtain ⟨rfl, htail⟩ := List.cons.inj hrest
    obtain rfl := (List.cons.inj htail).1
    exact absurd ⟨path.toList, more, by rw [hpath]; simp⟩ h.1

/-- **The identifier of a function tells its file and its name.** -/
theorem Located.idOf_inj {file file' name name' : String} (h : Plain file) (h' : Plain file')
    (heq : Located.idOf file name = Located.idOf file' name') : file = file' ∧ name = name' := by
  have hchars : file.toList ++ ':' :: ':' :: name.toList =
      file'.toList ++ ':' :: ':' :: name'.toList := by
    simpa [Located.idOf] using congrArg String.toList heq
  have hfile : file.toList = file'.toList := by
    rcases List.append_eq_append_iff.mp hchars with ⟨more, hpath, hrest⟩ | ⟨more, hpath, hrest⟩
    · obtain rfl := h'.nil_of_append hpath hrest
      rw [hpath, List.append_nil]
    · obtain rfl := h.nil_of_append hpath hrest
      rw [hpath, List.append_nil]
  rw [hfile] at hchars
  have hname := List.append_cancel_left hchars
  simp only [List.cons.injEq, true_and] at hname
  exact ⟨String.toList_inj.mp hfile, String.toList_inj.mp hname⟩

/-- The place of a function tells its name. -/
theorem Located.qualified_site (l : Located) : l.site.qualified = l.definition.name := by
  have hid : l.site.id.toList = (l.site.file ++ "::").toList ++ l.definition.name.toList := by
    rw [← String.toList_append]
    rfl
  rw [DefinitionSite.qualified, hid, Text.dropPrefix?_append]
  simp

/-! ### What files define, and what their calls mean -/

/-- **Whether files define a function** whose file and name have a property. -/
def Defines (files : List OutlinedFile) (p : String → String → Prop) (id : String) : Prop :=
  ∃ f ∈ files, ∃ d ∈ f.outline.definitions, p f.path d.name ∧ Located.idOf f.path d.name = id

/-- **What is meant by a name** that is called in a file: the only function on the first level on
which there is a single one. -/
def Means (files : List OutlinedFile) (file callee id : String) : Prop :=
  Picks ((levels file callee).map (Defines files)) id

/-- **Whether files are parsed files of a repository**: they are in different places, in known
languages and without two colons in their paths, and calls are made from their own functions. -/
structure Parsed (files : List OutlinedFile) : Prop where
  distinct : (files.map OutlinedFile.path).Nodup
  language : ∀ f ∈ files, (Language.ofPath? f.path).isSome
  noColons : ∀ f ∈ files, ¬[':', ':'] <:+: f.path.toList
  callers : ∀ f ∈ files, ∀ c ∈ f.outline.calls, ∃ d ∈ f.outline.definitions, d.name = c.caller

end Structure

open Structure

/-- **Whether a graph is that of the calls that can be told**: its nodes are the functions that
the files define, and its edges lead from the caller of a call to what its name means. -/
structure CallGraph.Resolves (g : CallGraph) (files : List OutlinedFile) : Prop where
  nodes : ∀ id, id ∈ g.nodes ↔
    ∃ f ∈ files, ∃ d ∈ f.outline.definitions, id = Located.idOf f.path d.name
  edges : ∀ e, e ∈ g.edges ↔ ∃ f ∈ files, ∃ c ∈ f.outline.calls,
    e.caller = Located.idOf f.path c.caller ∧ Means files f.path c.callee e.callee

/-- Graphs in order of the calls of the same files are equal. -/
theorem CallGraph.Resolves.eq {g g' : CallGraph} {files : List OutlinedFile} (h : g.Resolves files)
    (h' : g'.Resolves files) (hg : g.WellFormed) (hg' : g'.WellFormed) : g = g' :=
  hg.ext hg' (fun id => (h.nodes id).trans (h'.nodes id).symm)
    fun e => (h.edges e).trans (h'.edges e).symm

namespace Structure

variable {files : List OutlinedFile}

theorem Parsed.plain (h : Parsed files) {f : OutlinedFile} (hf : f ∈ files) : Plain f.path := by
  obtain ⟨l, hl⟩ := Option.isSome_iff_exists.mp (h.language f hf)
  exact ⟨h.noColons f hf, Language.not_colon_of_ofPath? hl⟩

/-- **What is meant is a function that the files define.** -/
theorem Means.defines {file callee id : String} (h : Means files file callee id) :
    Defines files (fun _ _ => True) id := by
  have hpick : ∀ ps : List (String → String → Prop), Picks (ps.map (Defines files)) id →
      Defines files (fun _ _ => True) id := by
    intro ps
    induction ps with
    | nil => exact False.elim
    | cons p ps ih =>
      rintro (⟨⟨f, hf, d, hd, -, heq⟩, -⟩ | ⟨-, hrest⟩)
      · exact ⟨f, hf, d, hd, trivial, heq⟩
      · exact ih hrest
  exact hpick _ h

/-! ### Taking every function once loses nothing -/

section Known

variable {known : List Located} (hparsed : Parsed files)
  (hkept : ∀ l ∈ known, l ∈ files.flatMap OutlinedFile.located)
  (hcomplete : ∀ l ∈ files.flatMap OutlinedFile.located, ∃ first ∈ known, first.id = l.id)
include hparsed hkept hcomplete

/-- The functions that are taken are all that the files define, under each property. -/
theorem definedAt_sites_iff (p : String → String → Prop) (id : String) :
    DefinedAt (known.map Located.site) p id ↔ Defines files p id := by
  constructor
  · rintro ⟨s, hs, hp, rfl⟩
    obtain ⟨l, hl, rfl⟩ := List.mem_map.mp hs
    obtain ⟨f, hf, hfile, hd⟩ := mem_flatMap_located.mp (hkept l hl)
    rw [Located.qualified_site] at hp
    exact ⟨f, hf, l.definition, hd, hfile ▸ hp, by rw [← hfile]; rfl⟩
  · rintro ⟨f, hf, d, hd, hp, rfl⟩
    obtain ⟨first, hfirst, heq⟩ := hcomplete ⟨f.path, d⟩ (mem_flatMap_located.mpr ⟨f, hf, rfl, hd⟩)
    obtain ⟨f', hf', hfile', -⟩ := mem_flatMap_located.mp (hkept first hfirst)
    -- The definition that was taken need not be this one, but it is of the same function.
    obtain ⟨hfile, hname⟩ :=
      Located.idOf_inj (hfile' ▸ hparsed.plain hf') (hparsed.plain hf) heq
    refine ⟨first.site, List.mem_map_of_mem hfirst, ?_, heq⟩
    rw [Located.qualified_site, hname]
    exact (show first.site.file = f.path from hfile) ▸ hp

/-- **What the index finds is what is meant.** -/
theorem resolve?_iff_means (hdifferent : (known.map Located.id).Nodup) (file callee id : String) :
    (NameIndex.ofSites (known.map Located.site)).resolve? file callee = some id ↔
      Means files file callee id := by
  have hsame : DefinedAt (known.map Located.site) = Defines files :=
    funext fun p => funext fun id => propext (definedAt_sites_iff hparsed hkept hcomplete p id)
  rw [NameIndex.resolve?_ofSites, hsame, Means]
  · rwa [List.map_map]
  · intro s hs s' hs' hfile hname
    obtain ⟨l, -, rfl⟩ := List.mem_map.mp hs
    obtain ⟨l', -, rfl⟩ := List.mem_map.mp hs'
    rw [Located.qualified_site, Located.qualified_site] at hname
    exact congrArg₂ Located.idOf hfile hname

/-- **The graph of the functions that are taken** is that of the calls that can be told. -/
theorem exists_resolves (hdifferent : (known.map Located.id).Nodup) :
    ∃ g, CallGraph.build (known.map Located.site)
      (files.flatMap (callsOf (.ofSites (known.map Located.site)))) = .ok g ∧ g.Resolves files := by
  have hnodup : ((known.map Located.site).map DefinitionSite.id).Nodup := by rwa [List.map_map]
  obtain ⟨g, hbuild, hnodes, hedges⟩ :=
    CallGraph.exists_build (DefinitionSite.agree_of_nodup hnodup)
      (files.flatMap (callsOf (.ofSites (known.map Located.site))))
  have hdefined : ∀ id, (∃ s ∈ known.map Located.site, s.id = id) ↔
      ∃ f ∈ files, ∃ d ∈ f.outline.definitions, id = Located.idOf f.path d.name := by
    intro id
    have h := definedAt_sites_iff hparsed hkept hcomplete (fun _ _ => True) id
    simpa only [DefinedAt, Defines, true_and, eq_comm] using h
  refine ⟨g, hbuild, fun id => (hnodes id).trans (hdefined id), fun e => ?_⟩
  rw [hedges, hdefined, hdefined, List.mem_flatMap]
  simp only [callsOf, List.mem_filterMap, Option.map_eq_some_iff,
    resolve?_iff_means hparsed hkept hcomplete hdifferent]
  constructor
  · rintro ⟨⟨f, hf, c, hc, callee, hmeans, rfl⟩, -, -⟩
    exact ⟨f, hf, c, hc, rfl, hmeans⟩
  · rintro ⟨f, hf, c, hc, hcaller, hmeans⟩
    -- Both ends of the call are functions of the files, so the graph keeps it.
    obtain ⟨d, hd, hname⟩ := hparsed.callers f hf c hc
    obtain ⟨f', hf', d', hd', -, hid⟩ := hmeans.defines
    refine ⟨⟨f, hf, c, hc, e.callee, hmeans, by rw [← hcaller]⟩, ?_, ?_⟩
    · exact ⟨f, hf, d, hd, by rw [hcaller, hname]⟩
    · exact ⟨f', hf', d', hd', hid.symm⟩

end Known

/-! ### The order of files and calls -/

/-- Whether two files say the same, but for the order of the calls. -/
structure OutlinedFile.SameButOrder (f g : OutlinedFile) : Prop where
  path : f.path = g.path
  definitions : f.outline.definitions = g.outline.definitions
  calls : f.outline.calls.Perm g.outline.calls

/-- **Whether files are rearranged**: they come in another order, and so may the calls of each. In
some order each of the files is next to its counterpart. -/
def Rearranged (files files' : List OutlinedFile) : Prop :=
  ∃ pairs : List (OutlinedFile × OutlinedFile), (pairs.map Prod.fst).Perm files ∧
    (pairs.map Prod.snd).Perm files' ∧ ∀ p ∈ pairs, p.1.SameButOrder p.2

variable {files' : List OutlinedFile} {f g : OutlinedFile}

theorem OutlinedFile.SameButOrder.symm (h : f.SameButOrder g) : g.SameButOrder f :=
  ⟨h.path.symm, h.definitions.symm, h.calls.symm⟩

protected theorem OutlinedFile.SameButOrder.refl (f : OutlinedFile) : f.SameButOrder f :=
  ⟨rfl, rfl, .refl _⟩

namespace Rearranged

/-- Files that come in another order are rearranged. -/
theorem of_perm (h : files.Perm files') : Rearranged files files' := by
  refine ⟨files.map fun f => (f, f), ?_, ?_, fun p hp => ?_⟩
  · simp [Function.comp_def]
  · simpa [Function.comp_def] using h
  · obtain ⟨f, -, rfl⟩ := List.mem_map.mp hp
    exact .refl f

theorem cons (h : f.SameButOrder g) (hr : Rearranged files files') :
    Rearranged (f :: files) (g :: files') := by
  obtain ⟨pairs, hfst, hsnd, hsame⟩ := hr
  exact ⟨(f, g) :: pairs, hfst.cons f, hsnd.cons g, List.forall_mem_cons.mpr ⟨h, hsame⟩⟩

theorem symm (h : Rearranged files files') : Rearranged files' files := by
  obtain ⟨pairs, hfst, hsnd, hsame⟩ := h
  refine ⟨pairs.map Prod.swap, ?_, ?_, fun p hp => ?_⟩
  · rw [List.map_map]
    exact hsnd
  · rw [List.map_map]
    exact hfst
  · obtain ⟨q, hq, rfl⟩ := List.mem_map.mp hp
    exact (hsame q hq).symm

/-- Every file has its counterpart. -/
theorem exists_same (h : Rearranged files files') (hf : f ∈ files) :
    ∃ g ∈ files', f.SameButOrder g := by
  obtain ⟨pairs, hfst, hsnd, hsame⟩ := h
  obtain ⟨p, hp, rfl⟩ := List.mem_map.mp (hfst.mem_iff.mpr hf)
  exact ⟨p.2, hsnd.mem_iff.mp (List.mem_map_of_mem hp), hsame p hp⟩

/-- Files that are parsed stay so when they are rearranged. -/
theorem parsed (h : Rearranged files files') (hparsed : Parsed files) : Parsed files' where
  distinct := by
    obtain ⟨pairs, hfst, hsnd, hsame⟩ := h
    have hpaths : (pairs.map Prod.fst).map OutlinedFile.path =
        (pairs.map Prod.snd).map OutlinedFile.path := by
      rw [List.map_map, List.map_map]
      exact List.map_congr_left fun p hp => (hsame p hp).path
    have hperm : (files.map OutlinedFile.path).Perm (files'.map OutlinedFile.path) :=
      (hfst.map _).symm.trans (hpaths ▸ hsnd.map _)
    exact hperm.nodup hparsed.distinct
  language g hg := by
    obtain ⟨f, hf, hsame⟩ := h.symm.exists_same hg
    rw [hsame.path]
    exact hparsed.language f hf
  noColons g hg := by
    obtain ⟨f, hf, hsame⟩ := h.symm.exists_same hg
    rw [hsame.path]
    exact hparsed.noColons f hf
  callers g hg c hc := by
    obtain ⟨f, hf, hsame⟩ := h.symm.exists_same hg
    rw [hsame.definitions]
    exact hparsed.callers f hf c (hsame.calls.mem_iff.mp hc)

theorem defines (h : Rearranged files files') {p : String → String → Prop} {id : String}
    (hd : Defines files p id) : Defines files' p id := by
  obtain ⟨f, hf, d, hd, hp, hid⟩ := hd
  obtain ⟨g, hg, hsame⟩ := h.exists_same hf
  rw [hsame.path] at hp hid
  exact ⟨g, hg, d, hsame.definitions ▸ hd, hp, hid⟩

/-- **Names mean the same** in all orders. -/
theorem means_iff (h : Rearranged files files') {file callee id : String} :
    Means files file callee id ↔ Means files' file callee id := by
  have hsame : Defines files = Defines files' :=
    funext fun p => funext fun id => propext ⟨h.defines, h.symm.defines⟩
  rw [Means, hsame, Means]

/-- A graph of the calls of some files is that of the calls of the same files in all orders. -/
theorem resolves (h : Rearranged files files') {g : CallGraph} (hg : g.Resolves files) :
    g.Resolves files' where
  nodes id := by
    have hdefines : Defines files (fun _ _ => True) id ↔ Defines files' (fun _ _ => True) id :=
      ⟨h.defines, h.symm.defines⟩
    rw [hg.nodes]
    simpa only [Defines, true_and, eq_comm] using hdefines
  edges e := by
    rw [hg.edges]
    constructor
    · rintro ⟨f, hf, c, hc, hcaller, hmeans⟩
      obtain ⟨f', hf', hsame⟩ := h.exists_same hf
      rw [hsame.path] at hcaller hmeans
      exact ⟨f', hf', c, hsame.calls.mem_iff.mp hc, hcaller, h.means_iff.mp hmeans⟩
    · rintro ⟨f, hf, c, hc, hcaller, hmeans⟩
      obtain ⟨f', hf', hsame⟩ := h.symm.exists_same hf
      rw [hsame.path] at hcaller hmeans
      exact ⟨f', hf', c, hsame.calls.mem_iff.mp hc, hcaller, h.means_iff.mpr hmeans⟩

end Rearranged

/-! ### The graph that is built -/

variable {target : OutlinedFile} {definition : Definition}
  {others : List (String × Except String Outline)}

/-- Whether the definitions of a function in its file agree. -/
def OutlinedFile.DefinesOnce (f : OutlinedFile) (name : String) : Prop :=
  ∀ d ∈ f.outline.definitions, ∀ d' ∈ f.outline.definitions, d.name = name → d'.name = name →
    d.signature = d'.signature

/-- The definitions of the target are in its file. -/
theorem signature_eq_of_targetId (hparsed : Parsed (target :: files)) {name : String}
    (honce : target.DefinesOnce name) {l l' : Located}
    (hl : l ∈ (target :: files).flatMap OutlinedFile.located)
    (hl' : l' ∈ (target :: files).flatMap OutlinedFile.located)
    (hid : l.id = Located.idOf target.path name) (hid' : l'.id = Located.idOf target.path name) :
    l.definition.signature = l'.definition.signature := by
  have hmem : ∀ k ∈ (target :: files).flatMap OutlinedFile.located,
      k.id = Located.idOf target.path name →
        k.definition ∈ target.outline.definitions ∧ k.definition.name = name := by
    intro k hk heq
    obtain ⟨f, hf, hfile, hd⟩ := mem_flatMap_located.mp hk
    obtain ⟨hpath, hname⟩ := Located.idOf_inj (hfile ▸ hparsed.plain hf)
      (hparsed.plain List.mem_cons_self) heq
    obtain rfl := List.inj_on_of_nodup_map hparsed.distinct hf List.mem_cons_self
      (hfile.symm.trans hpath)
    exact ⟨hd, hname⟩
  obtain ⟨hd, hname⟩ := hmem l hl hid
  obtain ⟨hd', hname'⟩ := hmem l' hl' hid'
  exact honce _ hd _ hd' hname hname'

/-- When every function has been taken once, nothing is in the way of a graph. -/
theorem exists_assemble_of_survey (target : OutlinedFile) (definition : Definition)
    (remarks : List String) {known : List Located} {ambiguous : List String}
    (hsurvey : survey (Located.idOf target.path definition.name) (locatedIn target others) =
      .ok (known, ambiguous)) :
    ∃ a, assemble target definition remarks others = .ok a ∧
      CallGraph.build (known.map Located.site)
        ((target :: others.filterMap outlined?).flatMap
          (callsOf (.ofSites (known.map Located.site)))) = .ok a.graph := by
  have hnodup : ((known.map Located.site).map DefinitionSite.id).Nodup := by
    rw [List.map_map]
    exact (known_of_survey hsurvey).1
  obtain ⟨g, hbuild, -⟩ := CallGraph.exists_build (DefinitionSite.agree_of_nodup hnodup)
    ((target :: others.filterMap outlined?).flatMap (callsOf (.ofSites (known.map Located.site))))
  rw [locatedIn] at hsurvey
  unfold assemble
  dsimp only
  rw [hsurvey]
  simp only [bind, Except.bind, hbuild]
  exact ⟨_, rfl, rfl⟩

/-- An analysis of parsed files has a graph, which is in order, of the calls that can be told. -/
theorem exists_assemble (remarks : List String)
    (hparsed : Parsed (target :: others.filterMap outlined?))
    (honce : target.DefinesOnce definition.name) :
    ∃ a, assemble target definition remarks others = .ok a ∧ a.graph.WellFormed ∧
      a.graph.Resolves (target :: others.filterMap outlined?) := by
  obtain ⟨known, ambiguous, hsurvey⟩ := exists_survey
    fun l hl l' hl' => signature_eq_of_targetId hparsed honce hl hl'
  obtain ⟨hdifferent, hkept, hcomplete⟩ := known_of_survey hsurvey
  obtain ⟨g, hbuild, hresolves⟩ := exists_resolves hparsed hkept hcomplete hdifferent
  obtain ⟨a, ha, hgraph⟩ := exists_assemble_of_survey target definition remarks hsurvey
  obtain rfl : a.graph = g := Except.ok.inj (hgraph.symm.trans hbuild)
  exact ⟨a, ha, CallGraph.wellFormed_of_build hbuild, hresolves⟩

namespace Assembly

variable {t : SourceTree} {filter : PathFilter} {file name : String} {a : Analysis}

/-- The files that an analysis has parsed. -/
def parsedFiles (m : Assembly t filter file name a) : List OutlinedFile :=
  ⟨Path.normalize file, m.outline⟩ :: m.others.filterMap outlined?

/-- **The graph of a structure that is known** is that of the calls that can be told. -/
theorem resolves (m : Assembly t filter file name a) (hparsed : Parsed m.parsedFiles) :
    a.graph.Resolves m.parsedFiles := by
  obtain ⟨hdifferent, hkept, hcomplete⟩ := known_of_survey m.surveyed
  obtain ⟨g, hbuild, hresolves⟩ := exists_resolves hparsed hkept hcomplete hdifferent
  obtain rfl := Except.ok.inj (hbuild.symm.trans m.built)
  exact hresolves

end Assembly

/-- **The graph of an analysis is that of the calls that can be told**, whenever the files are
parsed files and the definitions of the target agree; and it is the same graph in whatever order
the other files and all calls come. -/
theorem assemble_resolves (remarks : List String)
    (hparsed : Parsed (target :: others.filterMap outlined?))
    (honce : target.DefinesOnce definition.name) :
    ∃ a, assemble target definition remarks others = .ok a ∧
      a.graph.Resolves (target :: others.filterMap outlined?) ∧
      ∀ target' remarks' others', target.SameButOrder target' →
        Rearranged (others.filterMap outlined?) (others'.filterMap outlined?) →
        ∃ a', assemble target' definition remarks' others' = .ok a' ∧ a'.graph = a.graph := by
  obtain ⟨a, ha, hform, hresolves⟩ := exists_assemble remarks hparsed honce
  refine ⟨a, ha, hresolves, fun target' remarks' others' htarget hothers => ?_⟩
  have hr := hothers.cons htarget
  have honce' : target'.DefinesOnce definition.name := by
    unfold OutlinedFile.DefinesOnce
    rw [← htarget.definitions]
    exact honce
  obtain ⟨a', ha', hform', hresolves'⟩ := exists_assemble remarks' (hr.parsed hparsed) honce'
  exact ⟨a', ha', hresolves'.eq (hr.resolves hresolves) hform' hform⟩

/-- A function with this name. -/
def sampleDefined (name : String) : Definition where
  name := name
  simpleName := QualifiedName.last name
  signature := "func " ++ name ++ "()"
  parameters := 0
  decisions := 0
  codeLines := 1
  span := default

/-- A file with a function that makes four calls: of itself, of a method by its last segment, of a
name that two other files define, and of nothing that is known. -/
def sampleCalling : OutlinedFile :=
  ⟨"a.go", .go, [sampleDefined "f"],
    [⟨"f", "f", 1⟩, ⟨"f", "x.get", 2⟩, ⟨"f", "g", 3⟩, ⟨"f", "h", 4⟩]⟩

/-- Files with a method and two functions of one name; one more could not be parsed. -/
def sampleOthers : List (String × Except String Outline) :=
  [ ("b.go", .ok ⟨.go, [sampleDefined "T.get", sampleDefined "g"], []⟩),
    ("c.go", .ok ⟨.go, [sampleDefined "g"], [⟨"g", "T.get", 1⟩]⟩),
    ("d.go", .error "syntax error") ]

/-- Calls that have one meaning are edges, in whatever order the files come. -/
theorem assemble_resolves_sample :
    ∃ a, assemble sampleCalling (sampleDefined "f") [] sampleOthers = .ok a ∧
      a.graph.Resolves (sampleCalling :: sampleOthers.filterMap outlined?) ∧
      a.graph.edges =
        [⟨"a.go::f", "a.go::f"⟩, ⟨"a.go::f", "b.go::T.get"⟩, ⟨"c.go::g", "b.go::T.get"⟩] ∧
      ∃ a', assemble sampleCalling (sampleDefined "f") [] sampleOthers.reverse = .ok a' ∧
        a'.graph = a.graph := by
  have hparsed : Parsed (sampleCalling :: sampleOthers.filterMap outlined?) :=
    ⟨by decide +kernel, by decide +kernel, by decide +kernel, by decide +kernel⟩
  have honce : sampleCalling.DefinesOnce (sampleDefined "f").name := by
    unfold OutlinedFile.DefinesOnce
    decide +kernel
  obtain ⟨a, ha, hresolves, hsame⟩ := assemble_resolves [] hparsed honce
  have hreversed : Rearranged (sampleOthers.filterMap outlined?)
      (sampleOthers.reverse.filterMap outlined?) :=
    .of_perm (by rw [List.filterMap_reverse]; exact (List.reverse_perm _).symm)
  refine ⟨a, ha, hresolves, ?_, hsame _ [] _ (.refl sampleCalling) hreversed⟩
  have hedges : (assemble sampleCalling (sampleDefined "f") [] sampleOthers).map (·.graph.edges) =
      .ok [⟨"a.go::f", "a.go::f"⟩, ⟨"a.go::f", "b.go::T.get"⟩, ⟨"c.go::g", "b.go::T.get"⟩] := by
    decide +kernel
  rw [ha] at hedges
  exact Except.ok.inj hedges

end Structure

end Dossier
