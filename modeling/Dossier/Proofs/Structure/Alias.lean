import Dossier.Proofs.Outline.Callers
import Dossier.Proofs.Structure.Renaming
import Dossier.Proofs.Structure.Target

/-!
# A file by another path

The stage takes two paths for two files unless they are written in the same way. When the file of
the function is named by a path that is not the one it is listed by, then the listed one is looked
into as another file, and every function of it is there twice. What the function calls is not
changed by this, but what calls it is lost (`Dossier.Structure.analyze_alias`).
-/

namespace Dossier

/-- The identifiers among some that are for functions of other files. -/
def Structure.elsewhere (file : String) (ids : List String) : List String :=
  ids.filter fun id => (Structure.Located.nameIn? file id).isNone

/-- **Whether two paths lead to the same file** of a tree, of a language that both tell. -/
structure SourceTree.SameFile (t : SourceTree) (path other : String) : Prop where
  read : (t.read other).reply = (t.read path).reply
  language : Language.ofPath? other = Language.ofPath? path

namespace Inquiry

variable {α β : Type}

/-- What a computation for every item of a list comes to, in the order of the items. -/
theorem map_of_forAll {f : α → Inquiry β} {key : β → α}
    (hkey : ∀ {a b}, (f a).reply = .answer b → key b = a) {as : List α} {bs : List β}
    (h : (forAll f as).reply = .answer bs) : bs.map key = as := by
  induction as generalizing bs with
  | nil =>
    obtain rfl := Reply.answer.inj h
    rfl
  | cons a as ih =>
    obtain ⟨b, hb, h⟩ := reply_bind_eq_answer.mp h
    obtain ⟨rest, hrest, h⟩ := reply_bind_eq_answer.mp h
    obtain rfl := Reply.answer.inj h
    rw [List.map_cons, hkey hb, ih hrest]

end Inquiry

namespace Structure

variable {t : SourceTree} {filter : PathFilter} {file path other name source : String} {o : Outline}
  {a : Analysis}

/-! ### Outlines -/

theorem outlineOf_eq_ok_congr (h : Language.ofPath? other = Language.ofPath? path) :
    outlineOf other source = .ok o ↔ outlineOf path source = .ok o := by
  rw [outlineOf_eq_ok_iff, outlineOf_eq_ok_iff, h]

theorem hasOutline_iff (h : t.SameFile path other) :
    t.HasOutline other o ↔ t.HasOutline path o := by
  unfold SourceTree.HasOutline
  simp only [h.read, outlineOf_eq_ok_congr h.language]

theorem callsOwned_of_outlineOf (h : outlineOf path source = .ok o) : o.CallsOwned := by
  obtain ⟨l, -, ho⟩ := outlineOf_eq_ok_iff.mp h
  exact Outline.callsOwned_of_ofText ho

/-! ### The files that are parsed -/

theorem sublist_outlined (others : List (String × Except String Outline)) :
    ((others.filterMap outlined?).map OutlinedFile.path).Sublist (others.map Prod.fst) := by
  induction others with
  | nil => exact .refl _
  | cons found others ih =>
    obtain ⟨path, e | o⟩ := found
    · exact ih.cons path
    · exact ih.cons_cons path

namespace Assembly

theorem mem_parsedFiles (m : Assembly t filter file name a) {f : OutlinedFile} :
    f ∈ m.parsedFiles ↔ f = ⟨Path.normalize file, m.outline⟩ ∨
      (f.path ∈ m.paths ∧ f.path ≠ Path.normalize file ∧ t.HasOutline f.path f.outline) := by
  rw [parsedFiles, List.mem_cons, m.mem_outlined]

/-- **The files of an analysis are parsed files of a repository** when they are listed once. -/
theorem parsed (m : Assembly t filter file name a) (hlisted : m.paths.Nodup)
    (hplain : ∀ path ∈ m.paths, ¬[':', ':'] <:+: path.toList)
    (hfile : ¬[':', ':'] <:+: (Path.normalize file).toList) : Parsed m.parsedFiles := by
  have hall : ∀ f ∈ m.parsedFiles, f.path ∈ Path.normalize file :: m.paths ∧
      t.HasOutline f.path f.outline := by
    intro f hf
    rcases m.mem_parsedFiles.mp hf with rfl | ⟨hpath, -, houtline⟩
    · exact ⟨List.mem_cons_self, m.hasOutline⟩
    · exact ⟨List.mem_cons_of_mem _ hpath, houtline⟩
  refine ⟨?_, fun f hf => ?_, fun f hf => ?_, fun f hf => ?_⟩
  · have hlooked : m.others.map Prod.fst = m.paths.filter fun p => p != Path.normalize file :=
      Inquiry.map_of_forAll (fun h => (outlineOther_spec h).1) m.looked
    have hsub := hlooked ▸ sublist_outlined m.others
    refine List.nodup_cons.mpr ⟨fun hmem => ?_, hsub.nodup (hlisted.filter _)⟩
    simpa using (List.mem_filter.mp (hsub.subset hmem)).2
  · obtain ⟨source, -, ho⟩ := (hall f hf).2
    obtain ⟨l, hl, -⟩ := outlineOf_eq_ok_iff.mp ho
    exact Option.isSome_iff_exists.mpr ⟨l, hl⟩
  · rcases List.mem_cons.mp (hall f hf).1 with heq | hpath
    · rw [heq]
      exact hfile
    · exact hplain _ hpath
  · obtain ⟨source, -, ho⟩ := (hall f hf).2
    exact callsOwned_of_outlineOf ho

end Assembly

/-! ### One analysis by each path -/

namespace Assembly

/-- What a function of the file of the target calls is what its calls mean there. -/
theorem mem_edges_own (m : Assembly t filter file name a) (hparsed : Parsed m.parsedFiles)
    {caller id : String} :
    ⟨Located.idOf (Path.normalize file) caller, id⟩ ∈ a.graph.edges ↔
      ∃ c ∈ m.outline.calls, c.caller = caller ∧
        Means m.parsedFiles (Path.normalize file) c.callee id := by
  have htarget : ⟨Path.normalize file, m.outline⟩ ∈ m.parsedFiles := List.mem_cons_self
  rw [(m.resolves hparsed).edges]
  constructor
  · rintro ⟨f, hf, c, hc, hcaller, hmeans⟩
    obtain ⟨hpath, rfl⟩ := Located.idOf_inj (hparsed.plain htarget) (hparsed.plain hf) hcaller
    obtain rfl : f = ⟨Path.normalize file, m.outline⟩ :=
      List.inj_on_of_nodup_map hparsed.distinct hf htarget hpath.symm
    exact ⟨c, hc, rfl, hmeans⟩
  · rintro ⟨c, hc, rfl, hmeans⟩
    exact ⟨_, htarget, c, hc, rfl, hmeans⟩

end Assembly

/-- **Whether two analyses are of one function**, whose file is named by another path the second
time, and by one that is not listed. The files are listed once each, and their paths are told by
identifiers. -/
structure Aliased {a a' : Analysis} (m : Assembly t filter file name a)
    (m' : Assembly t filter other name a') : Prop where
  same : t.SameFile (Path.normalize file) (Path.normalize other)
  paths : m'.paths = m.paths
  distinct : m.paths.Nodup
  noColons : ∀ path ∈ Path.normalize file :: Path.normalize other :: m.paths,
    ¬[':', ':'] <:+: path.toList
  differs : Path.normalize other ≠ Path.normalize file
  unlisted : Path.normalize other ∉ m.paths

namespace Aliased

variable {a' : Analysis} {m : Assembly t filter file name a}
  {m' : Assembly t filter other name a'} {id caller : String}

theorem parsed (h : Aliased m m') : Parsed m.parsedFiles :=
  m.parsed h.distinct (fun path hpath => h.noColons path (by simp [hpath]))
    (h.noColons _ List.mem_cons_self)

theorem parsed_alias (h : Aliased m m') : Parsed m'.parsedFiles :=
  m'.parsed (h.paths ▸ h.distinct) (fun path hpath => h.noColons path (by simp [← h.paths, hpath]))
    (h.noColons _ (by simp))

theorem plain (h : Aliased m m') : Plain (Path.normalize file) :=
  h.parsed.plain (f := ⟨Path.normalize file, m.outline⟩) List.mem_cons_self

theorem plain_alias (h : Aliased m m') : Plain (Path.normalize other) :=
  h.parsed_alias.plain (f := ⟨Path.normalize other, m'.outline⟩) List.mem_cons_self

theorem outline_eq (h : Aliased m m') : m'.outline = m.outline :=
  ((hasOutline_iff h.same).mp m'.hasOutline).unique m.hasOutline

/-- The same definition is found. -/
theorem definition_eq (h : Aliased m m') : m'.definition = m.definition := by
  have hfound := target_eq_ok_iff.mp m'.found
  rw [h.outline_eq, target_eq_ok_iff.mp m.found] at hfound
  exact (Lookup.found.inj hfound).symm

/-- The files of the first analysis, the one of the function under its other path. -/
theorem mem_exchanged (h : Aliased m m') {f : OutlinedFile} :
    f ∈ m.parsedFiles.map (.exchange (Path.normalize file) (Path.normalize other)) ↔
      f = ⟨Path.normalize other, m.outline⟩ ∨
        (f.path ∈ m.paths ∧ f.path ≠ Path.normalize file ∧ t.HasOutline f.path f.outline) := by
  have htarget : OutlinedFile.exchange (Path.normalize file) (Path.normalize other)
      ⟨Path.normalize file, m.outline⟩ = ⟨Path.normalize other, m.outline⟩ := by
    rw [OutlinedFile.exchange, Equiv.swap_apply_left]
  have hsame : ∀ f : OutlinedFile, f.path ∈ m.paths → f.path ≠ Path.normalize file →
      f.exchange (Path.normalize file) (Path.normalize other) = f := by
    intro f hpath hne
    rw [OutlinedFile.exchange, Equiv.swap_apply_of_ne_of_ne hne
      (ne_of_mem_of_not_mem hpath h.unlisted)]
  rw [List.mem_map]
  constructor
  · rintro ⟨f, hf, rfl⟩
    rcases m.mem_parsedFiles.mp hf with rfl | ⟨hpath, hne, houtline⟩
    · exact .inl htarget
    · rw [hsame f hpath hne]
      exact .inr ⟨hpath, hne, houtline⟩
  · rintro (rfl | ⟨hpath, hne, houtline⟩)
    · exact ⟨_, List.mem_cons_self, htarget⟩
    · exact ⟨f, m.mem_parsedFiles.mpr (.inr ⟨hpath, hne, houtline⟩), hsame f hpath hne⟩

/-- **The files of the second analysis** are those of the first one, the one of the function under
its other path, and again under the path that it is listed by. -/
theorem mem_parsedFiles_alias (h : Aliased m m') {f : OutlinedFile} :
    f ∈ m'.parsedFiles ↔
      (f = ⟨Path.normalize file, m.outline⟩ ∧ Path.normalize file ∈ m.paths) ∨
        f ∈ m.parsedFiles.map (.exchange (Path.normalize file) (Path.normalize other)) := by
  rw [m'.mem_parsedFiles, h.mem_exchanged, h.outline_eq, h.paths]
  constructor
  · rintro (rfl | ⟨hpath, -, houtline⟩)
    · exact .inr (.inl rfl)
    · by_cases hne : f.path = Path.normalize file
      · refine .inl ⟨?_, hne ▸ hpath⟩
        rw [← hne, m.hasOutline.unique (hne ▸ houtline)]
      · exact .inr (.inr ⟨hpath, hne, houtline⟩)
  · rintro (⟨rfl, hpath⟩ | rfl | ⟨hpath, -, houtline⟩)
    · exact .inr ⟨hpath, h.differs.symm, m.hasOutline⟩
    · exact .inl rfl
    · exact .inr ⟨hpath, ne_of_mem_of_not_mem hpath h.unlisted, houtline⟩

/-- Where the file is not listed, nothing but its path is different. -/
theorem mem_of_unlisted (h : Aliased m m') (hunlisted : Path.normalize file ∉ m.paths)
    (f : OutlinedFile) : f ∈ m'.parsedFiles ↔
      f ∈ m.parsedFiles.map (.exchange (Path.normalize file) (Path.normalize other)) := by
  rw [h.mem_parsedFiles_alias, or_iff_right fun hf => hunlisted hf.2]

/-- Where the file is listed, there is a copy of it. -/
theorem mem_of_listed (h : Aliased m m') (hlisted : Path.normalize file ∈ m.paths)
    (f : OutlinedFile) : f ∈ m'.parsedFiles ↔
      f ∈ ⟨Path.normalize file, m.outline⟩ ::
        m.parsedFiles.map (.exchange (Path.normalize file) (Path.normalize other)) := by
  rw [h.mem_parsedFiles_alias, List.mem_cons, and_iff_left hlisted]

theorem mem_exchanged_self (h : Aliased m m') :
    (⟨Path.normalize other, m.outline⟩ : OutlinedFile) ∈
      m.parsedFiles.map (.exchange (Path.normalize file) (Path.normalize other)) :=
  h.mem_exchanged.mpr (.inl rfl)

theorem parsed_of_listed (h : Aliased m m') (hlisted : Path.normalize file ∈ m.paths) :
    Parsed (⟨Path.normalize file, m.outline⟩ ::
      m.parsedFiles.map (.exchange (Path.normalize file) (Path.normalize other))) where
  distinct := by
    have hpaths : (m.parsedFiles.map
        (.exchange (Path.normalize file) (Path.normalize other))).map OutlinedFile.path =
        (m.parsedFiles.map OutlinedFile.path).map
          (Equiv.swap (Path.normalize file) (Path.normalize other)) := by
      rw [List.map_map, List.map_map]
      rfl
    rw [List.map_cons, List.nodup_cons]
    refine ⟨fun hmem => ?_, hpaths ▸ h.parsed.distinct.map (Equiv.injective _)⟩
    obtain ⟨f, hf, hpath⟩ := List.mem_map.mp hmem
    rcases h.mem_exchanged.mp hf with rfl | ⟨-, hne, -⟩
    · exact h.differs hpath
    · exact hne hpath
  language f hf := h.parsed_alias.language f ((h.mem_of_listed hlisted f).mpr hf)
  noColons f hf := h.parsed_alias.noColons f ((h.mem_of_listed hlisted f).mpr hf)
  callers f hf := h.parsed_alias.callers f ((h.mem_of_listed hlisted f).mpr hf)

/-- **What is called from the file** is called by either path, with the paths exchanged. -/
theorem means_alias (h : Aliased m m') {callee : String} :
    Means m'.parsedFiles (Path.normalize other) callee id ↔
      Means m.parsedFiles (Path.normalize file) callee
        (Located.exchange (Path.normalize file) (Path.normalize other) id) := by
  rw [← means_exchange h.plain h.plain_alias fun _ hf => h.parsed.plain hf, Equiv.swap_apply_left]
  by_cases hlisted : Path.normalize file ∈ m.paths
  · rw [means_congr (h.mem_of_listed hlisted),
      means_cons_copy (h.parsed_of_listed hlisted) h.mem_exchanged_self]
  · rw [means_congr (h.mem_of_unlisted hlisted)]

theorem mem_edges_own (h : Aliased m m') :
    ⟨Located.idOf (Path.normalize other) caller, id⟩ ∈ a'.graph.edges ↔
      ⟨Located.idOf (Path.normalize file) caller,
        Located.exchange (Path.normalize file) (Path.normalize other) id⟩ ∈ a.graph.edges := by
  simp only [m'.mem_edges_own h.parsed_alias, m.mem_edges_own h.parsed, h.outline_eq, h.means_alias]

/-- **Where the file is not listed**, the two graphs differ in its path alone. -/
theorem renames (h : Aliased m m') (hunlisted : Path.normalize file ∉ m.paths) :
    CallGraph.Renames (Located.exchange (Path.normalize file) (Path.normalize other))
      a.graph a'.graph :=
  renames_of_resolves h.plain h.plain_alias (fun _ hf => h.parsed.plain hf) (m.resolves h.parsed)
    (resolves_congr (h.mem_of_unlisted hunlisted) (m'.resolves h.parsed_alias))

/-- **Where the file is listed**, nothing from elsewhere calls its functions by the other path. -/
theorem nameIn?_of_mem_edges (h : Aliased m m') (hlisted : Path.normalize file ∈ m.paths)
    (he : ⟨id, Located.idOf (Path.normalize other) caller⟩ ∈ a'.graph.edges) :
    (Located.nameIn? (Path.normalize other) id).isSome := by
  obtain ⟨f, hf, c, hc, rfl, hmeans⟩ := ((m'.resolves h.parsed_alias).edges _).mp he
  rw [means_congr (h.mem_of_listed hlisted)] at hmeans
  have hpath : f.path = Path.normalize other := by
    by_contra hne
    exact not_means_copy (h.parsed_of_listed hlisted) h.mem_exchanged_self hne hmeans
  exact Option.isSome_iff_exists.mpr ⟨_, Located.nameIn?_eq_some_iff.mpr (by rw [hpath])⟩

/-- No function of the first analysis bears the other path. -/
theorem nameIn?_of_mem_nodes (h : Aliased m m') (hid : id ∈ a.graph.nodes) :
    Located.nameIn? (Path.normalize other) id = none := by
  obtain ⟨f, hf, d, hd, rfl⟩ := ((m.resolves h.parsed).nodes id).mp hid
  refine Located.nameIn?_idOf_of_ne (h.parsed.plain hf) h.plain_alias ?_
  rcases m.mem_parsedFiles.mp hf with rfl | ⟨hpath, -, -⟩
  · exact h.differs.symm
  · exact ne_of_mem_of_not_mem hpath h.unlisted

/-- **What is elsewhere is the same** by both paths, if all else is with the paths exchanged. -/
theorem elsewhere_eq (h : Aliased m m') {ids ids' : List String} (hids : ids.Pairwise (· < ·))
    (hids' : ids'.Pairwise (· < ·)) (hnodes : ∀ id ∈ ids, id ∈ a.graph.nodes)
    (hsame : ∀ id, id ∈ ids' ↔
      Located.exchange (Path.normalize file) (Path.normalize other) id ∈ ids) :
    elsewhere (Path.normalize other) ids' = elsewhere (Path.normalize file) ids := by
  refine Order.strings_eq_of_mem_iff (hids'.filter _) (hids.filter _) fun id => ?_
  rw [elsewhere, elsewhere, List.mem_filter, List.mem_filter, Option.isNone_iff_eq_none,
    Option.isNone_iff_eq_none, hsame]
  constructor
  · rintro ⟨hmem, halias⟩
    rcases hfile : Located.nameIn? (Path.normalize file) id with _ | caller
    · rw [Located.exchange_of_none hfile halias] at hmem
      exact ⟨hmem, rfl⟩
    · -- It would be a function of the first analysis that bears the other path.
      rw [Located.nameIn?_eq_some_iff.mp hfile, Located.exchange_left] at hmem
      have hnone := h.nameIn?_of_mem_nodes (hnodes _ hmem)
      rw [Located.nameIn?_eq_some_iff.mpr rfl] at hnone
      cases hnone
  · rintro ⟨hmem, hfile⟩
    have halias := h.nameIn?_of_mem_nodes (hnodes _ hmem)
    exact ⟨by rwa [Located.exchange_of_none hfile halias], halias⟩

end Aliased

/-! ### What is found by the other path -/

section Analyze

variable {paths : List String}

/-- A function that is found by one path is found by another path of the same file. -/
theorem exists_analyze_of_sameFile (ht : t.Returns) (hlisted : t.ListsPlainly filter)
    (hsame : t.SameFile (Path.normalize file) (Path.normalize other))
    (hother : ¬[':', ':'] <:+: (Path.normalize other).toList)
    (ha : (analyze t filter file name).reply = .answer (.ok a)) :
    ∃ a', (analyze t filter other name).reply = .answer (.ok a') := by
  obtain ⟨m⟩ := nonempty_assembly ha
  obtain ⟨r, hr, hdecided⟩ : ∃ r, (analyze t filter other name).reply = .answer r ∧ _ :=
    exists_analyze_eq_decided ht hother hlisted (hsame.read.trans m.read)
  have houtline := (outlineOf_eq_ok_congr hsame.language).mpr m.outlined
  rw [decided_of_outline houtline, target_eq_ok_iff.mpr (target_eq_ok_iff.mp m.found)] at hdecided
  rcases r with e | a'
  · cases hdecided
  · exact ⟨a', hr⟩

/-- **A file by another path.** Where a function is found by one path of its file it is found by
another one, too, and the functions elsewhere that it calls are the same. Those elsewhere that call
it are the same exactly if there are none, or the paths are the same in their usual form, or the
first one is not listed; and in the last two cases a change of it can reach as many functions. -/
theorem analyze_alias (ht : t.Returns) (hlist : (t.sourceFiles filter).reply = .answer (.ok paths))
    (hdistinct : paths.Nodup)
    (hcolons : ∀ path ∈ Path.normalize file :: Path.normalize other :: paths,
      ¬[':', ':'] <:+: path.toList)
    (hsame : t.SameFile (Path.normalize file) (Path.normalize other))
    (hunlisted : Path.normalize other ∈ paths → Path.normalize other = Path.normalize file)
    (ha : (analyze t filter file name).reply = .answer (.ok a)) :
    ∃ a', (analyze t filter other name).reply = .answer (.ok a') ∧ a'.target = a.target ∧
      elsewhere (Path.normalize other) a'.downstream =
        elsewhere (Path.normalize file) a.downstream ∧
      (elsewhere (Path.normalize other) a'.upstream = elsewhere (Path.normalize file) a.upstream ↔
        Path.normalize other = Path.normalize file ∨ Path.normalize file ∉ paths ∨
          elsewhere (Path.normalize file) a.upstream = []) ∧
      (Path.normalize other = Path.normalize file ∨ Path.normalize file ∉ paths →
        a'.impact.length = a.impact.length) := by
  by_cases heq : Path.normalize other = Path.normalize file
  · have hanalyze : analyze t filter other name = analyze t filter file name := by
      unfold analyze
      rw [heq]
    rw [hanalyze, heq]
    exact ⟨a, ha, rfl, rfl, iff_of_true rfl (.inl rfl), fun _ => rfl⟩
  have hlisted : t.ListsPlainly filter := by
    intro found hfound path hpath
    obtain rfl := Except.ok.inj (Reply.answer.inj (hfound.symm.trans hlist))
    exact hcolons path (by simp [hpath])
  obtain ⟨a', ha'⟩ := exists_analyze_of_sameFile ht hlisted hsame (hcolons _ (by simp)) ha
  obtain ⟨m⟩ := nonempty_assembly ha
  obtain ⟨m'⟩ := nonempty_assembly ha'
  have h : Aliased m m' :=
    { same := hsame
      paths := (m'.paths_eq hlist).trans (m.paths_eq hlist).symm
      distinct := m.paths_eq hlist ▸ hdistinct
      noColons := m.paths_eq hlist ▸ hcolons
      differs := heq
      unlisted := fun hmem => heq (hunlisted (m.paths_eq hlist ▸ hmem)) }
  have htarget : a'.targetId = Located.exchange (Path.normalize file) (Path.normalize other)
      a.targetId := by
    rw [m'.targetId_eq, m.targetId_eq, h.definition_eq, Located.exchange_left]
  refine ⟨a', ha', by rw [m'.target_eq, m.target_eq, h.definition_eq], ?_, ?_, ?_⟩
  · refine h.elsewhere_eq m.pairwise_downstream m'.pairwise_downstream (fun id hid => ?_)
      fun id => ?_
    · rw [m.downstream_eq] at hid
      exact m.wellFormed.callee_mem _ (CallGraph.mem_downstream.mp hid)
    · rw [m'.downstream_eq, m.downstream_eq, m'.targetId_eq, m.targetId_eq, h.definition_eq,
        CallGraph.mem_downstream, CallGraph.mem_downstream, h.mem_edges_own]
  · -- Where the file is listed, its callers name the other copy; where it is not, nothing is
    -- different.
    by_cases hfile : Path.normalize file ∈ paths
    · have hnone : elsewhere (Path.normalize other) a'.upstream = [] := by
        refine List.filter_eq_nil_iff.mpr fun id hid => ?_
        rw [m'.upstream_eq, m'.wellFormed.mem_upstream, m'.targetId_eq] at hid
        have hown := h.nameIn?_of_mem_edges (m.paths_eq hlist ▸ hfile) hid
        rw [Option.isNone_iff_eq_none]
        exact Option.isSome_iff_ne_none.mp hown
      rw [hnone]
      refine ⟨fun hempty => .inr (.inr hempty.symm), ?_⟩
      rintro (hsame | hunlisted | hempty)
      · exact absurd hsame heq
      · exact absurd hfile hunlisted
      · exact hempty.symm
    · refine iff_of_true ?_ (.inr (.inl hfile))
      have hrenames := h.renames (m.paths_eq hlist ▸ hfile)
      refine h.elsewhere_eq m.pairwise_upstream m'.pairwise_upstream (fun id hid => ?_) fun id => ?_
      · rw [m.upstream_eq] at hid
        exact m.wellFormed.caller_mem _ (m.wellFormed.mem_upstream.mp hid)
      · rw [m'.upstream_eq, m.upstream_eq, m'.wellFormed.mem_upstream, m.wellFormed.mem_upstream,
          hrenames.edges, htarget, hrenames.exchanges]
  · rintro (hsame | hfile)
    · exact absurd hsame heq
    · rw [m'.impact_eq, m.impact_eq, htarget]
      exact (h.renames (m.paths_eq hlist ▸ hfile)).length_impact m.wellFormed m'.wellFormed _

end Analyze

end Structure

end Dossier
