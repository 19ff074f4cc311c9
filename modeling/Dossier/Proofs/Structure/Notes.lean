import Dossier.Proofs.Structure.Assembly
import Dossier.Proofs.Structure.Survey

/-!
# When nothing is noted on a structure

The structural stage goes on when the other files of a tree cannot be listed, when one of them
cannot be read or has a syntax error, and when a function is defined in several ways. Each time
it leaves a note. Conversely, a structure without notes is evidence that the tree was seen as a
whole: all files were listed, every one has an outline, and definitions of one function agree
(`Dossier.Structure.Assembly.notes_eq_nil_iff`). The version control has then answered every call.
-/

namespace Dossier

namespace SourceTree

/-- Whether a file of a tree can be read and has an outline. -/
def HasOutline (t : SourceTree) (path : String) (o : Outline) : Prop :=
  ∃ source, (t.read path).reply = .answer (.ok source) ∧ Structure.outlineOf path source = .ok o

/-- Whether a file of a tree defines a function. -/
def Defines (t : SourceTree) (path : String) (d : Definition) : Prop :=
  ∃ o, t.HasOutline path o ∧ d ∈ o.definitions

/-- **Whether the definitions of some files agree**: functions with the same name in the
repository have the same signature. -/
def DefinitionsAgree (t : SourceTree) (paths : List String) : Prop :=
  ∀ path ∈ paths, ∀ path' ∈ paths, ∀ d d', t.Defines path d → t.Defines path' d' →
    Structure.Located.idOf path d.name = Structure.Located.idOf path' d'.name →
      d.signature = d'.signature

/-- **Whether a tree is seen as a whole** from one of its files: its files can be listed, all
others have outlines, and the definitions agree. -/
def SeenWhole (t : SourceTree) (filter : PathFilter) (file : String) : Prop :=
  ∃ paths, (t.sourceFiles filter).reply = .answer (.ok paths) ∧
    (∀ path ∈ paths, path ≠ file → ∃ o, t.HasOutline path o) ∧ t.DefinitionsAgree (file :: paths)

/-- Whether a tree asks nobody but this version control. -/
def Asks (v : VersionControl) : SourceTree → Prop
  | workingTree .. => True
  | revision v' _ => v' = v

variable {t : SourceTree} {v : VersionControl}

/-- A file that is read is one that the version control has answered for. -/
theorem Asks.answers_of_read (ht : t.Asks v) {path text : String}
    (h : (t.read path).reply = .answer (.ok text)) :
    ∀ call ∈ (t.read path).calls, v.Answers call := by
  cases t with
  | workingTree files root => exact fun call hcall => absurd hcall List.not_mem_nil
  | revision v' rev =>
    obtain rfl := ht
    refine Inquiry.answers_of_attempt (fun found => ?_) (fun e he => ?_) h
    · rcases found with e | _ | text <;> rfl
    · cases he

/-- Files that are listed are files that the version control has answered for. -/
theorem Asks.answers_of_sourceFiles (ht : t.Asks v) {filter : PathFilter} {paths : List String}
    (h : (t.sourceFiles filter).reply = .answer (.ok paths)) :
    ∀ call ∈ (t.sourceFiles filter).calls, v.Answers call := by
  cases t with
  | workingTree files root => exact fun call hcall => absurd hcall List.not_mem_nil
  | revision v' rev =>
    obtain rfl := ht
    refine Inquiry.answers_of_attempt (fun found => ?_) (fun e he => ?_) h
    · rcases found with e | paths <;> rfl
    · cases he

/-- A file that can be read has the outline of its text, or none. -/
theorem hasOutline_iff_of_read {path source : String} {o : Outline}
    (h : (t.read path).reply = .answer (.ok source)) :
    t.HasOutline path o ↔ Structure.outlineOf path source = .ok o := by
  constructor
  · rintro ⟨source', hsource, ho⟩
    obtain rfl := Except.ok.inj (Reply.answer.inj (h.symm.trans hsource))
    exact ho
  · exact fun ho => ⟨source, h, ho⟩

/-- A file has one outline at most. -/
theorem HasOutline.unique {path : String} {o o' : Outline} (h : t.HasOutline path o)
    (h' : t.HasOutline path o') : o = o' := by
  obtain ⟨source, hread, ho⟩ := h
  exact Except.ok.inj (ho.symm.trans ((hasOutline_iff_of_read hread).mp h'))

end SourceTree

namespace Structure

variable {t : SourceTree} {filter : PathFilter} {file name path : String} {a : Analysis}
  {v : VersionControl}

/-! ### One of the other files -/

/-- **What looking into a file comes to**: its outline, if it has one. -/
theorem outlineOther_spec {found : String × Except String Outline}
    (h : (outlineOther t path).reply = .answer found) :
    found.1 = path ∧ ∀ o, found.2 = .ok o ↔ t.HasOutline path o := by
  unfold outlineOther at h
  split at h
  · next hnone =>
    obtain rfl := Reply.answer.inj h
    refine ⟨rfl, fun o => ⟨nofun, ?_⟩⟩
    rintro ⟨source, -, houtline⟩
    obtain ⟨l, hl, -⟩ := outlineOf_eq_ok_iff.mp houtline
    rw [hnone] at hl
    cases hl
  · obtain ⟨read, hread, h⟩ := Inquiry.reply_bind_eq_answer.mp h
    rcases read with e | source
    · obtain rfl := Reply.answer.inj h
      refine ⟨rfl, fun o => ⟨nofun, ?_⟩⟩
      rintro ⟨source, hsource, -⟩
      rw [hread] at hsource
      cases hsource
    · obtain rfl := Reply.answer.inj h
      refine ⟨rfl, fun o => ?_⟩
      rw [SourceTree.hasOutline_iff_of_read hread]
      exact mapError_eq_ok_iff

/-- The files that are not passed over are those with an outline. -/
theorem mem_filterMap_outlined? {others : List (String × Except String Outline)}
    {f : OutlinedFile} : f ∈ others.filterMap outlined? ↔ (f.path, .ok f.outline) ∈ others := by
  constructor
  · intro hf
    obtain ⟨⟨path, found⟩, hother, hfound⟩ := List.mem_filterMap.mp hf
    rcases found with e | o
    · cases hfound
    · obtain rfl := Option.some.inj hfound
      exact hother
  · exact fun hother => List.mem_filterMap.mpr ⟨_, hother, rfl⟩

/-- The functions of some files are those that they define. -/
theorem mem_flatMap_located {files : List OutlinedFile} {l : Located} :
    l ∈ files.flatMap OutlinedFile.located ↔
      ∃ f ∈ files, l.file = f.path ∧ l.definition ∈ f.outline.definitions := by
  simp only [List.mem_flatMap, OutlinedFile.located, List.mem_map]
  constructor
  · rintro ⟨f, hf, d, hd, rfl⟩
    exact ⟨f, hf, rfl, hd⟩
  · rintro ⟨f, hf, hfile, hd⟩
    exact ⟨f, hf, l.definition, hd, by rw [← hfile]⟩

/-- Files are listed, or there is a remark. -/
theorem listFiles_spec {paths remarks : List String}
    (h : (listFiles t filter).reply = .answer (paths, remarks)) :
    ((t.sourceFiles filter).reply = .answer (.ok paths) ∧ remarks = []) ∨
      ((∃ e, (t.sourceFiles filter).reply = .answer (.error e)) ∧ remarks ≠ []) := by
  obtain ⟨found, hfound, h⟩ := Inquiry.reply_bind_eq_answer.mp h
  rcases found with e | listed
  · obtain ⟨-, rfl⟩ := Prod.mk.inj (Reply.answer.inj h)
    exact Or.inr ⟨⟨e, hfound⟩, nofun⟩
  · obtain ⟨rfl, rfl⟩ := Prod.mk.inj (Reply.answer.inj h)
    exact Or.inl ⟨hfound, rfl⟩

namespace Assembly

/-- What was found out about the other files. -/
theorem mem_others (m : Assembly t filter file name a) {found : String × Except String Outline} :
    found ∈ m.others ↔ ∃ path ∈ m.paths, path ≠ Path.normalize file ∧
      (outlineOther t path).reply = .answer found := by
  rw [Inquiry.mem_forAll m.looked]
  simp only [List.mem_filter, bne_iff_ne, and_assoc]

/-- The files that an analysis goes by are those that are listed. -/
theorem paths_eq (m : Assembly t filter file name a) {paths : List String}
    (hlist : (t.sourceFiles filter).reply = .answer (.ok paths)) : m.paths = paths := by
  rcases listFiles_spec m.listed with ⟨hfound, -⟩ | ⟨⟨e, hfound⟩, -⟩
  · exact Except.ok.inj (Reply.answer.inj (hfound.symm.trans hlist))
  · cases hfound.symm.trans hlist

theorem hasOutline (m : Assembly t filter file name a) :
    t.HasOutline (Path.normalize file) m.outline :=
  ⟨m.source, m.read, m.outlined⟩

/-- The other files of which the functions are taken. -/
theorem mem_outlined (m : Assembly t filter file name a) {f : OutlinedFile} :
    f ∈ m.others.filterMap outlined? ↔
      f.path ∈ m.paths ∧ f.path ≠ Path.normalize file ∧ t.HasOutline f.path f.outline := by
  rw [mem_filterMap_outlined?, m.mem_others]
  constructor
  · rintro ⟨path, hpath, hne, hreply⟩
    obtain ⟨rfl, houtline⟩ := outlineOther_spec hreply
    exact ⟨hpath, hne, (houtline _).mp rfl⟩
  · rintro ⟨hpath, hne, houtline⟩
    obtain ⟨⟨path, found⟩, hfound⟩ := Inquiry.exists_of_forAll m.looked
      (List.mem_filter.mpr ⟨hpath, bne_iff_ne.mpr hne⟩)
    obtain ⟨rfl, hspec⟩ := outlineOther_spec hfound
    obtain rfl := (hspec _).mpr houtline
    exact ⟨_, hpath, hne, hfound⟩

/-- The functions from which the graph is built are those that the files define. -/
theorem mem_locatedIn (m : Assembly t filter file name a) {l : Located} :
    l ∈ locatedIn ⟨Path.normalize file, m.outline⟩ m.others ↔
      l.file ∈ Path.normalize file :: m.paths ∧ t.Defines l.file l.definition := by
  rw [locatedIn, mem_flatMap_located]
  constructor
  · rintro ⟨f, hf, hfile, hd⟩
    rw [hfile]
    rcases List.mem_cons.mp hf with rfl | hf
    · exact ⟨List.mem_cons_self, m.outline, m.hasOutline, hd⟩
    · obtain ⟨hpath, -, houtline⟩ := m.mem_outlined.mp hf
      exact ⟨List.mem_cons_of_mem _ hpath, f.outline, houtline, hd⟩
  · rintro ⟨hfile, o, houtline, hd⟩
    -- The file of the request is read once and for itself, even if it is listed again.
    rcases eq_or_ne l.file (Path.normalize file) with heq | hne
    · obtain rfl := (heq ▸ houtline).unique m.hasOutline
      exact ⟨_, List.mem_cons_self, heq, hd⟩
    · have hpath := (List.mem_cons.mp hfile).resolve_left hne
      exact ⟨⟨l.file, o⟩, List.mem_cons_of_mem _ (m.mem_outlined.mpr ⟨hpath, hne, houtline⟩),
        rfl, hd⟩

/-- No file is passed over exactly if all have outlines. -/
theorem filterMap_skipped_eq_nil_iff (m : Assembly t filter file name a) :
    m.others.filterMap skipped? = [] ↔
      ∀ path ∈ m.paths, path ≠ Path.normalize file → ∃ o, t.HasOutline path o := by
  rw [List.filterMap_eq_nil_iff]
  constructor
  · intro hnone path hpath hne
    obtain ⟨⟨path', found⟩, hfound⟩ := Inquiry.exists_of_forAll m.looked
      (List.mem_filter.mpr ⟨hpath, bne_iff_ne.mpr hne⟩)
    have hskipped := hnone _ (m.mem_others.mpr ⟨path, hpath, hne, hfound⟩)
    rcases found with e | o
    · cases hskipped
    · exact ⟨o, ((outlineOther_spec hfound).2 o).mp rfl⟩
  · rintro hall ⟨path, found⟩ hother
    obtain ⟨path', hpath, hne, hreply⟩ := m.mem_others.mp hother
    obtain ⟨o, ho⟩ := hall path' hpath hne
    obtain rfl := ((outlineOther_spec hreply).2 o).mpr ho
    rfl

/-- No definition is passed over exactly if the definitions agree. -/
theorem ambiguous_eq_nil_iff (m : Assembly t filter file name a) :
    m.ambiguous = [] ↔ t.DefinitionsAgree (Path.normalize file :: m.paths) := by
  rw [remarks_of_survey m.surveyed]
  constructor
  · intro hagree path hpath path' hpath' d d' hd hd' heq
    exact hagree ⟨path, d⟩ (m.mem_locatedIn.mpr ⟨hpath, hd⟩) ⟨path', d'⟩
      (m.mem_locatedIn.mpr ⟨hpath', hd'⟩) heq
  · intro hagree l hl l' hl' heq
    obtain ⟨hfile, hdefines⟩ := m.mem_locatedIn.mp hl
    obtain ⟨hfile', hdefines'⟩ := m.mem_locatedIn.mp hl'
    exact hagree _ hfile _ hfile' _ _ hdefines hdefines' heq

/-- **Nothing is noted on a structure exactly if the tree is seen as a whole.** -/
theorem notes_eq_nil_iff (m : Assembly t filter file name a) :
    a.notes = [] ↔ t.SeenWhole filter (Path.normalize file) := by
  rw [m.notes_eq, List.append_eq_nil_iff, List.append_eq_nil_iff,
    m.filterMap_skipped_eq_nil_iff, m.ambiguous_eq_nil_iff]
  rcases listFiles_spec m.listed with ⟨hlisted, hremarks⟩ | ⟨⟨e, hlisted⟩, hremarks⟩
  · constructor
    · rintro ⟨⟨-, houtlines⟩, hagree⟩
      exact ⟨m.paths, hlisted, houtlines, hagree⟩
    · rintro ⟨paths, hpaths, houtlines, hagree⟩
      obtain rfl := m.paths_eq hpaths
      exact ⟨⟨hremarks, houtlines⟩, hagree⟩
  · constructor
    · rintro ⟨⟨hnone, -⟩, -⟩
      exact absurd hnone hremarks
    · rintro ⟨paths, hpaths, -⟩
      cases hlisted.symm.trans hpaths

/-- **A structure without notes is evidence that the version control has answered every call.** -/
theorem answers_of_notes (m : Assembly t filter file name a) (ht : t.Asks v)
    (hnotes : a.notes = []) : ∀ call ∈ (analyze t filter file name).calls, v.Answers call := by
  obtain ⟨paths, hlisted, houtlines, -⟩ := m.notes_eq_nil_iff.mp hnotes
  obtain rfl := m.paths_eq hlisted
  intro call hcall
  rw [m.calls_eq, List.mem_append, List.mem_append] at hcall
  rcases hcall with hread | hlist | hother
  · exact ht.answers_of_read m.read call hread
  · rw [listFiles, Inquiry.calls_bind hlisted, List.mem_append] at hlist
    exact ht.answers_of_sourceFiles hlisted call (hlist.resolve_right List.not_mem_nil)
  · obtain ⟨path, hpath, hother⟩ := (Inquiry.mem_calls_forAll m.looked).mp hother
    obtain ⟨hpath, hne⟩ := List.mem_filter.mp hpath
    obtain ⟨o, source, hsource, houtline⟩ := houtlines path hpath (bne_iff_ne.mp hne)
    obtain ⟨l, hl, -⟩ := outlineOf_eq_ok_iff.mp houtline
    unfold outlineOther at hother
    simp only [hl] at hother
    rw [Inquiry.calls_bind hsource, List.mem_append] at hother
    exact ht.answers_of_read hsource call (hother.resolve_right List.not_mem_nil)

end Assembly

end Structure

end Dossier
