import Dossier.Proofs.Outline.Names
import Dossier.Proofs.Structure.Causes
import Dossier.Proofs.Structure.Notes
import Dossier.Proofs.Structure.Resolution

/-!
# Only the target makes the structural stage fail

Three steps of the structural stage can find a function ambiguous: looking it up in its file,
taking every function of the repository once, and building the graph. They go by different names,
the first by the qualified or the bare name, the second by the identifier, the third by the
identifiers of what the second has kept. Still only the first can make the stage fail: what has been
looked up is defined in one way in its file (`Dossier.Outline.WellNamed.signature_eq`), no other
file has its identifier, and what is kept has different identifiers.

So the file of the function decides alone whether the stage fails and with what, and which
definition it is about (`Dossier.Structure.decided`), whatever the rest of the tree is like.
-/

namespace Dossier

namespace SourceTree

/-- **Whether everything that is asked about a tree comes back**, be it with a failure. -/
structure Returns (t : SourceTree) : Prop where
  read : ∀ path, ∃ found, (t.read path).reply = .answer found
  list : ∀ filter, ∃ found, (t.sourceFiles filter).reply = .answer found

theorem returns_workingTree (files : Place) (root : String) : (workingTree files root).Returns :=
  ⟨fun _ => ⟨_, rfl⟩, fun _ => ⟨_, rfl⟩⟩

/-- A revision can be read and listed, or not, when the version control returns. -/
theorem returns_revision {v : VersionControl} (h : ∀ call, v call ≠ .stall) (rev : String) :
    (revision v rev).Returns where
  read path := by
    rw [SourceTree.read]
    rcases hv : v (.showFile rev path) with found | e | _
    · rw [Inquiry.attempt_bind_of_answer hv]
      cases found <;> exact ⟨_, rfl⟩
    · rw [Inquiry.attempt_bind_of_failure hv]
      exact ⟨_, rfl⟩
    · exact absurd hv (h _)
  list filter := by
    rw [sourceFiles]
    rcases hv : v (.listFiles rev) with paths | e | _
    · rw [Inquiry.attempt_bind_of_answer hv]
      exact ⟨_, rfl⟩
    · rw [Inquiry.attempt_bind_of_failure hv]
      exact ⟨_, rfl⟩
    · exact absurd hv (h _)

/-- Whether no path that is listed has two colons in a row. -/
def ListsPlainly (t : SourceTree) (filter : PathFilter) : Prop :=
  ∀ paths, (t.sourceFiles filter).reply = .answer (.ok paths) →
    ∀ path ∈ paths, ¬[':', ':'] <:+: path.toList

end SourceTree

namespace Structure

variable {t : SourceTree} {filter : PathFilter} {file name : String}
  {found : Except ReadError String}

/-! ### What the file of the function decides -/

/-- **What the file of a function decides alone**: the failure, or the identifier and the
definition of the function. -/
def decided (file name : String) (found : Except ReadError String) :
    Except AnalysisError (String × Definition) :=
  if (Language.ofPath? file).isNone then .error (.unsupportedLanguage (Path.toSlashes file))
  else
    match found with
    | .error e => .error (.sourceUnreadable file e)
    | .ok source =>
      (outlineOf file source).bind fun o =>
        (target file name o).map fun d => (Located.idOf file d.name, d)

/-- A file with an outline decides what its outline does. -/
theorem decided_of_outline {source : String} {o : Outline} (ho : outlineOf file source = .ok o) :
    decided file name (.ok source) =
      (target file name o).map fun d => (Located.idOf file d.name, d) := by
  obtain ⟨l, hl, -⟩ := outlineOf_eq_ok_iff.mp ho
  rw [decided, hl, Option.isNone_some, if_neg Bool.false_ne_true]
  simp only [ho, Except.bind]

/-- A file decides for the definition that is found in it. -/
theorem target_eq_ok_iff {o : Outline} {d : Definition} :
    target file name o = .ok d ↔ o.locate name = .found d := by
  unfold target
  rcases o.locate name with d' | ds | _
  · rw [Except.ok.injEq, Lookup.found.injEq]
  · exact ⟨nofun, nofun⟩
  · exact ⟨nofun, nofun⟩

/-- What is wrong with a file is no conflict. -/
theorem outlineOf_ne_conflict {source : String} {c : Conflict} :
    outlineOf file source ≠ .error (.graphConstruction c) := by
  unfold outlineOf
  split
  · exact nofun
  · next l _ => rcases Outline.ofSource l file source with e | o <;> exact nofun

/-- Only ambiguity is told as a conflict. -/
theorem target_eq_conflict_iff {o : Outline} :
    (∃ c, target file name o = .error (.graphConstruction c)) ↔
      ∃ ds, o.locate name = .ambiguous ds := by
  unfold target
  rcases o.locate name with d | ds | _
  · exact ⟨nofun, nofun⟩
  · exact ⟨fun _ => ⟨ds, rfl⟩, fun _ => ⟨_, rfl⟩⟩
  · exact ⟨nofun, nofun⟩

/-- **A conflict is decided exactly if the name is ambiguous in the file.** -/
theorem decided_eq_conflict_iff :
    (∃ c, decided file name found = .error (.graphConstruction c)) ↔
      ∃ source o ds, found = .ok source ∧ outlineOf file source = .ok o ∧
        o.locate name = .ambiguous ds := by
  constructor
  · rintro ⟨c, hc⟩
    rcases found with e | source
    · unfold decided at hc
      split at hc <;> cases hc
    rcases ho : outlineOf file source with e | o
    · unfold decided at hc
      simp only [ho, Except.bind] at hc
      split at hc
      · cases hc
      · obtain rfl := Except.error.inj hc
        exact absurd ho outlineOf_ne_conflict
    · rw [decided_of_outline ho] at hc
      rcases htarget : target file name o with e | d <;> rw [htarget] at hc
      · obtain rfl := Except.error.inj hc
        obtain ⟨ds, hds⟩ := target_eq_conflict_iff.mp ⟨c, htarget⟩
        exact ⟨source, o, ds, rfl, ho, hds⟩
      · cases hc
  · rintro ⟨source, o, ds, rfl, ho, hds⟩
    obtain ⟨c, hc⟩ := target_eq_conflict_iff.mpr ⟨ds, hds⟩
    exact ⟨c, by rw [decided_of_outline ho, hc]; rfl⟩

/-! ### What the rest of the tree does not change -/

variable {source : String} {o : Outline} {d : Definition} {paths : List String}
  {others : List (String × Except String Outline)}

/-- The other files that are looked into are in other places, and their paths can be told in
identifiers. -/
theorem plain_of_looked (hplain : ∀ path ∈ paths, ¬[':', ':'] <:+: path.toList)
    (h : (Inquiry.forAll (outlineOther t) (paths.filter fun p => p != file)).reply =
      .answer others) : ∀ f ∈ others.filterMap outlined?, Plain f.path ∧ f.path ≠ file := by
  intro f hf
  obtain ⟨path, hpath, hreply⟩ := (Inquiry.mem_forAll h).mp (mem_filterMap_outlined?.mp hf)
  obtain ⟨rfl, houtline⟩ := outlineOther_spec hreply
  obtain ⟨hlisted, hne⟩ := List.mem_filter.mp hpath
  obtain ⟨source, -, ho⟩ := (houtline f.outline).mp rfl
  obtain ⟨l, hl, -⟩ := outlineOf_eq_ok_iff.mp ho
  exact ⟨⟨hplain f.path hlisted, Language.not_colon_of_ofPath? hl⟩, bne_iff_ne.mp hne⟩

theorem wellNamed_of_outlineOf (h : outlineOf file source = .ok o) : o.WellNamed := by
  obtain ⟨l, -, ho⟩ := outlineOf_eq_ok_iff.mp h
  exact Outline.wellNamed_of_ofText ho

/-- **What is found in its file is assembled**, whatever the other files are: neither are its
definitions in conflict when every function is taken once, nor are those that are taken. -/
theorem exists_assemble_of_locate (ho : outlineOf file source = .ok o)
    (hfound : o.locate name = .found d) (hfile : ¬[':', ':'] <:+: file.toList)
    (hothers : ∀ f ∈ others.filterMap outlined?, Plain f.path ∧ f.path ≠ file)
    (remarks : List String) :
    ∃ a, assemble ⟨file, o⟩ d remarks others = .ok a := by
  obtain ⟨l, hl, -⟩ := outlineOf_eq_ok_iff.mp ho
  have hplain : Plain file := ⟨hfile, Language.not_colon_of_ofPath? hl⟩
  have hmem : ∀ k ∈ locatedIn ⟨file, o⟩ others, k.id = Located.idOf file d.name →
      k.definition.signature = d.signature := by
    intro k hk hid
    obtain ⟨f, hf, hpath, hdefinition⟩ := mem_flatMap_located.mp hk
    rw [Located.id, hpath] at hid
    rcases List.mem_cons.mp hf with rfl | hf
    · obtain ⟨-, hname⟩ := Located.idOf_inj hplain hplain hid
      exact (wellNamed_of_outlineOf ho).signature_eq hfound hdefinition hname
    · obtain ⟨hplain', hne⟩ := hothers f hf
      obtain ⟨heq, -⟩ := Located.idOf_inj hplain' hplain hid
      exact absurd heq hne
  obtain ⟨known, ambiguous, hsurvey⟩ : ∃ known ambiguous,
      survey (Located.idOf file d.name) (locatedIn ⟨file, o⟩ others) = .ok (known, ambiguous) :=
    exists_survey fun k hk k' hk' hid hid' => (hmem k hk hid).trans (hmem k' hk' hid').symm
  obtain ⟨a, ha, -⟩ := exists_assemble_of_survey ⟨file, o⟩ d remarks hsurvey
  exact ⟨a, ha⟩

/-- The files of a tree are listed, or there are none and a remark. -/
theorem exists_listFiles (ht : t.Returns) (hlisted : t.ListsPlainly filter) :
    ∃ paths remarks, (listFiles t filter).reply = .answer (paths, remarks) ∧
      ∀ path ∈ paths, ¬[':', ':'] <:+: path.toList := by
  obtain ⟨e | paths, h⟩ := ht.list filter
  · exact ⟨_, _, Inquiry.reply_bind_eq_answer.mpr ⟨_, h, rfl⟩, fun _ hpath =>
      absurd hpath List.not_mem_nil⟩
  · exact ⟨paths, _, Inquiry.reply_bind_eq_answer.mpr ⟨_, h, rfl⟩, hlisted paths h⟩

/-- Each of the other files is looked into, and has an outline or a reason to be passed over. -/
theorem exists_outlineOther (ht : t.Returns) (path : String) :
    ∃ found, (outlineOther t path).reply = .answer found := by
  unfold outlineOther
  split
  · exact ⟨_, rfl⟩
  · obtain ⟨e | source, h⟩ := ht.read path
    · exact ⟨_, Inquiry.reply_bind_eq_answer.mpr ⟨_, h, rfl⟩⟩
    · exact ⟨_, Inquiry.reply_bind_eq_answer.mpr ⟨_, h, rfl⟩⟩

/-- **The rest of the tree decides nothing**: when everything that is asked comes back, the analysis
comes to what the file of the function decides. -/
theorem exists_analyze_eq_decided (ht : t.Returns)
    (hfile : ¬[':', ':'] <:+: (Path.normalize file).toList) (hlisted : t.ListsPlainly filter)
    (hread : (t.read (Path.normalize file)).reply = .answer found) :
    ∃ r, (analyze t filter file name).reply = .answer r ∧
      r.map (fun a => (a.targetId, a.target)) = decided (Path.normalize file) name found := by
  unfold analyze
  dsimp only
  split
  · next hlanguage => exact ⟨_, rfl, (if_pos hlanguage).symm⟩
  next hlanguage =>
  rw [Inquiry.reply_bind hread]
  rcases found with e | source
  · exact ⟨_, rfl, (if_neg hlanguage).symm⟩
  dsimp only
  rcases ho : outlineOf (Path.normalize file) source with e | o
  · refine ⟨_, rfl, ((if_neg hlanguage).trans ?_).symm⟩
    simp only [ho]
    rfl
  rw [decided_of_outline ho]
  dsimp only
  rcases htarget : target (Path.normalize file) name o with e | d
  · exact ⟨_, rfl, rfl⟩
  -- The other files come in only now, when the function is found.
  obtain ⟨paths, remarks, hlist, hplain⟩ := exists_listFiles ht hlisted
  obtain ⟨others, hlooked⟩ := Inquiry.exists_forAll
    fun path (_ : path ∈ paths.filter fun p => p != Path.normalize file) =>
      exists_outlineOther ht path
  obtain ⟨a, ha⟩ := exists_assemble_of_locate ho (target_eq_ok_iff.mp htarget) hfile
    (plain_of_looked hplain hlooked) remarks
  obtain ⟨_, _, -, -, heq⟩ := exists_of_assemble ha
  dsimp only
  rw [Inquiry.reply_bind hlist, Inquiry.reply_bind hlooked, ha]
  exact ⟨.ok a, rfl, by rw [heq]; rfl⟩

/-- **Only the target makes the structural stage fail.** In trees that give the same for the file of
the function the stage comes to the same failure, or to structures around the same function,
whatever the other files are. There is a conflict exactly if the name is ambiguous in the file;
where it is found there, every function is taken once and a graph is built. -/
theorem analyze_decided_by_target {t t' : SourceTree} {filter filter' : PathFilter}
    {file name : String} (ht : t.Returns) (ht' : t'.Returns)
    (hfile : ¬[':', ':'] <:+: (Path.normalize file).toList)
    (hlisted : t.ListsPlainly filter) (hlisted' : t'.ListsPlainly filter')
    (hread : (t.read (Path.normalize file)).reply = (t'.read (Path.normalize file)).reply) :
    ∃ r r', (analyze t filter file name).reply = .answer r ∧
      (analyze t' filter' file name).reply = .answer r' ∧
      r.map (fun a => (a.targetId, a.target)) = r'.map (fun a => (a.targetId, a.target)) ∧
      ((∃ c, r = .error (.graphConstruction c)) ↔
        ∃ o ds, t.HasOutline (Path.normalize file) o ∧ o.locate name = .ambiguous ds) ∧
      ∀ o d, t.HasOutline (Path.normalize file) o → o.locate name = .found d →
        ∃ a, r = .ok a ∧ a.target = d ∧ Nonempty (Assembly t filter file name a) := by
  obtain ⟨found, hfound⟩ := ht.read (Path.normalize file)
  obtain ⟨r, hr, hdecided⟩ : ∃ r, (analyze t filter file name).reply = .answer r ∧ _ :=
    exists_analyze_eq_decided ht hfile hlisted hfound
  obtain ⟨r', hr', hdecided'⟩ : ∃ r', (analyze t' filter' file name).reply = .answer r' ∧ _ :=
    exists_analyze_eq_decided ht' hfile hlisted' (hread.symm.trans hfound)
  refine ⟨r, r', hr, hr', hdecided.trans hdecided'.symm, ?_, ?_⟩
  · have herror : (∃ c, r = .error (.graphConstruction c)) ↔
        ∃ c, decided (Path.normalize file) name found = .error (.graphConstruction c) := by
      rw [← hdecided]
      rcases r with e | a <;> simp [Except.map]
    rw [herror, decided_eq_conflict_iff]
    constructor
    · rintro ⟨source, o, ds, rfl, ho, hds⟩
      exact ⟨o, ds, ⟨source, hfound, ho⟩, hds⟩
    · rintro ⟨o, ds, ⟨source, hsource, ho⟩, hds⟩
      exact ⟨source, o, ds, Reply.answer.inj (hfound.symm.trans hsource), ho, hds⟩
  · rintro o d ⟨source, hsource, ho⟩ hlocate
    obtain rfl := Reply.answer.inj (hfound.symm.trans hsource)
    rw [decided_of_outline ho, target_eq_ok_iff.mpr hlocate] at hdecided
    rcases r with e | a
    · cases hdecided
    · obtain ⟨-, htarget⟩ := Prod.mk.inj (Except.ok.inj hdecided)
      exact ⟨a, rfl, htarget, nonempty_assembly hr⟩

/-! ### Two trees with one target -/

/-- A file in which one function is defined once and another one in two ways. -/
def sampleTarget : String :=
  "package p\n\nfunc f() \x7b\x7d\n\nfunc g(x int) \x7b\x7d\n\nfunc g() \x7b\x7d\n"

/-- A directory in which the other files are no text, have a syntax error and define a function in
two ways. -/
def sampleDirectory : SourceTree :=
  .workingTree (Place.root (.directory [("r", .directory
    [("a.go", .file (some sampleTarget)), ("b.go", .file none), ("c.go", .file (some "func")),
      ("d.go", .file (some sampleTarget))])])) "/r"

/-- A revision of which only one file can be read, and the files cannot be listed. -/
def sampleRevision : SourceTree :=
  .revision (fun
    | .showFile _ path => if path = "a.go" then .answer (some sampleTarget) else .answer none
    | .listFiles _ => .failure (.invalidOutput "")
    | .ensureRepository => .answer ()
    | .resolve revision => .answer revision
    | .listCommits _ _ _ => .answer []
    | .diff _ _ _ => .answer "") "HEAD"

theorem returns_sampleRevision : sampleRevision.Returns :=
  SourceTree.returns_revision (fun call => by cases call <;> simp; split <;> simp) _

/-- What the two names mean in the file. -/
def sampleMeanings (o : Outline) : Option (String × Nat) :=
  match o.locate "f", o.locate "g" with
  | .found d, .ambiguous ds => some (d.name, ds.length)
  | _, _ => none

theorem meanings_sampleTarget :
    (outlineOf (Path.normalize "a.go") sampleTarget).toOption.bind sampleMeanings =
      some ("f", 2) := by
  decide +kernel

/-- One name is found in the file, and the other one is ambiguous. -/
theorem exists_outline_sampleTarget :
    ∃ o d ds, outlineOf (Path.normalize "a.go") sampleTarget = .ok o ∧
      o.locate "f" = .found d ∧ d.name = "f" ∧ o.locate "g" = .ambiguous ds := by
  have hmeanings := meanings_sampleTarget
  rcases ho : outlineOf (Path.normalize "a.go") sampleTarget with e | o <;> rw [ho] at hmeanings
  · cases hmeanings
  · change sampleMeanings o = some ("f", 2) at hmeanings
    unfold sampleMeanings at hmeanings
    split at hmeanings
    · next d ds hd hds =>
      exact ⟨o, d, ds, rfl, hd, congrArg Prod.fst (Option.some.inj hmeanings), hds⟩
    · cases hmeanings

/-- Neither of the trees keeps the function from being found, and both tell of the conflict. -/
theorem analyze_decided_by_target_sample :
    (∃ a a', (analyze sampleDirectory ⟨none, []⟩ "a.go" "f").reply = .answer (.ok a) ∧
      (analyze sampleRevision ⟨none, []⟩ "a.go" "f").reply = .answer (.ok a') ∧
      a.targetId = a'.targetId ∧ a.target = a'.target ∧ a.target.name = "f") ∧
    ∃ c, (analyze sampleDirectory ⟨none, []⟩ "a.go" "g").reply =
        .answer (.error (.graphConstruction c)) ∧
      (analyze sampleRevision ⟨none, []⟩ "a.go" "g").reply =
        .answer (.error (.graphConstruction c)) := by
  have hfile : ¬[':', ':'] <:+: (Path.normalize "a.go").toList := by decide +kernel
  have hlisted : sampleDirectory.ListsPlainly ⟨none, []⟩ := by
    have hreply : (sampleDirectory.sourceFiles ⟨none, []⟩).reply =
        .answer (.ok ["a.go", "b.go", "c.go", "d.go"]) := by decide +kernel
    intro paths h
    obtain rfl := Except.ok.inj (Reply.answer.inj (hreply.symm.trans h))
    decide +kernel
  have hlisted' : sampleRevision.ListsPlainly ⟨none, []⟩ := by
    intro paths h
    cases h
  have hread : (sampleDirectory.read (Path.normalize "a.go")).reply =
      .answer (.ok sampleTarget) := by decide +kernel
  have hread' : (sampleRevision.read (Path.normalize "a.go")).reply =
      .answer (.ok sampleTarget) := by decide +kernel
  obtain ⟨o, d, ds, ho, hd, hname, hds⟩ := exists_outline_sampleTarget
  have houtline : sampleDirectory.HasOutline (Path.normalize "a.go") o := ⟨sampleTarget, hread, ho⟩
  constructor
  · obtain ⟨r, r', hr, hr', hsame, -, hfound⟩ := analyze_decided_by_target
      (SourceTree.returns_workingTree _ _) returns_sampleRevision hfile hlisted hlisted'
      (hread.trans hread'.symm)
    obtain ⟨a, rfl, htarget, -⟩ := hfound o d houtline hd
    rcases r' with e | a'
    · cases hsame
    · obtain ⟨hid, heq⟩ := Prod.mk.inj (Except.ok.inj hsame)
      exact ⟨a, a', hr, hr', hid, heq, htarget ▸ hname⟩
  · obtain ⟨r, r', hr, hr', hsame, hconflict, -⟩ := analyze_decided_by_target
      (SourceTree.returns_workingTree _ _) returns_sampleRevision hfile hlisted hlisted'
      (hread.trans hread'.symm)
    obtain ⟨c, rfl⟩ := hconflict.mpr ⟨o, ds, houtline, hds⟩
    rcases r' with e | a'
    · obtain rfl := Except.error.inj hsame
      exact ⟨c, hr, hr'⟩
    · cases hsame

end Structure

end Dossier
