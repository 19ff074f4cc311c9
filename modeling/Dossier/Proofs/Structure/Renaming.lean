import Dossier.Proofs.CallGraph.Reach
import Dossier.Proofs.Structure.Resolution
import Mathlib.Logic.Equiv.Basic

/-!
# Files under other paths

What the functions of a file are called depends on its path, and nothing else does. When two paths
are exchanged, the identifiers of the functions in the files are exchanged with them
(`Dossier.Structure.Located.exchange`), and names mean the same functions as before
(`Dossier.Structure.means_exchange`).

It is different when a file is there twice, under two paths. What is called from one of the copies
means the same as without the other one (`Dossier.Structure.means_cons_copy`), but nothing that is
called from elsewhere means a function of either any more (`Dossier.Structure.not_means_copy`):
names that are looked up in the whole repository have two candidates then.
-/

namespace Dossier

/-- The nodes of a graph are the functions that the files define. -/
theorem CallGraph.Resolves.mem_nodes_iff {g : CallGraph} {files : List Structure.OutlinedFile}
    (h : g.Resolves files) {id : String} :
    id ∈ g.nodes ↔ Structure.Defines files (fun _ _ => True) id := by
  simpa only [Structure.Defines, true_and, eq_comm] using h.nodes id

namespace Structure

/-! ### The same files in another order -/

section Congr

variable {files files' : List OutlinedFile} {file callee id : String}

theorem defines_congr (h : ∀ f, f ∈ files ↔ f ∈ files') (p : String → String → Prop) :
    Defines files p id ↔ Defines files' p id := by
  simp only [Defines, h]

theorem means_congr (h : ∀ f, f ∈ files ↔ f ∈ files') :
    Means files file callee id ↔ Means files' file callee id := by
  have hsame : Defines files = Defines files' :=
    funext fun p => funext fun id => propext (defines_congr h p)
  rw [Means, hsame, Means]

/-- The graph of the calls in some files does not depend on the order of the files. -/
theorem resolves_congr {g : CallGraph} (h : ∀ f, f ∈ files ↔ f ∈ files') (hg : g.Resolves files) :
    g.Resolves files' where
  nodes id := by simpa only [h] using hg.nodes id
  edges e := by simpa only [h, means_congr h] using hg.edges e

end Congr

/-! ### Identifiers of the functions of a file -/

namespace Located

/-- The name of the function of a file that an identifier is for. -/
def nameIn? (file id : String) : Option String :=
  (Text.dropPrefix? (file ++ "::").toList id.toList).map String.ofList

variable {file id name a b : String}

theorem nameIn?_eq_some_iff : nameIn? file id = some name ↔ id = idOf file name := by
  have hid : id = idOf file name ↔ id.toList = (file ++ "::").toList ++ name.toList := by
    rw [← String.toList_append, String.toList_inj, idOf]
  rw [nameIn?, Option.map_eq_some_iff, hid]
  constructor
  · rintro ⟨rest, hrest, rfl⟩
    rw [String.toList_ofList]
    exact Text.eq_append_of_dropPrefix? hrest
  · intro heq
    exact ⟨name.toList, by rw [heq, Text.dropPrefix?_append], String.ofList_toList⟩

/-- An identifier of another file is for no function of this one. -/
theorem nameIn?_idOf_of_ne (ha : Plain a) (hfile : Plain file) (hne : a ≠ file) :
    nameIn? file (idOf a name) = none := by
  refine Option.eq_none_iff_forall_ne_some.mpr fun other hother => hne ?_
  exact (idOf_inj ha hfile (nameIn?_eq_some_iff.mp hother)).1

/-- **The identifier of a function when two paths are exchanged.** -/
def exchange (a b id : String) : String :=
  match nameIn? a id with
  | some name => idOf b name
  | none =>
    match nameIn? b id with
    | some name => idOf a name
    | none => id

theorem exchange_of_none (ha : nameIn? a id = none) (hb : nameIn? b id = none) :
    exchange a b id = id := by
  simp only [exchange, ha, hb]

theorem exchange_left (a b name : String) : exchange a b (idOf a name) = idOf b name := by
  simp only [exchange, nameIn?_eq_some_iff.mpr rfl]

theorem exchange_right (ha : Plain a) (hb : Plain b) (name : String) :
    exchange a b (idOf b name) = idOf a name := by
  by_cases hab : b = a
  · rw [hab, exchange_left]
  · simp only [exchange, nameIn?_idOf_of_ne hb ha hab, nameIn?_eq_some_iff.mpr rfl]

theorem exchange_idOf (ha : Plain a) (hb : Plain b) (hfile : Plain file) (name : String) :
    exchange a b (idOf file name) = idOf (Equiv.swap a b file) name := by
  by_cases hfa : file = a
  · rw [hfa, exchange_left, Equiv.swap_apply_left]
  by_cases hfb : file = b
  · rw [hfb, exchange_right ha hb, Equiv.swap_apply_right]
  · rw [exchange_of_none (nameIn?_idOf_of_ne hfile ha hfa) (nameIn?_idOf_of_ne hfile hb hfb),
      Equiv.swap_apply_of_ne_of_ne hfa hfb]

/-- What is exchanged twice is as before. -/
theorem exchange_involutive (ha : Plain a) (hb : Plain b) : (exchange a b).Involutive := by
  intro id
  rcases hida : nameIn? a id with _ | name
  · rcases hidb : nameIn? b id with _ | name
    · rw [exchange_of_none hida hidb, exchange_of_none hida hidb]
    · rw [nameIn?_eq_some_iff.mp hidb, exchange_right ha hb, exchange_left]
  · rw [nameIn?_eq_some_iff.mp hida, exchange_left, exchange_right ha hb]

end Located

/-! ### Two paths exchanged -/

/-- The file under the other path when two paths are exchanged. -/
def OutlinedFile.exchange (a b : String) (f : OutlinedFile) : OutlinedFile :=
  ⟨Equiv.swap a b f.path, f.outline⟩

variable {files : List OutlinedFile} {a b file callee id : String}

theorem defines_exchange (ha : Plain a) (hb : Plain b) (hplain : ∀ f ∈ files, Plain f.path)
    (p : String → String → Prop) :
    Defines (files.map (.exchange a b)) p id ↔
      Defines files (fun f name => p (Equiv.swap a b f) name) (Located.exchange a b id) := by
  have hid : ∀ f ∈ files, ∀ name, Located.idOf (Equiv.swap a b f.path) name = id ↔
      Located.idOf f.path name = Located.exchange a b id := by
    intro f hf name
    rw [← Located.exchange_idOf ha hb (hplain f hf)]
    constructor
    · rintro rfl
      exact (Located.exchange_involutive ha hb _).symm
    · intro heq
      rw [heq, Located.exchange_involutive ha hb]
  constructor
  · rintro ⟨_, hmem, d, hd, hp, heq⟩
    obtain ⟨f, hf, rfl⟩ := List.mem_map.mp hmem
    exact ⟨f, hf, d, hd, hp, (hid f hf d.name).mp heq⟩
  · rintro ⟨f, hf, d, hd, hp, heq⟩
    exact ⟨_, List.mem_map_of_mem hf, d, hd, hp, (hid f hf d.name).mpr heq⟩

theorem only_comp {ρ : String → String} (hρ : ρ.Involutive) {p : String → Prop} :
    Only (fun id => p (ρ id)) id ↔ Only p (ρ id) := by
  refine and_congr_right fun _ => ⟨fun h other hother => ?_, fun h other hother => ?_⟩
  · rw [← h (ρ other) (show p (ρ (ρ other)) by rwa [hρ]), hρ]
  · exact hρ.injective (h (ρ other) hother)

/-- What is picked under other names is what is picked. -/
theorem picks_comp {ρ : String → String} (hρ : ρ.Involutive) (ps : List (String → Prop)) :
    Picks (ps.map fun p id => p (ρ id)) id ↔ Picks ps (ρ id) := by
  induction ps with
  | nil => rfl
  | cons p ps ih =>
    have hnone : (∃ other, Only (fun id => p (ρ id)) other) ↔ ∃ other, Only p other := by
      simp only [only_comp hρ]
      exact hρ.surjective.exists.symm
    rw [List.map_cons, Picks, Picks, only_comp hρ, hnone, ih]

/-- **Names mean the same when two paths are exchanged.** -/
theorem means_exchange (ha : Plain a) (hb : Plain b) (hplain : ∀ f ∈ files, Plain f.path) :
    Means (files.map (.exchange a b)) (Equiv.swap a b file) callee id ↔
      Means files file callee (Located.exchange a b id) := by
  rw [Means, Means, ← picks_comp (Located.exchange_involutive ha hb)]
  refine iff_of_eq (congrArg (Picks · id) ?_)
  have hdefines : ∀ p : String → String → Prop, Defines (files.map (.exchange a b)) p =
      fun id => Defines files (fun f name => p (Equiv.swap a b f) name)
        (Located.exchange a b id) :=
    fun p => funext fun id => propext (defines_exchange ha hb hplain p)
  simp only [levels, List.map_cons, List.map_nil, hdefines, EmbeddingLike.apply_eq_iff_eq]

/-- **The graph when two paths are exchanged** is the graph as before, under other names. -/
theorem renames_of_resolves {g g' : CallGraph} (ha : Plain a) (hb : Plain b)
    (hplain : ∀ f ∈ files, Plain f.path) (hg : g.Resolves files)
    (hg' : g'.Resolves (files.map (.exchange a b))) :
    CallGraph.Renames (Located.exchange a b) g g' where
  exchanges := Located.exchange_involutive ha hb
  nodes id := by
    rw [hg.mem_nodes_iff, hg'.mem_nodes_iff, defines_exchange ha hb hplain]
  edges id other := by
    rw [hg.edges, hg'.edges]
    have hid : ∀ f ∈ files, ∀ name, id = Located.idOf (Equiv.swap a b f.path) name ↔
        Located.exchange a b id = Located.idOf f.path name := by
      intro f hf name
      rw [← Located.exchange_idOf ha hb (hplain f hf),
        (Located.exchange_involutive ha hb).eq_iff]
    constructor
    · rintro ⟨_, hmem, c, hc, hcaller, hmeans⟩
      obtain ⟨f, hf, rfl⟩ := List.mem_map.mp hmem
      exact ⟨f, hf, c, hc, (hid f hf c.caller).mp hcaller, (means_exchange ha hb hplain).mp hmeans⟩
    · rintro ⟨f, hf, c, hc, hcaller, hmeans⟩
      exact ⟨_, List.mem_map_of_mem hf, c, hc, (hid f hf c.caller).mpr hcaller,
        (means_exchange ha hb hplain).mpr hmeans⟩

/-! ### A file that is there twice -/

/-- A level decides alone unless nothing is picked on it. -/
theorem picks_cons_congr {p q : String → Prop} {ps qs : List (String → Prop)}
    (hfirst : ∀ other, Only p other ↔ Only q other)
    (hrest : (¬∃ other, Only p other) → (Picks ps id ↔ Picks qs id)) :
    Picks (p :: ps) id ↔ Picks (q :: qs) id := by
  have hnone : (∃ other, Only p other) ↔ ∃ other, Only q other := exists_congr hfirst
  rw [Picks, Picks, hfirst, ← hnone]
  exact or_congr_right (and_congr_right hrest)

theorem exists_only_of_picks {ps : List (String → Prop)} (h : Picks ps id) :
    ∃ p ∈ ps, Only p id := by
  induction ps with
  | nil => exact h.elim
  | cons p ps ih =>
    rcases h with hfirst | ⟨-, hrest⟩
    · exact ⟨p, List.mem_cons_self, hfirst⟩
    · obtain ⟨q, hq, honly⟩ := ih hrest
      exact ⟨q, List.mem_cons_of_mem p hq, honly⟩

section Copy

variable {o : Outline} {name : String} {p : String → String → Prop}

theorem defines_cons {f : OutlinedFile} :
    Defines (f :: files) p id ↔
      (∃ d ∈ f.outline.definitions, p f.path d.name ∧ Located.idOf f.path d.name = id) ∨
        Defines files p id := by
  simp only [Defines, List.mem_cons, or_and_right, exists_or, exists_eq_left]

/-- A copy in which nothing has a property makes no difference to what has it. -/
theorem only_cons_of_forall_not (h : ∀ d ∈ o.definitions, ¬p a d.name) :
    Only (Defines (⟨a, o⟩ :: files) p) id ↔ Only (Defines files p) id := by
  have hsame : Defines (⟨a, o⟩ :: files) p = Defines files p := by
    refine funext fun id => propext (defines_cons.trans (or_iff_right ?_))
    rintro ⟨d, hd, hp, -⟩
    exact h d hd hp
  rw [hsame]

variable (hparsed : Parsed (⟨a, o⟩ :: files)) (hcopy : ⟨b, o⟩ ∈ files)
include hparsed hcopy

theorem ne_of_copy : a ≠ b := by
  rintro rfl
  exact (List.nodup_cons.mp hparsed.distinct).1 (List.mem_map_of_mem hcopy)

/-- What is the only one with a property is none of two copies. -/
theorem not_only_of_copy {d : Definition} (hd : d ∈ o.definitions) (hpa : p a d.name)
    (hpb : p b d.name) : ¬Only (Defines (⟨a, o⟩ :: files) p) id := by
  rintro ⟨-, hunique⟩
  have hfirst := hunique (Located.idOf a d.name) ⟨⟨a, o⟩, List.mem_cons_self, d, hd, hpa, rfl⟩
  have hsecond := hunique (Located.idOf b d.name)
    ⟨⟨b, o⟩, List.mem_cons_of_mem _ hcopy, d, hd, hpb, rfl⟩
  exact ne_of_copy hparsed hcopy (Located.idOf_inj (hparsed.plain List.mem_cons_self)
    (hparsed.plain (List.mem_cons_of_mem _ hcopy)) (hfirst.trans hsecond.symm)).1

/-- Where a copy makes a difference to what is found in the whole repository, the file itself has
something that is found in it alone, or it has several things of this kind. -/
theorem only_cons_of_not_only {q : String → Prop}
    (h : ¬∃ other, Only (Defines files fun f name => f = b ∧ q name) other) :
    Only (Defines (⟨a, o⟩ :: files) fun _ name => q name) id ↔
      Only (Defines files fun _ name => q name) id := by
  by_cases hsome : ∃ d ∈ o.definitions, q d.name
  swap
  · exact only_cons_of_forall_not fun d hd hq => hsome ⟨d, hd, hq⟩
  obtain ⟨d, hd, hq⟩ := hsome
  refine iff_of_false (not_only_of_copy hparsed hcopy hd hq hq) ?_
  rintro ⟨-, hunique⟩
  -- The only one in the repository would be the only one in the file.
  refine h ⟨id, ⟨⟨b, o⟩, hcopy, d, hd, ⟨rfl, hq⟩, hunique _ ⟨⟨b, o⟩, hcopy, d, hd, hq, rfl⟩⟩, ?_⟩
  rintro other ⟨f, hf, x, hx, ⟨-, hqx⟩, heq⟩
  exact hunique other ⟨f, hf, x, hx, hqx, heq⟩

/-- **What is called from a file means the same** when there is a copy of the file. -/
theorem means_cons_copy :
    Means (⟨a, o⟩ :: files) b callee id ↔ Means files b callee id := by
  have hne : a ≠ b := ne_of_copy hparsed hcopy
  have hown : ∀ {q : String → Prop} other,
      Only (Defines (⟨a, o⟩ :: files) fun f name => f = b ∧ q name) other ↔
        Only (Defines files fun f name => f = b ∧ q name) other :=
    fun other => only_cons_of_forall_not fun d _ h => hne h.1
  refine picks_cons_congr hown fun hname => picks_cons_congr hown fun hsegment => ?_
  simp only [hown] at hname hsegment
  refine picks_cons_congr (fun _ => only_cons_of_not_only hparsed hcopy hname) fun _ => ?_
  exact picks_last.trans ((only_cons_of_not_only hparsed hcopy hsegment).trans picks_last.symm)

/-- **What is called from elsewhere means no function of a file** that there is a copy of. -/
theorem not_means_copy (hfile : file ≠ b) :
    ¬Means (⟨a, o⟩ :: files) file callee (Located.idOf b name) := by
  intro h
  obtain ⟨_, hmem, honly⟩ := exists_only_of_picks h
  obtain ⟨level, hlevel, rfl⟩ := List.mem_map.mp hmem
  obtain ⟨f, hf, d, hd, hp, heq⟩ := honly.1
  have hplain := hparsed.plain (List.mem_cons_of_mem _ hcopy)
  obtain ⟨hpath, -⟩ := Located.idOf_inj (hparsed.plain hf) hplain heq
  obtain rfl : f = ⟨b, o⟩ :=
    List.inj_on_of_nodup_map hparsed.distinct hf (List.mem_cons_of_mem _ hcopy) hpath
  simp only [levels, List.mem_cons, List.not_mem_nil, or_false] at hlevel
  rcases hlevel with rfl | rfl | rfl | rfl
  · exact hfile hp.1.symm
  · exact hfile hp.1.symm
  · exact not_only_of_copy hparsed hcopy hd hp hp honly
  · exact not_only_of_copy hparsed hcopy hd hp hp honly

end Copy

end Structure

end Dossier
