import Dossier.Structure.Names
import Mathlib.Data.List.Basic

/-!
# What the index of names finds

The index of names is four tables that are filled function by function. They hold nothing but what
the places of definition say (`Dossier.Structure.NameIndex.Indexes`), so a name that is looked up
means what a search through all places comes to: on each of four levels some of the functions are
candidates, and the first level with a single candidate decides
(`Dossier.Structure.NameIndex.resolve?_ofSites`).
-/

namespace Dossier

namespace Structure

/-! ### The first level with a single candidate -/

/-- Whether a function is the only one with a property. -/
def Only (p : String → Prop) (id : String) : Prop :=
  p id ∧ ∀ other, p other → other = id

/-- **The function that several levels of candidates pick**: the single candidate of the first
level that has a single one. -/
def Picks : List (String → Prop) → String → Prop
  | [], _ => False
  | p :: ps, id => Only p id ∨ ((¬∃ other, Only p other) ∧ Picks ps id)

/-- **The levels on which a name is looked up**, as properties of the file and the name of a
function: the same file and the whole name, the same file and the last segment, the whole name,
the last segment. -/
def levels (file callee : String) : List (String → String → Prop) :=
  [ fun f name => f = file ∧ name = callee,
    fun f name => f = file ∧ QualifiedName.last name = QualifiedName.last callee,
    fun _ name => name = callee,
    fun _ name => QualifiedName.last name = QualifiedName.last callee ]

/-- A level is searched for its only candidate, and if there is none, the others are. -/
theorem orElse_eq_some_iff {p : String → Prop} {ps : List (String → Prop)}
    {found rest : Option String} (hfound : ∀ id, found = some id ↔ Only p id)
    (hrest : ∀ id, rest = some id ↔ Picks ps id) (id : String) :
    (found <|> rest) = some id ↔ Picks (p :: ps) id := by
  rcases found with _ | first
  · have hnone : ¬∃ other, Only p other := by
      rintro ⟨other, h⟩
      cases (hfound other).mpr h
    refine (hrest id).trans ⟨fun h => Or.inr ⟨hnone, h⟩, ?_⟩
    rintro (h | ⟨-, h⟩)
    · exact absurd ⟨id, h⟩ hnone
    · exact h
  · have hfirst : Only p first := (hfound first).mp rfl
    refine (hfound id).trans ⟨Or.inl, ?_⟩
    rintro (h | ⟨hnone, -⟩)
    · exact h
    · exact absurd ⟨first, hfirst⟩ hnone

/-- On the last level nothing but its only candidate is found. -/
theorem picks_last {p : String → Prop} {id : String} : Picks [p] id ↔ Only p id := by
  simp [Picks]

theorem only?_eq_some_iff {ids : List String} (h : ids.Nodup) (id : String) :
    only? ids = some id ↔ Only (· ∈ ids) id := by
  rcases ids with _ | ⟨first, _ | ⟨second, rest⟩⟩
  · exact ⟨nofun, fun h => absurd h.1 List.not_mem_nil⟩
  · simp [only?, Only, eq_comm]
  · refine ⟨nofun, fun hid => ?_⟩
    have hfirst := hid.2 first (by simp)
    have hsecond := hid.2 second (by simp)
    rw [hfirst, hsecond] at h
    simp at h

/-- A list that repeats a single identifier ends in it. -/
theorem getLast?_eq_some_iff_only {ids : List String}
    (h : ∀ first ∈ ids, ∀ second ∈ ids, first = second) (id : String) :
    ids.getLast? = some id ↔ Only (· ∈ ids) id := by
  constructor
  · intro hlast
    have hmem := List.mem_of_getLast? hlast
    exact ⟨hmem, fun other hother => h other hother id hmem⟩
  · rintro ⟨hmem, -⟩
    obtain ⟨last, hlast⟩ : ∃ last, ids.getLast? = some last :=
      Option.isSome_iff_exists.mp (List.getLast?_isSome.mpr (List.ne_nil_of_mem hmem))
    rw [hlast, h last (List.mem_of_getLast? hlast) id hmem]

/-! ### What the tables hold -/

/-- An entry is added to the values of its key and to no others. -/
theorem getD_lookup_enterMore {κ ν : Type} [BEq κ] [LawfulBEq κ] [DecidableEq κ] (key other : κ)
    (value : ν) (table : List (κ × List ν)) :
    ((enterMore key value table).lookup other).getD [] =
      (table.lookup other).getD [] ++ if key = other then [value] else [] := by
  rw [enterMore, List.lookup_cons]
  by_cases h : key = other
  · subst h
    simp
  · have hne : (other == key) = false := beq_false_of_ne (Ne.symm h)
    simp [hne, h]

/-- The identifiers of the functions with a property, in the order of their places. -/
def idsOf (p : String → String → Bool) (sites : List DefinitionSite) : List String :=
  (sites.filter fun s => p s.file s.qualified).map DefinitionSite.id

/-- **Whether a function with a property is defined** at some place. -/
def DefinedAt (sites : List DefinitionSite) (p : String → String → Prop) (id : String) : Prop :=
  ∃ s ∈ sites, p s.file s.qualified ∧ s.id = id

variable {sites : List DefinitionSite}

theorem idsOf_concat (p : String → String → Bool) (s : DefinitionSite) :
    idsOf p (sites ++ [s]) = idsOf p sites ++ if p s.file s.qualified then [s.id] else [] := by
  rw [idsOf, List.filter_append, List.map_append, ← idsOf]
  by_cases h : p s.file s.qualified <;> simp [h]

theorem mem_idsOf {p : String → String → Bool} {id : String} :
    id ∈ idsOf p sites ↔ DefinedAt sites (fun f name => p f name) id := by
  simp [idsOf, DefinedAt, and_assoc]

/-- **The only one of the functions with a property.** -/
theorem only?_idsOf (h : (sites.map DefinitionSite.id).Nodup) (p : String → String → Bool)
    (id : String) :
    only? (idsOf p sites) = some id ↔ Only (DefinedAt sites fun f name => p f name) id := by
  have hnodup : (idsOf p sites).Nodup := (List.filter_sublist.map DefinitionSite.id).nodup h
  simp only [only?_eq_some_iff hnodup, Only, mem_idsOf]

namespace NameIndex

/-- **Whether an index holds what is defined at some places**: all tables have the identifiers in
the order of the places; only in the table of whole names in files does the last one hide the
others. -/
structure Indexes (index : NameIndex) (sites : List DefinitionSite) : Prop where
  inFile : ∀ file name, index.inFile.lookup (file, name) =
    (idsOf (fun f n => f = file ∧ n = name) sites).getLast?
  inFileBySegment : ∀ file segment, (index.inFileBySegment.lookup (file, segment)).getD [] =
    idsOf (fun f n => f = file ∧ QualifiedName.last n = segment) sites
  anywhere : ∀ name, (index.anywhere.lookup name).getD [] = idsOf (fun _ n => n = name) sites
  anywhereBySegment : ∀ segment, (index.anywhereBySegment.lookup segment).getD [] =
    idsOf (fun _ n => QualifiedName.last n = segment) sites

theorem indexes_empty : empty.Indexes [] where
  inFile _ _ := rfl
  inFileBySegment _ _ := rfl
  anywhere _ := rfl
  anywhereBySegment _ := rfl

/-- **What one more function does to an index.** -/
theorem Indexes.add {index : NameIndex} (h : index.Indexes sites) (s : DefinitionSite) :
    (index.add s).Indexes (sites ++ [s]) where
  inFile file name := by
    rw [idsOf_concat, NameIndex.add, List.lookup_cons, h.inFile]
    by_cases heq : s.file = file ∧ s.qualified = name
    · obtain ⟨rfl, rfl⟩ := heq
      simp
    · have hne : ((file, name) == (s.file, s.qualified)) = false :=
        beq_false_of_ne fun hpair => heq ⟨(Prod.mk.inj hpair).1.symm, (Prod.mk.inj hpair).2.symm⟩
      simp [hne, heq]
  inFileBySegment file segment := by
    rw [idsOf_concat, NameIndex.add, getD_lookup_enterMore, h.inFileBySegment]
    simp
  anywhere name := by
    rw [idsOf_concat, NameIndex.add, getD_lookup_enterMore, h.anywhere]
    simp
  anywhereBySegment segment := by
    rw [idsOf_concat, NameIndex.add, getD_lookup_enterMore, h.anywhereBySegment]
    simp

/-- **The index of some places holds what is defined there.** -/
theorem indexes_ofSites (sites : List DefinitionSite) : (ofSites sites).Indexes sites := by
  have hall : ∀ (more : List DefinitionSite) {index : NameIndex} {sites : List DefinitionSite},
      index.Indexes sites → (more.foldl NameIndex.add index).Indexes (sites ++ more) := by
    intro more
    induction more with
    | nil =>
      intro index sites h
      rwa [List.append_nil]
    | cons s more ih =>
      intro index sites h
      rw [List.append_cons]
      exact ih (h.add s)
  exact hall sites indexes_empty

theorem bind_only? (found : Option (List String)) : found.bind only? = only? (found.getD []) := by
  cases found <;> rfl

/-- **A name that is looked up in the index means what a search through all places comes to**, when
the places are of different functions and a function is identified by its file and its name. -/
theorem resolve?_ofSites (hid : (sites.map DefinitionSite.id).Nodup)
    (hname : ∀ s ∈ sites, ∀ s' ∈ sites,
      s.file = s'.file → s.qualified = s'.qualified → s.id = s'.id)
    (file callee id : String) :
    (ofSites sites).resolve? file callee = some id ↔
      Picks ((levels file callee).map (DefinedAt sites)) id := by
  have h := indexes_ofSites sites
  rw [resolve?, bind_only?, bind_only?, bind_only?, h.inFile, h.inFileBySegment, h.anywhere,
    h.anywhereBySegment]
  -- A whole name is found in one file at most, so that the last place is the only one.
  have hfirst : ∀ id, (idsOf (fun f n => f = file ∧ n = callee) sites).getLast? = some id ↔
      Only (DefinedAt sites fun f n => f = file ∧ n = callee) id := by
    intro id
    rw [getLast?_eq_some_iff_only]
    · simp [Only, mem_idsOf]
    · intro first hfirst second hsecond
      obtain ⟨s, hs, hp, rfl⟩ := mem_idsOf.mp hfirst
      obtain ⟨s', hs', hp', rfl⟩ := mem_idsOf.mp hsecond
      simp only [decide_eq_true_eq] at hp hp'
      exact hname s hs s' hs' (hp.1.trans hp'.1.symm) (hp.2.trans hp'.2.symm)
  refine orElse_eq_some_iff hfirst (orElse_eq_some_iff ?_ (orElse_eq_some_iff ?_ ?_)) id
  · simpa using only?_idsOf hid fun f n =>
      f = file ∧ QualifiedName.last n = QualifiedName.last callee
  · simpa using only?_idsOf hid fun _ n => n = callee
  · intro id
    refine Iff.trans ?_ picks_last.symm
    simpa using only?_idsOf hid (fun _ n => QualifiedName.last n = QualifiedName.last callee) id

end NameIndex

end Structure

end Dossier
