import Dossier.Glob.Filter
import Dossier.Proofs.Files.Names
import Dossier.Proofs.Glob.Match
import Dossier.Proofs.Source.Path
import Mathlib.Data.List.Forall2

/-!
# What filters let through

A filter is made of the patterns that are listed (`Dossier.PathFilter.MadeOf`), and what it lets
through can be told from them. Where none is listed that shuts out, six patterns of one form stand
for them: two stars, the name of a directory and two stars, with slashes in between. Such a pattern
is read character by character, and it matches the paths on which the name is followed by another
one (`Dossier.Glob.Pattern.matches_below_iff`). Patterns match bytes and names are characters, but
the byte of a slash belongs to no other character.

So the standard filter shuts out what is below directories of six names
(`Dossier.PathFilter.accepts_standard_eq_false_iff`), and as the listings of source files pass over
all of these, it does nothing there (`Dossier.Listing.ofPaths_standard`).
-/

namespace Dossier

open Glob (Pattern)

namespace PathFilter

/-! ### Filters of patterns -/

variable {texts required excluded : List String} {patterns : List Pattern} {f g : PathFilter}

/-- Whether patterns are what is read from texts, one by one. -/
def ReadFrom (texts : List String) (patterns : List Pattern) : Prop :=
  List.Forall₂ (fun text p => Pattern.parse? text = some p) texts patterns

/-- **Whether a filter is made of patterns**, of all that are listed and of no others. -/
structure MadeOf (required excluded : List String) (f : PathFilter) : Prop where
  requires : ReadFrom required (f.required.getD [])
  /-- Where no pattern is listed, none has to be matched. -/
  open_iff : f.required = none ↔ required = []
  excludes : ReadFrom excluded f.excluded

theorem mapM_parse?_eq_some_iff :
    texts.mapM Pattern.parse? = some patterns ↔ ReadFrom texts patterns := by
  induction texts generalizing patterns with
  | nil => simp [ReadFrom, eq_comm]
  | cons text texts ih =>
    rw [List.mapM_cons, ReadFrom, List.forall₂_cons_left_iff]
    simp only [Option.bind_eq_bind, Option.bind_eq_some_iff, Option.pure_def, Option.some_inj, ih]
    constructor
    · rintro ⟨p, hp, ps, hps, rfl⟩
      exact ⟨p, ps, hp, hps, rfl⟩
    · rintro ⟨p, ps, hp, hps, rfl⟩
      exact ⟨p, hp, ps, hps, rfl⟩

theorem ReadFrom.unique {others : List Pattern} (h : ReadFrom texts patterns)
    (h' : ReadFrom texts others) : patterns = others :=
  Option.some_inj.mp
    ((mapM_parse?_eq_some_iff.mpr h).symm.trans (mapM_parse?_eq_some_iff.mpr h'))

theorem ReadFrom.isSome_parse? (h : ReadFrom texts patterns) {text : String}
    (htext : text ∈ texts) :
    (Pattern.parse? text).isSome = true := by
  induction h with
  | nil => cases htext
  | cons hp _ ih =>
    rcases List.mem_cons.mp htext with rfl | htext
    · rw [hp, Option.isSome_some]
    · exact ih htext

theorem exists_readFrom (h : ∀ text ∈ texts, (Pattern.parse? text).isSome = true) :
    ∃ patterns, ReadFrom texts patterns := by
  induction texts with
  | nil => exact ⟨[], .nil⟩
  | cons text texts ih =>
    obtain ⟨htext, htexts⟩ := List.forall_mem_cons.mp h
    obtain ⟨p, hp⟩ := Option.isSome_iff_exists.mp htext
    obtain ⟨ps, hps⟩ := ih htexts
    exact ⟨p :: ps, .cons hp hps⟩

/-- **The filter of patterns is made of them.** -/
theorem ofPatterns?_eq_some_iff :
    ofPatterns? required excluded = some f ↔ MadeOf required (exclusions excluded) f := by
  rw [ofPatterns?]
  simp only [Option.bind_eq_bind, Option.bind_eq_some_iff, Option.pure_def, Option.some_inj,
    mapM_parse?_eq_some_iff]
  constructor
  · rintro ⟨ps, hps, es, hes, rfl⟩
    rcases hps with _ | ⟨hp, hps⟩
    · exact ⟨.nil, by simp, hes⟩
    · exact ⟨.cons hp hps, by simp, hes⟩
  · rintro ⟨hrequired, hopen, hexcluded⟩
    refine ⟨_, hrequired, _, hexcluded, ?_⟩
    rcases f with ⟨_ | ps, es⟩
    · rfl
    · have hne : ps ≠ [] := by
        rintro rfl
        exact Option.some_ne_none _ (hopen.mpr (List.forall₂_nil_right_iff.mp hrequired))
      simp [hne]

/-- There is one filter that is made of some patterns. -/
theorem MadeOf.unique (hf : MadeOf required excluded f) (hg : MadeOf required excluded g) :
    f = g := by
  have hrequired := hf.requires.unique hg.requires
  have hexcluded := hf.excludes.unique hg.excludes
  have hopen := hf.open_iff.trans hg.open_iff.symm
  rcases f with ⟨_ | ps, es⟩ <;> rcases g with ⟨_ | qs, es'⟩ <;> simp_all

/-- Whether a pattern that is listed matches a path. -/
def Lists (texts : List String) (path : String) : Prop :=
  ∃ text ∈ texts, ∃ p, Pattern.parse? text = some p ∧ p.matches (Path.toSlashes path) = true

theorem matchesAny_iff (h : ReadFrom texts patterns) (path : String) :
    matchesAny patterns (Path.toSlashes path) = true ↔ Lists texts path := by
  rw [matchesAny, Lists]
  induction h with
  | nil => simp
  | cons hp _ ih => simp_all

/-- **What a filter lets through** can be told from the patterns that are listed. -/
theorem MadeOf.accepts_iff (h : MadeOf required excluded f) (path : String) :
    f.accepts path = true ↔ ¬Lists excluded path ∧ (required = [] ∨ Lists required path) := by
  rw [accepts, ← matchesAny_iff h.excludes, ← matchesAny_iff h.requires, ← h.open_iff]
  rcases f with ⟨_ | ps, es⟩ <;> simp

/-- Which patterns shut out. -/
theorem exclusions_eq (texts : List String) : exclusions texts =
    if texts = [] then
      ["**/node_modules/**", "**/target/**", "**/vendor/**", "**/dist/**", "**/build/**",
        "**/.git/**"]
    else texts := by
  cases texts <;> rfl

end PathFilter

namespace Glob

variable {c : Char} {cs : List Char}

/-! ### Everything below directories of a name -/

/-- Whether a character stands for itself in a pattern. -/
def IsLiteral (c : Char) : Prop :=
  c ∉ ['?', '*', '[', '\x7b', '\x7d', ',', '\\']

theorem Reading.plain_of_isLiteral (h : IsLiteral c) (r : Reading) :
    r.plain c = some (r.push (.literal c)) := by
  simp only [IsLiteral, List.mem_cons, List.not_mem_nil, or_false, not_or] at h
  obtain ⟨hmark, hstar, hbracket, hopen, hclose, hcomma, hescape⟩ := h
  simp only [Reading.plain, beq_iff_eq, hmark, hstar, hbracket, hopen, hclose, hcomma, hescape,
    if_false]

/-- Characters that stand for themselves are read one by one, up to a slash. -/
theorem read_literals (h : ∀ c ∈ cs, IsLiteral c) {complete : List (List Token)}
    {current : List Token} {outer : List Frame} {previous : Option Char} (rest : List Char) :
    Reading.read ⟨.plain, ⟨complete, current⟩, outer, previous⟩ (cs ++ '/' :: rest) =
      Reading.read
        ⟨.plain, ⟨complete, .literal '/' :: ((cs.map .literal).reverse ++ current)⟩, outer,
          some '/'⟩
        rest := by
  induction cs generalizing current previous with
  | nil =>
    have hslash : IsLiteral '/' := by
      unfold IsLiteral
      decide
    rw [List.nil_append, Reading.read, Reading.next, Reading.plain_of_isLiteral hslash]
    rfl
  | cons c cs ih =>
    obtain ⟨hc, hcs⟩ := List.forall_mem_cons.mp h
    rw [List.cons_append, Reading.read, Reading.next, Reading.plain_of_isLiteral hc]
    dsimp only [Reading.push]
    rw [ih hcs, List.map_cons, List.reverse_cons, List.append_assoc]
    rfl

/-- **The pattern of everything below directories of a name.** -/
def Pattern.below (name : String) : Pattern :=
  .leadingDirectories :: (name.toList.map .literal ++ [.trailingDirectories])

theorem Pattern.parse?_below {name : String} (h : ∀ c ∈ name.toList, IsLiteral c) :
    Pattern.parse? ("**/" ++ name ++ "/**") = some (below name) := by
  have hchars : ("**/" ++ name ++ "/**").toList =
      '*' :: '*' :: '/' :: (name.toList ++ '/' :: ['*', '*']) := by
    simp
  rw [Pattern.parse?, hchars]
  calc Reading.start.read ('*' :: '*' :: '/' :: (name.toList ++ '/' :: ['*', '*']))
    _ = Reading.read ⟨.plain, ⟨[], [.leadingDirectories]⟩, [], some '/'⟩
          (name.toList ++ '/' :: ['*', '*']) := rfl
    _ = Reading.read
          ⟨.plain,
            ⟨[], .literal '/' :: ((name.toList.map Token.literal).reverse ++
              [.leadingDirectories])⟩,
            [], some '/'⟩ ['*', '*'] := by rw [read_literals h]
    -- Two stars at the end take the place of the slash before them.
    _ = some (Token.trailingDirectories ::
          ((name.toList.map Token.literal).reverse ++ [.leadingDirectories])).reverse := rfl
    _ = some (below name) := by
      simp [below]

/-- **What is below directories of a name**: all paths in which the name is followed by a slash, at
the head of the path or after a slash. -/
theorem leads_below_iff (name : String) :
    Leads (Pattern.below name) (cs.flatMap bytesOf) [] ↔
      ∃ rest, cs = name.toList ++ '/' :: rest ∨
        ∃ front, cs = front ++ '/' :: (name.toList ++ '/' :: rest) := by
  -- Bytes first: what the leading stars leave is the name, a slash and anything.
  have hbelow : ∀ r, Leads (name.toList.map .literal ++ [.trailingDirectories]) r [] ↔
      ∃ below, r = name.toList.flatMap bytesOf ++ slashByte :: below := by
    intro r
    simp only [leads_append, leads_literals, Leads, Token.Leads]
    constructor
    · rintro ⟨s, rfl, q, ⟨below, rfl, -⟩, -⟩
      exact ⟨below, rfl⟩
    · rintro ⟨below, rfl⟩
      exact ⟨_, rfl, [], ⟨below, rfl, List.nil_suffix⟩, rfl⟩
  -- The same in characters, as the slash of the bytes is one of the path.
  have hnamed : ∀ cs : List Char,
      (∃ below, cs.flatMap bytesOf = name.toList.flatMap bytesOf ++ slashByte :: below) ↔
        ∃ rest, cs = name.toList ++ '/' :: rest := by
    intro cs
    simp only [bytes_eq_append_slash_iff]
    constructor
    · rintro ⟨_, front, rest, rfl, hfront, rfl⟩
      exact ⟨rest, by rw [bytes_injective hfront]⟩
    · rintro ⟨rest, rfl⟩
      exact ⟨_, name.toList, rest, rfl, rfl, rfl⟩
  rw [Pattern.below, Leads]
  simp only [Token.Leads, hbelow]
  constructor
  · -- The leading stars leave the whole path, or what follows one of its slashes.
    rintro ⟨r, rfl | ⟨dirs, hdirs⟩, hr⟩
    · obtain ⟨rest, hrest⟩ := (hnamed cs).mp hr
      exact ⟨rest, .inl hrest⟩
    · obtain ⟨front, after, rfl, -, rfl⟩ := bytes_eq_append_slash_iff.mp hdirs
      obtain ⟨rest, rfl⟩ := (hnamed after).mp hr
      exact ⟨rest, .inr ⟨front, rfl⟩⟩
  · rintro ⟨rest, rfl | ⟨front, rfl⟩⟩
    · exact ⟨_, .inl rfl, (hnamed _).mpr ⟨rest, rfl⟩⟩
    · exact ⟨_, .inr ⟨_, bytes_eq_append_slash_iff.mpr ⟨front, _, rfl, rfl, rfl⟩⟩,
        (hnamed _).mpr ⟨rest, rfl⟩⟩

theorem Pattern.matches_below_iff {name : String} (h : '/' ∉ name.toList) (path : String) :
    (below name).matches path = true ↔
      name.toList ∈ (Text.splitAt (· == '/') path.toList).dropLast := by
  have hne : below name ≠ [.leadingDirectories] := by
    simp [below]
  rw [Pattern.matches_iff, or_iff_right hne, Text.mem_dropLast_splitAt_iff h]
  exact leads_below_iff name

end Glob

namespace PathFilter

open Glob (IsLiteral)

/-! ### The standard filter -/

/-- The names of the directories that are shut out where no patterns are listed. -/
def standardDirectories : List String :=
  ["node_modules", "target", "vendor", "dist", "build", ".git"]

theorem standardExclusions_eq :
    standardExclusions = standardDirectories.map fun name => "**/" ++ name ++ "/**" := by
  decide

theorem slash_notMem_standardDirectories : ∀ name ∈ standardDirectories, '/' ∉ name.toList := by
  simp [standardDirectories]

theorem isLiteral_standardDirectories :
    ∀ name ∈ standardDirectories, ∀ c ∈ name.toList, IsLiteral c := by
  simp [standardDirectories, IsLiteral]

/-- The standard filter shuts out everything below its directories. -/
theorem standard_eq : standard = ⟨none, standardDirectories.map Pattern.below⟩ := by
  have hread : ∀ names : List String, (∀ name ∈ names, ∀ c ∈ name.toList, IsLiteral c) →
      (names.map fun name => "**/" ++ name ++ "/**").filterMap Pattern.parse? =
        names.map Pattern.below := by
    intro names hnames
    rw [List.filterMap_map, ← List.filterMap_eq_map]
    exact List.filterMap_congr fun name hname => Pattern.parse?_below (hnames name hname)
  rw [standard, standardExclusions_eq, hread standardDirectories isLiteral_standardDirectories]

/-- **The standard filter is made of the patterns that shut out where no others do.** -/
theorem madeOf_standard : MadeOf [] standardExclusions standard := by
  refine ⟨.nil, by rw [standard_eq]; simp, ?_⟩
  rw [standard_eq, standardExclusions_eq, ReadFrom, List.forall₂_map_left_iff,
    List.forall₂_map_right_iff, List.forall₂_same]
  exact fun name hname => Pattern.parse?_below (isLiteral_standardDirectories name hname)

/-- The patterns that shut out where no others do can be read. -/
theorem isSome_parse?_of_mem_standardExclusions :
    ∀ text ∈ standardExclusions, (Pattern.parse? text).isSome = true :=
  fun _ => madeOf_standard.excludes.isSome_parse?

/-- Where no patterns are listed, the filter of patterns is the standard one. -/
theorem ofPatterns?_nil : ofPatterns? [] [] = some standard :=
  ofPatterns?_eq_some_iff.mpr madeOf_standard

/-- **Which paths are below directories** of some names. -/
theorem matchesAny_below_iff {dirs : List String} (h : ∀ name ∈ dirs, '/' ∉ name.toList)
    (path : String) :
    matchesAny (dirs.map Pattern.below) (Path.toSlashes path) = true ↔
      ∃ name ∈ (Path.names path).dropLast, name ∈ dirs := by
  have hname : ∀ name ∈ dirs, (Pattern.below name).matches (Path.toSlashes path) = true ↔
      name ∈ (Path.names path).dropLast := by
    intro name hname
    rw [Pattern.matches_below_iff (h name hname), Path.splitAt_toSlashes, Path.names,
      ← List.map_dropLast, List.mem_map]
    constructor
    · exact fun hpiece => ⟨name.toList, hpiece, String.ofList_toList⟩
    · rintro ⟨piece, hpiece, rfl⟩
      rwa [String.toList_ofList]
  simp only [matchesAny, List.any_map, List.any_eq_true, Function.comp_apply]
  constructor
  · rintro ⟨name, hmem, hmatches⟩
    exact ⟨name, (hname name hmem).mp hmatches, hmem⟩
  · rintro ⟨name, hnames, hmem⟩
    exact ⟨name, hmem, (hname name hmem).mpr hnames⟩

theorem accepts_standard (path : String) : standard.accepts path =
    !matchesAny (standardDirectories.map Pattern.below) (Path.toSlashes path) := by
  rw [Bool.eq_iff_iff, madeOf_standard.accepts_iff, ← matchesAny_iff madeOf_standard.excludes,
    standard_eq]
  simp

/-- **What the standard filter shuts out**: exactly the paths on which a directory has one of six
names. Slashes and backslashes both stand between the names along a path, and the last name is no
directory. -/
theorem accepts_standard_eq_false_iff (path : String) :
    standard.accepts path = false ↔
      ∃ name ∈ (Path.names path).dropLast,
        name ∈ ["node_modules", "target", "vendor", "dist", "build", ".git"] := by
  rw [accepts_standard, Bool.not_eq_false',
    matchesAny_below_iff slash_notMem_standardDirectories]
  rfl

/-- A backslash in a name is read as a slash, so that a file may be shut out for what its own name
begins with. -/
theorem accepts_standard_backslash :
    ¬∀ names : List String, names ≠ [] → (∀ name ∈ names, name ≠ "" ∧ '/' ∉ name.toList) →
      (standard.accepts (Listing.joinNames names) = false ↔
        ∃ name ∈ names.dropLast,
          name ∈ ["node_modules", "target", "vendor", "dist", "build", ".git"]) := by
  intro h
  have hshut : standard.accepts (Listing.joinNames ["vendor\\x.py"]) = false := by
    decide +kernel
  obtain ⟨name, hname, -⟩ := (h ["vendor\\x.py"] (by simp) (by simp)).mp hshut
  exact absurd hname List.not_mem_nil

end PathFilter

namespace Listing

/-! ### The standard filter in listings -/

/-- **The standard filter shuts out nothing that is reached**: all its directories are passed over.
-/
theorem accepts_standard_of_isReached {path : String} (hplain : '\\' ∉ path.toList)
    (h : isReached path = true) : PathFilter.standard.accepts path = true := by
  have hskipped : ∀ name ∈ PathFilter.standardDirectories, isSkipped name = true := by
    decide
  rw [isReached, ← Path.names_of_notMem hplain, Bool.not_eq_true', List.any_eq_false] at h
  rw [PathFilter.accepts_standard, Bool.not_eq_true', Bool.eq_false_iff]
  intro hmatches
  obtain ⟨name, hnames, hname⟩ :=
    (PathFilter.matchesAny_below_iff PathFilter.slash_notMem_standardDirectories path).mp hmatches
  exact h name hnames (hskipped name hname)

/-- **The source files of a revision under the standard filter** are all files in a known language
that are reached. -/
theorem ofPaths_standard (paths : List String) :
    ofPaths .standard paths = Order.sort (fun a b => !decide (b < a))
      ((paths.map Path.normalize).filter fun path =>
        isReached path && (Language.ofPath? path).isSome) := by
  rw [ofPaths]
  refine congrArg _ (List.filter_congr fun path hpath => ?_)
  obtain ⟨other, -, rfl⟩ := List.mem_map.mp hpath
  rcases hreached : isReached (Path.normalize other)
  · rw [Bool.false_and, Bool.false_and]
  · -- There are no backslashes in a path of the listing, so the filter sees the names that are
    -- reached.
    rw [isSource, accepts_standard_of_isReached (Path.backslash_notMem_normalize other) hreached,
      Bool.and_true]

end Listing

end Dossier
