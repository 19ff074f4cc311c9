import Dossier.Proofs.Text.Blank
import Dossier.Source.Language
import Mathlib.Logic.Function.Iterate

/-!
# The paths of source files

The usual form of a path has no backslashes and lacks one leading `./`; it is the usual form of
itself unless another one is left (`Dossier.Path.normalize_normalize`). So it matters how often a
path is put into its usual form: each time takes off one `./`, until there is none
(`Dossier.Path.iterate_normalize`).

The language of a file is read off the end of its path, so the path of a file in a known language
ends in a letter, unless it ends in a slash or a dot that do not count. In particular it does not
end in a colon, which is what keeps the path apart from the name in the identifier of a function.
-/

namespace Dossier

namespace Path

variable {path ext : String} {c : Char} {cs : List Char}

/-! ### The usual form -/

theorem slash_slash (c : Char) : slash (slash c) = slash c := by
  unfold slash
  split <;> simp_all

/-- There are no backslashes left to be read as slashes. -/
theorem map_slash_normalizeChars (path : List Char) :
    (normalizeChars path).map slash = normalizeChars path := by
  have hslashed : (path.map slash).map slash = path.map slash := by
    rw [List.map_map]
    exact List.map_congr_left fun c _ => slash_slash c
  unfold normalizeChars
  dsimp only
  rcases hdrop : Text.dropPrefix? ['.', '/'] (path.map slash) with _ | rest
  · exact hslashed
  · rw [Text.eq_append_of_dropPrefix? hdrop, List.map_append] at hslashed
    exact (List.append_inj hslashed rfl).2

theorem normalize_ofList (cs : List Char) :
    normalize (String.ofList cs) = String.ofList (normalizeChars cs) := by
  rw [normalize, String.toList_ofList]

theorem normalizeChars_dotSlash (h : cs.map slash = cs) :
    normalizeChars ('.' :: '/' :: cs) = cs := by
  have hslashed : ('.' :: '/' :: cs).map slash = '.' :: '/' :: cs := by
    rw [List.map_cons, List.map_cons, h]
    rfl
  rw [normalizeChars, hslashed]
  rfl

theorem normalizeChars_of_not_dotSlash (h : cs.map slash = cs)
    (hstart : ∀ rest, cs ≠ '.' :: '/' :: rest) : normalizeChars cs = cs := by
  have hdrop : Text.dropPrefix? ['.', '/'] cs = none :=
    Option.eq_none_iff_forall_ne_some.mpr fun rest hrest =>
      hstart rest (Text.eq_append_of_dropPrefix? hrest)
  rw [normalizeChars, h, hdrop, Option.getD_none]

/-- **The usual form of a path** is its own usual form, unless it begins with `./` again. -/
theorem normalize_normalize (h : ¬['.', '/'] <+: (normalize path).toList) :
    normalize (normalize path) = normalize path := by
  rw [normalize, String.toList_ofList] at h
  have hagain : normalizeChars (normalizeChars path.toList) = normalizeChars path.toList :=
    normalizeChars_of_not_dotSlash (map_slash_normalizeChars _) fun rest hrest =>
      h ⟨rest, hrest.symm⟩
  rw [normalize, normalize, String.toList_ofList, hagain]

theorem toSlashes_slashed (path : String) :
    (toSlashes path).toList.map slash = (toSlashes path).toList := by
  rw [toSlashes, String.toList_ofList, List.map_map]
  exact List.map_congr_left fun c _ => slash_slash c

/-! ### Paths that begin with `./` more than once -/

/-- A path with slashes only, without any leading `./`. -/
def bareChars : List Char → List Char
  | '.' :: '/' :: path => bareChars path
  | path => path

/-- **The path without any leading `./`.** -/
def bare (path : String) : String :=
  String.ofList (bareChars path.toList)

/-- How often `./` stands at the head of a path with slashes only. -/
def dotSlashes : List Char → ℕ
  | '.' :: '/' :: path => dotSlashes path + 1
  | _ => 0

/-- **How often a path begins with `./`**, its backslashes being read as slashes. -/
def leadingDots (path : String) : ℕ :=
  dotSlashes (toSlashes path).toList

/-- A path with `./` before it, so many times. -/
def dotted : ℕ → List Char → List Char
  | 0, path => path
  | n + 1, path => '.' :: '/' :: dotted n path

theorem dotted_bareChars (cs : List Char) : dotted (dotSlashes cs) (bareChars cs) = cs := by
  fun_induction bareChars cs with
  | case1 path ih => rw [dotSlashes, dotted, ih]
  | case2 path hstart => rw [dotSlashes.eq_2 path hstart, dotted]

theorem bareChars_ne_dotSlash (cs rest : List Char) : bareChars cs ≠ '.' :: '/' :: rest := by
  fun_induction bareChars cs with
  | case1 path ih => exact ih
  | case2 path hstart => exact hstart rest

theorem map_slash_bareChars (h : cs.map slash = cs) : (bareChars cs).map slash = bareChars cs := by
  fun_induction bareChars cs with
  | case1 path ih => exact ih (List.cons.inj (List.cons.inj h).2).2
  | case2 path hstart => exact h

theorem length_dotted (n : ℕ) (cs : List Char) : (dotted n cs).length = 2 * n + cs.length := by
  induction n with
  | zero => rw [dotted, Nat.mul_zero, Nat.zero_add]
  | succ n ih =>
    rw [dotted, List.length_cons, List.length_cons, ih]
    omega

theorem map_slash_dotted (h : cs.map slash = cs) (n : ℕ) :
    (dotted n cs).map slash = dotted n cs := by
  induction n with
  | zero => exact h
  | succ n ih =>
    rw [dotted, List.map_cons, List.map_cons, ih]
    rfl

/-- **Putting a path into its usual form** takes off one `./`, if there is one. -/
theorem normalizeChars_dotted (h : cs.map slash = cs) (hstart : ∀ rest, cs ≠ '.' :: '/' :: rest)
    (n : ℕ) : normalizeChars (dotted n cs) = dotted (n - 1) cs := by
  cases n with
  | zero => exact normalizeChars_of_not_dotSlash h hstart
  | succ n => exact normalizeChars_dotSlash (map_slash_dotted h n)

/-- **What is left of a path** that has been put into its usual form several times. -/
theorem iterate_normalize (path : String) (n : ℕ) :
    normalize^[n + 1] path = String.ofList
      (dotted (leadingDots path - (n + 1)) (bareChars (toSlashes path).toList)) := by
  have hbare := map_slash_bareChars (toSlashes_slashed path)
  have hstart := bareChars_ne_dotSlash (toSlashes path).toList
  induction n with
  | zero =>
    have hslashed : normalizeChars path.toList = normalizeChars (toSlashes path).toList := by
      rw [normalizeChars, normalizeChars, toSlashes_slashed, toSlashes, String.toList_ofList]
    rw [Function.iterate_one, normalize, hslashed, ← normalizeChars_dotted hbare hstart,
      leadingDots, dotted_bareChars]
  | succ n ih =>
    rw [Function.iterate_succ_apply', ih, normalize_ofList, normalizeChars_dotted hbare hstart,
      Nat.sub_sub]

/-- **Whether it matters how often a path is put into its usual form**: not if no `./` is left
either time. -/
theorem iterate_normalize_eq_iff {m n : ℕ} :
    normalize^[m + 1] path = normalize^[n + 1] path ↔
      m = n ∨ (leadingDots path ≤ m + 1 ∧ leadingDots path ≤ n + 1) := by
  rw [iterate_normalize, iterate_normalize, String.ofList_inj]
  constructor
  · intro h
    have hlength := congrArg List.length h
    rw [length_dotted, length_dotted] at hlength
    omega
  · intro h
    congr 1
    omega

/-! ### The names along a path -/

/-- What a path is cut at: slashes, and backslashes as they are read as slashes. -/
def isSeparator (c : Char) : Bool :=
  c == '/' || c == '\\'

/-- **The names along a path**: what stands between its separators. -/
def names (path : String) : List String :=
  (Text.splitAt isSeparator path.toList).map String.ofList

/-- The names are the pieces between slashes when all separators are read as slashes. -/
theorem splitAt_toSlashes (path : String) :
    Text.splitAt (· == '/') (toSlashes path).toList = Text.splitAt isSeparator path.toList := by
  rw [toSlashes, String.toList_ofList]
  induction path.toList with
  | nil => rfl
  | cons c cs ih =>
    rw [List.map_cons, Text.splitAt, Text.splitAt, ih]
    by_cases hc : isSeparator c = true
    · have hslash : (slash c == '/') = true := by
        simp only [isSeparator, Bool.or_eq_true, beq_iff_eq] at hc
        rcases hc with rfl | rfl <;> rfl
      rw [if_pos hc, if_pos hslash]
    · have hsame : slash c = c := by
        simp_all [isSeparator, slash]
      have hslash : ¬(slash c == '/') = true := by
        simp_all [isSeparator]
      rw [if_neg hc, if_neg hslash, hsame]

/-- A path without backslashes has slashes only. -/
theorem toSlashes_of_notMem (h : '\\' ∉ path.toList) : toSlashes path = path := by
  have hsame : path.toList.map slash = path.toList := by
    refine (List.map_congr_left fun c hc => ?_).trans (List.map_id _)
    rw [slash, if_neg (by simpa using ne_of_mem_of_not_mem hc h), id]
  rw [toSlashes, hsame, String.ofList_toList]

/-- Without backslashes the names stand between the slashes. -/
theorem names_of_notMem (h : '\\' ∉ path.toList) :
    names path = (Text.splitAt (· == '/') path.toList).map String.ofList := by
  rw [names, ← splitAt_toSlashes, toSlashes_of_notMem h]

/-- No backslash is left in the usual form of a path. -/
theorem backslash_notMem_normalize (path : String) : '\\' ∉ (normalize path).toList := by
  intro hmem
  rw [normalize, String.toList_ofList, ← map_slash_normalizeChars] at hmem
  obtain ⟨c, -, hc⟩ := List.mem_map.mp hmem
  unfold slash at hc
  split at hc
  · cases hc
  · next hne => exact hne (beq_iff_eq.mpr hc)

/-! ### The end of a path -/

/-- The name of a file ends as its path does. -/
theorem fileName?_concat (hslash : c ≠ '/') (hdot : c ≠ '.') (h : path.toList = cs ++ [c]) :
    ∃ piece, fileName? path = some (String.ofList (piece ++ [c])) := by
  obtain ⟨pieces, piece, hpieces⟩ :=
    Text.splitAt_concat (p := (· == '/')) (beq_false_of_ne hslash) cs
  refine ⟨piece, ?_⟩
  have hlast : (components path.toList).getLast? = some (piece ++ [c]) := by
    -- The last piece is neither empty nor a dot, so it counts.
    have hkept : (!(piece ++ [c]).isEmpty && piece ++ [c] != ['.']) = true := by
      rcases piece with _ | ⟨d, piece⟩
      · simpa using hdot
      · simp
    rw [h, components, hpieces, List.filter_append, List.filter_singleton, hkept, cond_true,
      List.getLast?_append, List.getLast?_singleton, Option.some_or]
  rw [fileName?, hlast]
  have hup : (piece ++ [c] == ['.', '.']) = false := by
    refine beq_false_of_ne fun heq => hdot ?_
    simpa using congrArg List.getLast? heq
  simp only [hup, Bool.false_eq_true, if_false]

/-- The extension ends as the path does. -/
theorem getLast?_extension (hslash : c ≠ '/') (hdot : c ≠ '.') (hext : extension? path = some ext)
    (h : path.toList = cs ++ [c]) : ext.toList.getLast? = some c := by
  obtain ⟨piece, hname⟩ := fileName?_concat hslash hdot h
  rw [extension?, hname, Option.bind_some] at hext
  simp only [String.toList_ofList, List.reverse_append, List.reverse_singleton,
    List.singleton_append, List.takeWhile_cons, bne_iff_ne, ne_eq, hdot, not_false_eq_true,
    if_true] at hext
  split at hext
  · obtain rfl := Option.some.inj hext
    simp
  · cases hext

end Path

/-- **The path of a source file does not end in a colon.** -/
theorem Language.not_colon_of_ofPath? {path : String} {l : Language} (h : ofPath? path = some l)
    (cs : List Char) : path.toList ≠ cs ++ [':'] := by
  intro hpath
  obtain ⟨ext, hext, hl⟩ := Option.bind_eq_some_iff.mp h
  have hlast := Path.getLast?_extension (by decide) (by decide) hext hpath
  have hmem : ext ∈ l.extensions := by simpa using List.find?_some hl
  have hends : ∀ l : Language, ∀ ext ∈ l.extensions, ext.toList.getLast? ≠ some ':' := by
    intro l
    cases l <;> decide
  exact hends l ext hmem hlast

end Dossier
