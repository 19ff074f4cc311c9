import Dossier.Json.Fields
import Dossier.Json.Printer
import Mathlib.Data.List.Basic

/-!
# Fields are found in any order

The fields of a structure are found by their names, so that it does not matter in which order the
members of an object stand, nor whether there are others (`Dossier.Json.namedFields?_perm`,
`Dossier.Json.namedFields?_append`). What is read of a structure is therefore the same when the
members of all objects in it are put in another order, as they are in a report
(`Dossier.Json.Rearranges`).
-/

namespace Dossier.Json

variable {ms ms' extra : List (String × Json)} {rules : List (String × Presence)}

/-- **The order of the members does not matter.** -/
theorem namedFields?_perm (h : ms.Perm ms') (rules : List (String × Presence)) :
    namedFields? ms rules = namedFields? ms' rules := by
  induction rules with
  | nil => rfl
  | cons rule rules ih =>
    obtain ⟨name, presence⟩ := rule
    have hfilter : (ms.filter fun m => m.1 == name).Perm (ms'.filter fun m => m.1 == name) :=
      h.filter _
    rw [namedFields?, namedFields?, ih]
    generalize ms.filter (fun m => m.1 == name) = found at hfilter ⊢
    generalize ms'.filter (fun m => m.1 == name) = found' at hfilter ⊢
    -- A name is borne by no member, by one, or by several, in both orders.
    rcases found with _ | ⟨m, _ | ⟨m', rest⟩⟩
    · rw [List.nil_perm.mp hfilter]
    · rw [List.singleton_perm.mp hfilter]
    · rcases found' with _ | ⟨k, _ | ⟨k', rest'⟩⟩
      · simp at hfilter
      · simp at hfilter
      · rfl

/-- **Members that are no fields are passed over.** -/
theorem namedFields?_append (h : ∀ m ∈ extra, m.1 ∉ rules.map Prod.fst)
    (ms : List (String × Json)) :
    namedFields? (ms ++ extra) rules = namedFields? ms rules := by
  induction rules with
  | nil => rfl
  | cons rule rules ih =>
    obtain ⟨name, presence⟩ := rule
    have hnone : (extra.filter fun m => m.1 == name) = [] := by
      refine List.filter_eq_nil_iff.mpr fun m hm heq => h m hm ?_
      rw [beq_iff_eq.mp heq]
      exact List.mem_cons_self
    have hrest : namedFields? (ms ++ extra) rules = namedFields? ms rules :=
      ih fun m hm hmem => h m hm (List.mem_cons_of_mem _ hmem)
    rw [namedFields?, namedFields?, List.filter_append, hnone, List.append_nil, hrest]

/-- **Fields that are written one by one are found one by one.** -/
theorem namedFields?_of_names (hdistinct : (rules.map Prod.fst).Nodup)
    (hnames : ms.map Prod.fst = rules.map Prod.fst) :
    namedFields? ms rules = some (ms.map fun m => some m.2) := by
  induction rules generalizing ms with
  | nil =>
    rw [List.map_eq_nil_iff.mp hnames]
    rfl
  | cons rule rules ih =>
    obtain ⟨name, presence⟩ := rule
    obtain ⟨m, rest, rfl, rfl, hrest⟩ := List.map_eq_cons_iff.mp hnames
    rw [List.map_cons, List.nodup_cons] at hdistinct
    obtain ⟨hname, hdistinct⟩ := hdistinct
    -- The name of the first field is borne by none of the members after it, and by no later field.
    have hnone : (rest.filter fun k => k.1 == m.1) = [] := by
      refine List.filter_eq_nil_iff.mpr fun k hk heq => hname ?_
      rw [← hrest]
      exact List.mem_map.mpr ⟨k, hk, beq_iff_eq.mp heq⟩
    have hfirst : ∀ k ∈ [m], k.1 ∉ rules.map Prod.fst := by
      intro k hk
      rw [List.mem_singleton.mp hk]
      exact hname
    have hmoved : namedFields? (m :: rest) rules = some (rest.map fun k => some k.2) := by
      rw [← namedFields?_perm (List.perm_append_singleton m rest), namedFields?_append hfirst,
        ih hdistinct hrest]
    have hone : ((m :: rest).filter fun k => k.1 == m.1) = [m] := by
      rw [List.filter_cons, beq_self_eq_true, if_pos rfl, hnone]
    rw [namedFields?, hone, hmoved]
    rfl

/-- **Whether a function of values moves nothing but the members of objects**, and whatever is in
arrays and objects in the same way. -/
structure Rearranges (t : Json → Json) : Prop where
  null : t .null = .null
  bool : ∀ b, t (.bool b) = .bool b
  int : ∀ i, t (.int i) = .int i
  float : ∀ x, t (.float x) = .float x
  string : ∀ s, t (.string s) = .string s
  array : ∀ xs, t (.array xs) = .array (xs.map t)
  object : ∀ ms, ∃ ms', t (.object ms) = .object ms' ∧ ms'.Perm (ms.map fun m => (m.1, t m.2))

theorem rearranges_id : Rearranges fun v => v where
  null := rfl
  bool _ := rfl
  int _ := rfl
  float _ := rfl
  string _ := rfl
  array xs := by rw [List.map_id']
  object ms := ⟨ms, rfl, by rw [List.map_id']⟩

theorem sortKeysItems_eq (xs : List Json) : sortKeysItems xs = xs.map sortKeys := by
  induction xs with
  | nil => rfl
  | cons x xs ih => rw [sortKeysItems, ih, List.map_cons]

theorem sortKeysMembers_eq (ms : List (String × Json)) :
    sortKeysMembers ms = ms.map fun m => (m.1, m.2.sortKeys) := by
  induction ms with
  | nil => rfl
  | cons m ms ih => rw [sortKeysMembers, ih, List.map_cons]

/-- **Sorting the members of all objects** moves nothing else. -/
theorem rearranges_sortKeys : Rearranges sortKeys where
  null := by rw [sortKeys] <;> nofun
  bool _ := by rw [sortKeys] <;> nofun
  int _ := by rw [sortKeys] <;> nofun
  float _ := by rw [sortKeys] <;> nofun
  string _ := by rw [sortKeys] <;> nofun
  array xs := by rw [sortKeys, sortKeysItems_eq]
  object ms := ⟨_, by rw [sortKeys], by rw [← sortKeysMembers_eq]; exact Order.sort_perm _ _⟩

namespace Rearranges

variable {t : Json → Json}

/-- **The fields of an object** are found wherever they have been moved to. -/
theorem fields?_object (h : Rearranges t) (rules : List (String × Presence))
    (ms : List (String × Json)) :
    (t (.object ms)).fields? false rules = namedFields? (ms.map fun m => (m.1, t m.2)) rules := by
  obtain ⟨ms', heq, hperm⟩ := h.object ms
  rw [heq, fields?, Bool.false_and, if_neg Bool.false_ne_true]
  exact namedFields?_perm hperm rules

/-- A list that is read item by item is read in the same way when its items are moved about. -/
theorem list?_array {α β : Type} (h : Rearranges t) {read : Json → Option α} {write : β → Json}
    {value : β → α} {items : List β} (hread : ∀ b ∈ items, read (t (write b)) = some (value b)) :
    (t (.array (items.map write))).list? read = some (items.map value) := by
  rw [h.array, list?, List.map_map]
  induction items with
  | nil => rfl
  | cons b bs ih =>
    rw [List.map_cons, List.mapM_cons, Function.comp_apply, hread b List.mem_cons_self,
      ih fun b hb => hread b (List.mem_cons_of_mem _ hb)]
    rfl

theorem strings?_ofStrings (h : Rearranges t) (ss : List String) :
    (t (.ofStrings ss)).strings? = some ss := by
  have hread : ∀ s ∈ ss, string? (t (.string s)) = some (id s) := by
    intro s _
    rw [h.string]
    rfl
  rw [ofStrings, strings?, h.list?_array hread, List.map_id]

theorem nat32?_ofNat (h : Rearranges t) {n : Nat} (hn : n < UInt32.size) :
    (t (.ofNat n)).nat32? = some n := by
  rw [ofNat, h.int, nat32?, natBelow?, if_pos ⟨Int.natCast_nonneg n, by omega⟩, Int.toNat_natCast]

theorem nat64?_ofNat (h : Rearranges t) {n : Nat} (hn : n < UInt64.size) :
    (t (.ofNat n)).nat64? = some n := by
  rw [ofNat, h.int, nat64?, natBelow?, if_pos ⟨Int.natCast_nonneg n, by omega⟩, Int.toNat_natCast]

end Rearranges

/-! ### What is read of strings -/

variable {v : Json}

theorem string?_eq_some_iff {s : String} : v.string? = some s ↔ v = .string s := by
  cases v <;> simp [string?]

/-- Only an array of strings is read as one. -/
theorem strings?_eq_some_iff {ss : List String} : v.strings? = some ss ↔ v = .ofStrings ss := by
  cases v with
  | array xs =>
    rw [strings?, list?, ofStrings, Json.array.injEq]
    induction xs generalizing ss with
    | nil => simp [eq_comm]
    | cons x xs ih =>
      rw [List.mapM_cons, @eq_comm _ (x :: xs), List.map_eq_cons_iff]
      simp only [Option.bind_eq_bind, Option.bind_eq_some_iff, Option.pure_def, Option.some.injEq,
        string?_eq_some_iff, ih]
      constructor
      · rintro ⟨s, rfl, rest, rfl, rfl⟩
        exact ⟨s, rest, rfl, rfl, rfl⟩
      · rintro ⟨s, rest, rfl, rfl, rfl⟩
        exact ⟨s, rfl, rest, rfl, rfl⟩
  | _ => simp [strings?, list?, ofStrings]

end Dossier.Json
