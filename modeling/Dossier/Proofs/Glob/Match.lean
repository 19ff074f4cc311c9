import Dossier.Glob.Match
import Dossier.Proofs.Text.Utf8
import Mathlib.Data.List.Infix

/-!
# What glob patterns match

A matcher that keeps all the places where it may stand says little about what is matched. Here the
meaning of a pattern is given without it: a token *leads* from one rest of a path to a later one if
it stands for what is in between, and tokens lead as far as one after the other does
(`Dossier.Glob.Leads`). Alternatives that stand for nothing are passed over, as they are when a
pattern is compiled.

A pattern matches a path exactly if it leads from the whole path to its end
(`Dossier.Glob.Pattern.matches_iff`). The places are told apart by their lengths, so nothing is lost
as long as all of them are rests of one path; that is the invariant of the induction.
-/

namespace Dossier.Glob

variable {c : Char} {cs : List Char} {t : Token} {ts us : List Token}
  {bs dirs p q path : List UInt8}
  {places : List (List UInt8)}

/-! ### What a token stands for -/

mutual

/-- **Whether a token leads** from one rest of a path to another. -/
def Token.Leads : Token → List UInt8 → List UInt8 → Prop
  | .literal c, p, q => p = bytesOf c ++ q
  | .anyOne, p, q => ∃ b, p = b :: q
  | .anyRun, p, q => q <:+ p
  | .leadingDirectories, p, q => q = p ∨ ∃ dirs, p = dirs ++ slashByte :: q
  | .trailingDirectories, p, q => ∃ below, p = slashByte :: below ∧ q <:+ below
  | .innerDirectories, p, q =>
    ∃ below, p = slashByte :: below ∧ (q = below ∨ ∃ dirs, below = dirs ++ slashByte :: q)
  | .oneOf negated ranges, p, q => ∃ b, p = b :: q ∧ inClass negated ranges b = true
  | .choice alternatives, p, q =>
    if allVoid alternatives then q = p else AnyLeads alternatives p q

/-- **Whether tokens lead**, one after the other, from one rest of a path to another. -/
def Leads : List Token → List UInt8 → List UInt8 → Prop
  | [], p, q => q = p
  | t :: ts, p, q => ∃ r, t.Leads p r ∧ Leads ts r q

/-- Whether one of several alternatives leads, of those that stand for something. -/
def AnyLeads : List (List Token) → List UInt8 → List UInt8 → Prop
  | [], _, _ => False
  | a :: as, p, q => (isVoid a = false ∧ Leads a p q) ∨ AnyLeads as p q

end

/-- What follows a slash of a path is a rest of the path. -/
theorem suffix_after_slash {dirs : List UInt8} : q <:+ dirs ++ slashByte :: q :=
  (List.suffix_cons slashByte q).trans (List.suffix_append dirs _)

mutual

theorem Token.Leads.suffix : ∀ {t : Token} {p q : List UInt8}, t.Leads p q → q <:+ p
  | .literal c, _, q, h => by
    rw [Token.Leads] at h
    exact h ▸ List.suffix_append (bytesOf c) q
  | .anyOne, _, q, h => by
    rw [Token.Leads] at h
    obtain ⟨b, rfl⟩ := h
    exact List.suffix_cons b q
  | .anyRun, _, _, h => by rwa [Token.Leads] at h
  | .leadingDirectories, _, _, h => by
    rw [Token.Leads] at h
    obtain rfl | ⟨dirs, rfl⟩ := h
    · exact List.suffix_refl _
    · exact suffix_after_slash
  | .trailingDirectories, _, _, h => by
    rw [Token.Leads] at h
    obtain ⟨below, rfl, hq⟩ := h
    exact hq.trans (List.suffix_cons _ _)
  | .innerDirectories, _, _, h => by
    rw [Token.Leads] at h
    obtain ⟨below, rfl, rfl | ⟨dirs, rfl⟩⟩ := h
    · exact List.suffix_cons _ _
    · exact suffix_after_slash.trans (List.suffix_cons _ _)
  | .oneOf _ _, _, q, h => by
    rw [Token.Leads] at h
    obtain ⟨b, rfl, -⟩ := h
    exact List.suffix_cons b q
  | .choice alternatives, _, _, h => by
    rw [Token.Leads] at h
    split at h
    · exact h ▸ List.suffix_refl _
    · exact AnyLeads.suffix h

theorem Leads.suffix : ∀ {ts : List Token} {p q : List UInt8}, Leads ts p q → q <:+ p
  | [], _, _, h => by
    rw [Leads] at h
    exact h ▸ List.suffix_refl _
  | t :: ts, _, _, h => by
    rw [Leads] at h
    obtain ⟨r, hfirst, hrest⟩ := h
    exact (Leads.suffix hrest).trans (Token.Leads.suffix hfirst)

theorem AnyLeads.suffix : ∀ {as : List (List Token)} {p q : List UInt8}, AnyLeads as p q → q <:+ p
  | [], _, _, h => by
    rw [AnyLeads] at h
    exact h.elim
  | a :: as, _, _, h => by
    rw [AnyLeads] at h
    exact h.elim (fun h => Leads.suffix h.2) AnyLeads.suffix

end

/-! ### Places -/

theorem dropBytes?_eq_some_iff : dropBytes? bs p = some q ↔ p = bs ++ q := by
  induction bs generalizing p with
  | nil => rw [dropBytes?, List.nil_append, Option.some_inj]
  | cons b bs ih =>
    rcases p with _ | ⟨x, p⟩
    · simp [dropBytes?]
    · rw [dropBytes?, List.cons_append, List.cons.injEq, eq_comm (a := x)]
      split
      · next hb => rw [ih, and_iff_right hb]
      · next hb => simp [hb]

/-- What is below a directory that ends at one of some places. -/
theorem exists_mem_below {holds : List UInt8 → Prop} :
    (∃ below ∈ places.filterMap (dropBytes? [slashByte]), holds below) ↔
      ∃ p ∈ places, ∃ below, p = slashByte :: below ∧ holds below := by
  simp only [List.mem_filterMap, dropBytes?_eq_some_iff, List.singleton_append]
  constructor
  · rintro ⟨below, ⟨p, hp, heq⟩, hbelow⟩
    exact ⟨p, hp, below, heq, hbelow⟩
  · rintro ⟨p, hp, below, heq, hbelow⟩
    exact ⟨below, ⟨p, hp, heq⟩, hbelow⟩

theorem mem_allRests : q ∈ allRests p ↔ q <:+ p := by
  induction p with
  | nil => rw [allRests, List.mem_singleton, List.suffix_nil]
  | cons b p ih => rw [allRests, List.mem_cons, ih, List.suffix_cons_iff]

theorem mem_restsAfterSlash : q ∈ restsAfterSlash p ↔ ∃ dirs, p = dirs ++ slashByte :: q := by
  induction p with
  | nil => simp [restsAfterSlash]
  | cons b p ih =>
    -- The slash is the first byte of the path, or it is one of the others.
    have hcases : (∃ dirs, b :: p = dirs ++ slashByte :: q) ↔
        (b = slashByte ∧ q = p) ∨ ∃ dirs, p = dirs ++ slashByte :: q := by
      constructor
      · rintro ⟨_ | ⟨d, dirs⟩, h⟩
        · exact .inl ⟨(List.cons.inj h).1, (List.cons.inj h).2.symm⟩
        · exact .inr ⟨dirs, (List.cons.inj h).2⟩
      · rintro (⟨rfl, rfl⟩ | ⟨dirs, rfl⟩)
        · exact ⟨[], rfl⟩
        · exact ⟨b :: dirs, rfl⟩
    rw [hcases, ← ih, restsAfterSlash]
    split
    · next hb => rw [List.mem_cons, and_iff_right hb]
    · next hb => rw [or_iff_right fun h => hb h.1]

/-- **Places of one path are all kept**, each of them once. -/
theorem mem_distinctPlaces (h : ∀ p ∈ places, p <:+ path) :
    q ∈ distinctPlaces places ↔ q ∈ places := by
  induction places generalizing q with
  | nil => rfl
  | cons place places ih =>
    obtain ⟨hplace, hplaces⟩ := List.forall_mem_cons.mp h
    have ih : ∀ r, r ∈ distinctPlaces places ↔ r ∈ places := fun _ => ih hplaces
    rw [distinctPlaces, List.foldr_cons, ← distinctPlaces, addPlace]
    split
    · next hany =>
      -- A place of the same length is the same place.
      obtain ⟨p, hp, hlength⟩ := List.any_eq_true.mp hany
      have hsame : p = place := by
        have hsuffix := List.suffix_of_suffix_length_le (hplaces p ((ih p).mp hp)) hplace
          (beq_iff_eq.mp hlength).le
        exact hsuffix.eq_of_length (beq_iff_eq.mp hlength)
      rw [ih, List.mem_cons, or_iff_right_of_imp]
      rintro rfl
      exact (ih q).mp (hsame ▸ hp)
    · rw [List.mem_cons, List.mem_cons, ih]

/-! ### Where matching ends -/

mutual

/-- **A token ends where it leads** from one of the places at which it begins. -/
theorem Token.mem_ends : ∀ {t : Token} {places : List (List UInt8)} {path q : List UInt8},
    (∀ p ∈ places, p <:+ path) → (q ∈ t.ends places ↔ ∃ p ∈ places, t.Leads p q)
  | .literal c, places, _, q, _ => by
    simp only [Token.ends, Token.Leads, List.mem_filterMap, dropBytes?_eq_some_iff]
  | .anyOne, places, _, q, _ => by
    simp only [Token.ends, Token.Leads, List.mem_filterMap]
    refine exists_congr fun p => and_congr_right fun _ => ?_
    cases p <;> simp [eq_comm]
  | .anyRun, places, _, q, _ => by
    simp only [Token.ends, Token.Leads, List.mem_flatMap, mem_allRests]
  | .leadingDirectories, places, _, q, _ => by
    simp only [Token.ends, Token.Leads, List.mem_flatMap, List.mem_cons, mem_restsAfterSlash]
  | .trailingDirectories, places, _, q, _ => by
    simp only [Token.ends, Token.Leads, List.mem_flatMap, mem_allRests]
    exact exists_mem_below
  | .innerDirectories, places, _, q, _ => by
    simp only [Token.ends, Token.Leads, List.mem_flatMap, List.mem_cons, mem_restsAfterSlash]
    exact exists_mem_below
  | .oneOf negated ranges, places, _, q, _ => by
    simp only [Token.ends, Token.Leads, List.mem_filterMap, List.mem_filter, and_assoc]
    refine exists_congr fun p => and_congr_right fun _ => ?_
    cases p <;> simp [and_comm]
  | .choice alternatives, places, _, q, h => by
    simp only [Token.ends, Token.Leads]
    split
    · simp
    · exact mem_anyEnds h

/-- **Tokens end where they lead**, one after the other, from one of the places. -/
theorem mem_ends : ∀ {ts : List Token} {places : List (List UInt8)} {path q : List UInt8},
    (∀ p ∈ places, p <:+ path) → (q ∈ ends ts places ↔ ∃ p ∈ places, Leads ts p q)
  | [], places, _, q, _ => by simp [ends, Leads]
  | t :: ts, places, path, q, h => by
    have hfirst : ∀ r, r ∈ t.ends places ↔ ∃ p ∈ places, t.Leads p r := fun r => Token.mem_ends h
    -- The places that the first token ends at are rests of the path again.
    have hends : ∀ r ∈ t.ends places, r <:+ path := by
      intro r hr
      obtain ⟨p, hp, hlead⟩ := (hfirst r).mp hr
      exact hlead.suffix.trans (h p hp)
    have hdistinct : ∀ r, r ∈ distinctPlaces (t.ends places) ↔ r ∈ t.ends places :=
      fun r => mem_distinctPlaces hends
    rw [ends, mem_ends fun r hr => hends r ((hdistinct r).mp hr)]
    simp only [hdistinct, hfirst, Leads]
    constructor
    · rintro ⟨r, ⟨p, hp, hlead⟩, hrest⟩
      exact ⟨p, hp, r, hlead, hrest⟩
    · rintro ⟨p, hp, r, hlead, hrest⟩
      exact ⟨r, ⟨p, hp, hlead⟩, hrest⟩

/-- Alternatives end where one of them leads from one of the places. -/
theorem mem_anyEnds : ∀ {as : List (List Token)} {places : List (List UInt8)} {path q : List UInt8},
    (∀ p ∈ places, p <:+ path) → (q ∈ anyEnds as places ↔ ∃ p ∈ places, AnyLeads as p q)
  | [], places, _, q, _ => by simp [anyEnds, AnyLeads]
  | a :: as, places, _, q, h => by
    have hfirst : q ∈ (if isVoid a then [] else ends a places) ↔
        ∃ p ∈ places, isVoid a = false ∧ Leads a p q := by
      split
      · next hvoid => simp [hvoid]
      · next hvoid => simp [hvoid, mem_ends h]
    rw [anyEnds, List.mem_append, hfirst, mem_anyEnds h]
    simp only [AnyLeads, and_or_left, exists_or]

end

/-- **What a pattern matches**: a path from whose beginning it leads to its end. Nothing but leading
directories matches every path. -/
theorem Pattern.matches_iff (p : Pattern) (path : String) :
    p.matches path = true ↔ p = [.leadingDirectories] ∨ Leads p (pathBytes path) [] := by
  unfold Pattern.matches
  split
  · simp
  · next hne =>
    rw [or_iff_right hne, List.any_eq_true]
    simp only [List.isEmpty_iff, exists_eq_right]
    rw [mem_ends (List.forall_mem_singleton.mpr (List.suffix_refl _))]
    simp only [List.mem_singleton, exists_eq_left]

/-! ### Tokens one after the other -/

theorem leads_append : Leads (ts ++ us) p q ↔ ∃ r, Leads ts p r ∧ Leads us r q := by
  induction ts generalizing p with
  | nil => simp [Leads]
  | cons t ts ih =>
    simp only [List.cons_append, Leads, ih]
    constructor
    · rintro ⟨s, hfirst, r, hts, hus⟩
      exact ⟨r, ⟨s, hfirst, hts⟩, hus⟩
    · rintro ⟨r, ⟨s, hfirst, hts⟩, hus⟩
      exact ⟨s, hfirst, r, hts, hus⟩

/-- Characters that stand for themselves lead past their bytes. -/
theorem leads_literals : Leads (cs.map .literal) p q ↔ p = cs.flatMap bytesOf ++ q := by
  induction cs generalizing p with
  | nil => rw [List.map_nil, Leads, List.flatMap_nil, List.nil_append, eq_comm]
  | cons c cs ih =>
    simp only [List.map_cons, Leads, Token.Leads, ih, List.flatMap_cons, List.append_assoc]
    exact ⟨fun ⟨r, hp, hr⟩ => hr ▸ hp, fun h => ⟨_, h, rfl⟩⟩

/-! ### Slashes among the bytes of a path -/

/-- **The byte of a slash** belongs to slashes only. -/
theorem slashByte_mem_bytesOf_iff : slashByte ∈ bytesOf c ↔ c = '/' := by
  refine ⟨fun h => ?_, ?_⟩
  · rcases Text.utf8EncodeChar_eq_or c with ⟨hsmall, hsingle⟩ | hlarge
    · rw [bytesOf, hsingle, List.mem_singleton] at h
      have hnumber : 47 = c.toNat := by
        rw [← Text.toNat_byte (show c.toNat < 256 by omega), ← h]
        rfl
      rw [← Char.ofNat_toNat c, ← hnumber]
    · exact absurd (hlarge _ h) (by decide)
  · rintro rfl
    exact List.mem_singleton_self _

theorem bytes_injective {cs ds : List Char} (h : cs.flatMap bytesOf = ds.flatMap bytesOf) :
    cs = ds := by
  have hread : ∀ cs : List Char, Text.decode (cs.flatMap bytesOf) = String.ofList cs := by
    intro cs
    have hencode : cs.flatMap bytesOf = Text.encode (String.ofList cs) := by
      rw [Text.encode, String.toList_ofList]
      rfl
    rw [hencode, Text.decode_encode]
  exact String.ofList_injective (by rw [← hread, h, hread])

/-- **Where a slash is among the bytes of a text**, there is one in the text. -/
theorem bytes_eq_append_slash_iff : cs.flatMap bytesOf = dirs ++ slashByte :: q ↔
    ∃ front rest, cs = front ++ '/' :: rest ∧ dirs = front.flatMap bytesOf ∧
      q = rest.flatMap bytesOf := by
  constructor
  · intro h
    induction cs generalizing dirs with
    | nil => simp at h
    | cons c cs ih =>
      rw [List.flatMap_cons, List.append_eq_append_iff] at h
      obtain ⟨more, rfl, h⟩ | ⟨more, hc, h⟩ := h
      · -- The slash is behind the bytes of the first character.
        obtain ⟨front, rest, rfl, rfl, rfl⟩ := ih h
        exact ⟨c :: front, rest, rfl, rfl, rfl⟩
      · -- It is among them, or right behind them.
        rcases more with _ | ⟨b, more⟩
        · have hrest : cs.flatMap bytesOf = [] ++ slashByte :: q := h.symm
          obtain ⟨front, rest, rfl, hnil, rfl⟩ := ih hrest
          have hdirs : dirs = (c :: front).flatMap bytesOf := by
            rw [List.flatMap_cons, hc, ← hnil, List.append_nil, List.append_nil]
          exact ⟨c :: front, rest, rfl, hdirs, rfl⟩
        · obtain ⟨rfl, rfl⟩ := List.cons.inj h
          obtain rfl : c = '/' := slashByte_mem_bytesOf_iff.mp (hc ▸ by simp)
          -- A slash is one byte, so nothing is before it and nothing behind.
          rcases dirs with _ | ⟨b, dirs⟩
          · obtain rfl : more = [] := (List.cons.inj hc).2.symm
            exact ⟨[], cs, rfl, rfl, rfl⟩
          · have hlong : dirs ++ slashByte :: more ≠ [] :=
              List.append_ne_nil_of_right_ne_nil _ (List.cons_ne_nil _ _)
            exact absurd (List.cons.inj hc).2.symm hlong
  · rintro ⟨front, rest, rfl, rfl, rfl⟩
    rw [List.flatMap_append, List.flatMap_cons]
    rfl

end Dossier.Glob
