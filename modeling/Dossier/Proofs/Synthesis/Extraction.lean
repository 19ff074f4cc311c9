import Dossier.Proofs.Json.Grammar
import Dossier.Proofs.Text.Slice
import Dossier.Synthesis.Reply

/-!
# The object in a reply

Between the brackets of an object the search comes back to where it was: a string is left again by
the quote that ends it, since every quote within stands behind a backslash that is not itself
behind one, and brackets open and close in pairs (`Dossier.Synthesis.leads_of_forms`). So the search
ends at the last bracket of an object and nowhere before. The text it began in is arbitrary; there
at least one bracket is open from the first one on (`Dossier.Synthesis.Scan.read_cases`).
-/

namespace Dossier.Synthesis

open Json (Blank Forms IsBody IsNumber)

/-! ### Where a search comes to -/

namespace Scan

/-- Outside of string literals, with so many brackets open. -/
def outside (depth : Nat) : Scan :=
  ⟨depth, false, false⟩

/-- Inside a string literal. -/
def inside (depth : Nat) : Scan :=
  ⟨depth, true, false⟩

/-- **Whether a search comes from one place to another** by reading a text. -/
inductive Leads : Scan → List Char → Scan → Prop
  | refl (s : Scan) : Leads s [] s
  | step {s t u : Scan} {c : Char} {cs : List Char} (hread : s.read c = .onward t)
      (h : Leads t cs u) : Leads s (c :: cs) u

variable {s t u : Scan} {c : Char} {as bs cs : List Char}

theorem Leads.append (h : Leads s as t) (h' : Leads t bs u) : Leads s (as ++ bs) u := by
  induction h with
  | refl s => exact h'
  | step hread _ ih => exact .step hread (ih h')

theorem leads_singleton (h : s.read c = .onward t) : Leads s [c] t :=
  .step h (.refl t)

/-- Characters that leave a search where it is. -/
theorem leads_of_forall (h : ∀ c ∈ cs, s.read c = .onward s) : Leads s cs s := by
  induction cs with
  | nil => exact .refl s
  | cons c cs ih =>
    exact .step (h c List.mem_cons_self) (ih fun d hd => h d (List.mem_cons_of_mem c hd))

end Scan

open Scan

variable {s t : Scan} {c : Char} {cs rest : List Char} {depth : Nat}

/-- A search goes on from where it comes to. -/
theorem search_append (h : Leads s cs t) (offset : Nat) (rest : List Char) :
    search s offset (cs ++ rest) = search t (offset + Text.byteSize cs) rest := by
  induction h generalizing offset with
  | refl s => rfl
  | step hread _ ih =>
    rw [List.cons_append, search, hread, Text.byteSize_cons, ← Nat.add_assoc]
    exact ih _

/-! ### Through strings, numbers and blanks -/

/-- The characters that a search looks for outside of string literals. -/
def marks : List Char :=
  ['"', '\x7b', '\x7d']

theorem Scan.read_outside (h : c ∉ marks) : (outside depth).read c = .onward (outside depth) := by
  simp only [marks, List.mem_cons, List.not_mem_nil, or_false, not_or] at h
  simp [outside, Scan.read, h]

theorem Scan.read_inside (hquote : c ≠ '"') (hslash : c ≠ '\\') :
    (inside depth).read c = .onward (inside depth) := by
  simp [inside, Scan.read, hquote, hslash]

/-- What is behind a backslash is passed over, whatever it is. -/
theorem Scan.leads_escape (c : Char) : Leads (inside depth) ['\\', c] (inside depth) :=
  .step (t := ⟨depth, true, true⟩) rfl (leads_singleton rfl)

theorem read_inside_of_isHexDigit (h : Json.IsHexDigit c) :
    (inside depth).read c = .onward (inside depth) := by
  apply Scan.read_inside
  all_goals
    rintro rfl
    exact absurd h (by decide)

/-- **What stands in a string literal** does not end it. -/
theorem leads_of_isBody (h : IsBody cs) : Leads (inside depth) cs (inside depth) := by
  induction h with
  | nil => exact .refl _
  | plain hquote hslash _ _ ih => exact .step (Scan.read_inside hquote hslash) ih
  | escape _ _ ih => exact (Scan.leads_escape _).append ih
  | @unicode a b c d cs hdigits _ ih =>
    have hhex : Leads (inside depth) [a, b, c, d] (inside depth) :=
      leads_of_forall fun x hx => read_inside_of_isHexDigit (hdigits x hx)
    exact (Scan.leads_escape 'u').append (hhex.append ih)

theorem leads_string (h : IsBody cs) :
    Leads (outside depth) ('"' :: (cs ++ ['"'])) (outside depth) :=
  .step (t := inside depth) rfl ((leads_of_isBody h).append (leads_singleton rfl))

/-- Whether a text has nothing in it that a search looks for. -/
def Unmarked (cs : List Char) : Prop :=
  ∀ c ∈ cs, c ∉ marks

theorem Unmarked.leads (h : Unmarked cs) : Leads (outside depth) cs (outside depth) :=
  leads_of_forall fun c hc => Scan.read_outside (h c hc)

theorem Unmarked.append (h : Unmarked cs) (hrest : Unmarked rest) : Unmarked (cs ++ rest) :=
  List.forall_mem_append.mpr ⟨h, hrest⟩

theorem Unmarked.cons (h : Unmarked cs) (hc : c ∉ marks) : Unmarked (c :: cs) :=
  List.forall_mem_cons.mpr ⟨hc, h⟩

theorem unmarked_nil : Unmarked [] :=
  nofun

theorem unmarked_of_forall {p : Char → Prop} (h : ∀ c ∈ cs, p c) (hquote : ¬p '"')
    (hopen : ¬p '\x7b') (hclose : ¬p '\x7d') : Unmarked cs := by
  intro c hc hmark
  have hp := h c hc
  simp only [marks, List.mem_cons, List.not_mem_nil, or_false] at hmark
  obtain rfl | rfl | rfl := hmark
  · exact hquote hp
  · exact hopen hp
  · exact hclose hp

theorem unmarked_of_blank (h : Blank cs) : Unmarked cs :=
  unmarked_of_forall h (by decide) (by decide) (by decide)

theorem unmarked_of_isAlpha (h : ∀ c ∈ cs, c.isAlpha = true) : Unmarked cs :=
  unmarked_of_forall h (by decide) (by decide) (by decide)

theorem unmarked_of_isDigits (h : Json.IsDigits cs) : Unmarked cs :=
  unmarked_of_forall h.2 (by decide) (by decide) (by decide)

theorem unmarked_of_isFraction (h : Json.IsFraction cs) : Unmarked cs := by
  cases h with
  | none => exact unmarked_nil
  | point hdigits => exact (unmarked_of_isDigits hdigits).cons (by decide)

theorem unmarked_of_sign (h : cs ∈ [[], ['+'], ['-']]) : Unmarked cs := by
  simp only [List.mem_cons, List.not_mem_nil, or_false] at h
  obtain rfl | rfl | rfl := h
  · exact unmarked_nil
  · exact unmarked_nil.cons (by decide)
  · exact unmarked_nil.cons (by decide)

theorem unmarked_of_isExponent (h : Json.IsExponent cs) : Unmarked cs := by
  cases h with
  | none => exact unmarked_nil
  | @mark e sign ds he hsign hdigits =>
    have hmark : e ∉ marks := by
      obtain rfl | rfl := he <;> decide
    exact ((unmarked_of_sign hsign).append (unmarked_of_isDigits hdigits)).cons hmark

/-- A number is passed over. -/
theorem unmarked_of_isNumber (h : IsNumber cs) : Unmarked cs := by
  obtain @⟨sign, whole, fraction, exponent, hsign, hwhole, -, hfraction, hexponent⟩ := h
  have hsigns : [[], ['-']] ⊆ [[], ['+'], ['-']] := by simp
  exact (unmarked_of_sign (hsigns hsign)).append ((unmarked_of_isDigits hwhole).append
    ((unmarked_of_isFraction hfraction).append (unmarked_of_isExponent hexponent)))

/-! ### Through values -/

/-- What is passed over with a bracket more open is passed over in brackets. -/
theorem leads_brackets (h : Leads (outside (depth + 2)) cs (outside (depth + 2))) :
    Leads (outside (depth + 1)) ('\x7b' :: (cs ++ ['\x7d'])) (outside (depth + 1)) :=
  .step (t := outside (depth + 2)) rfl (h.append (leads_singleton rfl))

/-- A character that a search does not look for may stand before what is passed over. -/
theorem leads_cons (hc : c ∉ marks) (h : Leads (outside depth) cs t) :
    Leads (outside depth) (c :: cs) t :=
  .step (Scan.read_outside hc) h

/-- **A search comes through any part of a value** with as many brackets open as before, unless none
is. -/
theorem leads_of_forms {phrase : Json.Phrase} (h : Forms phrase cs) (depth : Nat) :
    Leads (outside (depth + 1)) cs (outside (depth + 1)) := by
  -- One case for each form: only brackets of objects are counted, and strings are passed over.
  induction h generalizing depth with
  | null => exact (unmarked_of_isAlpha (by simp)).leads
  | bool b => exact (unmarked_of_isAlpha (by cases b <;> simp)).leads
  | number h => exact (unmarked_of_isNumber h).leads
  | string h => exact leads_string h
  | noItems hgap =>
    have hclose := leads_cons (c := ']') (by decide) (.refl (outside (depth + 1)))
    exact leads_cons (by decide) ((unmarked_of_blank hgap).leads.append hclose)
  | array _ ih =>
    have hclose := leads_cons (c := ']') (by decide) (.refl (outside (depth + 1)))
    exact leads_cons (by decide) ((ih depth).append hclose)
  | ofObject _ ih => exact ih depth
  | noMembers hgap => exact leads_brackets (unmarked_of_blank hgap).leads
  | object _ ih => exact leads_brackets (ih (depth + 1))
  | item hbefore _ hafter ih =>
    have hvalue := (ih depth).append (unmarked_of_blank hafter).leads
    exact (unmarked_of_blank hbefore).leads.append hvalue
  | lastItem _ ih => exact ih depth
  | moreItems _ _ ih ihrest => exact (ih depth).append (leads_cons (by decide) (ihrest depth))
  | member hbefore hname hafter _ ih =>
    have hcolon := leads_cons (c := ':') (by decide) (ih depth)
    have hstring := (leads_string hname).append ((unmarked_of_blank hafter).leads.append hcolon)
    simpa using (unmarked_of_blank hbefore).leads.append hstring
  | lastMember _ ih => exact ih depth
  | moreMembers _ _ ih ihrest => exact (ih depth).append (leads_cons (by decide) (ihrest depth))

/-- **An object ends at the first bracket** that closes the one it begins with. -/
theorem exists_inner_of_forms (h : Forms .object cs) :
    ∃ inner, cs = '\x7b' :: (inner ++ ['\x7d']) ∧
      ∀ depth, Leads (outside (depth + 1)) inner (outside (depth + 1)) := by
  cases h with
  | noMembers hgap => exact ⟨_, rfl, fun _ => (unmarked_of_blank hgap).leads⟩
  | object h => exact ⟨_, rfl, leads_of_forms h⟩

/-! ### Through any text -/

/-- With a bracket open, none is closed too many, and one stays open until the search ends. -/
theorem Scan.read_cases (s : Scan) (hs : 1 ≤ s.depth) (c : Char) :
    (∃ t : Scan, s.read c = .onward t ∧ 1 ≤ t.depth) ∨ (s.read c = .close ∧ c = '\x7d') := by
  unfold Scan.read
  -- only brackets outside of string literals change how many are open
  split_ifs with hinside hescaped hslash hquote hquote hopen hclose
  · exact Or.inl ⟨_, rfl, hs⟩
  · exact Or.inl ⟨_, rfl, hs⟩
  · exact Or.inl ⟨_, rfl, hs⟩
  · exact Or.inl ⟨_, rfl, hs⟩
  · exact Or.inl ⟨_, rfl, hs⟩
  · exact Or.inl ⟨_, rfl, Nat.le_add_left _ _⟩
  · split
    · next hzero => omega
    · exact Or.inr ⟨rfl, eq_of_beq hclose⟩
    · exact Or.inl ⟨_, rfl, Nat.le_add_left _ _⟩
  · exact Or.inl ⟨_, rfl, hs⟩

/-- **No bracket is closed too many**, in any text, once one is open. -/
theorem search_ne_underflow (s : Scan) (hs : 1 ≤ s.depth) (offset : Nat) (cs : List Char) :
    search s offset cs ≠ .underflow := by
  induction cs generalizing s offset with
  | nil => simp [search]
  | cons c cs ih =>
    obtain ⟨t, hread, ht⟩ | ⟨hread, -⟩ := s.read_cases hs c
    · rw [search, hread]
      exact ih t ht _
    · rw [search, hread]
      exact SearchEnd.noConfusion

/-- A search ends before a bracket. -/
theorem exists_of_search_closed {offset stop : Nat} (hs : 1 ≤ s.depth)
    (h : search s offset cs = .closed stop) :
    ∃ before after, cs = before ++ '\x7d' :: after ∧ stop = offset + Text.byteSize before := by
  induction cs generalizing s offset with
  | nil => cases h
  | cons c cs ih =>
    rw [search] at h
    obtain ⟨t, hread, ht⟩ | ⟨hread, rfl⟩ := s.read_cases hs c
    · rw [hread] at h
      obtain ⟨before, after, rfl, rfl⟩ := ih ht h
      exact ⟨c :: before, after, rfl, by rw [Text.byteSize_cons, Nat.add_assoc]⟩
    · rw [hread] at h
      exact ⟨[], cs, rfl, (SearchEnd.closed.inj h).symm⟩

/-! ### From the first bracket on -/

theorem bne_of_not_mem (h : '\x7b' ∉ cs) : ∀ c ∈ cs, (c != '\x7b') = true := by
  intro c hc
  simpa using ne_of_mem_of_not_mem hc h

theorem endOf_of_not_mem {text : String} (h : '\x7b' ∉ text.toList) : endOf text = .unclosed := by
  rw [endOf, List.dropWhile_eq_nil_iff.mpr (bne_of_not_mem h)]
  rfl

/-- What is before the first bracket of a text, and where the search ends. -/
theorem endOf_append {text : String} {prose : List Char} (hprose : '\x7b' ∉ prose)
    (htext : text.toList = prose ++ '\x7b' :: rest) :
    proseOf text = prose ∧ endOf text = search (outside 1) 1 rest := by
  refine ⟨?_, ?_⟩
  · rw [proseOf, htext]
    exact Text.takeWhile_append (bne_of_not_mem hprose) (by simp)
  · rw [endOf, htext, List.dropWhile_append_of_pos (bne_of_not_mem hprose),
      List.dropWhile_cons_of_neg (by simp)]
    rfl

/-- **What is cut out** where the search ends at a bracket. -/
theorem firstObject?_eq_some {text : String} {prose inner : List Char} (hprose : '\x7b' ∉ prose)
    (htext : text.toList = prose ++ '\x7b' :: (inner ++ '\x7d' :: rest))
    (hend : endOf text = .closed (1 + Text.byteSize inner)) :
    firstObject? text = some (String.ofList ('\x7b' :: (inner ++ ['\x7d']))) := by
  obtain ⟨hproseOf, -⟩ := endOf_append hprose htext
  have hcut : text.toList = prose ++ ('\x7b' :: (inner ++ ['\x7d']) ++ rest) := by
    rw [htext]
    simp
  have hstop : Text.byteSize (prose ++ '\x7b' :: (inner ++ ['\x7d'])) =
      Text.byteSize prose + (1 + Text.byteSize inner) + 1 := by
    have hopen : Char.utf8Size '\x7b' = 1 := rfl
    have hclose : Char.utf8Size '\x7d' = 1 := rfl
    simp only [Text.byteSize_append, Text.byteSize_cons, Text.byteSize_nil]
    omega
  rw [firstObject?, hend, hproseOf, ← Text.slice?_append hcut, hstop]

/-- **An object is found** behind a text without brackets, whatever follows it. -/
theorem firstObject?_of_forms {prose object : String} (hprose : '\x7b' ∉ prose.toList)
    (hobject : Forms .object object.toList) (rest : String) :
    firstObject? (prose ++ object ++ rest) = some object := by
  obtain ⟨inner, hinner, hleads⟩ := exists_inner_of_forms hobject
  have htext : (prose ++ object ++ rest).toList =
      prose.toList ++ '\x7b' :: (inner ++ '\x7d' :: rest.toList) := by
    simp [hinner]
  have hend := (endOf_append hprose htext).2
  rw [search_append (hleads 0)] at hend
  rw [firstObject?_eq_some hprose htext hend, ← hinner, String.ofList_toList]

/-- **No bracket is closed too many**, in any text. -/
theorem endOf_ne_underflow (text : String) : endOf text ≠ .underflow := by
  by_cases hmem : '\x7b' ∈ text.toList
  · obtain ⟨prose, behind, htext, hprose⟩ := List.eq_append_cons_of_mem hmem
    rw [(endOf_append hprose htext).2]
    exact search_ne_underflow _ (Nat.le_refl 1) 1 behind
  · rw [endOf_of_not_mem hmem]
    exact SearchEnd.noConfusion

/-- Where the search ends at a bracket, this one and the first are the ends of what is cut out. -/
theorem exists_of_endOf_closed {text : String} {offset : Nat} (h : endOf text = .closed offset) :
    ∃ prose inner rest : List Char, '\x7b' ∉ prose ∧
      text.toList = prose ++ '\x7b' :: (inner ++ '\x7d' :: rest) ∧
      offset = 1 + Text.byteSize inner ∧
      firstObject? text = some (String.ofList ('\x7b' :: (inner ++ ['\x7d']))) := by
  by_cases hmem : '\x7b' ∈ text.toList
  · obtain ⟨prose, behind, htext, hprose⟩ := List.eq_append_cons_of_mem hmem
    have hend := (endOf_append hprose htext).2
    obtain ⟨inner, rest, rfl, rfl⟩ :=
      exists_of_search_closed (Nat.le_refl 1) (hend.symm.trans h)
    exact ⟨prose, inner, rest, hprose, htext, rfl, firstObject?_eq_some hprose htext h⟩
  · exact absurd ((endOf_of_not_mem hmem).symm.trans h) SearchEnd.noConfusion

/-- What is cut out is in brackets. -/
theorem exists_of_firstObject? {text object : String} (h : firstObject? text = some object) :
    ∃ inner, object.toList = '\x7b' :: (inner ++ ['\x7d']) := by
  rcases hend : endOf text with offset | _ | _
  · obtain ⟨-, inner, -, -, -, -, hcut⟩ := exists_of_endOf_closed hend
    obtain rfl := Option.some.inj (h.symm.trans hcut)
    exact ⟨inner, String.toList_ofList⟩
  · rw [firstObject?, hend] at h
    cases h
  · exact absurd hend (endOf_ne_underflow text)

/-- **The search for an object.** An object is found in any text in which no bracket stands before
it, whatever follows it. In any text at all no bracket is closed too many, and where the search ends
at a bracket, what is cut out begins at the first bracket of the text and ends at this one. -/
theorem firstObject?_finds_objects :
    (∀ prose object rest : String, '\x7b' ∉ prose.toList → Forms .object object.toList →
      firstObject? (prose ++ object ++ rest) = some object) ∧
    ∀ text : String, endOf text ≠ .underflow ∧
      (endOf text = .unclosed → firstObject? text = none) ∧
      ∀ offset, endOf text = .closed offset → ∃ prose inner rest : List Char,
        '\x7b' ∉ prose ∧ text.toList = prose ++ '\x7b' :: (inner ++ '\x7d' :: rest) ∧
        offset = 1 + Text.byteSize inner ∧
        firstObject? text = some (String.ofList ('\x7b' :: (inner ++ ['\x7d']))) := by
  refine ⟨fun prose object rest hprose hobject => firstObject?_of_forms hprose hobject rest,
    fun text => ⟨endOf_ne_underflow text, ?_, ?_⟩⟩
  · intro hunclosed
    rw [firstObject?, hunclosed]
  · exact fun offset => exists_of_endOf_closed

/-- An object with quotes and brackets in its strings. -/
def quotedObject : String :=
  "\x7b\"note\": \"a \\\"\x7b\\\\\", \"parts\": [\x7b \x7d, \x7b\"é\": -1.5e3\x7d]\n\x7d"

theorem forms_quotedObject : Forms .object quotedObject.toList := by
  have htext : quotedObject.toList =
      '\x7b' :: ((quotedObject.toList.drop 1).dropLast ++ ['\x7d']) := by decide +kernel
  have hphrase : (Json.parse? quotedObject).map Json.phrase = some .object := by decide +kernel
  obtain ⟨v, hparse, hv⟩ := Option.map_eq_some_iff.mp hphrase
  exact hv ▸ Json.forms_of_parse?_brackets htext hparse

theorem firstObject?_quotedObject :
    '\x7b' ∉ "Here \x7d it is:\n".toList ∧ Forms .object quotedObject.toList ∧
      firstObject? ("Here \x7d it is:\n" ++ quotedObject ++ "\x7d \x7b") = some quotedObject ∧
      endOf "\x7d \x7b\"\x7d\" é\x7d" = .closed 7 ∧
      ∃ prose inner rest : List Char, '\x7b' ∉ prose ∧
        "\x7d \x7b\"\x7d\" é\x7d".toList = prose ++ '\x7b' :: (inner ++ '\x7d' :: rest) ∧
        7 = 1 + Text.byteSize inner ∧ firstObject? "\x7d \x7b\"\x7d\" é\x7d" =
          some (String.ofList ('\x7b' :: (inner ++ ['\x7d']))) := by
  have hprose : '\x7b' ∉ "Here \x7d it is:\n".toList := by decide +kernel
  have hend : endOf "\x7d \x7b\"\x7d\" é\x7d" = .closed 7 := by decide +kernel
  exact ⟨hprose, forms_quotedObject,
    firstObject?_finds_objects.1 _ _ "\x7d \x7b" hprose forms_quotedObject, hend,
    (firstObject?_finds_objects.2 _).2.2 7 hend⟩

end Dossier.Synthesis
