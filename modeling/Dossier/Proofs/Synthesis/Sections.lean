import Dossier.Proofs.Json.Fields
import Dossier.Proofs.Synthesis.Extraction
import Dossier.Proofs.Synthesis.Retry
import Dossier.Proofs.Text.Blank

/-!
# What a reply has to say

Whether a section is there is asked before the sections are read, and of values of any type: any
list that is not empty passes for a text, and any text that is not blank for the recommendations.
Reading the sections then makes up for it, and dropping what is blank of the recommendations may
still leave nothing. Together they accept no less and no more than complete replies
(`Dossier.Synthesis.sectionsOf_eq_ok_iff`).
-/

namespace Dossier.Synthesis

/-- **Whether a value is a complete reply** that has these texts in its sections, as they are
written. -/
structure Complete (v : Json) (told : Narrative) (recommendations : List String) : Prop where
  intent : v.get? "intent_summary" = some (.string told.intent)
  dependencies : v.get? "dependency_overview" = some (.string told.dependencies)
  risk : v.get? "risk_assessment" = some (.string told.risk)
  listed : v.get? "refactoring_recommendations" = some (.ofStrings recommendations)
  not_blank : ∀ text ∈ [told.intent, told.dependencies, told.risk], Text.isAllBlank text = false
  some_not_blank : ∃ r ∈ recommendations, Text.isAllBlank r = false

/-- What is kept of the texts in a reply. -/
def Sections.trimmed (told : Narrative) (recommendations : List String) : Sections where
  narrative := ⟨Text.trim told.intent, Text.trim told.dependencies, Text.trim told.risk⟩
  recommendations := (recommendations.filter fun r => !Text.isAllBlank r).map Text.trim

/-- The texts of all sections. -/
def Sections.texts (s : Sections) : List String :=
  s.narrative.intent :: s.narrative.dependencies :: s.narrative.risk :: s.recommendations

variable {d : Decoder} {v : Json} {told : Narrative} {recommendations : List String} {s : Sections}

/-- Trimming the recommendations first makes no difference to which are dropped. -/
theorem kept_eq (rs : List String) :
    (rs.map Text.trim).filter (fun r => !r.isEmpty) =
      (rs.filter fun r => !Text.isAllBlank r).map Text.trim := by
  have hkept : (fun r : String => !r.isEmpty) ∘ Text.trim = fun r => !Text.isAllBlank r := by
    funext r
    rw [Function.comp_apply, Text.isEmpty_trim]
  rw [List.filter_map, hkept]

theorem kept_isEmpty_iff (rs : List String) :
    ((rs.filter fun r => !Text.isAllBlank r).map Text.trim).isEmpty = false ↔
      ∃ r ∈ rs, Text.isAllBlank r = false := by
  simp [List.filter_eq_nil_iff]

/-- A text passes for present and is read exactly if it is one that is not blank. -/
theorem hasContent_and_string?_iff (found : Option Json) (text : String) :
    (hasContent found = true ∧ found.bind Json.string? = some text) ↔
      found = some (.string text) ∧ Text.isAllBlank text = false := by
  rw [Option.bind_eq_some_iff]
  constructor
  · rintro ⟨hcontent, x, rfl, hx⟩
    obtain rfl := Json.string?_eq_some_iff.mp hx
    exact ⟨rfl, by simpa [hasContent] using hcontent⟩
  · rintro ⟨rfl, hblank⟩
    exact ⟨by simp [hasContent, hblank], _, rfl, rfl⟩

/-- A list passes for present and is read exactly if it is one of strings and not empty. -/
theorem hasContent_and_strings?_iff (found : Option Json) (rs : List String) :
    (hasContent found = true ∧ found.bind Json.strings? = some rs) ↔
      found = some (.ofStrings rs) ∧ rs ≠ [] := by
  rw [Option.bind_eq_some_iff]
  constructor
  · rintro ⟨hcontent, x, rfl, hx⟩
    obtain rfl := Json.strings?_eq_some_iff.mp hx
    exact ⟨rfl, by simpa [hasContent, Json.ofStrings] using hcontent⟩
  · rintro ⟨rfl, hne⟩
    refine ⟨by simpa [hasContent, Json.ofStrings] using hne, _, rfl, ?_⟩
    exact Json.strings?_eq_some_iff.mpr rfl

/-- **What it takes to be accepted**: every section passes for present, is of its type, and
recommendations are left. -/
theorem sectionsOf_eq_ok_iff_reads : sectionsOf d v = .ok s ↔
    (∀ name ∈ sectionNames, hasContent (v.get? name) = true) ∧
      ∃ told recommendations,
        (v.get? "intent_summary").bind Json.string? = some told.intent ∧
        (v.get? "dependency_overview").bind Json.string? = some told.dependencies ∧
        (v.get? "risk_assessment").bind Json.string? = some told.risk ∧
        (v.get? "refactoring_recommendations").bind Json.strings? = some recommendations ∧
        (∃ r ∈ recommendations, Text.isAllBlank r = false) ∧
        s = .trimmed told recommendations := by
  have hfind : sectionNames.find? (fun n => !hasContent (v.get? n)) = none ↔
      ∀ name ∈ sectionNames, hasContent (v.get? name) = true := by
    simp [List.find?_eq_none]
  rw [sectionsOf, ← hfind]
  constructor
  · intro h
    split at h
    · cases h
    · next hnone =>
      split at h
      · next intent dependencies risk recommendations hintent hdependencies hrisk hlisted =>
        dsimp only at h
        split at h
        · cases h
        · next hkept =>
          rw [kept_eq] at h hkept
          have hsome := (kept_isEmpty_iff recommendations).mp (Bool.eq_false_of_not_eq_true hkept)
          exact ⟨hnone, ⟨intent, dependencies, risk⟩, recommendations, hintent, hdependencies,
            hrisk, hlisted, hsome, (Except.ok.inj h).symm⟩
      · cases h
  · rintro ⟨hnone, told, recommendations, hintent, hdependencies, hrisk, hlisted, hsome, rfl⟩
    have hkept := (kept_isEmpty_iff recommendations).mpr hsome
    rw [hnone, hintent, hdependencies, hrisk, hlisted]
    dsimp only
    rw [kept_eq, hkept]
    rfl

/-- **The sections are accepted exactly of complete replies**, and what is accepted is what they
say, trimmed. -/
theorem sectionsOf_eq_ok_iff : sectionsOf d v = .ok s ↔
    ∃ told recommendations,
      Complete v told recommendations ∧ s = .trimmed told recommendations := by
  rw [sectionsOf_eq_ok_iff_reads]
  constructor
  · rintro ⟨hcontent, told, recommendations, hintent, hdependencies, hrisk, hlisted, hsome, rfl⟩
    -- To be present and of its type is to be a text that is not blank.
    have htext (name text : String) (hname : name ∈ sectionNames)
        (h : (v.get? name).bind Json.string? = some text) :
        v.get? name = some (.string text) ∧ Text.isAllBlank text = false :=
      (hasContent_and_string?_iff _ text).mp ⟨hcontent name hname, h⟩
    obtain ⟨hintent, hintent'⟩ := htext _ _ (by decide) hintent
    obtain ⟨hdependencies, hdependencies'⟩ := htext _ _ (by decide) hdependencies
    obtain ⟨hrisk, hrisk'⟩ := htext _ _ (by decide) hrisk
    have hlisted := ((hasContent_and_strings?_iff _ _).mp ⟨hcontent _ (by decide), hlisted⟩).1
    exact ⟨told, recommendations, ⟨hintent, hdependencies, hrisk, hlisted,
      by simp [hintent', hdependencies', hrisk'], hsome⟩, rfl⟩
  · rintro ⟨told, recommendations, h, rfl⟩
    have hintent := (hasContent_and_string?_iff _ _).mpr ⟨h.intent, h.not_blank _ (by simp)⟩
    have hdependencies :=
      (hasContent_and_string?_iff _ _).mpr ⟨h.dependencies, h.not_blank _ (by simp)⟩
    have hrisk := (hasContent_and_string?_iff _ _).mpr ⟨h.risk, h.not_blank _ (by simp)⟩
    obtain ⟨r, hr, -⟩ := h.some_not_blank
    have hlisted := (hasContent_and_strings?_iff _ _).mpr ⟨h.listed, List.ne_nil_of_mem hr⟩
    have hcontent : ∀ name ∈ sectionNames, hasContent (v.get? name) = true := by
      simp [sectionNames, hintent.1, hdependencies.1, hrisk.1, hlisted.1]
    exact ⟨hcontent, told, recommendations, hintent.2, hdependencies.2, hrisk.2, hlisted.2,
      h.some_not_blank, rfl⟩

/-- All other values are errors. -/
theorem exists_error_iff : (∃ e, sectionsOf d v = .error e) ↔
    ∀ told recommendations, ¬Complete v told recommendations := by
  constructor
  · rintro ⟨e, he⟩ told recommendations hcomplete
    have hok : sectionsOf d v = .ok (.trimmed told recommendations) :=
      sectionsOf_eq_ok_iff.mpr ⟨told, recommendations, hcomplete, rfl⟩
    rw [he] at hok
    cases hok
  · intro hnone
    rcases hv : sectionsOf d v with e | s
    · exact ⟨e, rfl⟩
    · obtain ⟨told, recommendations, hcomplete, -⟩ := sectionsOf_eq_ok_iff.mp hv
      exact absurd hcomplete (hnone told recommendations)

/-- What is kept of a complete reply is not blank anywhere. -/
theorem Complete.not_blank_trimmed (h : Complete v told recommendations) :
    (∀ text ∈ (Sections.trimmed told recommendations).texts, Text.isAllBlank text = false) ∧
      (Sections.trimmed told recommendations).recommendations ≠ [] := by
  refine ⟨?_, ?_⟩
  · have hblank := h.not_blank
    simp only [List.mem_cons, List.not_mem_nil, or_false, forall_eq_or_imp, forall_eq] at hblank
    have hkept : ∀ r ∈ (Sections.trimmed told recommendations).recommendations,
        Text.isAllBlank r = false := by
      simp only [Sections.trimmed, List.forall_mem_map, List.mem_filter, Text.isAllBlank_trim]
      rintro r ⟨-, hr⟩
      simpa using hr
    simpa [Sections.texts, Sections.trimmed, hblank] using hkept
  · exact List.isEmpty_eq_false_iff.mp ((kept_isEmpty_iff _).mpr h.some_not_blank)

/-! ### Replies -/

/-- Only what can be read as a value is accepted. -/
theorem exists_parse?_of_readReply {reply : String} (h : readReply d reply = .ok s) :
    ∃ object v, firstObject? reply = some object ∧ Json.parse? object = some v := by
  rw [readReply] at h
  split at h
  · cases h
  · next object hobject =>
    split at h
    · cases h
    · next v hparse => exact ⟨object, v, hobject, hparse⟩

/-- **A reply is accepted exactly if it is complete**, as what its three texts and those of its
recommendations that are not blank come to when they are trimmed. Every other reply is an error, one
without an object that can be read among them, and nothing that is accepted is blank. -/
theorem reply_accepted_iff_complete (d : Decoder) (reply : String) :
    (∀ object v, firstObject? reply = some object → Json.parse? object = some v →
      (∃ members, v = .object members) ∧
      (∀ s, readReply d reply = .ok s ↔ ∃ told recommendations,
        Complete v told recommendations ∧ s = .trimmed told recommendations) ∧
      ((∃ e, readReply d reply = .error e) ↔
        ∀ told recommendations, ¬Complete v told recommendations)) ∧
    ∀ s, readReply d reply = .ok s →
      (∃ object v, firstObject? reply = some object ∧ Json.parse? object = some v) ∧
      (∀ text ∈ s.texts, Text.isAllBlank text = false) ∧ s.recommendations ≠ [] := by
  refine ⟨fun object v hobject hparse => ⟨?_, fun s => ?_, ?_⟩, fun s hs => ?_⟩
  · obtain ⟨inner, hinner⟩ := exists_of_firstObject? hobject
    exact Json.exists_members_of_parse? hinner hparse
  · rw [readReply_of_parse? hobject hparse, sectionsOf_eq_ok_iff]
  · rw [readReply_of_parse? hobject hparse, exists_error_iff]
  · obtain ⟨object, v, hobject, hparse⟩ := exists_parse?_of_readReply hs
    rw [readReply_of_parse? hobject hparse] at hs
    obtain ⟨told, recommendations, hcomplete, rfl⟩ := sectionsOf_eq_ok_iff.mp hs
    exact ⟨⟨object, v, hobject, hparse⟩, hcomplete.not_blank_trimmed⟩

/-- A complete reply, with blanks around its texts and a blank recommendation. -/
def tidyReply : Json :=
  .object [("risk_assessment", .string "low\n"), ("intent_summary", .string " Adds \x7btax\x7d"),
    ("refactoring_recommendations", .ofStrings ["  ", " Split it "]), ("score", .bool true),
    ("dependency_overview", .string "none \x7d")]

theorem complete_tidyReply :
    Complete tidyReply ⟨" Adds \x7btax\x7d", "none \x7d", "low\n"⟩ ["  ", " Split it "] where
  intent := rfl
  dependencies := rfl
  risk := rfl
  listed := rfl
  not_blank := by decide +kernel
  some_not_blank := by decide +kernel

theorem reply_accepted_tidyReply :
    firstObject? ("Sure:\n" ++ tidyReply.compact ++ "!") = some tidyReply.compact ∧
      Json.parse? tidyReply.compact = some tidyReply ∧
      readReply default ("Sure:\n" ++ tidyReply.compact ++ "!") =
        .ok ⟨⟨"Adds \x7btax\x7d", "none \x7d", "low"⟩, ["Split it"]⟩ ∧
      ∀ text ∈ ["Adds \x7btax\x7d", "none \x7d", "low", "Split it"],
        Text.isAllBlank text = false := by
  have hreadable : Json.Readable Json.maxDepth tidyReply := by
    refine .object fun m hm => ?_
    simp only [List.mem_cons, List.not_mem_nil, or_false] at hm
    obtain rfl | rfl | rfl | rfl | rfl := hm
    · exact .string _
    · exact .string _
    · exact Json.readable_ofStrings _
    · exact .bool true
    · exact .string _
  have hprose : '\x7b' ∉ "Sure:\n".toList := by decide +kernel
  have hobject := firstObject?_of_forms hprose (Json.forms_compact hreadable) "!"
  have hparse := Json.parse?_compact hreadable
  have htrimmed : Sections.trimmed ⟨" Adds \x7btax\x7d", "none \x7d", "low\n"⟩
      ["  ", " Split it "] = ⟨⟨"Adds \x7btax\x7d", "none \x7d", "low"⟩, ["Split it"]⟩ := by
    decide +kernel
  have haccepted := ((reply_accepted_iff_complete default _).1 _ _ hobject hparse).2.1 _ |>.mpr
    ⟨_, _, complete_tidyReply, htrimmed.symm⟩
  exact ⟨hobject, hparse, haccepted, ((reply_accepted_iff_complete _ _).2 _ haccepted).2.1⟩

end Dossier.Synthesis
