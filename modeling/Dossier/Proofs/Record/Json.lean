import Dossier.Proofs.Json.Fields
import Dossier.Proofs.Json.Numerals
import Dossier.Proofs.Time.Instant
import Dossier.Record.Json

/-!
# Records are read back from JSON values

What is written of a structure is an object with a member for every field, and each field is read
in the way it is written: texts as they are, numbers in the width in which they are kept, a list
that may be left out when it is empty. So every structure in a record is read back from its value,
with the members of all objects in any order, and so is the record
(`Dossier.Record.ofJson?_members`), if it is one that can be kept at all
(`Dossier.Record.Representable`).
-/

namespace Dossier

open Json (Rearranges namedFields?)

variable {t : Json → Json}

namespace FunctionRef

theorem ofJson?_toJson (ht : Rearranges t) (f : FunctionRef) : ofJson? (t f.toJson) = some f := by
  rw [toJson, ofJson?, ht.fields?_object]
  simp [namedFields?, ht.string, Json.string?]

end FunctionRef

namespace Narrative

theorem ofJson?_toJson (ht : Rearranges t) (n : Narrative) : ofJson? (t n.toJson) = some n := by
  rw [toJson, ofJson?, ht.fields?_object]
  simp [namedFields?, ht.string, Json.string?]

end Narrative

namespace Dependencies

theorem ofJson?_toJson (ht : Rearranges t) {d : Dependencies} (h : d.impactSize < UInt64.size) :
    ofJson? (t d.toJson) = some d := by
  rw [toJson, ofJson?, ht.fields?_object]
  simp [namedFields?, ht.strings?_ofStrings, ht.nat64?_ofNat h]

end Dependencies

namespace Metrics

/-- Whether all figures have thirty-two bits. -/
structure Bounded (m : Metrics) : Prop where
  complexity : m.complexity < UInt32.size
  codeLines : m.codeLines < UInt32.size
  parameters : m.parameters < UInt32.size
  modifications : m.modifications < UInt32.size
  callSites : m.callSites < UInt32.size

theorem ofJson?_toJson (ht : Rearranges t) {m : Metrics} (h : m.Bounded) :
    ofJson? (t m.toJson) = some m := by
  rw [toJson, ofJson?, ht.fields?_object]
  simp [namedFields?, ht.nat32?_ofNat h.complexity, ht.nat32?_ofNat h.codeLines,
    ht.nat32?_ofNat h.parameters, ht.nat32?_ofNat h.modifications, ht.nat32?_ofNat h.callSites]

end Metrics

/-- Whether an integer has sixty-four bits with a sign. -/
def IsSigned64 (i : Int) : Prop :=
  -Decimal.signedLimit ≤ i ∧ i < Decimal.signedLimit

namespace CommitDigest

theorem ofJson?_toJson (ht : Rearranges t) {c : CommitDigest} (h : IsSigned64 c.timestamp) :
    ofJson? (t c.toJson) = some c := by
  have hsigned : (t (.int c.timestamp)).int64? = some c.timestamp := by
    rw [ht.int, Json.int64?, Decimal.signed?]
    exact if_pos h
  rw [toJson, ofJson?, ht.fields?_object, Json.optionalStrings]
  rcases hissues : c.issueIds with _ | ⟨issue, issues⟩
  · simp [namedFields?, ht.string, Json.string?, Json.strings?, Json.list?, hsigned, ← hissues]
  · have hstrings : (t (.ofStrings (issue :: issues))).strings? = some c.issueIds := by
      rw [ht.strings?_ofStrings, hissues]
    simp [namedFields?, ht.string, Json.string?, hstrings, hsigned]

end CommitDigest

namespace Degradation

theorem ofJson?_toJson (ht : Rearranges t) (d : Degradation) : ofJson? (t d.toJson) = some d := by
  rw [toJson, ofJson?, ht.fields?_object]
  simp [namedFields?, ht.string, Json.string?, Json.choice?, Stage.ofName?_name]

end Degradation

namespace Risk

theorem ofJson?_name (ht : Rearranges t) (r : Risk) : ofJson? (t (.string r.name)) = some r := by
  rw [ht.string, ofJson?, Json.choice?]
  cases r <;> decide +kernel

end Risk

namespace SynthesisStatus

theorem ofJson?_toJson (ht : Rearranges t) (s : SynthesisStatus) :
    ofJson? (t s.toJson) = some s := by
  cases s with
  | complete =>
    obtain ⟨ms, heq, hperm⟩ := ht.object [("status", .string "complete")]
    obtain rfl := List.perm_singleton.mp hperm
    rw [toJson, heq, ofJson?]
    simp [ht.string]
  | incomplete reason =>
    obtain ⟨ms, heq, hperm⟩ := ht.object [("status", .string "partial"), ("reason", .string reason)]
    have hstatus := List.perm_singleton.mp (hperm.filter fun m => m.1 == "status")
    have hrest := List.perm_singleton.mp (hperm.filter fun m => m.1 != "status")
    rw [toJson, heq, ofJson?, hstatus, hrest]
    simp [ht.string, Json.fields?, namedFields?]

end SynthesisStatus

namespace Record

/-- **Whether a record is one that can be kept**: its numbers have the widths in which they are
kept, its score is a number, and it was made at an instant of universal time. -/
structure Representable (r : Record) : Prop where
  metrics : r.metrics.Bounded
  impactSize : r.dependencies.impactSize < UInt64.size
  score : r.score.isFinite
  timestamps : ∀ c ∈ r.commits, IsSigned64 c.timestamp
  createdAt : r.createdAt.IsValid
  formatVersion : r.formatVersion < UInt32.size

/-- **A record is read of its members**, whatever order they are in and whatever else is there. -/
theorem ofJson?_members (ht : Rearranges t) {r : Record} (h : r.Representable)
    {extra : List (String × Json)} (hextra : ∀ m ∈ extra, m.1 ∉ fieldRules.map Prod.fst) :
    ofJson? (t (.object (r.members ++ extra))) = some r := by
  have hcommits := ht.list?_array fun c hmem => CommitDigest.ofJson?_toJson ht (h.timestamps c hmem)
  have hdegradations := ht.list?_array fun d (_ : d ∈ r.degradations) =>
    Degradation.ofJson?_toJson ht d
  rw [List.map_id'] at hcommits hdegradations
  have hscore : (t (.ofDouble r.score)).double? = some r.score := by
    rw [Json.ofDouble, if_pos h.score, ht.float]
    rfl
  have hcreated : (t (.string r.createdAt.write)).string? = some r.createdAt.write := by
    rw [ht.string]
    rfl
  have hextra' : ∀ m ∈ extra.map fun m => (m.1, t m.2), m.1 ∉ fieldRules.map Prod.fst := by
    intro m hm
    obtain ⟨k, hk, rfl⟩ := List.mem_map.mp hm
    exact hextra k hk
  have hfields : namedFields? (r.members.map fun m => (m.1, t m.2)) fieldRules =
      some ((r.members.map fun m => (m.1, t m.2)).map fun m => some m.2) :=
    Json.namedFields?_of_names (by decide) rfl
  rw [ofJson?, ht.fields?_object, List.map_append, Json.namedFields?_append hextra', hfields]
  -- All fields are there, so that they are read one after another.
  change (FunctionRef.ofJson? (t r.function.toJson)).bind _ = _
  simp only [Option.bind_eq_bind, Option.bind_some, Option.getD_some, FunctionRef.ofJson?_toJson ht,
    Narrative.ofJson?_toJson ht, Dependencies.ofJson?_toJson ht h.impactSize,
    Metrics.ofJson?_toJson ht h.metrics,
    hscore, Risk.ofJson?_name ht, ht.strings?_ofStrings, hcommits,
    SynthesisStatus.ofJson?_toJson ht, hdegradations, hcreated, Instant.read?_write h.createdAt,
    ht.nat32?_ofNat h.formatVersion]
  rfl

end Record

end Dossier
