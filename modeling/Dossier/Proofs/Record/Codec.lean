import Dossier.Proofs.Json.Floats
import Dossier.Proofs.Json.Reading
import Dossier.Proofs.Record.Json
import Dossier.Report.Json
import Dossier.Store.Rows

/-!
# Records are read back from their texts

Three texts are made of records: the row of a table, the report of one record, and the report of
a list. They differ in layout, in the order of the members, and in that a report has one member
more; the records that can be kept are read back from all three
(`Dossier.Record.read_back_of_representable`).
-/

namespace Dossier

open Json (Readable Rearranges)

variable {depth : Nat}

/-! ### What is written can be read -/

namespace Json

/-- Moving members about does not make a value unreadable. -/
theorem Readable.rearrange {t : Json → Json} (ht : Rearranges t) {v : Json} (h : Readable depth v) :
    Readable depth (t v) := by
  induction h with
  | null => rw [ht.null]; exact .null
  | bool b => rw [ht.bool]; exact .bool b
  | int h => rw [ht.int]; exact .int h
  | float h => rw [ht.float]; exact .float h
  | string s => rw [ht.string]; exact .string s
  | array _ ih => rw [ht.array]; exact .array (List.forall_mem_map.mpr ih)
  | @object _ ms _ ih =>
    obtain ⟨ms', heq, hperm⟩ := ht.object ms
    rw [heq]
    refine .object fun m hm => ?_
    obtain ⟨k, hk, rfl⟩ := List.mem_map.mp (hperm.mem_iff.mp hm)
    exact ih k hk

theorem readable_ofDouble {x : Float} (h : x.isFinite) : Readable depth (.ofDouble x) := by
  rw [ofDouble, if_pos h]
  exact .float (isNumeral_write h)

end Json

theorem FunctionRef.readable (f : FunctionRef) : Readable (depth + 1) f.toJson :=
  .object (by simp [Readable.string])

theorem Narrative.readable (n : Narrative) : Readable (depth + 1) n.toJson :=
  .object (by simp [Readable.string])

theorem Dependencies.readable {d : Dependencies} (h : d.impactSize < UInt64.size) :
    Readable (depth + 2) d.toJson :=
  .object (by simp [Json.readable_ofStrings, Json.readable_ofNat h])

theorem Metrics.Bounded.readable {m : Metrics} (h : m.Bounded) : Readable (depth + 1) m.toJson :=
  .object (by
    simp [Json.readable_ofNat_of_lt h.complexity, Json.readable_ofNat_of_lt h.codeLines,
      Json.readable_ofNat_of_lt h.parameters, Json.readable_ofNat_of_lt h.modifications,
      Json.readable_ofNat_of_lt h.callSites])

theorem CommitDigest.readable {c : CommitDigest} (h : IsSigned64 c.timestamp) :
    Readable (depth + 2) c.toJson := by
  have htime : Json.IsInt64 c.timestamp := ⟨h.1, h.2.trans (by decide)⟩
  refine .object ?_
  rw [Json.optionalStrings]
  split <;> simp [Readable.string, Readable.int htime, Json.readable_ofStrings]

theorem SynthesisStatus.readable (s : SynthesisStatus) : Readable (depth + 1) s.toJson := by
  cases s <;> exact .object (by simp [Readable.string])

theorem Degradation.readable (d : Degradation) : Readable (depth + 1) d.toJson :=
  .object (by simp [Readable.string])

namespace Record

/-- **All members of a record that can be kept are readable**, and nested three deep. -/
theorem Representable.readable_members {r : Record} (h : r.Representable) :
    ∀ m ∈ r.members, Readable (depth + 3) m.2 := by
  have hcommits : Readable (depth + 3) (.array (r.commits.map CommitDigest.toJson)) :=
    .array (List.forall_mem_map.mpr fun c hc => CommitDigest.readable (h.timestamps c hc))
  have hdegradations : Readable (depth + 3) (.array (r.degradations.map Degradation.toJson)) :=
    .array (List.forall_mem_map.mpr fun d _ => d.readable)
  simp [members, r.function.readable, r.narrative.readable, Dependencies.readable h.impactSize,
    h.metrics.readable, Json.readable_ofDouble h.score, Readable.string, Json.readable_ofStrings,
    hcommits, r.synthesis.readable, hdegradations, Json.readable_ofNat_of_lt h.formatVersion]

theorem Representable.readable {r : Record} (h : r.Representable) : Readable (depth + 4) r.toJson :=
  .object h.readable_members

/-- A record is read back from its value. -/
theorem Representable.ofJson?_toJson {r : Record} (h : r.Representable) :
    ofJson? r.toJson = some r := by
  have hread : ofJson? (.object (r.members ++ [])) = some r :=
    ofJson?_members Json.rearranges_id h nofun
  rwa [List.append_nil] at hread

/-! ### The three texts -/

/-- **A record is read back from its row.** -/
theorem Representable.toRecord_ofRecord {r : Record} (h : r.Representable) :
    (Row.ofRecord r).toRecord = .ok r := by
  have hparse : Json.parse? (Row.ofRecord r).record = some r.toJson :=
    Json.parse?_compact h.readable
  rw [Row.toRecord, hparse, Option.bind_some, h.ofJson?_toJson]

/-- The report of a record has members in another order and one that is no field. -/
theorem Representable.parse?_json {r : Record} (h : r.Representable) :
    (Json.parse? (Report.json r)).bind ofJson? = some r := by
  have hreadable : Readable Json.maxDepth
      (.object (r.members ++ [("fully_analyzed", .bool r.isFullyAnalyzed)])) := by
    refine .object (List.forall_mem_append.mpr ⟨h.readable_members, ?_⟩)
    simp [Readable.bool]
  rw [Report.json, Json.parse?_pretty (hreadable.rearrange Json.rearranges_sortKeys),
    Option.bind_some]
  have hname : "fully_analyzed" ∉ fieldRules.map Prod.fst := by decide
  refine ofJson?_members Json.rearranges_sortKeys h fun m hm => ?_
  rw [List.mem_singleton.mp hm]
  exact hname

theorem parse?_jsonList {rs : List Record} (h : ∀ r ∈ rs, r.Representable) :
    (Json.parse? (Report.jsonList rs)).bind (Json.list? ofJson?) = some rs := by
  have hreadable : Readable Json.maxDepth (.array (rs.map toJson)) :=
    .array (List.forall_mem_map.mpr fun r hr => (h r hr).readable)
  have hlist := Json.rearranges_id.list?_array fun r hr => (h r hr).ofJson?_toJson
  rw [List.map_id'] at hlist
  rw [Report.jsonList, Json.parse?_pretty hreadable, Option.bind_some, hlist]

/-- **The codec loses nothing.** A record that can be kept is read back from its row and from its
report, and a list of such records from its report. -/
theorem read_back_of_representable :
    (∀ r : Record, r.Representable →
      (Row.ofRecord r).toRecord = .ok r ∧ (Json.parse? (Report.json r)).bind ofJson? = some r) ∧
    ∀ rs : List Record, (∀ r ∈ rs, r.Representable) →
      (Json.parse? (Report.jsonList rs)).bind (Json.list? ofJson?) = some rs :=
  ⟨fun _ h => ⟨h.toRecord_ofRecord, h.parse?_json⟩, fun _ h => parse?_jsonList h⟩

/-- A record with a commit and a degradation, made in a leap second. -/
def leapRecord (score : Float) : Record where
  function := ⟨"repo", "src/a.py", "f", "abc:0123"⟩
  narrative := ⟨"says \"hi\"\n", "\\", "\u0007"⟩
  dependencies := ⟨["a.py::g"], [], 18446744073709551615⟩
  metrics := ⟨1, 2, 0, 4294967295, 3⟩
  score := score
  risk := .high
  recommendations := ["split it"]
  commits := [⟨"c0ffee", "ann", -9223372036854775808, "fix", ["#1"]⟩]
  synthesis := .incomplete "no reply"
  degradations := [⟨.synthesis, "no reply"⟩]
  createdAt := ⟨⟨2016, 12, 31⟩, 86399, 1500000000⟩
  formatVersion := 1

theorem leapRecord_representable {score : Float} (h : score.isFinite) :
    (leapRecord score).Representable where
  metrics := by constructor <;> (dsimp only [leapRecord]; decide)
  impactSize := by dsimp only [leapRecord]; decide
  score := h
  timestamps c hc := by
    rw [List.mem_singleton.mp hc]
    exact ⟨by decide, by decide⟩
  createdAt := by constructor <;> (dsimp only [leapRecord]; decide)
  formatVersion := by dsimp only [leapRecord]; decide

theorem read_back_of_leapRecord :
    (leapRecord 0.1).Representable ∧
      (Row.ofRecord (leapRecord 0.1)).toRecord = .ok (leapRecord 0.1) ∧
      (Json.parse? (Report.json (leapRecord 0.1))).bind ofJson? = some (leapRecord 0.1) ∧
      (Json.parse? (Report.jsonList [leapRecord 0.1, leapRecord 2])).bind (Json.list? ofJson?) =
        some [leapRecord 0.1, leapRecord 2] := by
  have htenth := leapRecord_representable (show (0.1 : Float).isFinite by decide)
  have htwo := leapRecord_representable (show (2 : Float).isFinite by decide)
  have hone := read_back_of_representable.1 (leapRecord 0.1) htenth
  have hlist := read_back_of_representable.2 [leapRecord 0.1, leapRecord 2]
    (List.forall_mem_cons.mpr ⟨htenth, List.forall_mem_cons.mpr ⟨htwo, nofun⟩⟩)
  exact ⟨htenth, hone.1, hone.2, hlist⟩

end Record

end Dossier
