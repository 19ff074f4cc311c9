import Dossier.Analysis.Findings
import Dossier.Freshness

/-!
# Answering requests

A request is answered by the record that is stored for what it looks at, if that is young
enough. Otherwise the history and the structure of the function are looked into, each for
itself, the model is asked for a narrative, and the record is stored.

Only the structure has to be known. A failure of any other kind is passed over, and the
record says so. A request that is cancelled leaves nothing behind, and neither does one that
waits for a model which does not return.
-/

namespace Dossier.Analysis

variable {σ τ : Type} [RecordStore σ] [ArtifactStore τ]

/-- What comes of a request. -/
structure Outcome (σ τ : Type) where
  /-- The stores afterwards. -/
  stores : Stores σ τ
  reply : Reply AnalysisError Record
  /-- How often the model was called. -/
  modelCalls : Nat
  /-- What the model was asked, if it was. -/
  prompt : Option Synthesis.Prompt
  /-- The stages that were entered, in order. -/
  stages : List Stage

/-! ### Looking up -/

/-- What is found in the store. -/
inductive Lookup where
  /-- A record that answers the request. -/
  | hit (record : Record)
  | miss (remarks : List Degradation)
  /-- The store does not return. -/
  | stuck
deriving Repr, Inhabited

/-- **Looks for a record** that answers the request. -/
def lookUp (k : Conditions) (now : Instant) (records : σ) (f : FunctionRef) : Lookup :=
  match RecordStore.get records f.recordKey with
  | .stall => .stuck
  | .failure e => .miss [⟨.cache, e.text⟩]
  | .answer none => .miss []
  | .answer (some r) =>
    match Freshness.of r.createdAt now r.function.fingerprint f.fingerprint k.lifetime with
    | .hit => .hit r
    | _ => .miss []

/-! ### Looking into a function -/

/-- The commits that touched the function, or why they are not known. -/
def historyStage (k : Conditions) (c : Circumstances) (file function revision : String) :
    Except AnalysisError (List Commit) :=
  k.finish .history (History.collect (c.versionControl .history) file function revision)

/-- The structure around the function, or why it is not known. -/
def structureStage (k : Conditions) (tree : SourceTree) (file function : String) :
    Except AnalysisError Structure.Analysis :=
  match k.finish .structure (Structure.analyze tree k.filter file function) with
  | .ok result => result
  | .error e => .error e

/-- The commits, when it is no matter why they are not known. -/
def commitsOf : Except AnalysisError (List Commit) → List Commit
  | .ok commits => commits
  | .error _ => []

/-- The remark on commits that are not known. -/
def historyRemarks : Except AnalysisError (List Commit) → List Degradation
  | .ok _ => []
  | .error e => [⟨.history, e.text⟩]

/-- **What is found about a function**, unless its structure is not known. -/
def investigate (k : Conditions) (c : Circumstances) (s : Snapshot) (f : FunctionRef)
    (file : String) (remarks : List Degradation) : Except AnalysisError Findings :=
  match structureStage k s.tree file f.functionName with
  | .error e => .error e.asUnavailable
  | .ok structural =>
    let history := historyStage k c file f.functionName s.revision
    .ok {
      function := f
      structural := structural
      commits := commitsOf history
      remarks :=
        remarks ++ structural.notes.map (fun note => ⟨.structure, note⟩) ++
          historyRemarks history }

/-! ### Storing -/

/-- Stores artifacts one after another. What cannot be stored is remarked on; without any
remarks at all, the store does not return. -/
def putArtifacts (f : FunctionRef) :
    List (ArtifactKind × List UInt8) → τ → τ × Option (List Degradation)
  | [], t => (t, some [])
  | (kind, content) :: rest, t =>
    let key := ArtifactKey.ofContent f.repositoryId kind f.key content
    match ArtifactStore.put t key content with
    | (t, .stall) => (t, none)
    | (t, .answer ()) => putArtifacts f rest t
    | (t, .failure e) =>
      let later := putArtifacts f rest t
      let remark : Degradation := ⟨.persist, "artifact " ++ key.text ++ ": " ++ e.text⟩
      (later.1, later.2.map fun remarks => remark :: remarks)

/-- A record with more remarks. -/
def withRemarks (r : Record) (remarks : List Degradation) : Record :=
  { r with degradations := r.degradations ++ remarks }

/-- **Stores artifacts and a record**, and gives the record with what went wrong. What goes
wrong with the record itself is not in the store. -/
def persist (artifacts : List (ArtifactKind × List UInt8)) (r : Record) (s : Stores σ τ) :
    Stores σ τ × Reply AnalysisError Record :=
  match putArtifacts r.function artifacts s.artifacts with
  | (t, none) => (⟨s.records, t⟩, .stall)
  | (t, some remarks) =>
    let r := withRemarks r remarks
    match RecordStore.put s.records r with
    | (records, .answer ()) => (⟨records, t⟩, .answer r)
    | (records, .failure e) => (⟨records, t⟩, .answer (withRemarks r [⟨.persist, e.text⟩]))
    | (records, .stall) => (⟨records, t⟩, .stall)

/-! ### Answering -/

/-- Whether a request gets no further than a call of the model: it is cancelled during the
call, or the call does not return. -/
def Circumstances.endsDuring (c : Circumstances) (call : Nat) : Bool :=
  c.cancelledDuring call || c.modelStalls call

/-- What comes back from a request that gets no further than a call of the model. -/
def Circumstances.replyDuring (c : Circumstances) (call : Nat) : Reply AnalysisError Record :=
  if c.cancelledDuring call then .failure .cancelled else .stall

/-- What comes of asking the model. -/
def Circumstances.asked (c : Circumstances) (k : Conditions) : Synthesis.Asked :=
  Synthesis.ask c.decoder k.retry c.model

/-- Makes a record of what was found, and stores it. -/
def conclude (k : Conditions) (c : Circumstances) (f : Findings) (s : Stores σ τ) :
    Outcome σ τ :=
  let prompt := f.prompt k
  let asked := c.asked k
  let stages := [Stage.cache, .history, .structure, .synthesis]
  match (List.range asked.attempts).find? c.endsDuring with
  | some call => ⟨s, c.replyDuring call, call + 1, some prompt, stages⟩
  | none =>
    let stored := persist f.artifacts (f.record k asked c.createdAt) s
    ⟨stored.1, stored.2, asked.attempts, some prompt, stages ++ [.persist]⟩

/-- The function that a request is about, as a snapshot names it. -/
def functionOf (c : Circumstances) (r : Request) (file : String) (s : Snapshot) : FunctionRef :=
  .of (repositoryAt c.files r.root) file r.function s.fingerprint

/-- **Answers a request.** -/
def analyze (k : Conditions) (c : Circumstances) (r : Request) (s : Stores σ τ) : Outcome σ τ :=
  if c.cancelled then ⟨s, .failure .cancelled, 0, none, []⟩
  else
    let file := Path.normalize r.file
    let snapshot := Snapshot.take k c r file
    let function := functionOf c r file snapshot
    match lookUp k c.lookedUpAt s.records function with
    | .stuck => ⟨s, .stall, 0, none, [.cache]⟩
    | .hit record => ⟨s, .answer record, 0, none, [.cache]⟩
    | .miss remarks =>
      match investigate k c snapshot function file (snapshot.remarks ++ remarks) with
      | .error e => ⟨s, .failure e, 0, none, [.cache, .history, .structure]⟩
      | .ok findings => conclude k c findings s

/-- **The stored records of a function** of a repository, oldest first. -/
def history (records : σ) (repositoryId function : String) : Reply AnalysisError (List Record) :=
  match RecordStore.history records repositoryId function with
  | .answer rs => .answer rs
  | .failure e => .failure (.cache e)
  | .stall => .stall

end Dossier.Analysis
