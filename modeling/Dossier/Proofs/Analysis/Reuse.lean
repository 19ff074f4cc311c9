import Dossier.Proofs.Analysis.Run

/-!
# Answers from the store

A record that is read under the key of a request, bears its fingerprint and is young enough
is the answer, and the request does nothing but read it. Once a request has stored a record,
the same record therefore answers all later requests with the same key, for as long as it is
young enough. Nothing can come between: everyone who asks for the record in the meantime is
answered with it and puts nothing in its place, and everyone else puts records under other
keys.

Three things are taken for granted, and all are needed. The clock does not go backwards, or the
record could be too old for someone in between, who replaces it, and young again later on. The
store keeps what it is given. And those who ask for the record get to read the store, or they would
make a record of their own (`Dossier.Analysis.not_answered_from_store`).
-/

namespace Dossier.Analysis

variable {σ τ : Type} {k : Conditions} {held : σ → RecordKey → Option Record}

/-- The times at which a request reads the clock. -/
def Occasion.clock (o : Occasion σ τ) : List Instant :=
  [o.circumstances.lookedUpAt, o.circumstances.createdAt]

/-- **A clock that does not go backwards** along a run, and knows no leap seconds. -/
structure Chronological (os : List (Occasion σ τ)) : Prop where
  isPlain : ∀ o ∈ os, ∀ t ∈ o.clock, t.IsPlain
  ordered : (os.flatMap Occasion.clock).Pairwise fun t u => t.ticks ≤ u.ticks

/-- Whether all those along a run who ask for a key, and are not cancelled, get to read the
store. -/
def Readable (k : Conditions) (os : List (Occasion σ τ)) (s : Stores σ τ) (key : RecordKey) :
    Prop :=
  ∀ before e after, os = before ++ e :: after → e.key k = key →
    e.circumstances.cancelled = false →
      ∃ found, e.recordStore.get (run k before s).records key = .answer found

/-- **A request makes a record and stores it**: the store has acknowledged it. -/
structure Occasion.Stored (k : Conditions) (o : Occasion σ τ) (s : Stores σ τ) (r : Record) :
    Prop where
  made : o.made? k s = some r
  acknowledged : (o.recordStore.put s.records r).2 = .answer ()

/-! ### The clock -/

/-- A request looks for a record no later than the ones after it. -/
theorem Chronological.lookedUpAt_le {os before after : List (Occasion σ τ)} {e q : Occasion σ τ}
    (h : Chronological os) (hos : os = before ++ e :: after) (hq : q ∈ after) :
    e.circumstances.lookedUpAt.ticks ≤ q.circumstances.lookedUpAt.ticks := by
  have hordered := h.ordered
  rw [hos, List.flatMap_append, List.flatMap_cons] at hordered
  obtain ⟨-, htail, -⟩ := List.pairwise_append.mp hordered
  obtain ⟨-, -, hcross⟩ := List.pairwise_append.mp htail
  exact hcross _ (by simp [Occasion.clock]) _
    (List.mem_flatMap.mpr ⟨q, hq, by simp [Occasion.clock]⟩)

/-- While a record is young enough for a request, it is young enough for those before it. -/
theorem Chronological.since_lt {os before after : List (Occasion σ τ)} {o e q : Occasion σ τ}
    (h : Chronological os) (hos : os = before ++ e :: after) (ho : o ∈ os) (hq : q ∈ after)
    (hage : q.circumstances.lookedUpAt.since o.circumstances.createdAt < k.lifetime) :
    e.circumstances.lookedUpAt.since o.circumstances.createdAt < k.lifetime := by
  have hcreated := h.isPlain o ho o.circumstances.createdAt (by simp [Occasion.clock])
  have he := h.isPlain e (by simp [hos]) e.circumstances.lookedUpAt (by simp [Occasion.clock])
  have hq' := h.isPlain q (by simp [hos, hq]) q.circumstances.lookedUpAt (by simp [Occasion.clock])
  exact (Instant.since_mono hcreated he hq' (h.lookedUpAt_le hos hq)).trans_lt hage

/-- Only the times count. -/
theorem Chronological.of_clock {os os' : List (Occasion σ τ)}
    (h : Chronological os) (hclock : os'.map Occasion.clock = os.map Occasion.clock) :
    Chronological os' where
  isPlain o ho t ht := by
    have hmem : o.clock ∈ os.map Occasion.clock := hclock ▸ List.mem_map_of_mem ho
    obtain ⟨e, he, heq⟩ := List.mem_map.mp hmem
    exact h.isPlain e he t (heq ▸ ht)
  ordered := by
    have hordered := h.ordered
    rwa [List.flatMap_def, ← hclock, ← List.flatMap_def] at hordered

/-! ### From one request to a later one -/

namespace Occasion

variable {o : Occasion σ τ} {s : Stores σ τ} {r : Record}

/-- A record that is there answers those who get to read it while it is young enough. -/
theorem hits_of_held (hf : Faithful o.recordStore held) (hc : o.circumstances.cancelled = false)
    (hread : ∃ found, o.recordStore.get s.records (o.key k) = .answer found)
    (hheld : held s.records (o.key k) = some r) (hkey : r.key = o.key k)
    (hage : o.circumstances.lookedUpAt.since r.createdAt < k.lifetime) : o.Hits k s r := by
  obtain ⟨found, hget⟩ := hread
  have hfound : found = some r := (hf.get_eq hget).trans hheld
  have hfingerprint : r.function.fingerprint = (o.snapshot k).fingerprint :=
    congrArg RecordKey.fingerprint hkey
  exact hits_iff.mpr ⟨hc, hfound ▸ hget, hfingerprint, hage⟩

/-- What a request has stored is there. -/
theorem Stored.is_held (h : o.Stored k s r) (hf : Faithful o.recordStore held) :
    held (o.outcome k s).stores.records (o.key k) = some r := by
  rw [o.outcome_records, h.made, ← key_of_made h.made]
  exact hf.put_acknowledged h.acknowledged

/-- What a request has stored is what it answers. -/
theorem Stored.reply (h : o.Stored k s r) : (o.outcome k s).reply = .answer r := by
  rw [outcome_reply_of_made h.made, h.acknowledged]
  rfl

end Occasion

/-- **A record that was stored is there for a later request**, which is answered with it. -/
theorem hits_of_stored {between : List (Occasion σ τ)} {o q : Occasion σ τ} {s : Stores σ τ}
    {r : Record} (hstored : o.Stored k s r) (hclock : Chronological (o :: (between ++ [q])))
    (hf : ∀ e ∈ o :: (between ++ [q]), Faithful e.recordStore held)
    (hread : Readable k (between ++ [q]) (o.outcome k s).stores (o.key k))
    (hkey : q.key k = o.key k) (hc : q.circumstances.cancelled = false)
    (hage : q.circumstances.lookedUpAt.since r.createdAt < k.lifetime) :
    q.Hits k (run k between (o.outcome k s).stores) r := by
  have hrkey : r.key = o.key k := Occasion.key_of_made hstored.made
  have hcreated : r.createdAt = o.circumstances.createdAt :=
    (Occasion.made?_eq_some hstored.made).2.2.2.1
  -- Those in between who ask for the record are answered with it, so it is still there.
  have hheld : held (run k between (o.outcome k s).stores).records (o.key k) = some r := by
    have hfirst := hstored.is_held (hf o (by simp))
    refine held_run_of_settled (fun e he => hf e (by simp [he])) hfirst ?_
    intro before e after hbetween hthere he
    rcases Bool.eq_false_or_eq_true e.circumstances.cancelled with hec | hec
    · exact Or.inl hec
    · right
      have hsplit : o :: (between ++ [q]) = (o :: before) ++ e :: (after ++ [q]) := by
        simp [hbetween]
      have hyoung : e.circumstances.lookedUpAt.since r.createdAt < k.lifetime := by
        rw [hcreated] at hage ⊢
        exact hclock.since_lt hsplit (by simp) (by simp) hage
      rw [← he] at hthere
      refine Occasion.hits_of_held (hf e (by simp [hbetween])) hec ?_ hthere (hrkey.trans he.symm)
        hyoung
      rw [he]
      exact hread before e (after ++ [q]) (by simp [hbetween]) he hec
  rw [← hkey] at hheld
  refine Occasion.hits_of_held (hf q (by simp)) hc ?_ hheld (hrkey.trans hkey.symm) hage
  rw [hkey]
  exact hread between q [] rfl hkey hc

/-- A record that has just been put into memory answers the next request with its key. -/
theorem hits_of_made_in_memory {o q : Occasion MemoryStore τ} {s : Stores MemoryStore τ}
    {r : Record} (ho : o.recordStore = MemoryStore.instRecordStore)
    (hq : q.recordStore = MemoryStore.instRecordStore) (hmade : o.made? k s = some r)
    (hkey : q.key k = o.key k) (hc : q.circumstances.cancelled = false)
    (hage : q.circumstances.lookedUpAt.since o.circumstances.createdAt < k.lifetime) :
    q.Hits k (run k [o] s) r := by
  have hstored : o.Stored k s r := ⟨hmade, by rw [ho]; rfl⟩
  have hheld := hstored.is_held (ho ▸ MemoryStore.faithful)
  rw [← hkey] at hheld
  refine Occasion.hits_of_held (hq ▸ MemoryStore.faithful) hc ?_ hheld
    ((Occasion.key_of_made hmade).trans hkey.symm) ?_
  · rw [hq]
    exact ⟨_, rfl⟩
  · rw [(Occasion.made?_eq_some hmade).2.2.2.1]
    exact hage

/-- **A stored record is the answer, and the whole answer.** First, whenever the record that is
read under the key of a request bears its fingerprint and is young enough, the request is
answered with that very record: it enters no stage but the first, calls no model, and leaves
both stores as they are. Second, once a request has stored a record, this is what happens to
every later request with the same key while the record is young enough, whatever requests come
in between. -/
theorem answered_from_store (k : Conditions) (held : σ → RecordKey → Option Record) :
    (∀ (o : Occasion σ τ) (s : Stores σ τ) (r : Record), o.circumstances.cancelled = false →
      o.recordStore.get s.records (o.key k) = .answer (some r) →
      r.function.fingerprint = (o.snapshot k).fingerprint →
      o.circumstances.lookedUpAt.since r.createdAt < k.lifetime →
      o.outcome k s = ⟨s, .answer r, 0, none, [.cache]⟩) ∧
    (∀ (before between : List (Occasion σ τ)) (o q : Occasion σ τ) (s : Stores σ τ) (r : Record),
      o.Stored k (run k before s) r →
      Chronological (o :: (between ++ [q])) →
      (∀ e ∈ o :: (between ++ [q]), Faithful e.recordStore held) →
      Readable k (between ++ [q]) (run k (before ++ [o]) s) (o.key k) →
      q.key k = o.key k → q.circumstances.cancelled = false →
      q.circumstances.lookedUpAt.since r.createdAt < k.lifetime →
      (o.outcome k (run k before s)).reply = .answer r ∧
        q.outcome k (run k (before ++ o :: between) s) =
          ⟨run k (before ++ o :: between) s, .answer r, 0, none, [.cache]⟩) := by
  constructor
  · intro o s r hc hget hfingerprint hage
    exact Occasion.outcome_of_hits (Occasion.hits_iff.mpr ⟨hc, hget, hfingerprint, hage⟩)
  · intro before between o q s r hstored hclock hf hread hkey hc hage
    rw [run_append] at hread
    refine ⟨hstored.reply, ?_⟩
    rw [run_append, run_cons]
    exact Occasion.outcome_of_hits (hits_of_stored hstored hclock hf hread hkey hc hage)

/-- Records in memory can be read by everyone. -/
theorem readable_of_memory {os : List (Occasion MemoryStore τ)}
    (hos : ∀ o ∈ os, o.recordStore = MemoryStore.instRecordStore) (k : Conditions)
    (s : Stores MemoryStore τ) (key : RecordKey) : Readable k os s key := by
  rintro before e after rfl - -
  rw [hos e (by simp)]
  exact ⟨_, rfl⟩

/-- A request about a clean working tree that meets some store of records. -/
def sampleStored (i : RecordStore MemoryStore) (second : Nat) :
    Occasion MemoryStore MemoryArtifacts :=
  { sampleClean second with recordStore := i }

theorem chronological_sampleStored (i : RecordStore MemoryStore) :
    Chronological [sampleStored i 0, sampleStored i 1] := by
  constructor
  · simp [Occasion.clock, Instant.IsPlain, sampleStored, sampleClean, sampleVisit,
      Instant.nanosPerSecond]
  · simp [Occasion.clock, Instant.ticks, sampleStored, sampleClean, sampleVisit,
      Instant.nanosPerSecond]

/-- An unchanged file is asked about twice, and the second answer is the record of the first;
so it is when the record has come into the store in another way. -/
theorem answered_from_store_twice :
    ∃ r, (sampleClean 0).Stored sampleConditions sampleStores r ∧
      ((sampleClean 0).outcome sampleConditions sampleStores).reply = .answer r ∧
      (sampleClean 1).outcome sampleConditions (run sampleConditions [sampleClean 0] sampleStores) =
        ⟨run sampleConditions [sampleClean 0] sampleStores, .answer r, 0, none, [.cache]⟩ ∧
      (sampleClean 1).outcome sampleConditions ⟨⟨[r]⟩, .empty⟩ =
        ⟨⟨⟨[r]⟩, .empty⟩, .answer r, 0, none, [.cache]⟩ := by
  obtain ⟨r, hr⟩ := exists_made_sampleClean
  have hcreated : r.createdAt = ⟨⟨2024, 1, 1⟩, 0, 0⟩ := (Occasion.made?_eq_some hr).2.2.2.1
  have hkey : (sampleClean 1).key sampleConditions = (sampleClean 0).key sampleConditions := rfl
  have hage : (sampleClean 1).circumstances.lookedUpAt.since r.createdAt <
      sampleConditions.lifetime := by
    rw [hcreated]
    decide
  have hclock : Chronological [sampleClean 0, sampleClean 1] :=
    chronological_sampleStored MemoryStore.instRecordStore
  have h0 : (sampleClean 0).recordStore = MemoryStore.instRecordStore := rfl
  have h1 : (sampleClean 1).recordStore = MemoryStore.instRecordStore := rfl
  have hc : (sampleClean 1).circumstances.cancelled = false := rfl
  -- Nothing else is known of the two occasions, so that nothing is computed from here on.
  generalize sampleClean 0 = o, sampleClean 1 = q at *
  have hstored : o.Stored sampleConditions sampleStores r := ⟨hr, by rw [h0]; rfl⟩
  have hf : ∀ e ∈ [o, q], Faithful e.recordStore MemoryStore.get? := by
    simp [h0, h1, MemoryStore.faithful]
  have hread : Readable sampleConditions [q] (run sampleConditions [o] sampleStores)
      (o.key sampleConditions) := readable_of_memory (by simp [h1]) _ _ _
  obtain ⟨hreply, hsecond⟩ := (answered_from_store sampleConditions MemoryStore.get?).2 [] [] o q
    sampleStores r hstored hclock hf hread hkey hc hage
  have hrkey : r.key = q.key sampleConditions := (Occasion.key_of_made hr).trans hkey.symm
  have hget : q.recordStore.get (⟨[r]⟩ : MemoryStore) (q.key sampleConditions) =
      .answer (some r) := by
    rw [h1, ← hrkey]
    exact congrArg Reply.answer (List.find?_cons_of_pos (by simp))
  have hthere := (answered_from_store sampleConditions MemoryStore.get?).1 q ⟨⟨[r]⟩, .empty⟩ r hc
    hget (congrArg RecordKey.fingerprint hrkey) hage
  exact ⟨r, hstored, hreply, hsecond, hthere⟩

/-! ### Later requests that are not answered from the store -/

/-- **Whether a later request is not answered with a record** that an earlier one has stored under
its key, though the record is young enough for it. The model is called so often for it. -/
structure Unanswered (k : Conditions) (o q : Occasion σ τ) (s : Stores σ τ) (calls : Nat) :
    Prop where
  stored : ∃ r, o.Stored k s r ∧
    q.circumstances.lookedUpAt.since r.createdAt < k.lifetime ∧
    (q.outcome k (run k [o] s)).reply ≠ .answer r
  clock : Chronological [o, q]
  key : q.key k = o.key k
  modelCalls : (q.outcome k (run k [o] s)).modelCalls = calls

/-- A later request that makes a record of its own is not answered with that of the earlier one. -/
theorem unanswered_of_made {o q : Occasion σ τ} {s : Stores σ τ} {r r' : Record}
    (hstored : o.Stored k s r) (hstored' : q.Stored k (run k [o] s) r')
    (hage : q.circumstances.lookedUpAt.since o.circumstances.createdAt < k.lifetime)
    (hlater : q.circumstances.createdAt ≠ o.circumstances.createdAt)
    (hclock : Chronological [o, q]) (hkey : q.key k = o.key k) :
    Unanswered k o q s (q.circumstances.asked k).attempts where
  stored := by
    have hcreated := (Occasion.made?_eq_some hstored.made).2.2.2.1
    have hcreated' := (Occasion.made?_eq_some hstored'.made).2.2.2.1
    refine ⟨r, hstored, hcreated ▸ hage, fun hr => hlater ?_⟩
    obtain rfl := Reply.answer.inj (hstored'.reply.symm.trans hr)
    rw [← hcreated, hcreated']
  clock := hclock
  key := hkey
  modelCalls := Occasion.outcome_modelCalls_of_made hstored'.made

/-- A store of records that can be written, but not read. -/
@[reducible] def sampleUnread : RecordStore MemoryStore where
  get _ _ := .failure (.unavailable "connection refused")
  put s r := (s.put r, .answer ())
  history _ _ _ := .failure (.unavailable "connection refused")

/-- A store of records that acknowledges everything and keeps nothing. -/
@[reducible] def sampleForgetful : RecordStore MemoryStore where
  get _ _ := .answer none
  put s _ := (s, .answer ())
  history _ _ _ := .answer []

/-- The first of such requests stores a record, and so does another one with the same key that does
not find it there. -/
theorem unanswered_sampleStored {i : RecordStore MemoryStore} {remarks remarks' : List Degradation}
    (hget : ∀ s key, i.get s key ≠ .stall) (hput : ∀ s r, (i.put s r).2 = .answer ())
    (hmiss : (sampleStored i 0).lookUp sampleConditions sampleStores = .miss remarks)
    (hmiss' : (sampleStored i 1).lookUp sampleConditions
      (run sampleConditions [sampleStored i 0] sampleStores) = .miss remarks') :
    Unanswered sampleConditions (sampleStored i 0) (sampleStored i 1) sampleStores 1 := by
  have hundisturbed (second : Nat) : (sampleStored i second).Undisturbed :=
    { undisturbed_sampleVisit sampleKnown [("a.go", sampleSource)] none second with
      get := hget
      put := fun s r h => nomatch (hput s r).symm.trans h }
  obtain ⟨a, hstructural⟩ : ∃ a, ∀ second,
      (sampleStored i second).structural sampleConditions = .ok a := by
    obtain ⟨r, hr⟩ := exists_made_sampleClean
    obtain ⟨-, -, -, -, a, ha, -⟩ := Occasion.made?_eq_some hr
    exact ⟨a, fun _ => ha⟩
  obtain ⟨r, hr⟩ := Occasion.exists_made_of_structural (hundisturbed 0) hmiss (hstructural 0)
  obtain ⟨r', hr'⟩ := Occasion.exists_made_of_structural (hundisturbed 1) hmiss' (hstructural 1)
  -- The second request is a second later, whatever the stores do.
  have hage : (sampleClean 1).circumstances.lookedUpAt.since
      (sampleClean 0).circumstances.createdAt < sampleConditions.lifetime := by decide
  have hlater : (sampleClean 1).circumstances.createdAt ≠
      (sampleClean 0).circumstances.createdAt := by decide
  exact unanswered_of_made ⟨hr, hput _ _⟩ ⟨hr', hput _ _⟩ hage hlater
    (chronological_sampleStored i) rfl

/-- A request about a clean working tree that is cancelled. -/
def sampleCancelled : Occasion MemoryStore MemoryArtifacts :=
  { sampleClean 1 with
    circumstances := { (sampleClean 1).circumstances with cancelled := true } }

theorem unanswered_sampleCancelled :
    Unanswered sampleConditions (sampleClean 0) sampleCancelled sampleStores 0 where
  stored := by
    obtain ⟨r, hr⟩ := exists_made_sampleClean
    have hage : (sampleClean 1).circumstances.lookedUpAt.since
        (sampleClean 0).circumstances.createdAt < sampleConditions.lifetime := by decide
    refine ⟨r, ⟨hr, rfl⟩, (Occasion.made?_eq_some hr).2.2.2.1 ▸ hage, ?_⟩
    rw [Occasion.outcome_of_cancelled rfl]
    exact nofun
  clock := (chronological_sampleStored MemoryStore.instRecordStore).of_clock rfl
  key := rfl
  modelCalls := by rw [Occasion.outcome_of_cancelled rfl]

/-- **A later request is not always answered from the store.** It is not if it does not get to read
the store, or if the store has not kept what it has acknowledged: then the model is called again.
Nor is a request that is cancelled. -/
theorem not_answered_from_store :
    Unanswered sampleConditions (sampleStored sampleUnread 0) (sampleStored sampleUnread 1)
        sampleStores 1 ∧
      Unanswered sampleConditions (sampleStored sampleForgetful 0)
        (sampleStored sampleForgetful 1) sampleStores 1 ∧
      Unanswered sampleConditions (sampleClean 0) sampleCancelled sampleStores 0 :=
  ⟨unanswered_sampleStored nofun (fun _ _ => rfl) rfl rfl,
    unanswered_sampleStored nofun (fun _ _ => rfl) rfl rfl, unanswered_sampleCancelled⟩

end Dossier.Analysis
