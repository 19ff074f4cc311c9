import Dossier.Proofs.Store.Artifacts
import Mathlib.Data.List.Infix
import Mathlib.Logic.Function.Iterate

/-!
# Writers of one artifact

Who puts an artifact looks whether it is there, writes a draft and moves the draft into its place
(`Dossier.ArtifactDirectory.put_eq_steps`). When several do so at the same time, their steps come in
any order, and others may ask for the artifact between any two of them. Whoever asks gets all of the
artifact or nothing, since nothing else is ever moved into its place.

The writers themselves do not all succeed. They share one draft, so a draft that two of them have
written can be moved by the first of them only, and the second one finds none. Exactly this makes a
writer fail that nothing is in the way of: two moves that follow each other with no draft written in
between (`Dossier.ArtifactDirectory.puts_succeed_iff`).
-/

namespace Dossier

namespace ArtifactDirectory

/-! ### The steps of a writer -/

/-- How far a writer has come. -/
inductive Phase where
  /-- Nothing has been done yet. -/
  | called
  /-- Nothing was there. -/
  | missing
  /-- The draft has been written. -/
  | drafted
  | ended (reply : Reply StoreError Unit)
deriving DecidableEq

/-- What a writer tries to do to the files. -/
inductive Attempt where
  | draft
  | move
deriving DecidableEq

/-- What a writer tries to do next, if anything. -/
def Phase.attempt? : Phase → Option Attempt
  | called => none
  | missing => some .draft
  | drafted => some .move
  | ended _ => none

/-- Whether a writer has come to an end without success. -/
def Phase.failed : Phase → Bool
  | ended reply => reply != .answer ()
  | _ => false

/-- What is in the way of an artifact, if anything is. -/
def fault? (d : ArtifactDirectory) (k : ArtifactKey) : Option FileError :=
  d.obstacle <|> pathFault? (fileOf k)

theorem fault?_of_obstacle {d : ArtifactDirectory} (h : d.obstacle = none) (k : ArtifactKey) :
    d.fault? k = pathFault? (fileOf k) := by
  rw [fault?, h]
  simp

/-- **A step of a writer** in a directory. -/
def step (k : ArtifactKey) (content : List UInt8) :
    ArtifactDirectory × Phase → ArtifactDirectory × Phase
  | (d, .called) => (d, if (d.read? (fileOf k)).isSome then .ended (.answer ()) else .missing)
  | (d, .missing) =>
    match d.fault? k with
    | some e => (d, .ended (.failure (.file e)))
    | none => (d.write (draftOf k) content, .drafted)
  | (d, .drafted) =>
    match d.move? (draftOf k) (fileOf k) with
    | some d => (d, .ended (.answer ()))
    | none => (d, .ended (.failure (.file .notFound)))
  | (d, .ended reply) => (d, .ended reply)

/-- **A writer alone** does by its steps what is done to put an artifact. -/
theorem put_eq_steps (d : ArtifactDirectory) (k : ArtifactKey) (content : List UInt8) :
    (step k content)^[3] (d, .called) =
      ((ArtifactStore.put d k content).1, .ended (ArtifactStore.put d k content).2) := by
  simp only [Function.iterate_succ, Function.iterate_zero, Function.comp_apply, id_eq,
    ArtifactStore.put]
  by_cases hthere : (d.read? (fileOf k)).isSome = true
  · have hput : d.put k content = .ok d := by
      rw [put, if_pos hthere]
    simp only [hput, step, hthere, if_true]
  · cases hfault : d.fault? k with
    | some e =>
      have hput : d.put k content = .error (.file e) := by
        rw [fault?] at hfault
        rw [put, if_neg hthere, hfault]
      simp [hput, step, hthere, hfault]
    | none =>
      have hdraft : (d.write (draftOf k) content).read? (draftOf k) = some content := by
        rw [read?_write, if_pos rfl]
      obtain ⟨d', hmove⟩ := exists_move? hdraft (fileOf k)
      have hput : d.put k content = .ok d' := by
        rw [fault?] at hfault
        rw [put, if_neg hthere, hfault]
        simp only [hmove]
      simp [hput, step, hthere, hfault, hmove]

/-- How many steps a writer has taken. -/
def Phase.rank : Phase → Nat
  | called => 0
  | missing => 1
  | drafted => 2
  | ended _ => 3

/-- **Every step counts**, up to the third. -/
theorem rank_step (k : ArtifactKey) (content : List UInt8) (d : ArtifactDirectory) (p : Phase) :
    min 3 (p.rank + 1) ≤ (step k content (d, p)).2.rank := by
  cases p with
  | called =>
    rw [step]
    dsimp only
    split <;> simp [Phase.rank]
  | missing =>
    rw [step]
    split <;> simp [Phase.rank]
  | drafted =>
    rw [step]
    split <;> simp [Phase.rank]
  | ended reply => simp [step, Phase.rank]

/-! ### Writers at the same time -/

/-- Whose turn it is. -/
inductive Turn (ι : Type) where
  | write (writer : ι)
  /-- Someone asks for the artifact. -/
  | ask
deriving DecidableEq

/-- A directory in which some writers have come so far. -/
structure Scene (ι : Type) where
  directory : ArtifactDirectory
  phases : ι → Phase
  /-- What has been tried, the last attempt first. -/
  attempts : List Attempt
  /-- What those who asked have got. -/
  replies : List (Reply StoreError (Option (List UInt8)))

namespace Scene

variable {ι : Type} [DecidableEq ι]

/-- The scene before the first turn. -/
def start (ι : Type) (d : ArtifactDirectory) : Scene ι :=
  ⟨d, fun _ => .called, [], []⟩

/-- What a turn makes of a scene. -/
def turn (k : ArtifactKey) (content : List UInt8) (s : Scene ι) : Turn ι → Scene ι
  | .write i =>
    { s with
      directory := (step k content (s.directory, s.phases i)).1
      phases := Function.update s.phases i (step k content (s.directory, s.phases i)).2
      attempts := (s.phases i).attempt?.toList ++ s.attempts }
  | .ask => { s with replies := ArtifactStore.get s.directory k :: s.replies }

/-- **What turns make of a scene**, one after another. -/
def run (k : ArtifactKey) (content : List UInt8) (s : Scene ι) (turns : List (Turn ι)) : Scene ι :=
  turns.foldl (turn k content) s

/-- Whether some writer has failed. -/
def Failed (s : Scene ι) : Prop :=
  ∃ i, (s.phases i).failed = true

variable {k : ArtifactKey} {content : List UInt8} {d : ArtifactDirectory} {s : Scene ι} {i : ι}

theorem turn_write_of_eq {p p' : Phase} {d' : ArtifactDirectory} (hp : s.phases i = p)
    (hstep : step k content (s.directory, p) = (d', p')) :
    s.turn k content (.write i) =
      ⟨d', Function.update s.phases i p', p.attempt?.toList ++ s.attempts, s.replies⟩ := by
  rw [turn, hp, hstep]

/-- A writer that has not failed yet fails by what it comes to. -/
theorem exists_failed_update (hi : (s.phases i).failed = false) (p : Phase) :
    (∃ j, (Function.update s.phases i p j).failed = true) ↔ p.failed = true ∨ s.Failed := by
  rw [Function.exists_update_iff s.phases fun _ p => p.failed = true]
  refine or_congr Iff.rfl ⟨?_, ?_⟩
  · rintro ⟨j, -, hj⟩
    exact ⟨j, hj⟩
  · rintro ⟨j, hj⟩
    refine ⟨j, ?_, hj⟩
    rintro rfl
    rw [hi] at hj
    exact Bool.false_ne_true hj

/-! ### What holds at any time -/

/-- Whether a reply is all of an artifact or nothing, as far as its file can be asked for. -/
def Whole (k : ArtifactKey) (content : List UInt8)
    (reply : Reply StoreError (Option (List UInt8))) : Prop :=
  reply = .answer none ∨ reply = .answer (some content) ∨
    ∃ e, pathFault? (fileOf k) = some e ∧ reply = .failure (.file e)

/-- **What holds of a scene** at any time. Where nothing is in the way, the draft is there after it
has been written and gone after it has been moved, so what was tried last tells whether it is there.
-/
structure Orderly (fault : Option FileError) (k : ArtifactKey) (content : List UInt8)
    (s : Scene ι) : Prop where
  inTheWay : s.directory.fault? k = fault
  file : s.directory.read? (fileOf k) = none ∨ s.directory.read? (fileOf k) = some content
  draft : s.attempts.head? = some .draft → fault = none →
    s.directory.read? (draftOf k) = some content
  /-- There is one draft for all writers, so it is gone for all of them. -/
  moved : s.attempts.head? = some .move → s.directory.read? (draftOf k) = none
  drafted : ∀ i, s.phases i = .drafted → fault = none ∧ s.attempts ≠ []
  failed : s.Failed ↔ (.draft ∈ s.attempts ∧ fault ≠ none) ∨ [.move, .move] <:+: s.attempts
  replies : ∀ reply ∈ s.replies, Whole k content reply

namespace Orderly

variable {fault : Option FileError}

omit [DecidableEq ι] in
theorem start (hfile : d.read? (fileOf k) = none ∨ d.read? (fileOf k) = some content) :
    Orderly (d.fault? k) k content (start ι d) where
  inTheWay := rfl
  file := hfile
  draft := nofun
  moved := nofun
  drafted := nofun
  failed := by simp [Failed, Scene.start, Phase.failed]
  replies := List.forall_mem_nil _

/-- Whoever asks gets all or nothing. -/
theorem ask (h : Orderly fault k content s) : Orderly fault k content (s.turn k content .ask) where
  inTheWay := h.inTheWay
  file := h.file
  draft := h.draft
  moved := h.moved
  drafted := h.drafted
  failed := h.failed
  replies := by
    refine List.forall_mem_cons.mpr ⟨?_, h.replies⟩
    simp only [ArtifactStore.get, ArtifactDirectory.get]
    cases hpath : pathFault? (fileOf k) with
    | some e => exact .inr (.inr ⟨e, hpath, rfl⟩)
    | none =>
      rcases h.file with hfile | hfile
      · rw [hfile]
        exact .inl rfl
      · rw [hfile]
        exact .inr (.inl rfl)

/-- A writer looks whether the artifact is there. -/
theorem look (h : Orderly fault k content s) (hi : s.phases i = .called) :
    Orderly fault k content (s.turn k content (.write i)) := by
  obtain ⟨p, hstep, hp, hp'⟩ : ∃ p, step k content (s.directory, .called) = (s.directory, p) ∧
      p.failed = false ∧ p ≠ .drafted := by
    refine ⟨_, rfl, ?_⟩
    split
    · exact ⟨rfl, nofun⟩
    · exact ⟨rfl, nofun⟩
  rw [turn_write_of_eq hi hstep]
  refine ⟨h.inTheWay, h.file, h.draft, h.moved, ?_, ?_, h.replies⟩
  · refine (Function.forall_update_iff s.phases fun _ p => p = .drafted → _).mpr ⟨?_, ?_⟩
    · exact fun heq => absurd heq hp'
    · exact fun j _ => h.drafted j
  · refine (exists_failed_update (hi ▸ rfl) p).trans (Iff.trans ?_ h.failed)
    rw [hp, or_iff_right Bool.false_ne_true]

/-- A writer writes the draft, unless something is in the way. -/
theorem write (h : Orderly fault k content s) (hi : s.phases i = .missing) :
    Orderly fault k content (s.turn k content (.write i)) := by
  have hothers : ∀ j, s.phases j = .drafted → fault = none ∧ Attempt.draft :: s.attempts ≠ [] :=
    fun j hj => ⟨(h.drafted j hj).1, List.cons_ne_nil _ _⟩
  -- What is in the way is there for every writer, or for none.
  cases fault with
  | some e =>
    have hstep : step k content (s.directory, .missing) =
        (s.directory, .ended (.failure (.file e))) := by
      rw [step, h.inTheWay]
    rw [turn_write_of_eq hi hstep]
    refine ⟨h.inTheWay, h.file, nofun, nofun, ?_, ?_, h.replies⟩
    · exact (Function.forall_update_iff s.phases fun _ p => p = .drafted → _).mpr
        ⟨nofun, fun j _ => hothers j⟩
    · exact (exists_failed_update (hi ▸ rfl) _).trans
        (iff_of_true (.inl rfl) (.inl ⟨List.mem_cons_self, nofun⟩))
  | none =>
    have hstep : step k content (s.directory, .missing) =
        (s.directory.write (draftOf k) content, .drafted) := by
      rw [step, h.inTheWay]
    rw [turn_write_of_eq hi hstep]
    refine ⟨h.inTheWay, ?_, fun _ _ => ?_, nofun, ?_, ?_, h.replies⟩
    · rw [read?_write, if_neg (draftOf_ne_fileOf k k)]
      exact h.file
    · rw [read?_write, if_pos rfl]
    · exact (Function.forall_update_iff s.phases fun _ p => p = .drafted → _).mpr
        ⟨fun _ => ⟨rfl, List.cons_ne_nil _ _⟩, fun j _ => hothers j⟩
    · refine (exists_failed_update (hi ▸ rfl) _).trans ?_
      rw [h.failed]
      simp [Phase.failed, Phase.attempt?, List.infix_cons_iff]

/-- A writer moves the draft, if it is there. -/
theorem move (h : Orderly fault k content s) (hi : s.phases i = .drafted) :
    Orderly fault k content (s.turn k content (.write i)) := by
  obtain ⟨rfl, hne⟩ := h.drafted i hi
  have hothers : ∀ j, s.phases j = .drafted →
      (none : Option FileError) = none ∧ Attempt.move :: s.attempts ≠ [] :=
    fun _ _ => ⟨rfl, List.cons_ne_nil _ _⟩
  obtain ⟨last, earlier, hattempts⟩ := List.exists_cons_of_ne_nil hne
  -- The draft is there if the last attempt has written it, and not if that has moved one.
  cases last with
  | draft =>
    have hdraft := h.draft (by rw [hattempts]; rfl) rfl
    obtain ⟨d', hmove⟩ := exists_move? hdraft (fileOf k)
    have hstep : step k content (s.directory, .drafted) = (d', .ended (.answer ())) := by
      rw [step, hmove]
    rw [turn_write_of_eq hi hstep]
    refine ⟨?_, .inr ?_, nofun, fun _ => ?_, ?_, ?_, h.replies⟩
    · rw [fault?, obstacle_of_move? hmove]
      exact h.inTheWay
    · rw [read?_of_move? hmove, if_pos rfl, hdraft]
    · rw [read?_of_move? hmove, if_neg (draftOf_ne_fileOf k k).symm, if_pos rfl]
    · exact (Function.forall_update_iff s.phases fun _ p => p = .drafted → _).mpr
        ⟨nofun, fun j _ => hothers j⟩
    · refine (exists_failed_update (hi ▸ rfl) _).trans ?_
      rw [h.failed, hattempts]
      simp [Phase.failed, Phase.attempt?, List.infix_cons_iff]
  | move =>
    have hmove : s.directory.move? (draftOf k) (fileOf k) = none := by
      rw [move?, h.moved (by rw [hattempts]; rfl), Option.map_none]
    have hstep : step k content (s.directory, .drafted) =
        (s.directory, .ended (.failure (.file .notFound))) := by
      rw [step, hmove]
    rw [turn_write_of_eq hi hstep]
    refine ⟨h.inTheWay, h.file, nofun, fun _ => ?_, ?_, ?_, h.replies⟩
    · exact h.moved (by rw [hattempts]; rfl)
    · exact (Function.forall_update_iff s.phases fun _ p => p = .drafted → _).mpr
        ⟨nofun, fun j _ => hothers j⟩
    · refine (exists_failed_update (hi ▸ rfl) _).trans
        (iff_of_true (.inl rfl) (.inr ⟨[], earlier, ?_⟩))
      rw [hattempts]
      rfl

/-- **Every turn leaves a scene orderly.** -/
theorem turn (h : Orderly fault k content s) (t : Turn ι) :
    Orderly fault k content (s.turn k content t) := by
  cases t with
  | ask => exact h.ask
  | write i =>
    cases hi : s.phases i with
    | called => exact h.look hi
    | missing => exact h.write hi
    | drafted => exact h.move hi
    | ended reply =>
      have hstep : step k content (s.directory, .ended reply) = (s.directory, .ended reply) := rfl
      have hphases : Function.update s.phases i (.ended reply) = s.phases := by
        rw [← hi, Function.update_eq_self]
      rw [turn_write_of_eq hi hstep, hphases]
      exact h

/-- A scene is orderly at any time if it is so at the beginning. -/
theorem run (h : Orderly fault k content s) (turns : List (Turn ι)) :
    Orderly fault k content (s.run k content turns) := by
  induction turns generalizing s with
  | nil => exact h
  | cons t turns ih => exact ih (h.turn t)

end Orderly

/-! ### Writers come to an end -/

theorem rank_turn (k : ArtifactKey) (content : List UInt8) (s : Scene ι) (t : Turn ι) (i : ι) :
    min 3 ((s.phases i).rank + if t = .write i then 1 else 0) ≤
      ((s.turn k content t).phases i).rank := by
  cases t with
  | ask =>
    rw [if_neg nofun]
    exact Nat.min_le_right _ _
  | write j =>
    by_cases hij : j = i
    · subst hij
      simp only [if_true, Scene.turn, Function.update_self]
      exact rank_step k content s.directory (s.phases j)
    · have hne : Turn.write j ≠ .write i := fun h => hij (Turn.write.inj h)
      simp only [if_neg hne, Scene.turn, Function.update_of_ne (Ne.symm hij)]
      exact Nat.min_le_right _ _

/-- **A writer has taken as many steps as it had turns**, up to the third. -/
theorem rank_run (k : ArtifactKey) (content : List UInt8) (s : Scene ι) (turns : List (Turn ι))
    (i : ι) : min 3 ((s.phases i).rank + turns.count (.write i)) ≤
      ((s.run k content turns).phases i).rank := by
  induction turns generalizing s with
  | nil => exact Nat.min_le_right _ _
  | cons t turns ih =>
    have hturn := rank_turn k content s t i
    have hrest := ih (s.turn k content t)
    rw [List.count_cons]
    simp only [beq_iff_eq]
    exact Nat.le_trans (by omega) hrest

end Scene

/-- **Which puts of one artifact succeed** at the same time, whatever the order of their steps is. A
put that gets three turns comes to an end. Some put fails exactly if something is in the way when
one is about to write, or if two moves follow each other with no draft written between them. Whoever
asks meanwhile gets all of the artifact or nothing. -/
theorem puts_succeed_iff {ι : Type} [DecidableEq ι] {d : ArtifactDirectory} {k : ArtifactKey}
    {content : List UInt8}
    (hstart : d.read? (fileOf k) = none ∨ d.read? (fileOf k) = some content)
    (turns : List (Turn ι)) :
    let s := (Scene.start ι d).run k content turns
    (∀ i, 3 ≤ turns.count (.write i) → ∃ reply, s.phases i = .ended reply) ∧
      ((∀ i reply, s.phases i = .ended reply → reply = .answer ()) ↔
        (.draft ∈ s.attempts → d.fault? k = none) ∧ ¬[.move, .move] <:+: s.attempts) ∧
      ∀ reply ∈ s.replies, Scene.Whole k content reply := by
  intro s
  have horderly := (Scene.Orderly.start (ι := ι) hstart).run turns
  refine ⟨fun i hturns => ?_, ?_, horderly.replies⟩
  · have hrank := Scene.rank_run k content (Scene.start ι d) turns i
    have hlast : 3 ≤ (s.phases i).rank := Nat.le_trans (by omega) hrank
    cases hphase : s.phases i with
    | ended reply => exact ⟨reply, rfl⟩
    | called | missing | drafted =>
      rw [hphase] at hlast
      exact absurd hlast (by decide)
  · have hsucceed : (∀ i reply, s.phases i = .ended reply → reply = .answer ()) ↔ ¬s.Failed := by
      rw [Scene.Failed, not_exists]
      refine forall_congr' fun i => ?_
      cases s.phases i <;> simp [Phase.failed]
    rw [hsucceed, horderly.failed, not_or, not_and, not_not]

/-! ### Two writers -/

section Two

variable {k : ArtifactKey} {content : List UInt8}

/-- Two writers, one after the other, and someone who asks before, between and after them. -/
def patientTurns : List (Turn Bool) :=
  [.ask, .write false, .write false, .write false, .ask, .write true, .write true, .write true,
    .ask]

/-- Two writers that take turns. -/
def hastyTurns : List (Turn Bool) :=
  [.write false, .write true, .write false, .write true, .write false, .write true]

/-- The first of two writers moves the draft, and the second one finds the artifact. -/
theorem attempts_patientTurns (h : fault? .empty k = none) :
    ((Scene.start Bool .empty).run k content patientTurns).attempts = [.move, .draft] := by
  have hmissing : empty.read? (fileOf k) = none := rfl
  have hdraft : (empty.write (draftOf k) content).read? (draftOf k) = some content := by
    rw [read?_write, if_pos rfl]
  obtain ⟨d, hmove⟩ := exists_move? hdraft (fileOf k)
  have hthere : d.read? (fileOf k) = some content := by
    rw [read?_of_move? hmove, if_pos rfl, hdraft]
  simp [patientTurns, Scene.run, Scene.turn, Scene.start, step, Phase.attempt?, hmissing, h, hmove,
    hthere]

/-- Both of two writers write the draft, and the second one has none left to move. -/
theorem phases_hastyTurns (h : fault? .empty k = none) :
    ((Scene.start Bool .empty).run k content hastyTurns).phases true =
      .ended (.failure (.file .notFound)) := by
  have hmissing : empty.read? (fileOf k) = none := rfl
  have hfirst : (empty.write (draftOf k) content).fault? k = none := h
  have hdraft : ((empty.write (draftOf k) content).write (draftOf k) content).read? (draftOf k) =
      some content := by
    rw [read?_write, if_pos rfl]
  obtain ⟨d, hmove⟩ := exists_move? hdraft (fileOf k)
  have hgone : d.move? (draftOf k) (fileOf k) = none := by
    rw [move?, read?_of_move? hmove, if_neg (draftOf_ne_fileOf k k).symm, if_pos rfl,
      Option.map_none]
  simp [hastyTurns, Scene.run, Scene.turn, Scene.start, step, hmissing, h, hfirst, hmove, hgone]

/-- **One writer after the other succeeds.** -/
theorem puts_succeed_iff_patientTurns :
    let s := (Scene.start Bool .empty).run (sampleKey "a.py#f") [120] patientTurns
    s.phases false = .ended (.answer ()) ∧ s.phases true = .ended (.answer ()) := by
  intro s
  have hfault : fault? .empty (sampleKey "a.py#f") = none := by
    rw [fault?_of_obstacle rfl]
    exact sampleKey_escaped_kept.2
  have hstart : empty.read? (fileOf (sampleKey "a.py#f")) = none ∨
      empty.read? (fileOf (sampleKey "a.py#f")) = some [120] := .inl rfl
  obtain ⟨hended, hsucceed, -⟩ := puts_succeed_iff hstart patientTurns
  have hapart : ¬[Attempt.move, .move] <:+: s.attempts := by
    rw [attempts_patientTurns hfault]
    decide
  have hall := hsucceed.mpr ⟨fun _ => hfault, hapart⟩
  obtain ⟨first, hfirst⟩ := hended false (by decide)
  obtain ⟨second, hsecond⟩ := hended true (by decide)
  exact ⟨hall false first hfirst ▸ hfirst, hall true second hsecond ▸ hsecond⟩

/-- **Two writers that take turns do not both succeed**, though nothing is in the way. -/
theorem second_writer_fails :
    fault? .empty (sampleKey "a.py#f") = none ∧
      ((Scene.start Bool .empty).run (sampleKey "a.py#f") [120] hastyTurns).phases true =
        .ended (.failure (.file .notFound)) := by
  have hfault : fault? .empty (sampleKey "a.py#f") = none := by
    rw [fault?_of_obstacle rfl]
    exact sampleKey_escaped_kept.2
  exact ⟨hfault, phases_hastyTurns hfault⟩

end Two

end ArtifactDirectory

end Dossier
