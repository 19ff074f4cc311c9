import Dossier.VersionControl.Basic
import Mathlib.Data.List.Basic

/-!
# What computations come to

A computation that makes calls comes to an answer when every call before it does. Taking the
failure of a call for a value leaves two ways to come to one: the call has failed, or it has
answered. A call that does not return leaves none.

Three properties of computations are kept by everything that computations are put together with.
A computation is *conclusive* if it takes no failure for a value, so that its answer is evidence
that every call was answered. It *never fails* if it takes all failures for values. And it *asks
only* for what is of some kind if all of its calls are, whatever they come to.
-/

namespace Dossier

/-- Whether a call is answered. -/
def VersionControl.Answers (v : VersionControl) (call : VcsCall) : Prop :=
  ∃ a, v call = .answer a

namespace Inquiry

variable {α β : Type}

/-- A computation after another comes to an answer when both do. -/
theorem reply_bind_eq_answer {x : Inquiry α} {f : α → Inquiry β} {b : β} :
    (x >>= f).reply = .answer b ↔ ∃ a, x.reply = .answer a ∧ (f a).reply = .answer b := by
  show (x.bind f).reply = .answer b ↔ _
  rw [bind]
  rcases hx : x.reply with a | e | _
  · constructor
    · exact fun h => ⟨a, rfl, h⟩
    · rintro ⟨a', ha, h⟩
      exact Reply.answer.inj ha ▸ h
  all_goals
    constructor
    · intro h
      cases h
    · rintro ⟨a, ha, -⟩
      cases ha

/-- What a computation after another comes to, once the first has come to an answer. -/
theorem reply_bind {x : Inquiry α} {a : α} (h : x.reply = .answer a) (f : α → Inquiry β) :
    (x >>= f).reply = (f a).reply := by
  show (x.bind f).reply = _
  rw [bind, h]

/-- The calls of a computation after another, once the first has come to an answer. -/
theorem calls_bind {x : Inquiry α} {a : α} (h : x.reply = .answer a) (f : α → Inquiry β) :
    (x >>= f).calls = x.calls ++ (f a).calls := by
  show (x.bind f).calls = _
  rw [bind, h]

/-- A computation for every item of a list comes to all that it comes to for one of them. -/
theorem mem_forAll {f : α → Inquiry β} {as : List α} {bs : List β}
    (h : (forAll f as).reply = .answer bs) {b : β} :
    b ∈ bs ↔ ∃ a ∈ as, (f a).reply = .answer b := by
  induction as generalizing bs with
  | nil =>
    obtain rfl := Reply.answer.inj h
    exact ⟨fun hb => absurd hb List.not_mem_nil, fun ⟨_, ha, _⟩ => absurd ha List.not_mem_nil⟩
  | cons a as ih =>
    obtain ⟨first, hfirst, h⟩ := reply_bind_eq_answer.mp h
    obtain ⟨rest, hrest, h⟩ := reply_bind_eq_answer.mp h
    obtain rfl := Reply.answer.inj h
    rw [List.mem_cons, ih hrest, List.exists_mem_cons_iff, hfirst]
    exact or_congr_left ⟨fun heq => heq ▸ rfl, fun heq => (Reply.answer.inj heq).symm⟩

/-- A computation for every item of a list has come to an answer for each of them. -/
theorem exists_of_forAll {f : α → Inquiry β} {as : List α} {bs : List β}
    (h : (forAll f as).reply = .answer bs) {a : α} (ha : a ∈ as) :
    ∃ b, (f a).reply = .answer b := by
  induction as generalizing bs with
  | nil => exact absurd ha List.not_mem_nil
  | cons first as ih =>
    obtain ⟨b, hb, h⟩ := reply_bind_eq_answer.mp h
    obtain ⟨rest, hrest, -⟩ := reply_bind_eq_answer.mp h
    rcases List.mem_cons.mp ha with rfl | ha
    · exact ⟨b, hb⟩
    · exact ih hrest ha

/-- A computation for every item of a list comes to an answer when it does for each of them. -/
theorem exists_forAll {f : α → Inquiry β} {as : List α}
    (h : ∀ a ∈ as, ∃ b, (f a).reply = .answer b) : ∃ bs, (forAll f as).reply = .answer bs := by
  induction as with
  | nil => exact ⟨[], rfl⟩
  | cons a as ih =>
    obtain ⟨⟨b, hb⟩, hrest⟩ := List.forall_mem_cons.mp h
    obtain ⟨bs, hbs⟩ := ih hrest
    exact ⟨b :: bs, reply_bind_eq_answer.mpr ⟨b, hb, reply_bind_eq_answer.mpr ⟨bs, hbs, rfl⟩⟩⟩

/-- What a computation for every item of a list comes to, item by item. -/
theorem reply_forAll {f : α → Inquiry β} {g : α → β} {as : List α}
    (h : ∀ a ∈ as, (f a).reply = .answer (g a)) : (forAll f as).reply = .answer (as.map g) := by
  induction as with
  | nil => rfl
  | cons a as ih =>
    obtain ⟨ha, hrest⟩ := List.forall_mem_cons.mp h
    exact reply_bind_eq_answer.mpr ⟨g a, ha, reply_bind_eq_answer.mpr ⟨_, ih hrest, rfl⟩⟩

/-- The calls of a computation for every item of a list, once it has come to an answer. -/
theorem mem_calls_forAll {f : α → Inquiry β} {as : List α} {bs : List β}
    (h : (forAll f as).reply = .answer bs) {call : VcsCall} :
    call ∈ (forAll f as).calls ↔ ∃ a ∈ as, call ∈ (f a).calls := by
  induction as generalizing bs with
  | nil =>
    exact ⟨fun hc => absurd hc List.not_mem_nil, fun ⟨_, ha, _⟩ => absurd ha List.not_mem_nil⟩
  | cons a as ih =>
    obtain ⟨b, hb, hrest⟩ := reply_bind_eq_answer.mp h
    obtain ⟨rest, hrest, -⟩ := reply_bind_eq_answer.mp hrest
    have hcalls : (forAll f (a :: as)).calls = (f a).calls ++ ((forAll f as).calls ++ []) :=
      (calls_bind hb _).trans (congrArg _ (calls_bind hrest _))
    rw [hcalls, List.append_nil, List.mem_append, ih hrest, List.exists_mem_cons_iff]

/-! ### Calls whose failures are values -/

section Attempt

variable {v : VersionControl} {call : VcsCall}

/-- What comes after a call that is answered. -/
theorem attempt_bind_of_answer {a : call.Answer} (h : v call = .answer a)
    (f : Except VcsError call.Answer → Inquiry β) :
    (ask v call).attempt >>= f = ⟨call :: (f (.ok a)).calls, (f (.ok a)).reply⟩ := by
  show (ask v call).attempt.bind f = _
  simp only [bind, attempt, ask, h, List.singleton_append]

/-- What comes after a call that fails. -/
theorem attempt_bind_of_failure {e : VcsError} (h : v call = .failure e)
    (f : Except VcsError call.Answer → Inquiry β) :
    (ask v call).attempt >>= f = ⟨call :: (f (.error e)).calls, (f (.error e)).reply⟩ := by
  show (ask v call).attempt.bind f = _
  simp only [bind, attempt, ask, h, List.singleton_append]

/-- Nothing comes after a call that does not return. -/
theorem attempt_bind_of_stall (h : v call = .stall) (f : Except VcsError call.Answer → Inquiry β) :
    (ask v call).attempt >>= f = ⟨[call], .stall⟩ := by
  show (ask v call).attempt.bind f = _
  simp only [bind, attempt, ask, h]

/-- A call whose failure is a value comes to that failure or to the answer of the call. -/
theorem attempt_ask_eq_answer {found : Except VcsError call.Answer}
    (h : (Inquiry.ask v call).attempt.reply = .answer found) :
    (∃ e, found = .error e) ∨ ∃ a, v call = .answer a ∧ found = .ok a := by
  simp only [attempt, ask] at h
  split at h
  · next a ha =>
    obtain rfl := Reply.answer.inj h
    exact Or.inr ⟨a, ha, rfl⟩
  · next e _ =>
    obtain rfl := Reply.answer.inj h
    exact Or.inl ⟨e, rfl⟩
  · cases h

/-- A call whose failure is a value has been answered if what comes after it, which makes no
calls, has come to something that a failure does not come to. -/
theorem answers_of_attempt {f : Except VcsError call.Answer → Inquiry β} {b : β}
    (hcalls : ∀ found, (f found).calls = []) (herror : ∀ e, (f (.error e)).reply ≠ .answer b)
    (h : ((ask v call).attempt >>= f).reply = .answer b) :
    ∀ c ∈ ((ask v call).attempt >>= f).calls, v.Answers c := by
  rcases hv : v call with a | e | _
  · rw [attempt_bind_of_answer hv, hcalls]
    intro c hc
    obtain rfl := List.mem_singleton.mp hc
    exact ⟨a, hv⟩
  · rw [attempt_bind_of_failure hv] at h
    exact absurd h (herror e)
  · rw [attempt_bind_of_stall hv] at h
    cases h

end Attempt

/-! ### Computations that fail with their calls -/

/-- **Whether a computation hangs on all of its calls**: it comes to an answer exactly if every
call it makes is answered. -/
def Conclusive (v : VersionControl) (x : Inquiry α) : Prop :=
  (∃ a, x.reply = .answer a) ↔ ∀ call ∈ x.calls, v.Answers call

variable {v : VersionControl}

theorem conclusive_pure (a : α) : (Pure.pure a : Inquiry α).Conclusive v :=
  ⟨fun _ _ h => absurd h List.not_mem_nil, fun _ => ⟨a, rfl⟩⟩

theorem conclusive_ask (call : VcsCall) : (ask v call).Conclusive v := by
  constructor
  · rintro ⟨a, ha⟩ c hc
    obtain rfl := List.mem_singleton.mp hc
    exact ⟨a, ha⟩
  · exact fun h => h call (List.mem_singleton.mpr rfl)

theorem Conclusive.bind {x : Inquiry α} {f : α → Inquiry β} (hx : x.Conclusive v)
    (hf : ∀ a, (f a).Conclusive v) : (x >>= f).Conclusive v := by
  constructor
  · rintro ⟨b, hb⟩ call hcall
    obtain ⟨a, ha, hb⟩ := reply_bind_eq_answer.mp hb
    rw [calls_bind ha f] at hcall
    rcases List.mem_append.mp hcall with hcall | hcall
    · exact hx.mp ⟨a, ha⟩ call hcall
    · exact (hf a).mp ⟨b, hb⟩ call hcall
  · intro h
    -- Whether the second part is come to or not, the calls of the first one are made.
    have hfirst : ∀ call ∈ x.calls, v.Answers call := by
      refine fun call hcall => h call ?_
      show call ∈ (x.bind f).calls
      unfold Inquiry.bind
      split
      · exact List.mem_append_left _ hcall
      · exact hcall
      · exact hcall
    obtain ⟨a, ha⟩ := hx.mpr hfirst
    rw [calls_bind ha f] at h
    obtain ⟨b, hb⟩ := (hf a).mpr fun call hcall => h call (List.mem_append_right _ hcall)
    exact ⟨b, reply_bind_eq_answer.mpr ⟨a, ha, hb⟩⟩

theorem conclusive_forAll {f : α → Inquiry β} (hf : ∀ a, (f a).Conclusive v) (as : List α) :
    (forAll f as).Conclusive v := by
  induction as with
  | nil => exact conclusive_pure []
  | cons a as ih => exact (hf a).bind fun _ => ih.bind fun _ => conclusive_pure _

/-! ### Computations that do not fail -/

/-- Whether a computation does not fail, whatever its calls come to. -/
def NeverFails (x : Inquiry α) : Prop :=
  ∀ e, x.reply ≠ .failure e

theorem neverFails_pure (a : α) : (Pure.pure a : Inquiry α).NeverFails := by
  intro e h
  cases h

theorem neverFails_attempt (x : Inquiry α) : x.attempt.NeverFails := by
  intro e h
  unfold attempt at h
  split at h <;> cases h

theorem NeverFails.bind {x : Inquiry α} {f : α → Inquiry β} (hx : x.NeverFails)
    (hf : ∀ a, (f a).NeverFails) : (x >>= f).NeverFails := by
  show (x.bind f).NeverFails
  intro e h
  unfold Inquiry.bind at h
  split at h
  · exact hf _ e h
  · next hfailure => exact hx _ hfailure
  · cases h

theorem neverFails_forAll {f : α → Inquiry β} (hf : ∀ a, (f a).NeverFails) (as : List α) :
    (forAll f as).NeverFails := by
  induction as with
  | nil => exact neverFails_pure []
  | cons a as ih => exact (hf a).bind fun _ => ih.bind fun _ => neverFails_pure _

/-! ### What is asked for -/

/-- **Whether a computation asks only for what is of some kind**, whatever its calls come to. -/
def AsksOnly (kind : VcsCall → Prop) (x : Inquiry α) : Prop :=
  ∀ call ∈ x.calls, kind call

variable {kind : VcsCall → Prop}

theorem asksOnly_pure (a : α) : (Pure.pure a : Inquiry α).AsksOnly kind :=
  List.forall_mem_nil kind

theorem asksOnly_ask {call : VcsCall} (h : kind call) : (ask v call).AsksOnly kind :=
  List.forall_mem_singleton.mpr h

theorem AsksOnly.attempt {x : Inquiry α} (h : x.AsksOnly kind) : x.attempt.AsksOnly kind := h

theorem AsksOnly.bind {x : Inquiry α} {f : α → Inquiry β} (hx : x.AsksOnly kind)
    (hf : ∀ a, (f a).AsksOnly kind) : (x >>= f).AsksOnly kind := by
  show (x.bind f).AsksOnly kind
  unfold Inquiry.bind
  split
  · exact List.forall_mem_append.mpr ⟨hx, hf _⟩
  · exact hx
  · exact hx

theorem asksOnly_forAll {f : α → Inquiry β} (hf : ∀ a, (f a).AsksOnly kind) (as : List α) :
    (forAll f as).AsksOnly kind := by
  induction as with
  | nil => exact asksOnly_pure []
  | cons a as ih => exact (hf a).bind fun _ => ih.bind fun _ => asksOnly_pure _

end Inquiry

end Dossier
