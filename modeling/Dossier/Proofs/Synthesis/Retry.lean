import Dossier.Synthesis.Retry
import Mathlib.Data.Nat.Find
import Mathlib.Order.Basic

/-!
# The course of an asking

Which call of the model is the last one is decided by what the calls come to
(`Dossier.Synthesis.IsLast`): it is the first that is answered or fails for good, unless the retries
are used up before. What comes of the asking is what comes of this call alone, and its course is all
calls up to it, each but the last followed by the wait before the next
(`Dossier.Synthesis.IsLast.askFrom_eq`). The words for a failure are told apart from the functions
that find them (`Dossier.Synthesis.FailsFor`).
-/

namespace Dossier.Synthesis

variable {d : Decoder} {p : RetryPolicy} {provider : Provider} {last other first attempts : Nat}
  {outcome : Except ProviderError String} {e : ProviderError} {reply reason : String} {s : Sections}

/-! ### Failures of the provider -/

namespace ProviderError

/-- **The failures that may pass.** -/
inductive Transient : ProviderError → Prop
  | rateLimited (message : String) : Transient (.rateLimited message)
  | network (message : String) : Transient (.network message)
  | timeout : Transient .timeout
  | serviceUnavailable (message : String) : Transient (.serviceUnavailable message)

theorem isRetryable_iff : e.isRetryable ↔ e.Transient := by
  constructor
  · intro h
    cases e with
    | rateLimited message => exact .rateLimited message
    | network message => exact .network message
    | timeout => exact .timeout
    | serviceUnavailable message => exact .serviceUnavailable message
    | authentication | invalidRequest | invalidResponse | disabled => cases h
  · rintro (_ | _ | _ | _) <;> rfl

/-- **The words for a failure.** -/
inductive Worded : ProviderError → String → Prop
  | authentication (m : String) : Worded (.authentication m) ("authentication failed: " ++ m)
  | rateLimited (m : String) : Worded (.rateLimited m) ("rate limited: " ++ m)
  | invalidRequest (m : String) : Worded (.invalidRequest m) ("invalid request: " ++ m)
  | network (m : String) : Worded (.network m) ("network error: " ++ m)
  | timeout : Worded .timeout "request timed out"
  | serviceUnavailable (m : String) : Worded (.serviceUnavailable m) ("service unavailable: " ++ m)
  | invalidResponse (m : String) : Worded (.invalidResponse m) ("invalid response: " ++ m)
  | disabled (m : String) : Worded (.disabled m) ("llm disabled: " ++ m)

theorem worded_iff {words : String} : e.Worded words ↔ e.text = words := by
  constructor
  · rintro (_ | _ | _ | _ | _ | _ | _ | _) <;> rfl
  · rintro rfl
    cases e <;> constructor

end ProviderError

/-! ### The last call -/

theorem mayPass_iff : mayPass outcome ↔ ∃ e, outcome = .error e ∧ e.Transient := by
  rcases outcome with e | reply
  · refine ⟨fun h => ⟨e, rfl, ProviderError.isRetryable_iff.mp h⟩, ?_⟩
    rintro ⟨_, ⟨⟩, h⟩
    exact ProviderError.isRetryable_iff.mpr h
  · exact ⟨nofun, nofun⟩

theorem not_mayPass_iff :
    ¬mayPass outcome ↔
      (∃ reply, outcome = .ok reply) ∨ ∃ e, outcome = .error e ∧ ¬e.Transient := by
  rw [mayPass_iff]
  rcases outcome with e | reply <;> simp

/-- **Whether a call is the last one**; calls are numbered from zero. All calls before it fail in a
way that may pass. It is answered itself, or it fails for good, or it is the last that the policy
allows. -/
structure IsLast (p : RetryPolicy) (provider : Provider) (last : Nat) : Prop where
  le : last ≤ p.maxRetries
  before : ∀ call < last, ∃ e, provider call = .error e ∧ e.Transient
  final : (∃ reply, provider last = .ok reply) ∨
    (∃ e, provider last = .error e ∧ ¬e.Transient) ∨ last = p.maxRetries

namespace IsLast

theorem mayPass_before (h : IsLast p provider last) {call : Nat} (hcall : call < last) :
    mayPass (provider call) :=
  mayPass_iff.mpr (h.before call hcall)

theorem not_mayPass_or (h : IsLast p provider last) :
    ¬mayPass (provider last) ∨ last = p.maxRetries := by
  rw [not_mayPass_iff, or_assoc]
  exact h.final

/-- No call is made after the last one. -/
theorem not_lt (h : IsLast p provider last) (h' : IsLast p provider other) : ¬other < last := by
  intro hlt
  rcases h'.not_mayPass_or with hends | heq
  · exact hends (h.mayPass_before hlt)
  · have := h.le
    omega

theorem unique (h : IsLast p provider last) (h' : IsLast p provider other) : other = last :=
  Nat.le_antisymm (Nat.not_lt.mp (h'.not_lt h)) (Nat.not_lt.mp (h.not_lt h'))

end IsLast

/-- There is a last call. -/
theorem exists_isLast (p : RetryPolicy) (provider : Provider) : ∃ last, IsLast p provider last := by
  -- Some call is the first that ends the asking: at the latest that which uses the retries up.
  have hends : ∃ n, ¬mayPass (provider n) ∨ n = p.maxRetries := ⟨p.maxRetries, Or.inr rfl⟩
  refine ⟨Nat.find hends, Nat.find_min' hends (Or.inr rfl), fun call hcall => ?_, ?_⟩
  · have hpasses := (not_or.mp (Nat.find_min hends hcall)).1
    exact mayPass_iff.mp (not_not.mp hpasses)
  · rw [← or_assoc, ← not_mayPass_iff]
    exact Nat.find_spec hends

/-! ### All calls -/

/-- **The course of the calls** from the first to the last of some calls: each but the last is
followed by the wait before the next. Retries are counted from one. -/
def course (p : RetryPolicy) (provider : Provider) (first last : Nat) : List Event :=
  ((List.range' first (last - first)).flatMap fun call =>
    [.call (provider call), .waited (p.delay (call + 1))]) ++ [.call (provider last)]

theorem course_self (p : RetryPolicy) (provider : Provider) (last : Nat) :
    course p provider last last = [.call (provider last)] := by
  rw [course, Nat.sub_self]
  rfl

theorem course_of_lt (p : RetryPolicy) (provider : Provider) (h : first < last) :
    course p provider first last =
      .call (provider first) :: .waited (p.delay (first + 1)) ::
        course p provider (first + 1) last := by
  have hcount : last - first = last - (first + 1) + 1 := by omega
  rw [course, hcount, List.range'_succ]
  rfl

namespace Asked

theorem ofReply_of_ok (h : readReply d reply = .ok s) (attempts : Nat) :
    ofReply d reply attempts = ⟨s.narrative, s.recommendations, .complete, attempts, []⟩ := by
  unfold ofReply
  rw [h]

theorem ofReply_of_error {e : ReplyError} (h : readReply d reply = .error e) (attempts : Nat) :
    ofReply d reply attempts = failed e.text attempts := by
  unfold ofReply
  rw [h]

/-- The outcome of the last call knows the number of calls, but nothing of their course. -/
theorem attempts_ofLast (d : Decoder) (attempts : Nat) (outcome : Except ProviderError String) :
    (ofLast d attempts outcome).attempts = attempts ∧
      (ofLast d attempts outcome).course = [] := by
  rcases outcome with e | reply
  · exact ⟨rfl, rfl⟩
  · rw [ofLast]
    rcases h : readReply d reply with e | s
    · rw [ofReply_of_error h]
      exact ⟨rfl, rfl⟩
    · rw [ofReply_of_ok h]
      exact ⟨rfl, rfl⟩

end Asked

/-- **What comes of the asking** from any call up to the last: the outcome of the last call, and the
course of all of them. -/
theorem IsLast.askFrom_eq (h : IsLast p provider last) (hfirst : first ≤ last) :
    askFrom d p provider (p.maxRetries - first) first =
      { Asked.ofLast d (last + 1) (provider last) with
        course := course p provider first last } := by
  -- The induction goes down from the last call, as the asking goes up to it.
  induction hfirst using Nat.decreasingInduction with
  | self =>
    -- Where retries are left, the last call is one that ends the asking.
    have hends : askFrom d p provider (p.maxRetries - last) last =
        (Asked.ofLast d (last + 1) (provider last)).after (.call (provider last)) := by
      rcases hleft : p.maxRetries - last with _ | retries
      · rfl
      · rw [askFrom, if_neg (h.not_mayPass_or.resolve_right (by omega))]
    rw [hends, Asked.after, (Asked.attempts_ofLast _ _ _).2, course_self]
  | of_succ first hlt ih =>
    have hleft : p.maxRetries - first = p.maxRetries - (first + 1) + 1 := by
      have := h.le
      omega
    rw [hleft, askFrom, if_pos (h.mayPass_before hlt), ih, course_of_lt p provider hlt]
    rfl

/-! ### Replies that are of no use -/

/-- **What is said of a reply that is of no use.** It may have no object in it; what was found may
be no JSON or of the wrong shape, which is told in the decoder's words; or a section is missing. -/
inductive Refused (d : Decoder) (reply : String) : String → Prop
  | noObject : firstObject? reply = none → Refused d reply "reply contains no JSON object"
  | noJson {object : String} : firstObject? reply = some object → Json.parse? object = none →
      Refused d reply ("reply is not valid JSON: " ++ d.syntaxMessage object)
  | misshapen {object : String} {v : Json} : firstObject? reply = some object →
      Json.parse? object = some v → sectionsOf d v = .error (.malformed (d.shapeMessage v)) →
      Refused d reply ("reply is not valid JSON: " ++ d.shapeMessage v)
  | incomplete {object : String} {v : Json} {name : String} : firstObject? reply = some object →
      Json.parse? object = some v → sectionsOf d v = .error (.missingSection name) →
      Refused d reply ("reply is missing section `" ++ name ++ "`")

theorem readReply_of_parse? {object : String} {v : Json}
    (hobject : firstObject? reply = some object) (hparse : Json.parse? object = some v) :
    readReply d reply = sectionsOf d v := by
  rw [readReply, hobject]
  dsimp only
  rw [hparse]

/-- Of a value, only what its shape is can be wrong, or what it lacks. -/
theorem eq_of_sectionsOf_eq_error {v : Json} {e : ReplyError} (h : sectionsOf d v = .error e) :
    e = .malformed (d.shapeMessage v) ∨ ∃ name, e = .missingSection name := by
  unfold sectionsOf at h
  split at h
  · exact Or.inr ⟨_, (Except.error.inj h).symm⟩
  · split at h
    · dsimp only at h
      split at h
      · exact Or.inr ⟨_, (Except.error.inj h).symm⟩
      · cases h
    · exact Or.inl (Except.error.inj h).symm

theorem refused_of_error {e : ReplyError} (h : readReply d reply = .error e) :
    Refused d reply e.text := by
  rcases hobject : firstObject? reply with _ | object
  · rw [readReply, hobject] at h
    obtain rfl := Except.error.inj h
    exact .noObject hobject
  · rcases hparse : Json.parse? object with _ | v
    · rw [readReply, hobject] at h
      dsimp only at h
      rw [hparse] at h
      obtain rfl := Except.error.inj h
      exact .noJson hobject hparse
    · rw [readReply_of_parse? hobject hparse] at h
      rcases eq_of_sectionsOf_eq_error h with rfl | ⟨name, rfl⟩
      · exact .misshapen hobject hparse h
      · exact .incomplete hobject hparse h

/-- **Why a reply is of no use**, in words. -/
theorem refused_iff :
    Refused d reply reason ↔ ∃ e, readReply d reply = .error e ∧ e.text = reason := by
  constructor
  · rintro (hobject | ⟨hobject, hparse⟩ | ⟨hobject, hparse, h⟩ | ⟨hobject, hparse, h⟩)
    · exact ⟨.noObject, by rw [readReply, hobject], rfl⟩
    · refine ⟨.malformed _, ?_, rfl⟩
      rw [readReply, hobject]
      dsimp only
      rw [hparse]
    · exact ⟨_, (readReply_of_parse? hobject hparse).trans h, rfl⟩
    · exact ⟨_, (readReply_of_parse? hobject hparse).trans h, rfl⟩
  · rintro ⟨e, he, rfl⟩
    exact refused_of_error he

/-! ### What comes of the last call -/

/-- **Whether a call comes to nothing for a reason.** The reply may be of no use, or the failure one
that will not pass; a failure that may pass is the reason together with the number of calls. -/
inductive FailsFor (d : Decoder) (attempts : Nat) : Except ProviderError String → String → Prop
  | useless {reply reason : String} : Refused d reply reason →
      FailsFor d attempts (.ok reply) reason
  | permanent {e : ProviderError} {words : String} : e.Worded words → ¬e.Transient →
      FailsFor d attempts (.error e) words
  | exhausted {e : ProviderError} {words : String} : e.Worded words → e.Transient →
      FailsFor d attempts (.error e)
        (words ++ " (after " ++ Decimal.ofNat attempts ++ " attempts)")

theorem Asked.complete_ofLast_iff :
    ((ofLast d attempts outcome).status = .complete ∧
        (ofLast d attempts outcome).narrative = s.narrative ∧
        (ofLast d attempts outcome).recommendations = s.recommendations) ↔
      ∃ reply, outcome = .ok reply ∧ readReply d reply = .ok s := by
  constructor
  · rintro ⟨hstatus, hnarrative, hrecommendations⟩
    rcases outcome with e | reply
    · cases hstatus
    · rw [ofLast] at hstatus hnarrative hrecommendations
      rcases hread : readReply d reply with e | s'
      · rw [ofReply_of_error hread] at hstatus
        cases hstatus
      · rw [ofReply_of_ok hread] at hnarrative hrecommendations
        cases s'
        cases s
        cases hnarrative
        cases hrecommendations
        exact ⟨reply, rfl, hread⟩
  · rintro ⟨reply, rfl, hread⟩
    rw [ofLast, ofReply_of_ok hread]
    exact ⟨rfl, rfl, rfl⟩

theorem Asked.incomplete_ofLast_iff :
    (ofLast d attempts outcome).status = .incomplete reason ↔
      FailsFor d attempts outcome reason := by
  constructor
  · intro hstatus
    rcases outcome with e | reply
    · obtain rfl := SynthesisStatus.incomplete.inj hstatus
      have hwords : e.Worded e.text := ProviderError.worded_iff.mpr rfl
      unfold Asked.reason
      split
      · next he => exact .exhausted hwords (ProviderError.isRetryable_iff.mp he)
      · next he => exact .permanent hwords fun h => he (ProviderError.isRetryable_iff.mpr h)
    · rw [ofLast] at hstatus
      rcases hread : readReply d reply with e | s
      · rw [ofReply_of_error hread] at hstatus
        obtain rfl := SynthesisStatus.incomplete.inj hstatus
        exact .useless (refused_of_error hread)
      · rw [ofReply_of_ok hread] at hstatus
        cases hstatus
  · rintro (hrefused | ⟨hwords, he⟩ | ⟨hwords, he⟩)
    · obtain ⟨e, hread, rfl⟩ := refused_iff.mp hrefused
      rw [ofLast, ofReply_of_error hread]
      rfl
    · rw [← ProviderError.isRetryable_iff] at he
      obtain rfl := ProviderError.worded_iff.mp hwords
      exact congrArg SynthesisStatus.incomplete (if_neg he)
    · rw [← ProviderError.isRetryable_iff] at he
      obtain rfl := ProviderError.worded_iff.mp hwords
      exact congrArg SynthesisStatus.incomplete (if_pos he)

/-- A model whose first reply can be read has written a narrative. -/
theorem complete_of_readReply (hfirst : provider 0 = .ok reply) (hread : readReply d reply = .ok s)
    (p : RetryPolicy) : (ask d p provider).status = .complete := by
  have hlast : IsLast p provider 0 :=
    ⟨Nat.zero_le _, fun call hcall => absurd hcall (Nat.not_lt_zero call), Or.inl ⟨reply, hfirst⟩⟩
  have hasked : ask d p provider = { Asked.ofLast d (0 + 1) (provider 0) with
      course := course p provider 0 0 } := hlast.askFrom_eq (Nat.le_refl 0)
  rw [hasked]
  exact (Asked.complete_ofLast_iff.mpr ⟨reply, hfirst, hread⟩).1

/-- **The model is asked until a call is the last.** There is exactly one such call. Before it the
policy's wait is kept after each failure, and after it nothing happens. The narrative is complete
exactly if the last call has a reply that can be read, and is what the reply says; otherwise the
reason why that call came to nothing stands in its place, whatever the decoder says of replies that
cannot be decoded. -/
theorem asked_until_last (d : Decoder) (p : RetryPolicy) (provider : Provider) :
    ∃ last, IsLast p provider last ∧ (∀ other, IsLast p provider other → other = last) ∧
      (ask d p provider).attempts = last + 1 ∧
      (ask d p provider).course =
        ((List.range last).flatMap fun call =>
          [.call (provider call), .waited (p.delay (call + 1))]) ++ [.call (provider last)] ∧
      (∀ s : Sections, ((ask d p provider).status = .complete ∧
          (ask d p provider).narrative = s.narrative ∧
          (ask d p provider).recommendations = s.recommendations) ↔
        ∃ reply, provider last = .ok reply ∧ readReply d reply = .ok s) ∧
      ∀ reason, ((ask d p provider).status = .incomplete reason ↔
          FailsFor d (last + 1) (provider last) reason) ∧
        ((ask d p provider).status = .incomplete reason →
          let marker := "synthesis unavailable: " ++ reason
          (ask d p provider).narrative = ⟨marker, marker, marker⟩ ∧
            (ask d p provider).recommendations = [marker]) := by
  obtain ⟨last, hlast⟩ := exists_isLast p provider
  have hasked : ask d p provider = { Asked.ofLast d (last + 1) (provider last) with
      course := course p provider 0 last } := hlast.askFrom_eq (Nat.zero_le last)
  refine ⟨last, hlast, fun other => hlast.unique, ?_, ?_, fun s => ?_, fun reason => ⟨?_, ?_⟩⟩
  · rw [hasked]
    exact (Asked.attempts_ofLast _ _ _).1
  · rw [hasked, List.range_eq_range']
    rfl
  · rw [hasked]
    exact Asked.complete_ofLast_iff
  · rw [hasked]
    exact Asked.incomplete_ofLast_iff
  · exact givesReason_ask d p provider reason

end Dossier.Synthesis
