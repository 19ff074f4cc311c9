import Dossier.Config.Settings
import Dossier.Proofs.Glob.Filter
import Mathlib.Logic.Basic

/-!
# What is promised of settings

A configuration is looked at entry by entry, and only where something is given. What is promised is
about the settings, in which the documented values stand for the entries that are left out: their
ranges are finite and in order, no time and no number of tokens is zero, the backoffs are in order
whichever of them are given, and the filter is made of the patterns that are listed
(`Dossier.Settings.Sound`).

The settings of a configuration are the one sound completion of its entries, and there are none
exactly if something that is given breaks a promise (`Dossier.Settings.ofConfig_eq_ok_iff`).
-/

namespace Dossier

open Glob (Pattern)

/-! ### Finite doubles -/

namespace Decimal

open Float.Model

/-- Two finite numbers can be compared, from either side. -/
theorem exists_compare {u v : UnpackedFloat} (hu : u.isFinite = true) (hv : v.isFinite = true) :
    ∃ o, u.compare v = some o ∧ v.compare u = some o.swap := by
  have hswap : ∀ (m n : Nat) (p q : Int),
      (compare p q).then (compare m n) = ((compare q p).then (compare n m)).swap := by
    intro m n p q
    rw [Ordering.swap_then, ← Std.OrientedCmp.eq_swap, ← Std.OrientedCmp.eq_swap]
  cases u with
  | infinity s | notANumber => cases hu
  | zero s =>
    cases v with
    | infinity t | notANumber => cases hv
    | zero t => exact ⟨.eq, rfl, rfl⟩
    | finite t n q hn => cases t <;> exact ⟨_, rfl, rfl⟩
  | finite s m p hm =>
    cases v with
    | infinity t | notANumber => cases hv
    | zero t => cases s <;> exact ⟨_, rfl, rfl⟩
    | finite t n q hn =>
      -- Only two numbers of one sign are compared by their sizes.
      cases s <;> cases t
      · exact ⟨_, rfl, congrArg some (congrArg Ordering.swap (hswap n m q p))⟩
      · exact ⟨_, rfl, rfl⟩
      · exact ⟨_, rfl, rfl⟩
      · exact ⟨_, rfl, congrArg some (hswap n m q p)⟩

/-- **Finite doubles are in order** if they are not the wrong way round. -/
theorem le_iff_not_lt {x y : Float} (hx : x.isFinite) (hy : y.isFinite) : x ≤ y ↔ ¬y < x := by
  obtain ⟨o, hxy, hyx⟩ := exists_compare (u := x.toModel.unpack) (v := y.toModel.unpack) hx hy
  have hle : x ≤ y ↔ o.isLE = true := by
    change decide (x.toModel.le y.toModel = true) = true ↔ _
    rw [decide_eq_true_eq, Float.Model.le, UnpackedFloat.le, hxy]
    rfl
  have hlt : y < x ↔ o.swap = .lt := by
    change decide (y.toModel.lt x.toModel = true) = true ↔ _
    rw [decide_eq_true_eq, Float.Model.lt, UnpackedFloat.lt, hyx, beq_iff_eq, Option.some_inj]
  rw [hle, hlt]
  cases o <;> simp

end Decimal

/-! ### Entries and what stands for them -/

/-- **What stands for an entry**: the value that is given, or else the standard one. -/
inductive Stands {α : Type} (standard : α) : Option α → α → Prop
  | given (value : α) : Stands standard (some value) value
  | standard : Stands standard none standard

namespace Stands

variable {α : Type} {standard value other : α} {entry : Option α}

theorem getD (standard : α) (entry : Option α) : Stands standard entry (entry.getD standard) := by
  cases entry
  · exact .standard
  · exact .given _

theorem iff_eq_getD : Stands standard entry value ↔ value = entry.getD standard := by
  constructor
  · rintro (_ | _) <;> rfl
  · rintro rfl
    exact getD standard entry

/-- What holds of a value that is given, and of the standard one, holds of what stands for it. -/
theorem holds {p : α → Prop} (h : Stands standard entry value) (hgiven : ∀ v ∈ entry, p v)
    (hstandard : p standard) : p value := by
  cases h with
  | given => exact hgiven value rfl
  | standard => exact hstandard

/-- A value that is given stands for itself. -/
theorem of_mem {v : α} (h : Stands standard entry value) (hv : v ∈ entry) : v = value := by
  cases h with
  | given => exact (Option.some_inj.mp hv).symm
  | standard => cases hv

theorem unique (h : Stands standard entry value) (h' : Stands standard entry other) :
    value = other := by
  rw [iff_eq_getD.mp h, iff_eq_getD.mp h']

end Stands

/-- Whether the ends of a range are finite and in order. -/
structure MetricRange.Proper (r : MetricRange Float) : Prop where
  min_finite : r.min.isFinite
  max_finite : r.max.isFinite
  min_le_max : r.min ≤ r.max

/-- Whether a text is an address of the web. -/
def IsWebAddress (s : String) : Prop :=
  ∃ rest, s = "http://" ++ rest ∨ s = "https://" ++ rest

/-! ### What is promised -/

namespace Settings

/-- **Whether settings complete a configuration**: every entry that is given is there unchanged, and
the documented value for every other one. -/
structure Completes (c : Config) (s : Settings) : Prop where
  included : s.included = c.included
  /-- A list without patterns counts as one that is left out. -/
  excluded : s.excluded =
    if c.excluded = [] then
      ["**/node_modules/**", "**/target/**", "**/vendor/**", "**/dist/**", "**/build/**",
        "**/.git/**"]
    else c.excluded
  complexity : Stands ⟨1, 50⟩ c.ranges.complexity s.ranges.complexity
  modifications : Stands ⟨0, 100⟩ c.ranges.modifications s.ranges.modifications
  callSites : Stands ⟨0, 500⟩ c.ranges.callSites s.ranges.callSites
  codeLines : Stands ⟨1, 1000⟩ c.ranges.codeLines s.ranges.codeLines
  lifetimeHours : Stands 24 c.lifetimeHours s.lifetimeHours
  stageTimeout : Stands 120 c.stageTimeout s.stageTimeout
  tokenBudget : Stands 4000 c.synthesis.tokenBudget s.tokenBudget
  maxRetries : Stands 3 c.synthesis.maxRetries s.retry.maxRetries
  initialBackoff : Stands 1000 c.synthesis.initialBackoff s.retry.initialBackoff
  maxBackoff : Stands 8000 c.synthesis.maxBackoff s.retry.maxBackoff
  endpoint : Stands "https://api.anthropic.com/v1/messages" c.model.endpoint s.endpoint
  model : Stands "claude-3-5-sonnet-latest" c.model.model s.model
  keyVariable : Stands "ANTHROPIC_API_KEY" c.model.keyVariable s.keyVariable
  maxOutputTokens : Stands 1024 c.model.maxOutputTokens s.maxOutputTokens
  requestTimeout : Stands 60 c.model.requestTimeout s.requestTimeout
  storePath : Stands ".lineage/intelligence.db" c.store.path s.storePath
  artifactDirectory : Stands ".lineage/blobs" c.store.artifactDirectory s.artifactDirectory
  source : s.source = none

/-- **What is promised of settings.** -/
structure Sound (s : Settings) : Prop where
  ranges : ∀ f, (s.ranges.get f).Proper
  lifetimeHours : 0 < s.lifetimeHours
  stageTimeout : 0 < s.stageTimeout
  tokenBudget : 256 ≤ s.tokenBudget
  backoffs : s.retry.initialBackoff ≤ s.retry.maxBackoff
  requestTimeout : 0 < s.requestTimeout
  maxOutputTokens : 0 < s.maxOutputTokens
  endpoint : IsWebAddress s.endpoint
  filter : s.filter.MadeOf s.included s.excluded

end Settings

namespace Config

/-- **Whether nothing that is given breaks a promise.** Only the backoffs are not looked at by
themselves: each of them has to go with what stands for the other one. -/
structure Fair (c : Config) : Prop where
  ranges : ∀ f, ∀ range ∈ c.ranges.get? f, range.Proper
  lifetimeHours : ∀ hours ∈ c.lifetimeHours, 0 < hours
  stageTimeout : ∀ seconds ∈ c.stageTimeout, 0 < seconds
  tokenBudget : ∀ tokens ∈ c.synthesis.tokenBudget, 256 ≤ tokens
  backoffs : ∀ initial max, Stands 1000 c.synthesis.initialBackoff initial →
    Stands 8000 c.synthesis.maxBackoff max → initial ≤ max
  requestTimeout : ∀ seconds ∈ c.model.requestTimeout, 0 < seconds
  maxOutputTokens : ∀ tokens ∈ c.model.maxOutputTokens, 0 < tokens
  endpoint : ∀ address ∈ c.model.endpoint, IsWebAddress address
  included : ∀ text ∈ c.included, (Pattern.parse? text).isSome = true
  excluded : ∀ text ∈ c.excluded, (Pattern.parse? text).isSome = true

variable {c : Config} {fault : Fault}

/-! ### What is looked at -/

theorem rangeFault?_eq_none_iff (f : Figure) (entry : Option (MetricRange Float)) :
    rangeFault? f entry = none ↔ ∀ range ∈ entry, range.Proper := by
  rcases entry with _ | range
  · exact ⟨fun _ _ h => absurd h (Option.not_mem_none _), fun _ => rfl⟩
  simp only [rangeFault?, Option.mem_some_iff, forall_eq']
  by_cases hfinite : range.min.isFinite = true ∧ range.max.isFinite = true
  · obtain ⟨hmin, hmax⟩ := hfinite
    have hends : (!range.min.isFinite || !range.max.isFinite) = false := by rw [hmin, hmax]; rfl
    rw [hends, if_neg Bool.false_ne_true]
    split
    · next hlt =>
      exact iff_of_false nofun fun h => (Decimal.le_iff_not_lt hmin hmax).mp h.min_le_max hlt
    · next hle =>
      exact iff_of_true rfl ⟨hmin, hmax, (Decimal.le_iff_not_lt hmin hmax).mpr hle⟩
  · have hends : (!range.min.isFinite || !range.max.isFinite) = true := by
      rw [Bool.or_eq_true, Bool.not_eq_true', Bool.not_eq_true']
      by_contra hboth
      simp only [not_or, Bool.not_eq_false] at hboth
      exact hfinite hboth
    rw [if_pos hends]
    exact iff_of_false nofun fun h => hfinite ⟨h.min_finite, h.max_finite⟩

theorem lifetimeFault?_eq_none_iff (entry : Option Int) :
    lifetimeFault? entry = none ↔ ∀ hours ∈ entry, 0 < hours := by
  rcases entry with _ | hours
  · simp [lifetimeFault?]
  · simp [lifetimeFault?]

theorem zeroFault?_eq_none_iff (entry : Option Nat) :
    zeroFault? fault entry = none ↔ ∀ n ∈ entry, 0 < n := by
  rcases entry with _ | _ | n <;> simp [zeroFault?]

theorem budgetFault?_eq_none_iff (entry : Option Nat) :
    budgetFault? entry = none ↔ ∀ tokens ∈ entry, minTokenBudget ≤ tokens := by
  rcases entry with _ | tokens
  · simp [budgetFault?]
  · simp [budgetFault?]

theorem backoffFault?_eq_none_iff (o : SynthesisOptions) :
    backoffFault? o = none ↔ ∀ initial max, Stands 1000 o.initialBackoff initial →
      Stands 8000 o.maxBackoff max → initial ≤ max := by
  simp only [Stands.iff_eq_getD, forall_eq_apply_imp_iff, forall_eq, backoffFault?]
  split <;> simp_all [Retries.standard_eq]

theorem isWebAddress_iff (address : String) :
    isWebAddress address = true ↔ IsWebAddress address := by
  have hstarts : ∀ start : String, (Text.dropPrefix? start.toList address.toList).isSome = true ↔
      ∃ rest, address = start ++ rest := by
    intro start
    rw [Option.isSome_iff_exists]
    constructor
    · rintro ⟨rest, hrest⟩
      refine ⟨String.ofList rest, String.toList_inj.mp ?_⟩
      rw [Text.eq_append_of_dropPrefix? hrest, String.toList_append, String.toList_ofList]
    · rintro ⟨rest, rfl⟩
      exact ⟨rest.toList, by rw [String.toList_append, Text.dropPrefix?_append]⟩
  rw [isWebAddress, Bool.or_eq_true, hstarts, hstarts, IsWebAddress, exists_or]

theorem endpointFault?_eq_none_iff (entry : Option String) :
    endpointFault? entry = none ↔ ∀ address ∈ entry, IsWebAddress address := by
  rcases entry with _ | address
  · simp [endpointFault?]
  · simp [endpointFault?, isWebAddress_iff]

theorem patternFault?_eq_none_iff (name : String → Fault) (texts : List String) :
    patternFault? name texts = none ↔ ∀ text ∈ texts, (Pattern.parse? text).isSome = true := by
  simp [patternFault?, Option.isSome_iff_ne_none]

/-- **A configuration without fault is fair**, and the other way round. -/
theorem fault?_eq_none_iff (c : Config) : c.fault? = none ↔ c.Fair := by
  have hall : c.fault? = none ↔ ∀ finding ∈ c.findings, finding = none := by
    rw [fault?, List.findSome?_eq_none_iff]
    rfl
  simp only [hall, findings, Figure.all, List.map_cons, List.map_nil, List.cons_append,
    List.nil_append, List.forall_mem_cons, rangeFault?_eq_none_iff, lifetimeFault?_eq_none_iff,
    zeroFault?_eq_none_iff, budgetFault?_eq_none_iff, backoffFault?_eq_none_iff,
    endpointFault?_eq_none_iff, patternFault?_eq_none_iff]
  constructor
  · rintro ⟨hcomplexity, hmodifications, hcalls, hlines, hlifetime, hstage, hbudget, hbackoffs,
      hrequest, houtput, hendpoint, hincluded, hexcluded, -⟩
    refine ⟨?_, hlifetime, hstage, hbudget, hbackoffs, hrequest, houtput, hendpoint, hincluded,
      hexcluded⟩
    -- The four figures have a range each.
    rintro (_ | _ | _ | _)
    · exact hcomplexity
    · exact hmodifications
    · exact hcalls
    · exact hlines
  · intro h
    exact ⟨h.ranges _, h.ranges _, h.ranges _, h.ranges _, h.lifetimeHours, h.stageTimeout,
      h.tokenBudget, h.backoffs, h.requestTimeout, h.maxOutputTokens, h.endpoint, h.included,
      h.excluded, List.forall_mem_nil _⟩

end Config

namespace Settings

variable {c : Config} {s t : Settings} {filter : PathFilter}

/-! ### The settings of a configuration -/

theorem completes_fill (c : Config) (filter : PathFilter) : (fill c filter).Completes c where
  included := rfl
  excluded := PathFilter.exclusions_eq c.excluded
  complexity := .getD _ _
  modifications := .getD _ _
  callSites := .getD _ _
  codeLines := .getD _ _
  lifetimeHours := .getD _ _
  stageTimeout := .getD _ _
  tokenBudget := .getD _ _
  maxRetries := by
    rw [fill, retryOf_eq]
    exact .getD _ _
  initialBackoff := by
    rw [fill, retryOf_eq]
    exact .getD _ _
  maxBackoff := by
    rw [fill, retryOf_eq]
    exact .getD _ _
  endpoint := .getD _ _
  model := .getD _ _
  keyVariable := .getD _ _
  maxOutputTokens := .getD _ _
  requestTimeout := .getD _ _
  storePath := .getD _ _
  artifactDirectory := .getD _ _
  source := rfl

/-- The settings that complete a configuration are known up to their filter. -/
theorem Completes.eq_fill (h : s.Completes c) : s = fill c s.filter := by
  rcases s with ⟨_, _, filter, ⟨_, _, _, _⟩, _, _, _, ⟨_, _, _⟩, _, _, _, _, _, _, _, _⟩
  obtain ⟨hincluded, hexcluded, hcomplexity, hmodifications, hcalls, hlines, hlifetime, hstage,
    hbudget, hretries, hinitial, hmax, hendpoint, hmodel, hkey, houtput, hrequest, hpath,
    hdirectory, hsource⟩ := h
  rw [← PathFilter.exclusions_eq] at hexcluded
  simp only [Stands.iff_eq_getD] at *
  simp only [fill, rangesOf, retryOf_eq, mk.injEq, Ranges.mk.injEq, Retries.mk.injEq]
  exact ⟨hincluded, hexcluded, trivial, ⟨hcomplexity, hmodifications, hcalls, hlines⟩, hlifetime,
    hstage, hbudget, ⟨hretries, hinitial, hmax⟩, hendpoint, hmodel, hkey, houtput, hrequest, hpath,
    hdirectory, hsource⟩

/-- What completes a fair configuration is sound: the documented values break no promise. -/
theorem Completes.sound (h : s.Completes c) (hfair : c.Fair)
    (hfilter : s.filter.MadeOf s.included s.excluded) : s.Sound where
  ranges f := by
    have hgiven := hfair.ranges f
    cases f with
    | complexity => exact h.complexity.holds hgiven ⟨by decide, by decide, by decide⟩
    | modifications => exact h.modifications.holds hgiven ⟨by decide, by decide, by decide⟩
    | callSites => exact h.callSites.holds hgiven ⟨by decide, by decide, by decide⟩
    | codeLines => exact h.codeLines.holds hgiven ⟨by decide, by decide, by decide⟩
  lifetimeHours := h.lifetimeHours.holds hfair.lifetimeHours (by decide)
  stageTimeout := h.stageTimeout.holds hfair.stageTimeout (by decide)
  tokenBudget := h.tokenBudget.holds hfair.tokenBudget (by decide)
  backoffs := hfair.backoffs _ _ h.initialBackoff h.maxBackoff
  requestTimeout := h.requestTimeout.holds hfair.requestTimeout (by decide)
  maxOutputTokens := h.maxOutputTokens.holds hfair.maxOutputTokens (by decide)
  endpoint := h.endpoint.holds hfair.endpoint ⟨"api.anthropic.com/v1/messages", .inr (by decide)⟩
  filter := hfilter

/-- What is given is there in the settings, so it breaks no promise that they keep. -/
theorem Sound.fair (hsound : s.Sound) (h : s.Completes c) : c.Fair where
  ranges f range hrange := by
    have hthere := hsound.ranges f
    cases f with
    | complexity => rwa [h.complexity.of_mem hrange]
    | modifications => rwa [h.modifications.of_mem hrange]
    | callSites => rwa [h.callSites.of_mem hrange]
    | codeLines => rwa [h.codeLines.of_mem hrange]
  lifetimeHours _ hgiven := by rw [h.lifetimeHours.of_mem hgiven]; exact hsound.lifetimeHours
  stageTimeout _ hgiven := by rw [h.stageTimeout.of_mem hgiven]; exact hsound.stageTimeout
  tokenBudget _ hgiven := by rw [h.tokenBudget.of_mem hgiven]; exact hsound.tokenBudget
  backoffs _ _ hinitial hmax := by
    rw [hinitial.unique h.initialBackoff, hmax.unique h.maxBackoff]
    exact hsound.backoffs
  requestTimeout _ hgiven := by rw [h.requestTimeout.of_mem hgiven]; exact hsound.requestTimeout
  maxOutputTokens _ hgiven := by
    rw [h.maxOutputTokens.of_mem hgiven]
    exact hsound.maxOutputTokens
  endpoint _ hgiven := by rw [h.endpoint.of_mem hgiven]; exact hsound.endpoint
  included text htext := hsound.filter.requires.isSome_parse? (h.included ▸ htext)
  excluded text htext := by
    refine hsound.filter.excludes.isSome_parse? ?_
    rwa [h.excluded, if_neg (List.ne_nil_of_mem htext)]

/-- The patterns of a fair configuration make a filter. -/
theorem exists_ofPatterns? (hfair : c.Fair) :
    ∃ filter, PathFilter.ofPatterns? c.included c.excluded = some filter := by
  have hexclusions : ∀ text ∈ PathFilter.exclusions c.excluded,
      (Pattern.parse? text).isSome = true := by
    rw [PathFilter.exclusions]
    split
    · exact PathFilter.isSome_parse?_of_mem_standardExclusions
    · exact hfair.excluded
  obtain ⟨required, hrequired⟩ := PathFilter.exists_readFrom hfair.included
  obtain ⟨excluded, hexcluded⟩ := PathFilter.exists_readFrom hexclusions
  refine ⟨⟨if required.isEmpty then none else some required, excluded⟩, ?_⟩
  rw [PathFilter.ofPatterns?, PathFilter.mapM_parse?_eq_some_iff.mpr hrequired,
    PathFilter.mapM_parse?_eq_some_iff.mpr hexcluded]
  rfl

/-- A fair configuration has settings, which are sound. -/
theorem exists_ofConfig (hfair : c.Fair) : ∃ s, ofConfig c = .ok s ∧ s.Completes c ∧ s.Sound := by
  obtain ⟨filter, hfilter⟩ := exists_ofPatterns? hfair
  have hok : ofConfig c = .ok (fill c filter) := by
    rw [ofConfig, (Config.fault?_eq_none_iff c).mpr hfair, hfilter]
    rfl
  have hcompletes := completes_fill c filter
  exact ⟨_, hok, hcompletes,
    hcompletes.sound hfair (PathFilter.ofPatterns?_eq_some_iff.mp hfilter)⟩

/-- A configuration that has settings is fair. -/
theorem fair_of_ofConfig (h : ofConfig c = .ok s) : c.Fair := by
  rw [← Config.fault?_eq_none_iff]
  unfold ofConfig at h
  split at h
  · cases h
  · assumption

/-- The settings that a configuration has complete it and are sound. -/
theorem promised_of_ofConfig (h : ofConfig c = .ok s) : s.Completes c ∧ s.Sound := by
  obtain ⟨t, ht, hpromised⟩ := exists_ofConfig (fair_of_ofConfig h)
  obtain rfl := Except.ok.inj (h.symm.trans ht)
  exact hpromised

/-- **The settings of a configuration** are its one sound completion: every entry that is given is
there unchanged, the documented value stands for every other one, and all that is promised of
settings holds. There are none, and a fault instead, exactly if something that is given breaks a
promise. -/
theorem ofConfig_eq_ok_iff (c : Config) :
    (∀ s, ofConfig c = .ok s ↔ s.Completes c ∧ s.Sound) ∧
      ((∃ fault, ofConfig c = .error fault) ↔ ¬c.Fair) := by
  by_cases hfair : c.Fair
  · obtain ⟨s, hs, hcompletes, hsound⟩ := exists_ofConfig hfair
    rw [hs]
    refine ⟨fun t => ⟨?_, ?_⟩, iff_of_false nofun (not_not.mpr hfair)⟩
    · rintro ⟨⟩
      exact ⟨hcompletes, hsound⟩
    · rintro ⟨hcompletes', hsound'⟩
      -- Nothing but the filter is left open by the entries, and that is made of the patterns.
      have hfilter := hsound.filter
      rw [hcompletes.included, hcompletes.excluded, ← hcompletes'.included,
        ← hcompletes'.excluded] at hfilter
      rw [hcompletes.eq_fill, hcompletes'.eq_fill, hfilter.unique hsound'.filter]
  · have hfault : c.fault? ≠ none := fun h => hfair ((Config.fault?_eq_none_iff c).mp h)
    obtain ⟨fault, hfault⟩ := Option.ne_none_iff_exists'.mp hfault
    have herror : ofConfig c = .error fault := by rw [ofConfig, hfault]
    rw [herror]
    refine ⟨fun t => iff_of_false nofun ?_, iff_of_true ⟨fault, rfl⟩ hfair⟩
    rintro ⟨hcompletes, hsound⟩
    exact hfair (hsound.fair hcompletes)

end Settings

end Dossier
