/-
`aadapt` against `adapt`: where the two part.

Nothing but the call of the model counts such a call: every stage of either
function keeps `llmCounts`. So does all of `aadapt`, while `adapt` counts the
call it makes, and an answer of the model always leaves the two with different
reports.
-/
import GptCache.Adapter.AsyncAdapt
import GptCache.Adapter.Stages

namespace GptCache

open Caches (onData onOutside onReport timeCal)

variable {B E R H D X L : Type}

/-! ## What counts a call of the model -/

/-- How often each cache counted a call of the model. -/
def llmCounts (s : Caches D X) (i : Nat) : Nat := (s.levels i).report.opLlm

section

variable {place : Nat} {c : Core.Cache B E R H D} {rt : Runtime B X}

theorem onData_keeps {α : Type} (m : Exec PyError D α) :
    Exec.Keeps llmCounts (onData place m : Exec PyError (Caches D X) α) := by
  refine .zoom (fun s d => ?_) m
  funext i
  simp only [llmCounts, Caches.withData]
  split <;> rfl

theorem onOutside_keeps {α : Type} (m : Exec PyError X α) :
    Exec.Keeps llmCounts (onOutside m : Exec PyError (Caches D X) α) := by
  refine .zoom (fun s x => ?_) m
  rfl

theorem onReport_keeps (report : Report → Report) (h : ∀ r, (report r).opLlm = r.opLlm) :
    Exec.Keeps llmCounts (onReport place report : Exec PyError (Caches D X) Unit) := by
  refine .modify fun s => ?_
  funext i
  simp only [llmCounts, Caches.reported]
  split
  · exact h _
  · rfl

/-- Whatever a cache was given, its stages count no call of the model. -/
theorem llmStages [DecidableEq E] (place : Nat) (c : Core.Cache B E R H D) :
    Stages (Exec.Same (llmCounts (D := D) (X := X))) place c :=
  .of_any onOutside_keeps onReport_keeps onData_keeps

/-- A callback that counts no call of the model, if saving counts none. -/
def Callbacks.Uncounted (callbacks : Callbacks B H D X L) : Prop :=
  ∀ d save kwargs, (∀ handled question, Exec.Keeps llmCounts (save handled question)) →
    Exec.Keeps llmCounts (callbacks.updateCacheCallback d save kwargs)

/-- The same of one that may be given no answer. -/
def AsyncCallbacks.Uncounted (callbacks : AsyncCallbacks B H D X L) : Prop :=
  callbacks.toCallbacks.Uncounted ∧ ∀ save kwargs, (∀ handled question, Exec.Keeps llmCounts (save handled question)) →
    Exec.Keeps llmCounts (callbacks.updateCacheNone save kwargs)

/-! ## The stages of aadapt -/

section

variable [DecidableEq E]

theorem apopRequest_keeps (kwargs : Kwargs B) :
    Exec.Keeps llmCounts (apopRequest rt c kwargs : Exec PyError (Caches D X) (Request B)) := by
  have hrest : ∀ (temperature context : Arg B) (kwargs : Kwargs B) (f : ℚ → Arg B × Kwargs B → Context B → Request B),
      Exec.Keeps llmCounts (Exec.ofExcept temperature.asNumber >>= fun temperature =>
        popCacheSkip rt temperature kwargs >>= fun p =>
          Exec.ofExcept context.asContext >>= fun context => pure (f temperature p context) :
        Exec PyError (Caches D X) (Request B)) := fun temperature context kwargs f =>
    (Exec.Keeps.ofExcept _).bind fun _ => Exec.Keeps.bind ((llmStages 0 c).popCacheSkip_within _ _) fun _ =>
      (Exec.Keeps.ofExcept _).bind fun _ => .pure _
  simp only [apopRequest, Dict.pop]
  refine Exec.Keeps.bind (assertObjectStore_within _) fun _ => ?_
  split
  · exact hrest _ _ _ _
  · exact (Exec.Keeps.raise _).bind fun _ => hrest _ _ _ _

theorem arankOne_keeps (r : Request B) (k : Embedded B E) (threshold : ℚ) (searchData : R) :
    Exec.Keeps llmCounts (arankOne place c r k threshold searchData : Exec PyError (Caches D X) _) := by
  have h := llmStages (X := X) place c
  unfold arankOne
  refine Exec.Keeps.bind (h.timeCal_within .data (fun _ => rfl) (h.scalarData _ _ _)) fun found => ?_
  cases found with
  | none => exact .pure _
  | some entry =>
    refine (Exec.Keeps.ofExcept _).bind fun p =>
      Exec.Keeps.bind (h.timeCal_within .evaluation (fun _ => rfl) (h.evaluation _ _ _)) fun rank => ?_
    split
    · exact (onData_keeps _).bind fun _ => .pure _
    · exact .pure _

theorem asearchAnswers_keeps (r : Request B) (k : Embedded B E) :
    Exec.Keeps llmCounts (asearchAnswers rt place c r k : Exec PyError (Caches D X) _) := by
  have h := llmStages (X := X) place c
  unfold asearchAnswers
  split
  · exact .pure _
  · split
    · exact .pure _
    · exact Exec.Keeps.bind (h.timeCal_within .search (fun _ => rfl) (h.search _ _ _)) fun _ =>
        (Exec.Keeps.ofExcept _).bind fun _ => (Exec.Keeps.filterMap (arankOne_keeps r k _) _).bind fun _ => .pure _

theorem arecordHit_keeps [DecidableEq B] (r : Request B) (k : Embedded B E) (answers : List (CacheAnswer B E R))
    (message : Content B) :
    Exec.Keeps llmCounts (arecordHit rt place c r k answers message : Exec PyError (Caches D X) Unit) := by
  rw [arecordHit_eq]
  refine (onReport_keeps .hintCache fun _ => rfl).bind fun _ => ?_
  split
  · exact .pure _
  · exact Exec.Keeps.bind ((llmStages place c).tellSession_within _ _ _) fun _ => onData_keeps _

theorem ahitMessage_keeps [DecidableEq B] (r : Request B) (k : Embedded B E) (answers : List (CacheAnswer B E R)) :
    Exec.Keeps llmCounts (ahitMessage rt place c r k answers : Exec PyError (Caches D X) _) := by
  have h := llmStages (X := X) place c
  unfold ahitMessage
  split
  · exact .pure _
  · refine Exec.Keeps.bind (h.timeCal_within .post (fun _ => rfl) (h.postProcess_within _ _)) fun message => ?_
    cases message with
    | none => exact .pure _
    | some m => exact (arecordHit_keeps _ _ _ _).bind fun _ => .pure _

theorem aupdateCache_keeps {callbacks : AsyncCallbacks B H D X L} (h : callbacks.Uncounted) (r : Request B)
    (k : Embedded B E) (llmData : Option L) (kwargs : Kwargs B) :
    Exec.Keeps llmCounts (aupdateCache place c callbacks r k llmData kwargs) := by
  have hsave : ∀ embedding handled question,
      Exec.Keeps llmCounts
        (updateCacheFunc place c none r k embedding handled question : Exec PyError (Caches D X) Unit) :=
    fun _ _ _ => (llmStages place c).updateCacheFunc_within (fun _ hn => by cases hn) _ _ _ _ _
  unfold aupdateCache
  split
  · exact .pure _
  · refine .catching ?_ fun _ => .pure _
    cases llmData with
    | none => exact h.2 _ _ (hsave _)
    | some d => exact h.1 _ _ _ (hsave _)

end

/-! ## The descent and the way back -/

variable [DecidableEq B] [DecidableEq E]

theorem descend_keeps : ∀ (place : Nat) (c : Core.Cache B E R H D) (nexts : List (Core.Cache B E R H D))
    (kwargs : Kwargs B), Exec.Keeps llmCounts (descend rt place c nexts kwargs)
  | place, c, [], kwargs => by
    rw [descend]
    refine Exec.Keeps.bind ((llmStages place c).lookUp_within _) fun l => ?_
    cases l.message with
    | some m => exact .pure _
    | none => exact .pure _
  | place, c, n :: ns, kwargs => by
    rw [descend]
    refine Exec.Keeps.bind ((llmStages place c).lookUp_within _) fun l => ?_
    cases l.message with
    | some m => exact .pure _
    | none => exact (descend_keeps (place + 1) n ns _).bind fun _ => .pure _

omit [DecidableEq B] in
theorem climb_keeps {callbacks : Callbacks B H D X L} (h : callbacks.Uncounted) :
    ∀ (steps : List (Step B E R H D)) (llmData : Option L), Exec.Keeps llmCounts (climb callbacks steps llmData)
  | [], _ => .pure _
  | step :: steps, llmData => (climb_keeps h steps llmData).bind fun _ =>
      (llmStages step.place step.cache).updateCache_within (fun n _ => llmStages _ n) h _ _ _ _

/-- `aadapt` counts no call of the model. -/
theorem aadapt_keeps {callbacks : AsyncCallbacks B H D X L} (h : callbacks.Uncounted)
    (nexts : List (Core.Cache B E R H D)) (kwargs : Kwargs B) :
    Exec.Keeps llmCounts (aadapt rt place c callbacks nexts kwargs) := by
  unfold aadapt
  refine (apopRequest_keeps _).bind fun _ => Exec.Keeps.bind ((llmStages place c).embed_within _) fun _ =>
    (asearchAnswers_keeps _ _).bind fun _ => (ahitMessage_keeps _ _ _).bind fun message => ?_
  cases message with
  | some m => exact .pure _
  | none =>
    cases nexts with
    | cons n ns => exact .raise _
    | nil => exact (onOutside_keeps _).bind fun _ => aupdateCache_keeps h _ _ _ _

/-- `adapt` counts the call the descent ends with, if the model answers it. -/
theorem adapt_counts {callbacks : Callbacks B H D X L} (h : callbacks.Uncounted) {nexts : List (Core.Cache B E R H D)}
    {kwargs : Kwargs B} {s s₁ s' : Caches D X} {steps : List (Step B E R H D)} {p : Nat} {kw : Kwargs B}
    {d : Option L} {x : X} {res : Except PyError (Option L)}
    (hd : descend rt place c nexts kwargs s = some (.ok ⟨steps, .asked p kw⟩, s₁))
    (hllm : callbacks.llmHandler kw s₁.outside = some (.ok d, x))
    (hrun : adapt rt callbacks place c nexts kwargs s = some (res, s')) : llmCounts s' p = llmCounts s p + 1 := by
  have hasked : conclude callbacks (.asked p kw) s₁ =
      some (.ok d, ({ s₁ with outside := x } : Caches D X).reported p .llm) := by
    have hout : onOutside (callbacks.llmHandler kw) s₁ = some (.ok d, { s₁ with outside := x }) := by
      simp only [onOutside, Exec.zoom, hllm]
    exact (Exec.bind_of_ok _ hout).trans rfl
  rw [adapt_eq_descend, Exec.bind_of_ok _ hd, Exec.bind_of_ok _ hasked] at hrun
  rw [climb_keeps h steps d _ _ _ hrun, ← descend_keeps _ _ _ _ _ _ _ hd]
  simp [llmCounts, Caches.reported, Report.llm]

theorem onOutside_ok {α : Type} {m : Exec PyError X α} {s s' : Caches D X} {a : α}
    (h : onOutside m s = some (.ok a, s')) : ∃ x, m s.outside = some (.ok a, x) := by
  simp only [onOutside, Exec.zoom] at h
  rcases hm : m s.outside with _ | ⟨r, x⟩ <;> simp only [hm] at h
  · cases h
  · cases h
    exact ⟨x, rfl⟩

/-! ## Agreement -/

/-- The same value, or an error of either, and the same caches, reports and sessions. -/
def Agree : Option (Except PyError (Option L) × Caches D X) → Option (Except PyError (Option L) × Caches D X) → Prop
  | none, none => True
  | some (.ok a, s), some (.ok b, t) => a = b ∧ s.levels = t.levels
  | some (.error _, s), some (.error _, t) => s.levels = t.levels
  | _, _ => False

theorem Agree.counts {o : Option (Except PyError (Option L) × Caches D X)} {res : Except PyError (Option L)}
    {t : Caches D X} (h : Agree o (some (res, t))) : ∃ res' s, o = some (res', s) ∧ llmCounts s = llmCounts t := by
  cases o with
  | none => cases res <;> exact h.elim
  | some p =>
    obtain ⟨res', s⟩ := p
    have hlevels : s.levels = t.levels := by
      cases res' <;> cases res
      · exact h
      · exact h.elim
      · exact h.elim
      · exact h.2
    exact ⟨res', s, rfl, by unfold llmCounts; rw [hlevels]⟩

/-- No option is in use that one of the two does not know. -/
structure Plain (c : Core.Cache B E R H D) (nexts : List (Core.Cache B E R H D)) (kwargs : Kwargs B) : Prop where
  searchOnly : kwargs.contains "search_only" = false
  hitCallback : kwargs.contains "hit_callback" = false
  dataCheck : c.config.dataCheck = false
  report : c.config.disableReport = false
  nexts : nexts = []

/-- A request that is not `SameWay`, though it uses no such option, was answered by the model. -/
theorem Plain.answered {callbacks : Callbacks B H D X L} {nexts : List (Core.Cache B E R H D)} {kwargs : Kwargs B}
    {s : Caches D X} (h : Plain c nexts kwargs) (hsame : ¬ SameWay rt place c kwargs callbacks nexts s) :
    ∃ steps kw s₁ d x, descend rt place c nexts kwargs s = some (.ok ⟨steps, .asked place kw⟩, s₁) ∧
      callbacks.llmHandler kw s₁.outside = some (.ok d, x) := by
  by_contra hnot
  refine hsame ⟨h.searchOnly, fun hcheck => ?_, fun hcall => ?_, fun hdisabled => ?_, fun l s' hl hmessage =>
    ⟨h.nexts, fun hkey => ?_, fun d s'' hllm => hnot ?_⟩⟩
  · simp [h.dataCheck] at hcheck
  · have hkey := Dict.contains_eq_false.mp h.hitCallback
    simp [callable, hkey] at hcall
  · simp [h.report] at hdisabled
  · simp [h.hitCallback] at hkey
  · have hask : lastOutcome rt place l = .asked place l.kwargs := by
      simp only [lastOutcome, lookUp_searchOnly hl, Dict.contains_eq_false.mp h.searchOnly, Option.getD_none,
        Arg.truthy, Bool.false_eq_true, if_false]
    obtain ⟨x, hx⟩ := onOutside_ok hllm
    refine ⟨[⟨place, c, none, l, l.kwargs⟩], l.kwargs, s', d, x, ?_, hx⟩
    rw [h.nexts, descend, Exec.bind_of_ok _ hl]
    simp only [hmessage, hask]
    rfl

/-- **The two entry points agree on a request that meets none of their
differences, and never on one the model answers**; where none of the options
in question is used, these are all the requests there are. -/
theorem aadapt_agrees (callbacks : AsyncCallbacks B H D X L) (h : callbacks.Uncounted)
    (nexts : List (Core.Cache B E R H D)) (kwargs : Kwargs B) (s : Caches D X) :
    (SameWay rt place c kwargs callbacks.toCallbacks nexts s →
        aadapt rt place c callbacks nexts kwargs s = adapt rt callbacks.toCallbacks place c nexts kwargs s) ∧
      (∀ steps p kw s₁ d x, descend rt place c nexts kwargs s = some (.ok ⟨steps, .asked p kw⟩, s₁) →
        callbacks.llmHandler kw s₁.outside = some (.ok d, x) →
        adapt rt callbacks.toCallbacks place c nexts kwargs s ≠ none →
        ¬ Agree (aadapt rt place c callbacks nexts kwargs s) (adapt rt callbacks.toCallbacks place c nexts kwargs s)) ∧
      (Plain c nexts kwargs → adapt rt callbacks.toCallbacks place c nexts kwargs s ≠ none →
        (Agree (aadapt rt place c callbacks nexts kwargs s)
            (adapt rt callbacks.toCallbacks place c nexts kwargs s) ↔
          SameWay rt place c kwargs callbacks.toCallbacks nexts s)) := by
  have hparts : ∀ steps p kw s₁ d x, descend rt place c nexts kwargs s = some (.ok ⟨steps, .asked p kw⟩, s₁) →
      callbacks.llmHandler kw s₁.outside = some (.ok d, x) →
      adapt rt callbacks.toCallbacks place c nexts kwargs s ≠ none →
      ¬ Agree (aadapt rt place c callbacks nexts kwargs s)
        (adapt rt callbacks.toCallbacks place c nexts kwargs s) := by
    intro steps p kw s₁ d x hd hllm hrun hagree
    obtain ⟨⟨res, t⟩, hrun⟩ := Option.ne_none_iff_exists'.mp hrun
    rw [hrun] at hagree
    obtain ⟨res', t', harun, hcounts⟩ := hagree.counts
    have hone := adapt_counts h.1 hd hllm hrun
    rw [← hcounts, aadapt_keeps h nexts kwargs _ _ _ harun] at hone
    omega
  refine ⟨aadapt_same callbacks, hparts, fun hplain hrun => ⟨fun hagree => ?_, fun hsame => ?_⟩⟩
  · by_contra hnot
    obtain ⟨steps, kw, s₁, d, x, hd, hllm⟩ := hplain.answered hnot
    exact hparts _ _ _ _ _ _ hd hllm hrun hagree
  · rw [aadapt_same callbacks hsame]
    obtain ⟨⟨res, t⟩, hrun⟩ := Option.ne_none_iff_exists'.mp hrun
    rw [hrun]
    cases res with
    | error e => rfl
    | ok a => exact ⟨rfl, rfl⟩

end

/-! ## A model that tells what it was given -/

def atells (key : String) : AsyncCallbacks Unit (Data Unit) (MapDataManager Unit (Content Unit)) Unit Bool :=
  { tells key with updateCacheNone := fun _ _ => pure none }

theorem atells_uncounted (key : String) : (atells key).Uncounted :=
  ⟨fun _ _ _ _ => .pure _, fun _ _ _ => .pure _⟩

def promptOnly : Kwargs Unit := Dict.empty.set "prompt" (.str "p")

/-- The maps once an answer to `promptOnly` was saved. -/
def savedMaps : MapCaches Unit Unit :=
  match Api.put Api.quiet 0 (mapCache Api.quiet) [] "p" (.answers (.str "a")) .empty emptyMaps with
  | some (_, s) => s
  | none => emptyMaps

/-- A request that the cache answers. -/
theorem savedMaps_sameWay : SameWay Api.quiet 0 (mapCache Api.quiet) promptOnly (tells "prompt") [] savedMaps := by
  have hit : ((lookUp Api.quiet 0 (mapCache Api.quiet) promptOnly savedMaps).map fun o =>
      match o.1 with
      | .ok l => l.message.isSome
      | .error _ => true) = some true := by decide +kernel
  refine ⟨by decide +kernel, fun hcheck => ?_, fun hcall => ?_, fun hdisabled => ?_, fun l s' hl hmessage => ?_⟩
  · cases hcheck
  · exact absurd hcall (by decide +kernel)
  · cases hdisabled
  · simp [hl, hmessage] at hit

theorem aadapt_agrees_hit :
    aadapt Api.quiet 0 (mapCache Api.quiet) (atells "prompt") [] promptOnly savedMaps =
      adapt Api.quiet (tells "prompt") 0 (mapCache Api.quiet) [] promptOnly savedMaps :=
  (aadapt_agrees (atells "prompt") (atells_uncounted "prompt") [] promptOnly savedMaps).1 savedMaps_sameWay

/-- One request that the model answers: `adapt` counts the call, `aadapt` does not. -/
theorem aadapt_uncounted : ¬ Agree
    (aadapt Api.quiet 0 (mapCache Api.quiet) (atells "prompt") [] promptOnly emptyMaps)
    (adapt Api.quiet (tells "prompt") 0 (mapCache Api.quiet) [] promptOnly emptyMaps) := by
  intro hagree
  have ha : (aadapt Api.quiet 0 (mapCache Api.quiet) (atells "prompt") [] promptOnly emptyMaps).map
      (fun o => llmCounts o.2 0) = some 0 := by decide +kernel
  have hb : (adapt Api.quiet (tells "prompt") 0 (mapCache Api.quiet) [] promptOnly emptyMaps).map
      (fun o => llmCounts o.2 0) = some 1 := by decide +kernel
  obtain ⟨⟨res, t⟩, hrun, ht⟩ := Option.map_eq_some_iff.mp hb
  rw [hrun] at hagree
  obtain ⟨res', t', harun, hcounts⟩ := hagree.counts
  rw [harun, Option.map_some, Option.some.injEq, hcounts] at ha
  dsimp only at ha ht
  omega

end GptCache
