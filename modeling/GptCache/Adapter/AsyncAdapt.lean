/-
`aadapt` (gptcache/adapter/adapter.py), the copy of `adapt` for a model that
is awaited.

The copy has drifted. It does not know `search_only`, `data_check`,
`disable_report` and `hit_callback`; it does not count the model's calls, asks
nobody behind it (`search_only_flag` has no value there) and passes on every
answer, also none. Where `adapt` and `aadapt` do the same, the same definition
is used; the stages that differ are spelled out. `SameWay` is the condition
under which a request meets none of the differences.
-/
import GptCache.Adapter.LlmArgs

namespace GptCache

open Caches (onData onOutside onReport timeCal)

variable {B E R H D X L : Type}

/-- The callbacks of `aadapt`: its model's answers may be none. -/
structure AsyncCallbacks (B H D X L : Type) extends Callbacks B H D X L where
  /-- `update_cache_callback` of no answer. -/
  updateCacheNone : (H → Option (Option (List QuestionDep)) → Exec PyError (Caches D X) Unit) →
    Kwargs B → Exec PyError (Caches D X) (Option L)

/-! ## aadapt -/

section

variable (rt : Runtime B X) (place : Nat) (c : Core.Cache B E R H D)

/-- `search_only` is left where it is. -/
def apopRequest (kwargs : Kwargs B) : Exec PyError (Caches D X) (Request B) := do
  let userTemperature := kwargs.contains "temperature"
  let userTopK := kwargs.contains "top_k"
  let (temperature, kwargs) := kwargs.pop "temperature" (.num 0)
  let kwargs := kwargs.erase "cache_obj"
  let (session, kwargs) := kwargs.pop "session" .none
  let (requireObjectStore, kwargs) := kwargs.pop "require_object_store" (.bool false)
  assertObjectStore c (requireObjectStore.truthy rt)
  if c.hasInit then pure () else Exec.raise ⟨.NotInitError, "The cache should be inited before using"⟩
  let cacheEnable := c.cacheEnableFunc kwargs
  let (context, kwargs) := kwargs.pop "cache_context" (.context {})
  let temperature ← Exec.ofExcept temperature.asNumber
  let (cacheSkip, kwargs) ← popCacheSkip rt temperature kwargs
  let (cacheFactor, kwargs) := kwargs.pop "cache_factor" (.num 1)
  let context ← Exec.ofExcept context.asContext
  pure ⟨.bool false, userTemperature, userTopK, temperature, session.asSession, cacheEnable, context,
    cacheSkip, cacheFactor, kwargs⟩

/-- The body of the loop, without the consistency check. -/
def arankOne (r : Request B) (k : Embedded B E) (threshold : ℚ) (searchData : R) :
    Exec PyError (Caches D X) (Option (CacheAnswer B E R)) := do
  let found ← timeCal place .data (onData place
    (c.dataManager.getScalarData searchData (r.context.extra.get? "get_scalar_data") r.session))
  match found with
  | none => pure none
  | some entry => do
    let (query, cached) ← Exec.ofExcept (evalData r k searchData entry)
    let rank ← timeCal place .evaluation (onData place
      (c.similarityEvaluation.evaluation query cached (r.context.extra.get? "evaluation_func")))
    if threshold ≤ rank then do
      onData place (c.dataManager.hitCacheCallback searchData)
      pure (some ⟨rank, cached.answer, searchData, entry⟩)
    else pure none

def asearchAnswers (r : Request B) (k : Embedded B E) :
    Exec PyError (Caches D X) (List (CacheAnswer B E R) × Kwargs B) :=
  match k.embeddingData with
  | none => pure ([], r.kwargs)
  | some embedding =>
    if r.cacheSkip.truthy rt then pure ([], r.kwargs)
    else do
      let (topK, kwargs) := r.kwargs.pop "top_k" (.num (if r.userTemperature && !r.userTopK then 5 else -1))
      let found ← timeCal place .search (onData place
        (c.dataManager.search embedding (r.context.extra.get? "search_func") topK))
      let factor ← Exec.ofExcept r.cacheFactor.asNumber
      let threshold := rankThreshold c.similarityEvaluation.range c.config.similarityThreshold factor
      let answers ← Exec.filterMap (arankOne place c r k threshold) (found.getD [])
      pure (sortAnswers answers, kwargs)

variable [DecidableEq B]

/-- The report is told whether or not it is disabled. -/
def arecordHit (r : Request B) (k : Embedded B E) (answers : List (CacheAnswer B E R))
    (message : Content B) : Exec PyError (Caches D X) Unit := do
  onReport place .hintCache
  match (answersDict answers).get? (.str (message.toStr rt.str)) with
  | none => pure ()
  | some whole => do
    match r.session with
    | none => pure ()
    | some session => onData place (c.dataManager.addSession whole.searchData session.name k.preEmbeddingData)
    onData place (c.dataManager.reportCache k.preStoreData.text whole.cacheData.question.text
      whole.searchData whole.answer.text whole.rank)

/-- `hit_callback` is neither called nor taken out. -/
def ahitMessage (r : Request B) (k : Embedded B E) (answers : List (CacheAnswer B E R)) :
    Exec PyError (Caches D X) (Option (Content B)) :=
  match answers with
  | [] => pure none
  | _ :: _ => do
    let message ← timeCal place .post (postProcess rt place c r answers)
    match message with
    | none => pure none
    | some m => do
      arecordHit rt place c r k answers m
      pure (some m)

variable (callbacks : AsyncCallbacks B H D X L)

def aupdateCache (r : Request B) (k : Embedded B E) (llmData : Option L) (kwargs : Kwargs B) :
    Exec PyError (Caches D X) (Option L) :=
  match k.embeddingData with
  | none => pure llmData
  | some embedding =>
    let updateCacheFunc := updateCacheFunc place c none r k embedding
    Exec.catching
      (match llmData with
        | none => callbacks.updateCacheNone updateCacheFunc kwargs
        | some d => callbacks.updateCacheCallback d updateCacheFunc kwargs)
      fun _ => pure llmData

/-- `aadapt` on the cache `c` at `place`; `nexts` are the caches linked behind it. -/
def aadapt (nexts : List (Core.Cache B E R H D)) (kwargs : Kwargs B) : Exec PyError (Caches D X) (Option L) := do
  let r ← apopRequest rt c kwargs
  let k ← embed rt place c r
  let (answers, kwargs) ← asearchAnswers rt place c r k
  let message ← ahitMessage rt place c r k answers
  match message with
  | some m => pure (callbacks.cacheDataConvert m)
  | none =>
    match nexts with
    | _ :: _ => Exec.raise ⟨.NameError, "name 'search_only_flag' is not defined"⟩
    | [] => do
      let llmData ← onOutside (callbacks.llmHandler kwargs)
      aupdateCache place c callbacks r k llmData kwargs

end

/-! ## Where the two meet -/

section

variable [DecidableEq B] [DecidableEq E] (rt : Runtime B X) (place : Nat) (c : Core.Cache B E R H D)
  (kwargs : Kwargs B)

/-- A request up to its key. -/
def keyed : Exec PyError (Caches D X) (Request B × Embedded B E) := do
  let r ← popRequest rt c kwargs
  let k ← embed rt place c r
  pure (r, k)

/-- The scalar store has no entry to offer for any of `found`. -/
def NoneFetched (r : Request B) : List R → Caches D X → Prop
  | [], _ => True
  | searchData :: found, s => ∀ entry s', timeCal place .data (onData place (c.dataManager.getScalarData searchData
      (r.context.extra.get? "get_scalar_data") r.session)) s = some (.ok entry, s') →
    entry = none ∧ NoneFetched r found s'

/-- A search for the key of the request comes upon no entry. -/
def Unmatched (r : Request B) (k : Embedded B E) (s : Caches D X) : Prop :=
  ∀ embedding, k.embeddingData = some embedding → r.cacheSkip.truthy rt = false →
    ∀ found s', timeCal place .search (onData place (c.dataManager.search embedding
        (r.context.extra.get? "search_func")
        (r.kwargs.pop "top_k" (.num (if r.userTemperature && !r.userTopK then 5 else -1))).1)) s =
      some (.ok found, s') → NoneFetched place c r (found.getD []) s'

/-- A `hit_callback` that would be called. -/
def callable : Bool :=
  match kwargs.get? "hit_callback" with
  | some (.other b) => rt.truthy b && (rt.callback b).isSome
  | _ => false

/-- The request meets none of the differences: what `adapt` is to do with it,
as far as it is the same for both, decides. -/
structure SameWay (callbacks : Callbacks B H D X L) (nexts : List (Core.Cache B E R H D)) (s : Caches D X) : Prop where
  searchOnly : kwargs.contains "search_only" = false
  dataCheck : c.config.dataCheck = true → ∀ p s', keyed rt place c kwargs s = some (.ok p, s') →
    Unmatched rt place c p.1 p.2 s'
  hitCallback : callable rt kwargs = true → ∀ p s₁, keyed rt place c kwargs s = some (.ok p, s₁) →
    ∀ q s₂, searchAnswers rt place c p.1 p.2 s₁ = some (.ok q, s₂) → q.1 = []
  report : c.config.disableReport = true → ∀ l s', lookUp rt place c kwargs s = some (.ok l, s') →
    ∀ m, l.message = some m → (answersDict l.answers).get? (.str (m.toStr rt.str)) = none
  miss : ∀ l s', lookUp rt place c kwargs s = some (.ok l, s') → l.message = none →
    nexts = [] ∧ (kwargs.contains "hit_callback" = true → l.answers = []) ∧
      ∀ d s'', onOutside (callbacks.llmHandler l.kwargs) s' ≠ some (.ok d, s'')

variable {rt place c kwargs} {s : Caches D X} {r : Request B} {k : Embedded B E}

omit [DecidableEq B] [DecidableEq E] in
theorem popRequest_same (h : kwargs.contains "search_only" = false) :
    (popRequest rt c kwargs : Exec PyError (Caches D X) (Request B)) = apopRequest rt c kwargs := by
  simp only [popRequest, apopRequest, Dict.pop, Dict.erase_eq_self h, Dict.contains_eq_false.mp h, Option.getD_none]

omit [DecidableEq B] in
theorem rankOne_same {threshold : ℚ} {searchData : R}
    (h : c.config.dataCheck = true → ∀ entry s', timeCal place .data (onData place (c.dataManager.getScalarData
      searchData (r.context.extra.get? "get_scalar_data") r.session)) s = some (.ok entry, s') → entry = none) :
    rankOne place c r k threshold searchData s = arankOne place c r k threshold searchData s := by
  refine Exec.bind_congr rfl fun entry s' hfetch => ?_
  cases hcheck : c.config.dataCheck with
  | true => rw [h hcheck entry s' hfetch]
  | false =>
    cases entry with
    | none => rfl
    | some entry => rfl

omit [DecidableEq B] in
theorem rankAll_same {threshold : ℚ} : ∀ {found : List R} {s : Caches D X},
    (c.config.dataCheck = true → NoneFetched place c r found s) →
    Exec.filterMap (rankOne place c r k threshold) found s = Exec.filterMap (arankOne place c r k threshold) found s
  | [], _, _ => rfl
  | searchData :: found, s, h => by
    rw [Exec.filterMap_cons, Exec.filterMap_cons]
    refine Exec.bind_congr (rankOne_same fun hcheck entry s' hfetch => (h hcheck entry s' hfetch).1) ?_
    intro answer s₁ hrank
    refine Exec.bind_congr (rankAll_same fun hcheck => ?_) fun _ _ _ => rfl
    -- the check is on, so nothing was fetched for the first, and that was all that was done
    unfold rankOne at hrank
    obtain ⟨entry, s₂, hfetch, hrest⟩ := Exec.bind_ok.mp hrank
    obtain ⟨rfl, hnone⟩ := h hcheck entry s₂ hfetch
    obtain ⟨-, rfl⟩ := Exec.pure_ok.mp hrest
    exact hnone

omit [DecidableEq B] in
theorem searchAnswers_same (h : c.config.dataCheck = true → Unmatched rt place c r k s) :
    searchAnswers rt place c r k s = asearchAnswers rt place c r k s := by
  cases hk : k.embeddingData with
  | none => simp only [searchAnswers, asearchAnswers, hk]
  | some embedding =>
    simp only [searchAnswers, asearchAnswers, hk]
    split
    · rfl
    · rename_i hskip
      rw [Bool.not_eq_true] at hskip
      refine Exec.bind_congr rfl fun found s₁ hfound => ?_
      refine Exec.bind_congr rfl fun factor s₂ hfactor => ?_
      obtain ⟨-, rfl⟩ := Exec.ofExcept_eq_ok.mp hfactor
      exact Exec.bind_congr (rankAll_same fun hcheck => h hcheck embedding hk hskip found s₁ hfound) fun _ _ _ => rfl

omit [DecidableEq B] [DecidableEq E] in
theorem hitCallback_quiet {callback : Arg B} {answers : List (CacheAnswer B E R)}
    (h : ∀ b, callback = .other b → rt.truthy b = true → rt.callback b = none) :
    (hitCallback rt c callback answers : Exec PyError (Caches D X) Unit) = pure () := by
  cases callback with
  | other b =>
    cases ht : rt.truthy b with
    | true => simp only [hitCallback, ht, h b rfl ht]
    | false => simp only [hitCallback, ht]
  | _ => rfl

omit [DecidableEq E] in
theorem arecordHit_eq (answers : List (CacheAnswer B E R)) (message : Content B) :
    (arecordHit rt place c r k answers message : Exec PyError (Caches D X) Unit) =
      onReport place .hintCache >>= fun _ =>
        match (answersDict answers).get? (.str (message.toStr rt.str)) with
        | none => pure ()
        | some whole => tellSession place c r k whole >>= fun _ => tellReport place c k whole := by
  unfold arecordHit tellSession
  cases r.session <;> rfl

omit [DecidableEq E] in
/-- The report is the same where it is not disabled, or where it is told nothing. -/
theorem recordHit_same {answers : List (CacheAnswer B E R)} {message : Content B}
    (h : c.config.disableReport = true → (∃ s', recordHit rt place c r k answers message s = some (.ok (), s')) →
      (answersDict answers).get? (.str (message.toStr rt.str)) = none) :
    recordHit rt place c r k answers message s = arecordHit rt place c r k answers message s := by
  rw [recordHit_eq] at h ⊢
  rw [arecordHit_eq]
  refine Exec.bind_congr rfl fun _ s₁ hreport => ?_
  cases hwhole : (answersDict answers).get? (.str (message.toStr rt.str)) with
  | none => rfl
  | some whole =>
    refine Exec.bind_congr rfl fun _ s₂ hsession => ?_
    cases hdisabled : c.config.disableReport with
    | false => rfl
    | true =>
      -- the report is not told and the hit goes through, against the condition
      have hok : (tellSession place c r k whole >>= fun _ =>
          if c.config.disableReport then pure () else tellReport place c k whole) s₁ = some (.ok (), s₂) := by
        rw [Exec.bind_of_ok _ hsession, hdisabled]
        rfl
      have := h hdisabled ⟨s₂, by rw [Exec.bind_of_ok _ hreport, hwhole]; exact hok⟩
      simp [hwhole] at this

omit [DecidableEq E] in
theorem hitMessage_same {answers : List (CacheAnswer B E R)} {kwargs : Kwargs B}
    (hcallback : answers ≠ [] → ∀ b, kwargs.get? "hit_callback" = some (.other b) → rt.truthy b = true →
      rt.callback b = none)
    (hreport : c.config.disableReport = true → ∀ p s', hitMessage rt place c r k answers kwargs s = some (.ok p, s') →
      ∀ m, p.1 = some m → (answersDict answers).get? (.str (m.toStr rt.str)) = none) :
    (hitMessage rt place c r k answers kwargs >>= fun p => pure p.1) s = ahitMessage rt place c r k answers s := by
  cases answers with
  | nil => rfl
  | cons a answers =>
    have hquiet : (hitCallback rt c ((kwargs.get? "hit_callback").getD .none) (a :: answers) :
        Exec PyError (Caches D X) Unit) = pure () := by
      refine hitCallback_quiet fun b hb => hcallback (List.cons_ne_nil _ _) b ?_
      cases hget : kwargs.get? "hit_callback" with
      | none => simp [hget] at hb
      | some arg =>
        rw [hget] at hb
        exact congrArg some hb
    simp only [hitMessage, Dict.pop, hquiet] at hreport ⊢
    rw [Exec.bind_assoc, Exec.pure_bind, Exec.bind_assoc]
    refine Exec.bind_congr rfl fun message s₁ hmessage => ?_
    cases message with
    | none => rfl
    | some m =>
      refine (congrFun (Exec.bind_assoc _ _ _) s₁).trans ?_
      refine Exec.bind_congr (recordHit_same fun hdisabled hok => ?_) fun _ _ _ => rfl
      obtain ⟨s₂, hok⟩ := hok
      refine hreport hdisabled (some m, kwargs.erase "hit_callback") s₂ ?_ m rfl
      rw [Exec.pure_bind]
      exact (Exec.bind_of_ok _ hmessage).trans (Exec.bind_of_ok _ hok)

omit [DecidableEq B] in
/-- The search leaves a `hit_callback` alone. -/
theorem hitCallback_left {s₁ s₂ s₃ : Caches D X} {q : List (CacheAnswer B E R) × Kwargs B}
    (hr : popRequest rt c kwargs s = some (.ok r, s₁)) (hq : searchAnswers rt place c r k s₂ = some (.ok q, s₃)) :
    q.2.get? "hit_callback" = kwargs.get? "hit_callback" := by
  rw [searchAnswers_kwargs hq, popRequest_kwargs hr]
  split <;> simp [entered, Dict.get?_erase]

omit [DecidableEq B] [DecidableEq E] in
theorem callable_eq_false_iff : callable rt kwargs = false ↔
    ∀ b, kwargs.get? "hit_callback" = some (.other b) → rt.truthy b = true → rt.callback b = none := by
  unfold callable
  split
  · rename_i b hb
    simp [hb]
  · rename_i hnone
    exact ⟨fun _ b hb => absurd hb (hnone b), fun _ => rfl⟩

/-- **A request that meets none of the differences** gets the same from both. -/
theorem aadapt_same (callbacks : AsyncCallbacks B H D X L) {nexts : List (Core.Cache B E R H D)}
    (h : SameWay rt place c kwargs callbacks.toCallbacks nexts s) :
    aadapt rt place c callbacks nexts kwargs s = adapt rt callbacks.toCallbacks place c nexts kwargs s := by
  obtain ⟨next, hnext, hadapt⟩ : ∃ next, (nexts = [] → next = none) ∧
      adapt rt callbacks.toCallbacks place c nexts kwargs =
        adaptLevel rt place c callbacks.toCallbacks next kwargs := by
    cases nexts with
    | nil => exact ⟨none, fun _ => rfl, rfl⟩
    | cons n ns => exact ⟨some _, fun hnil => absurd hnil (List.cons_ne_nil _ _), rfl⟩
  rw [hadapt]
  unfold aadapt adaptLevel respond
  refine Exec.bind_congr (congrFun (popRequest_same h.searchOnly).symm s) fun r s₁ hr => ?_
  rw [← popRequest_same h.searchOnly] at hr
  refine Exec.bind_congr rfl fun k s₂ hk => ?_
  have hkeyed : keyed rt place c kwargs s = some (.ok (r, k), s₂) :=
    (Exec.bind_of_ok _ hr).trans (Exec.bind_of_ok _ hk)
  have hsearch := searchAnswers_same fun hcheck => h.dataCheck hcheck _ _ hkeyed
  refine Exec.bind_congr hsearch.symm fun q s₃ hq => ?_
  rw [← hsearch] at hq
  have hleft := hitCallback_left hr hq
  have hlookUp : ∀ p s₄, hitMessage rt place c r k q.1 q.2 s₃ = some (.ok p, s₄) →
      lookUp rt place c kwargs s = some (.ok ⟨r, k, q.1, p.1, p.2⟩, s₄) := fun p s₄ hp =>
    (Exec.bind_of_ok _ hr).trans ((Exec.bind_of_ok _ hk).trans ((Exec.bind_of_ok _ hq).trans (Exec.bind_of_ok _ hp)))
  have hhit : (hitMessage rt place c r k q.1 q.2 >>= fun p => pure p.1) s₃ = ahitMessage rt place c r k q.1 s₃ := by
    refine hitMessage_same (fun hne => ?_) fun hdisabled p s₄ hp m hm => h.report hdisabled _ _ (hlookUp p s₄ hp) m hm
    rw [hleft]
    refine callable_eq_false_iff.mp (Bool.eq_false_iff.mpr fun hcall => hne ?_)
    exact h.hitCallback hcall _ _ hkeyed _ _ hq
  refine (Exec.bind_congr hhit.symm fun _ _ _ => rfl).trans ?_
  rw [Exec.bind_assoc]
  refine Exec.bind_congr rfl fun p s₄ hp => ?_
  obtain ⟨message, kwargs'⟩ := p
  cases message with
  | some m => rfl
  | none =>
    obtain ⟨rfl, hkept, hfails⟩ := h.miss _ _ (hlookUp _ _ hp) rfl
    have hsame : kwargs' = q.2 := by
      refine (hitMessage_kwargs hp).trans ?_
      split
      · rfl
      · rename_i hne
        refine Dict.erase_eq_self ?_
        rw [Dict.contains, hleft, ← Dict.contains, Bool.eq_false_iff]
        exact fun hc => hne (List.isEmpty_iff.mpr (hkept hc))
    have hask : r.searchOnly.truthy rt = false := by
      rw [(popRequest_ok _ hr).1, Dict.contains_eq_false.mp h.searchOnly]
      rfl
    subst hsame
    -- the model raises, or does not return, so what is done with its answer does not matter
    have hasked : askBelow rt place callbacks.toCallbacks ((none : Option (Core.Cache B E R H D ×
        (Kwargs B → Exec PyError (Caches D X) (Option L)))).map Prod.snd) r q.2 =
        onOutside (callbacks.llmHandler q.2) >>= fun d => onReport place .llm >>= fun _ => pure (d, q.2) := by
      simp only [askBelow, Option.map_none, hask, timeCal, Exec.bind_assoc]
      rfl
    rw [hnext rfl]
    dsimp only
    rw [hasked, Exec.bind_assoc]
    exact Exec.bind_congr rfl fun d s₅ hd => absurd hd (hfails d s₅)

end

end GptCache
