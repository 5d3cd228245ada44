/-
A cache answers a question with answers to that question only.

What it is for an answer to be one to a question is left open (`Answering`). A
cache with `ExactMatchEvaluation` is honest if its data manager hands out what
was saved in it (`Honest`). Then whatever a search returns, and whatever fails,
an answer of `adapt` is one to the question it was asked (`adapt_ensures`): an
answer of the model, or one that was saved for the same question.
-/
import GptCache.Adapter.LlmArgs
import GptCache.Adapter.Stages

namespace GptCache

open Caches (onData onOutside onReport timeCal dataAt)
open Exec (Within Ensures Carries)

variable {B E R H D X L : Type}

/-! ## Answers to a question -/

/-- An answer to a question, as it is stored, as it is handed to `save` and as a caller gets it. -/
structure Answering (B H L : Type) where
  stored : String → Content B → Prop
  handed : String → H → Prop
  given : String → L → Prop

/-- The text a `Question` is asked with. -/
def Asked.content : Asked B → Content B
  | .plain c => c
  | .question c _ => c

/-- An entry under a bare question is served for that question. -/
def Entry.Fits (fits : Answering B H L) (entry : Entry B E) : Prop :=
  ∀ q a, entry.question = .plain (.str q) → entry.answer = .ok a → fits.stored q a

/-- `pre_store_data`. -/
def PreEmbedding.store : PreEmbedding B → Content B
  | .single data => data
  | .pair store _ => store

/-- What is asked does not depend on the cache's own arguments. -/
def IsKey (key : Kwargs B → Content B) : Prop :=
  ∀ kwargs kwargs' : Kwargs B, kwargs'.without controlKeys = kwargs.without controlKeys → key kwargs' = key kwargs

/-- A factor of a threshold that is not lost in the rounding. -/
def Substantial (x : ℚ) : Prop := 2 ^ (-512 : ℤ) ≤ x

theorem substantial_one : Substantial 1 := (by decide +kernel : (2 : ℚ) ^ (-512 : ℤ) ≤ 1)

theorem substantial_default : Substantial (Binary64.round (4 / 5)) :=
  (by decide +kernel : (2 : ℚ) ^ (-512 : ℤ) ≤ Binary64.round (4 / 5))

/-- A request with the question `q`, of which no `deps` are compared in its
place, and with a positive `cache_factor`. -/
structure Asks (key : Kwargs B → Content B) (q : String) (kwargs : Kwargs B) : Prop where
  key : key kwargs = .str q
  factor : ∀ x, ((kwargs.get? "cache_factor").getD (.num 1)).asNumber = .ok x → Substantial x
  deps : ∀ context, ((kwargs.get? "cache_context").getD (.context {})).asContext = .ok context → context.deps = none

/-- A cache whose data manager, while `I` holds of its data, hands out answers
to a question that were saved as answers to it. `F` holds of what a search finds. -/
structure Honest [DecidableEq B] [DecidableEq E] (fits : Answering B H L) (key : Kwargs B → Content B) (I : D → Prop)
    (F : R → Prop) (c : Core.Cache B E R H D) : Prop where
  evaluation : c.similarityEvaluation = exactMatchEvaluation
  threshold : Substantial c.config.similarityThreshold
  preEmbedding : ∀ kwargs extra config, Ensures I (fun pre => pre.store = key kwargs)
    (c.preEmbeddingFunc kwargs extra config)
  embedding : ∀ data extra, Within (Carries I) (c.embeddingFunc data extra)
  search : ∀ embedding extra topK,
    Ensures I (fun found => ∀ searchData ∈ found.getD [], F searchData) (c.dataManager.search embedding extra topK)
  scalarKeeps : ∀ searchData extra session, Within (Carries I) (c.dataManager.getScalarData searchData extra session)
  scalarData : ∀ searchData extra session, F searchData →
    Ensures I (fun found => ∀ entry, found = some entry → entry.Fits fits)
      (c.dataManager.getScalarData searchData extra session)
  healthCheck : ∀ embedding searchData, Within (Carries I) (cacheHealthCheck c embedding searchData)
  hitCacheCallback : ∀ searchData, Within (Carries I) (c.dataManager.hitCacheCallback searchData)
  /-- One of the answers is chosen. -/
  post : ∀ f, c.postProcess = .func f → ∀ messages, Ensures I (fun m => ∀ a, m = some a → a ∈ messages) (f messages)
  addSession : ∀ searchData name data, Within (Carries I) (c.dataManager.addSession searchData name data)
  reportCache : ∀ user cached searchData answer rank,
    Within (Carries I) (c.dataManager.reportCache user cached searchData answer rank)
  save : ∀ q question handled embedding extra session, question.content = .str q → fits.handed q handled →
    Within (Carries I) (c.dataManager.save question handled embedding extra session)
  flush : Within (Carries I) c.dataManager.flush

/-- The model answers what it is asked, and a callback saves and returns what it was given. -/
structure Callbacks.Faithful (fits : Answering B H L) (key : Kwargs B → Content B) (callbacks : Callbacks B H D X L) :
    Prop where
  llmHandler : ∀ q kwargs x x' d, key kwargs = .str q → callbacks.llmHandler kwargs x = some (.ok (some d), x') →
    fits.given q d
  cacheDataConvert : ∀ q m d, fits.stored q m → callbacks.cacheDataConvert m = some d → fits.given q d
  updateCacheCallback : ∀ (J : (Nat → Level D) → Prop) q d save kwargs, fits.given q d →
    (∀ handled question, fits.handed q handled → Exec.Within (Carries fun s => J s.levels) (save handled question)) →
    Ensures (fun s => J s.levels) (fun answer => ∀ d, answer = some d → fits.given q d)
      (callbacks.updateCacheCallback d save kwargs)

/-- `I` holds of the data of every cache. -/
def Everywhere (I : D → Prop) (levels : Nat → Level D) : Prop := ∀ i, I (levels i).data

abbrev AllHold (I : D → Prop) (s : Caches D X) : Prop := Everywhere I s.levels

section

variable {I : D → Prop} {place : Nat}

theorem onData_everywhere {α : Type} {m : Exec PyError D α} (h : Within (Carries I) m) :
    Within (Carries (AllHold I)) (onData place m : Exec PyError (Caches D X) α) := by
  intro s r s' hr hs i
  by_cases hi : i = place
  · subst hi
    have hcarried := onData_within h s r s' hr
    exact hcarried (hs i)
  · exact onData_other (T := Carries I) (X := X) hi m s r s' hr (hs i)

theorem onOutside_everywhere {α : Type} (m : Exec PyError X α) :
    Within (Carries (AllHold I)) (onOutside m : Exec PyError (Caches D X) α) :=
  .zoom (fun _ _ hs => hs) m

theorem onReport_everywhere (report : Report → Report) :
    Within (Carries (AllHold I)) (onReport place report : Exec PyError (Caches D X) Unit) := by
  refine .modify fun s hs i => ?_
  rw [Caches.reported_data]
  exact hs i

theorem ensures_onData {α : Type} {P : α → Prop} {m : Exec PyError D α} (h : Ensures I P m) :
    Ensures (AllHold I) P (onData place m : Exec PyError (Caches D X) α) :=
  .of_within (onData_everywhere h.within) fun _ a _ hs hr => (h _ _ _ (hs place) (onData_eq_some hr)).2 a rfl

theorem ensures_timeCal {α : Type} {P : α → Prop} {m : Exec PyError (Caches D X) α} (report : Report → Report)
    (h : Ensures (AllHold I) P m) :
    Ensures (AllHold I) P (timeCal place report m) :=
  h.bind fun _ ha => (Ensures.of_carries (onReport_everywhere report)).bind fun _ _ => .pure ha

end

/-! ## A request at one cache -/

section

variable {rt : Runtime B X} {c : Core.Cache B E R H D} {kwargs : Kwargs B} {s s' : Caches D X}

/-- A request as a cache compares it. -/
structure Compared (key : Kwargs B → Content B) (q : String) (r : Request B) : Prop where
  kwargs : key r.kwargs = .str q
  factor : ∀ x, r.cacheFactor.asNumber = .ok x → Substantial x
  deps : r.context.deps = none

variable {key : Kwargs B → Content B} {q : String}

theorem popRequest_compared (hkey : IsKey key) (hasks : Asks key q kwargs) {r : Request B}
    (h : popRequest rt c kwargs s = some (.ok r, s')) : Compared key q r := by
  have hkwargs : key r.kwargs = .str q := by
    rw [popRequest_kwargs h, ← hasks.key]
    exact hkey _ _ (without_entered (by decide +kernel))
  simp only [popRequest, Dict.pop] at h
  obtain ⟨_, s₁, -, h⟩ := Exec.bind_ok.mp h
  split at h
  · obtain ⟨temperature, s₂, -, h⟩ := Exec.bind_ok.mp h
    obtain ⟨p, s₃, hskip, h⟩ := Exec.bind_ok.mp h
    obtain ⟨context, s₄, hcontext, h⟩ := Exec.bind_ok.mp h
    obtain ⟨hcontext, -⟩ := Exec.ofExcept_eq_ok.mp hcontext
    obtain ⟨rfl, -⟩ := Exec.pure_ok.mp h
    rw [popCacheSkip_kwargs hskip] at hkwargs ⊢
    refine ⟨hkwargs, fun x hx => hasks.factor x ?_, hasks.deps context ?_⟩
    · simpa [Dict.get?_erase] using hx
    · simpa [Dict.get?_erase] using hcontext
  · obtain ⟨_, _, h, -⟩ := Exec.bind_ok.mp h
    exact absurd h Exec.raise_ok

/-- The next cache is asked the same. -/
theorem Asks.next {r : Request B} (hkey : IsKey key) (h : Compared key q r) {kwargs : Kwargs B}
    (hkwargs : key kwargs = .str q) (place : Nat) : Asks key q (nextKwargs place r kwargs) := by
  refine ⟨?_, ?_, ?_⟩
  · rw [← hkwargs]
    have hleft : Left kwargs (nextKwargs place r kwargs) false false := nextKwargs_left r kwargs
    exact hkey _ _ hleft.others
  · simpa [nextKwargs, Dict.get?_set] using h.factor
  · simpa [nextKwargs, Dict.get?_set, Arg.asContext] using h.deps

/-- Without `deps` the questions are compared. -/
theorem evalData_ok {r : Request B} (hdeps : r.context.deps = none) {k : Embedded B E}
    {searchData : R} {entry : Entry B E}
    {query : EvalQuery B E} {cached : EvalCache B E R} (h : evalData r k searchData entry = .ok (query, cached)) :
    query.question = k.preStoreData ∧ cached.question = entry.question ∧ entry.answer = .ok cached.answer := by
  simp only [evalData, hdeps] at h
  cases hanswer : entry.answer with
  | error e =>
    rw [hanswer] at h
    cases h
  | ok answer =>
    rw [hanswer] at h
    cases h
    exact ⟨rfl, rfl, rfl⟩

theorem rankThreshold_pos {similarityThreshold cacheFactor : ℚ} (h : Substantial similarityThreshold)
    (h' : Substantial cacheFactor) : 0 < rankThreshold (0, 1) similarityThreshold cacheFactor := by
  have hone : 2 ^ (0 : ℤ) ≤ Binary64.round (1 - 0) := by simpa using (Binary64.round_natCast (n := 1) (by norm_num)).ge
  have hpos : 0 < Binary64.round (Binary64.round (Binary64.round (1 - 0) * similarityThreshold) * cacheFactor) :=
    (zpow_pos (by norm_num) _).trans_le
      (Binary64.zpow_le_round_mul (Binary64.zpow_le_round_mul hone h (by norm_num)) h' (by norm_num))
  simp only [rankThreshold]
  split
  · exact one_pos
  · split
    · rename_i hlt
      exact absurd hpos (not_lt.mpr hlt.le)
    · exact hpos

theorem temperatureSoftmax_mem {M : Type} {messages : List M} {scores : List ℚ} {temperature : ℚ} {x x' : X} {m : M}
    (h : temperatureSoftmax rt messages scores temperature x = some (.ok m, x')) : m ∈ messages := by
  unfold temperatureSoftmax at h
  split at h
  · obtain ⟨i, x₁, -, h⟩ := Exec.bind_ok.mp h
    cases hm : messages[i % messages.length]? with
    | none =>
      rw [hm] at h
      exact absurd h Exec.raise_ok
    | some m' =>
      rw [hm] at h
      rw [← (Exec.pure_ok.mp h).1]
      exact List.mem_of_getElem? hm
  · cases hsort : (messages.zip scores).insertionSort fun a b => b.2 ≤ a.2 with
    | nil =>
      rw [hsort] at h
      exact absurd h Exec.raise_ok
    | cons a rest =>
      rw [hsort] at h
      rw [← (Exec.pure_ok.mp h).1]
      have ha : a ∈ messages.zip scores := (List.perm_insertionSort _ _).subset (hsort ▸ List.mem_cons_self)
      exact (List.of_mem_zip ha).1

namespace Honest

variable [DecidableEq B] [DecidableEq E] {fits : Answering B H L} {I : D → Prop} {F : R → Prop} {place : Nat}

/-- Looking up keeps `I`. -/
theorem reads (h : Honest fits key I F c) (place : Nat) : Reads (Carries (AllHold (X := X) I)) place c where
  outside m := onOutside_everywhere m
  report report _ := onReport_everywhere report
  preEmbedding _ _ _ := onData_everywhere (h.preEmbedding _ _ _).within
  embedding _ _ := onData_everywhere (h.embedding _ _)
  search _ _ _ := onData_everywhere (h.search _ _ _).within
  scalarData _ _ _ := onData_everywhere (h.scalarKeeps _ _ _)
  healthCheck _ _ := onData_everywhere (h.healthCheck _ _)
  evaluation _ _ _ := by
    rw [h.evaluation]
    exact onData_everywhere (.pure _)
  hitCacheCallback _ := onData_everywhere (h.hitCacheCallback _)
  post f hf _ := onData_everywhere (h.post f hf _).within

variable (h : Honest fits key I F c) {r : Request B} (hr : Compared key q r)
include h hr

theorem embed_ensures : Ensures (AllHold I) (fun k => k.preStoreData = .str q)
    (embed rt place c r) := by
  have hrest : ∀ {store : Content B} (_ : store = .str q) (text : Content B),
      Ensures (AllHold I) (fun k => k.preStoreData = .str q)
        (if r.cacheEnable then
          timeCal place .embedding (onData place (c.embeddingFunc text (r.context.extra.get? "embedding_func"))) >>=
            fun e => pure ⟨store, text, some e⟩
        else pure ⟨store, text, none⟩ : Exec PyError (Caches D X) (Embedded B E)) := by
    intro store hstore text
    split
    · exact (ensures_timeCal .embedding (.of_carries (onData_everywhere (h.embedding _ _)))).bind
        fun _ _ => .pure hstore
    · exact .pure hstore
  unfold embed
  refine (ensures_timeCal .pre (ensures_onData (h.preEmbedding _ _ _))).bind fun pre hpre => ?_
  have hstore : pre.store = .str q := hpre.trans hr.kwargs
  cases pre with
  | single data | pair store text =>
    dsimp only
    split
    · exact hrest hstore _
    · exact (Ensures.of_carries ((h.reads place).summarizeInput_within _ _)).bind fun _ _ => hrest hstore _

/-- What is accepted for a question was saved for it. -/
theorem rankOne_ensures {k : Embedded B E} (hk : k.preStoreData = .str q) {threshold : ℚ} (hthreshold : 0 < threshold)
    {searchData : R} (hfound : F searchData) : Ensures (AllHold (X := X) I)
      (fun found => ∀ a, found = some a → fits.stored q a.answer) (rankOne place c r k threshold searchData) := by
  unfold rankOne
  refine (ensures_timeCal .data (ensures_onData (h.scalarData _ _ _ hfound))).bind fun found hentry => ?_
  cases found with
  | none => exact .pure fun _ ha => by cases ha
  | some entry =>
    have hranked : ∀ healthy : Bool, Ensures (AllHold (X := X) I)
        (fun found => ∀ a, found = some a → fits.stored q a.answer)
        (if healthy then
          Exec.ofExcept (evalData r k searchData entry) >>= fun p =>
            timeCal place .evaluation (onData place
              (c.similarityEvaluation.evaluation p.1 p.2 (r.context.extra.get? "evaluation_func"))) >>= fun rank =>
                if threshold ≤ rank then onData place (c.dataManager.hitCacheCallback searchData) >>= fun _ =>
                  pure (some ⟨rank, p.2.answer, searchData, entry⟩)
                else pure none
        else pure none : Exec PyError (Caches D X) (Option (CacheAnswer B E R))) := fun healthy => by
      split
      · refine (Ensures.of_within (.ofExcept _) fun _ p _ _ hp => (Exec.ofExcept_eq_ok.mp hp).1).bind fun p hp => ?_
        obtain ⟨hquery, hcached, hanswer⟩ := evalData_ok hr.deps (show _ = Except.ok (p.1, p.2) from hp)
        -- a rank over the threshold is that of the same question
        have hrank : Ensures (AllHold (X := X) I)
            (fun rank => threshold ≤ rank → fits.stored q p.2.answer)
            (timeCal place .evaluation (onData place
              (c.similarityEvaluation.evaluation p.1 p.2 (r.context.extra.get? "evaluation_func")))) := by
          rw [h.evaluation]
          refine ensures_timeCal .evaluation (ensures_onData (.pure fun hle => ?_))
          split at hle
          · rename_i hsame
            exact hentry entry rfl q _ (by rw [← hcached, hsame, hquery, hk]) hanswer
          · exact absurd hthreshold (not_lt.mpr hle)
        refine hrank.bind fun rank hrank => ?_
        split
        · rename_i hle
          refine (Ensures.of_carries (onData_everywhere (h.hitCacheCallback _))).bind fun _ _ => .pure fun a ha => ?_
          rw [← Option.some.inj ha]
          exact hrank hle
        · exact .pure fun _ ha => by cases ha
      · exact .pure fun _ ha => by cases ha
    dsimp only
    split
    · exact (Ensures.of_carries (onData_everywhere (h.healthCheck _ _))).bind fun healthy _ => hranked healthy
    · exact hranked true

theorem searchAnswers_ensures {k : Embedded B E} (hk : k.preStoreData = .str q) :
    Ensures (AllHold I) (fun p => ∀ a ∈ p.1, fits.stored q a.answer)
      (searchAnswers rt place c r k) := by
  have hnone : Ensures (AllHold I)
      (fun p => ∀ a ∈ p.1, fits.stored q a.answer)
      (pure ([], r.kwargs) : Exec PyError (Caches D X) (List (CacheAnswer B E R) × Kwargs B)) :=
    .pure fun _ ha => absurd ha List.not_mem_nil
  unfold searchAnswers
  split
  · exact hnone
  · split
    · exact hnone
    · refine (ensures_timeCal .search (ensures_onData (h.search _ _ _))).bind fun found hfound => ?_
      refine (Ensures.of_within (.ofExcept _) fun _ x _ _ hx => hr.factor x (Exec.ofExcept_eq_ok.mp hx).1).bind
        fun factor hfactor => ?_
      have hthreshold : 0 < rankThreshold c.similarityEvaluation.range c.config.similarityThreshold factor := by
        rw [h.evaluation]
        exact rankThreshold_pos h.threshold hfactor
      refine (Ensures.filterMap fun searchData hmem => h.rankOne_ensures hr hk hthreshold (hfound searchData hmem)).bind
        fun answers hanswers => .pure fun a ha => ?_
      exact hanswers a ((List.perm_insertionSort _ _).subset ha)

omit hr in
theorem postProcess_ensures (answers : List (CacheAnswer B E R)) :
    Ensures (AllHold I) (fun m => ∀ a, m = some a → a ∈ answers.map (·.answer))
      (postProcess rt place c r answers) := by
  unfold postProcess
  split
  · have hmem : Ensures (AllHold I) (fun m => m ∈ answers.map (·.answer))
        (onOutside (temperatureSoftmax rt (answers.map (·.answer)) (answers.map (·.rank)) r.temperature) :
          Exec PyError (Caches D X) (Content B)) := by
      refine .of_within (onOutside_everywhere _) fun s m s' _ hm => ?_
      simp only [onOutside, Exec.zoom] at hm
      split at hm
      · cases hm
      · rename_i hrun
        cases hm
        exact temperatureSoftmax_mem hrun
    refine hmem.bind fun m hm => .pure fun a ha => ?_
    rw [← Option.some.inj ha]
    exact hm
  · exact .raise _
  · rename_i f hf
    exact ensures_onData (h.post f hf _)

omit hr in
theorem hitMessage_ensures (k : Embedded B E) {answers : List (CacheAnswer B E R)}
    (hanswers : ∀ a ∈ answers, fits.stored q a.answer) (kwargs : Kwargs B) :
    Ensures (AllHold I) (fun p => ∀ m, p.1 = some m → fits.stored q m) (hitMessage rt place c r k answers kwargs) := by
  unfold hitMessage
  split
  · exact .pure fun _ hm => by cases hm
  · rename_i top rest
    refine (Ensures.of_carries ((h.reads place).hitCallback_within _ _)).bind fun _ _ =>
      (ensures_timeCal .post (h.postProcess_ensures _)).bind fun message hmessage => ?_
    cases message with
    | none => exact .pure fun _ hm => by cases hm
    | some m =>
      have hrecord : Within (Carries (AllHold (X := X) I)) (recordHit rt place c r k (top :: rest) m) := by
        rw [recordHit_eq]
        refine (onReport_everywhere _).bind fun _ => ?_
        split
        · exact .pure _
        · refine Within.bind ?_ fun _ => (Within.pure _).ite (onData_everywhere (h.reportCache _ _ _ _ _))
          unfold tellSession
          split
          · exact .pure _
          · exact onData_everywhere (h.addSession _ _ _)
      refine (Ensures.of_carries hrecord).bind fun _ _ => .pure fun m' hm' => ?_
      obtain ⟨a, ha, rfl⟩ := List.mem_map.mp (hmessage m rfl)
      rw [← Option.some.inj hm']
      exact hanswers a ha

omit hr in
/-- What a cache has to say to a question was saved for it; if it has nothing to say, the rest is asked the same. -/
theorem lookUp_ensures (hkey : IsKey key) (hasks : Asks key q kwargs) : Ensures (AllHold (X := X) I)
    (fun l => (∀ m, l.message = some m → fits.stored q m) ∧ l.key.preStoreData = .str q ∧
      Compared key q l.request ∧ key l.kwargs = .str q) (lookUp rt place c kwargs) := by
  have hwithin : Ensures (AllHold (X := X) I) (fun l => (∀ m, l.message = some m → fits.stored q m) ∧
      l.key.preStoreData = .str q ∧ Compared key q l.request) (lookUp rt place c kwargs) :=
    (Ensures.of_within ((h.reads place).popRequest_within _) fun _ _ _ _ hrun =>
      popRequest_compared hkey hasks hrun).bind
      fun r hr => (h.embed_ensures hr).bind fun k hk => (h.searchAnswers_ensures hr hk).bind fun p hp =>
        (h.hitMessage_ensures k hp _).bind fun o ho => .pure ⟨ho, hk, hr⟩
  refine .of_within hwithin.within fun s l s' hs hrun => ?_
  obtain ⟨hmessage, hk, hr⟩ := (hwithin s _ s' hs hrun).2 l rfl
  refine ⟨hmessage, hk, hr, ?_⟩
  rw [← hasks.key]
  exact hkey _ _ (lookUp_left hrun).1.others

end Honest

/-! ## A chain of honest caches -/

variable [DecidableEq B] [DecidableEq E] {fits : Answering B H L} {I : D → Prop} {F : R → Prop} {place : Nat}
  {callbacks : Callbacks B H D X L}

theorem Honest.updateCache_ensures (h : Honest fits key I F c) (hcallbacks : callbacks.Faithful fits key)
    {next : Option (Core.Cache B E R H D)} (hnext : ∀ n, next = some n → Honest fits key I F n) (r : Request B)
    {k : Embedded B E} (hk : k.preStoreData = .str q) {llmData : Option L}
    (hllm : ∀ d, llmData = some d → fits.given q d)
    (kwargs : Kwargs B) : Ensures (AllHold I) (fun answer => ∀ d, answer = some d → fits.given q d)
      (updateCache place c callbacks next r k llmData kwargs) := by
  unfold updateCache
  split
  · exact .pure fun _ hd => by cases hd
  · rename_i d
    have hd := hllm d rfl
    have hgiven : ∀ d', some d = some d' → fits.given q d' := fun d' hd' => Option.some.inj hd' ▸ hd
    split
    · exact .pure fun _ hd => by cases hd
    · split
      · exact .pure hgiven
      · rename_i embedding _
        refine .catching (hcallbacks.updateCacheCallback (Everywhere I) q d _ kwargs hd
          fun handled question hhanded => ?_)
          fun _ => .pure hgiven
        unfold updateCacheFunc
        refine Within.bind (Within.bind (onData_everywhere (h.save q _ handled embedding _ _ ?_ hhanded)) fun _ =>
          (onReport_everywhere _).bind fun _ => .pure _) fun _ => Within.read.bind fun s => ?_
        · cases question with
          | none => exact hk
          | some deps => exact hk
        · have hflush : Within (Carries (AllHold (X := X) I)) (GptCache.flush place c next) := by
            refine (onData_everywhere h.flush).bind fun _ => ?_
            split
            · exact .pure _
            · rename_i n
              exact onData_everywhere (hnext n rfl).flush
          exact (Within.pure _).ite ((Within.raise _).ite (hflush.ite (.pure _)))

theorem Honest.adaptLevel_ensures (h : Honest fits key I F c) (hkey : IsKey key)
    (hcallbacks : callbacks.Faithful fits key)
    {next : Option (Core.Cache B E R H D × (Kwargs B → Exec PyError (Caches D X) (Option L)))}
    (hnext : ∀ n, next.map Prod.fst = some n → Honest fits key I F n)
    (hbelow : ∀ below, next.map Prod.snd = some below → ∀ kwargs, Asks key q kwargs →
      Ensures (AllHold I) (fun answer => ∀ d, answer = some d → fits.given q d) (below kwargs))
    (hasks : Asks key q kwargs) : Ensures (AllHold I) (fun answer => ∀ d, answer = some d → fits.given q d)
      (adaptLevel rt place c callbacks next kwargs) := by
  rw [adaptLevel_eq_lookUp]
  refine (h.lookUp_ensures hkey hasks).bind fun l hl => ?_
  obtain ⟨hmessage, hk, hr, hkwargs⟩ := hl
  cases hm : l.message with
  | some m => exact .pure fun d hd => hcallbacks.cacheDataConvert q m d (hmessage m hm) hd
  | none =>
    refine Ensures.bind (Q := fun p => ∀ d, p.1 = some d → fits.given q d) ?_ fun p hp =>
      h.updateCache_ensures hcallbacks hnext _ hk hp _
    unfold askBelow
    split
    · rename_i below hsome
      exact (hbelow below hsome _ (.next hkey hr hkwargs place)).bind fun d hd => .pure hd
    · split
      · exact .pure fun _ hd => by cases hd
      · have hllm : Ensures (AllHold I) (fun answer => ∀ d, answer = some d → fits.given q d)
            (onOutside (callbacks.llmHandler l.kwargs) : Exec PyError (Caches D X) (Option L)) := by
          refine .of_within (onOutside_everywhere _) fun s answer s' _ hrun d hd => ?_
          subst hd
          simp only [onOutside, Exec.zoom] at hrun
          split at hrun
          · cases hrun
          · rename_i hcall
            cases hrun
            exact hcallbacks.llmHandler q _ _ _ d hkwargs hcall
        exact (ensures_timeCal .llm hllm).bind fun d hd => .pure hd

/-- **An answer of `adapt` is one to the question that was asked**, at a chain
of honest caches: whether it is the model's or a cache's, and whatever fails. -/
theorem adapt_ensures (hkey : IsKey key) (hcallbacks : callbacks.Faithful fits key) :
    ∀ (nexts : List (Core.Cache B E R H D)) {place : Nat} {c : Core.Cache B E R H D},
      (∀ c' ∈ c :: nexts, Honest fits key I F c') → ∀ {kwargs : Kwargs B}, Asks key q kwargs →
      Ensures (AllHold I) (fun answer => ∀ d, answer = some d → fits.given q d)
        (adapt rt callbacks place c nexts kwargs)
  | [], place, c, h, kwargs, hasks => by
    rw [adapt]
    exact (h c List.mem_cons_self).adaptLevel_ensures hkey hcallbacks (fun _ hn => by cases hn)
      (fun _ hb => by cases hb)
      hasks
  | n :: ns, place, c, h, kwargs, hasks => by
    rw [adapt]
    have hrest : ∀ c' ∈ n :: ns, Honest fits key I F c' := fun c' hc' => h c' (List.mem_cons_of_mem _ hc')
    refine (h c List.mem_cons_self).adaptLevel_ensures hkey hcallbacks (fun n' hn => ?_)
      (fun below hb kwargs hasks => ?_)
      hasks
    · cases hn
      exact hrest n List.mem_cons_self
    · cases hb
      exact adapt_ensures hkey hcallbacks ns hrest hasks

end

end GptCache
