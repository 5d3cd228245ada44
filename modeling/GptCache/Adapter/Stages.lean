/-
What `adapt` does to the caches, from what the functions it was given do.

A relation `T` on the states of the caches is kept by every stage of a request
if the operations of the stage stay within it (`Exec.Within`). Up to a hit a
cache is only looked up (`Reads`); a hit is told to the data manager, and
answers from below are saved (`Stages`).
-/
import GptCache.Adapter.Descent

namespace GptCache

open Caches (onData onOutside onReport timeCal)
open Exec (Within)

variable {B E R H D X L : Type} [DecidableEq E]

/-- Looking up a request at a cache stays within `T`. -/
structure Reads (T : Caches D X → Caches D X → Prop) (place : Nat) (c : Core.Cache B E R H D) : Prop where
  outside : ∀ {α : Type} (m : Exec PyError X α), Within T (onOutside m)
  report : ∀ report : Report → Report, (∀ r, (report r).opLlm = r.opLlm) → Within T (onReport place report)
  preEmbedding : ∀ kwargs extra config, Within T (onData place (c.preEmbeddingFunc kwargs extra config))
  embedding : ∀ data extra, Within T (onData place (c.embeddingFunc data extra))
  search : ∀ embedding extra topK, Within T (onData place (c.dataManager.search embedding extra topK))
  scalarData : ∀ searchData extra session,
    Within T (onData place (c.dataManager.getScalarData searchData extra session))
  healthCheck : ∀ embedding searchData, Within T (onData place (cacheHealthCheck c embedding searchData))
  evaluation : ∀ query cached extra,
    Within T (onData place (c.similarityEvaluation.evaluation query cached extra))
  hitCacheCallback : ∀ searchData, Within T (onData place (c.dataManager.hitCacheCallback searchData))
  post : ∀ f, c.postProcess = .func f → ∀ messages, Within T (onData place (f messages))

/-- All that is done at a cache stays within `T`. -/
structure Stages (T : Caches D X → Caches D X → Prop) (place : Nat) (c : Core.Cache B E R H D) : Prop
    extends Reads T place c where
  addSession : ∀ searchData name data, Within T (onData place (c.dataManager.addSession searchData name data))
  reportCache : ∀ user cached searchData answer rank,
    Within T (onData place (c.dataManager.reportCache user cached searchData answer rank))
  save : ∀ question handled embedding extra session,
    Within T (onData place (c.dataManager.save question handled embedding extra session))
  flushData : Within T (onData place c.dataManager.flush)

theorem Reads.mono {T T' : Caches D X → Caches D X → Prop} {place : Nat} {c : Core.Cache B E R H D}
    (h : Reads T place c) (hT : ∀ s s', T s s' → T' s s') : Reads T' place c where
  outside m := (h.outside m).mono hT
  report report hreport := (h.report report hreport).mono hT
  preEmbedding kwargs extra config := (h.preEmbedding kwargs extra config).mono hT
  embedding data extra := (h.embedding data extra).mono hT
  search embedding extra topK := (h.search embedding extra topK).mono hT
  scalarData searchData extra session := (h.scalarData searchData extra session).mono hT
  healthCheck embedding searchData := (h.healthCheck embedding searchData).mono hT
  evaluation query cached extra := (h.evaluation query cached extra).mono hT
  hitCacheCallback searchData := (h.hitCacheCallback searchData).mono hT
  post f hf messages := (h.post f hf messages).mono hT

/-- Where all that can be done to the data of a cache stays within `T`. -/
theorem Stages.of_any {T : Caches D X → Caches D X → Prop} {place : Nat} {c : Core.Cache B E R H D}
    (outside : ∀ {α : Type} (m : Exec PyError X α), Within T (onOutside m))
    (report : ∀ report : Report → Report, (∀ r, (report r).opLlm = r.opLlm) → Within T (onReport place report))
    (data : ∀ {α : Type} (m : Exec PyError D α), Within T (onData place m)) : Stages T place c where
  outside := outside
  report := report
  preEmbedding _ _ _ := data _
  embedding _ _ := data _
  search _ _ _ := data _
  scalarData _ _ _ := data _
  healthCheck _ _ := data _
  evaluation _ _ _ := data _
  hitCacheCallback _ := data _
  post _ _ _ := data _
  addSession _ _ _ := data _
  reportCache _ _ _ _ _ := data _
  save _ _ _ _ _ := data _
  flushData := data _

variable {T : Caches D X → Caches D X → Prop} [Std.Refl T] [IsTrans _ T] {place : Nat} {c : Core.Cache B E R H D}
  {rt : Runtime B X}

/-! ## Looking up -/

theorem Reads.timeCal_within {α : Type} (h : Reads T place c) {m : Exec PyError (Caches D X) α}
    (report : Report → Report)
    (hreport : ∀ r, (report r).opLlm = r.opLlm) (hm : Within T m) : Within T (timeCal place report m) :=
  hm.bind fun _ => (h.report report hreport).bind fun _ => .pure _

theorem Reads.popCacheSkip_within (h : Reads T place c) (temperature : ℚ) (kwargs : Kwargs B) :
    Within T (popCacheSkip rt temperature kwargs) := by
  unfold popCacheSkip
  split
  · exact (h.outside _).bind fun _ => .pure _
  · split <;> exact .pure _

omit [DecidableEq E] in
theorem assertObjectStore_within (required : Bool) :
    Within T (assertObjectStore c required : Exec PyError (Caches D X) Unit) :=
  ((Within.ofExcept _).bind fun _ => (Within.pure _).ite (.raise _)).ite (.pure _)

theorem Reads.popRequest_within (h : Reads T place c) (kwargs : Kwargs B) : Within T (popRequest rt c kwargs) := by
  have hrest : ∀ (temperature context : Arg B) (kwargs : Kwargs B) (f : ℚ → Arg B × Kwargs B → Context B → Request B),
      Within T (Exec.ofExcept temperature.asNumber >>= fun temperature =>
        popCacheSkip rt temperature kwargs >>= fun p =>
          Exec.ofExcept context.asContext >>= fun context => pure (f temperature p context) :
        Exec PyError (Caches D X) (Request B)) := fun temperature context kwargs f =>
    (Within.ofExcept _).bind fun _ => (h.popCacheSkip_within _ _).bind fun _ =>
      (Within.ofExcept _).bind fun _ => .pure _
  simp only [popRequest, Dict.pop]
  refine (assertObjectStore_within _).bind fun _ => ?_
  split
  · exact hrest _ _ _ _
  · exact (Within.raise _).bind fun _ => hrest _ _ _ _

theorem Reads.summarizeInput_within (h : Reads T place c) (text : Content B) (n : Nat) :
    Within T (summarizeInput rt text n) :=
  (Within.ofExcept _).bind fun _ => (Within.pure _).ite (h.outside _)

theorem Reads.embed_within (h : Reads T place c) (r : Request B) : Within T (embed rt place c r) := by
  have hrest : ∀ store embedding : Content B, Within T
      (if r.cacheEnable then
        timeCal place .embedding (onData place (c.embeddingFunc embedding (r.context.extra.get? "embedding_func"))) >>=
          fun e => pure ⟨store, embedding, some e⟩
      else pure ⟨store, embedding, none⟩ : Exec PyError (Caches D X) (Embedded B E)) := fun store embedding =>
    ((h.timeCal_within .embedding (fun _ => rfl) (h.embedding _ _)).bind fun _ => .pure _).ite (.pure _)
  unfold embed
  refine (h.timeCal_within .pre (fun _ => rfl) (h.preEmbedding _ _ _)).bind fun pre => ?_
  dsimp only
  split
  · exact hrest _ _
  · exact (h.summarizeInput_within _ _).bind fun _ => hrest _ _

theorem Reads.rankOne_within (h : Reads T place c) (r : Request B) (k : Embedded B E) (threshold : ℚ) (searchData : R) :
    Within T (rankOne place c r k threshold searchData) := by
  unfold rankOne
  refine (h.timeCal_within .data (fun _ => rfl) (h.scalarData _ _ _)).bind fun found => ?_
  cases found with
  | none => exact .pure _
  | some entry =>
    have hranked : ∀ healthy : Bool, Within T (if healthy then
        Exec.ofExcept (evalData r k searchData entry) >>= fun p =>
          timeCal place .evaluation (onData place
            (c.similarityEvaluation.evaluation p.1 p.2 (r.context.extra.get? "evaluation_func"))) >>= fun rank =>
              if threshold ≤ rank then onData place (c.dataManager.hitCacheCallback searchData) >>= fun _ =>
                pure (some ⟨rank, p.2.answer, searchData, entry⟩)
              else pure none
        else pure none : Exec PyError (Caches D X) (Option (CacheAnswer B E R))) := fun healthy => by
      refine Within.ite ((Within.ofExcept _).bind fun p =>
        (h.timeCal_within .evaluation (fun _ => rfl) (h.evaluation _ _ _)).bind fun rank => ?_) (.pure _)
      exact ((h.hitCacheCallback _).bind fun _ => .pure _).ite (.pure _)
    dsimp only
    split
    · exact (h.healthCheck _ _).bind hranked
    · exact hranked true

theorem Reads.searchAnswers_within (h : Reads T place c) (r : Request B) (k : Embedded B E) :
    Within T (searchAnswers rt place c r k) := by
  unfold searchAnswers
  split
  · exact .pure _
  · refine (Within.pure _).ite ?_
    exact (h.timeCal_within .search (fun _ => rfl) (h.search _ _ _)).bind fun _ => (Within.ofExcept _).bind fun _ =>
      (Within.filterMap (h.rankOne_within r k _) _).bind fun _ => .pure _

omit [IsTrans _ T] in
theorem Reads.hitCallback_within (h : Reads T place c) (callback : Arg B) (answers : List (CacheAnswer B E R)) :
    Within T (hitCallback rt c callback answers) := by
  unfold hitCallback
  split
  · split
    · exact h.outside _
    · exact .pure _
  · exact .pure _

theorem Reads.postProcess_within (h : Reads T place c) (r : Request B) (answers : List (CacheAnswer B E R)) :
    Within T (postProcess rt place c r answers) := by
  unfold postProcess
  dsimp only
  split
  · exact (h.outside _).bind fun _ => .pure _
  · exact .raise _
  · rename_i f hf
    exact h.post f hf _

/-! ## A hit -/

omit [IsTrans _ T] in
theorem Stages.tellSession_within (h : Stages T place c) (r : Request B) (k : Embedded B E)
    (whole : CacheAnswer B E R) :
    Within T (tellSession place c r k whole) := by
  unfold tellSession
  split
  · exact .pure _
  · exact h.addSession _ _ _

theorem Stages.recordHit_within [DecidableEq B] (h : Stages T place c) (r : Request B) (k : Embedded B E)
    (answers : List (CacheAnswer B E R)) (message : Content B) :
    Within T (recordHit rt place c r k answers message) := by
  rw [recordHit_eq]
  refine (h.report .hintCache fun _ => rfl).bind fun _ => ?_
  split
  · exact .pure _
  · exact (h.tellSession_within _ _ _).bind fun _ => (Within.pure _).ite (h.reportCache _ _ _ _ _)

theorem Stages.hitMessage_within [DecidableEq B] (h : Stages T place c) (r : Request B) (k : Embedded B E)
    (answers : List (CacheAnswer B E R)) (kwargs : Kwargs B) : Within T (hitMessage rt place c r k answers kwargs) := by
  unfold hitMessage
  split
  · exact .pure _
  · refine (h.hitCallback_within _ _).bind fun _ =>
      (h.timeCal_within .post (fun _ => rfl) (h.postProcess_within _ _)).bind fun message => ?_
    cases message with
    | none => exact .pure _
    | some m => exact (h.recordHit_within _ _ _ _).bind fun _ => .pure _

theorem Stages.lookUp_within [DecidableEq B] (h : Stages T place c) (kwargs : Kwargs B) :
    Within T (lookUp rt place c kwargs) :=
  (h.popRequest_within _).bind fun _ => (h.embed_within _).bind fun _ => (h.searchAnswers_within _ _).bind fun _ =>
    (h.hitMessage_within _ _ _ _).bind fun _ => .pure _

/-! ## Saving -/

theorem Stages.flush_within {next : Option (Core.Cache B E R H D)} (h : Stages T place c)
    (hnext : ∀ n, next = some n → Stages T (place + 1) n) : Within T (flush place c next) := by
  unfold flush
  refine h.flushData.bind fun _ => ?_
  split
  · exact .pure _
  · rename_i n
    exact (hnext n rfl).flushData

theorem Stages.updateCacheFunc_within {next : Option (Core.Cache B E R H D)} (h : Stages T place c)
    (hnext : ∀ n, next = some n → Stages T (place + 1) n) (r : Request B) (k : Embedded B E)
    (embedding : E) (handled : H) (question : Option (Option (List QuestionDep))) :
    Within T (updateCacheFunc place c next r k embedding handled question) := by
  unfold updateCacheFunc
  refine (h.timeCal_within .save (fun _ => rfl) (h.save _ _ _ _ _)).bind fun _ => Within.read.bind fun s => ?_
  exact (Within.pure _).ite ((Within.raise _).ite ((h.flush_within hnext).ite (.pure _)))

/-- A callback stays within what saving stays within. -/
def Callbacks.Within (T : Caches D X → Caches D X → Prop) (callbacks : Callbacks B H D X L) : Prop :=
  ∀ d save kwargs, (∀ handled question, Exec.Within T (save handled question)) →
    Exec.Within T (callbacks.updateCacheCallback d save kwargs)

theorem Stages.updateCache_within {callbacks : Callbacks B H D X L} {next : Option (Core.Cache B E R H D)}
    (h : Stages T place c) (hnext : ∀ n, next = some n → Stages T (place + 1) n) (hcallbacks : callbacks.Within T)
    (r : Request B) (k : Embedded B E) (llmData : Option L) (kwargs : Kwargs B) :
    Within T (updateCache place c callbacks next r k llmData kwargs) := by
  unfold updateCache
  split
  · exact .pure _
  · refine (Within.pure _).ite ?_
    split
    · exact .pure _
    · exact .catching (hcallbacks _ _ _ (h.updateCacheFunc_within hnext _ _ _)) fun _ => .pure _

theorem Stages.adaptLevel_within [DecidableEq B] {callbacks : Callbacks B H D X L}
    {next : Option (Core.Cache B E R H D × (Kwargs B → Exec PyError (Caches D X) (Option L)))} (h : Stages T place c)
    (hnext : ∀ n, next.map Prod.fst = some n → Stages T (place + 1) n)
    (hbelow : ∀ below, next.map Prod.snd = some below → ∀ kwargs, Within T (below kwargs))
    (hllm : Within T (onReport place .llm)) (hcallbacks : callbacks.Within T) (kwargs : Kwargs B) :
    Within T (adaptLevel rt place c callbacks next kwargs) := by
  rw [adaptLevel_eq_lookUp]
  refine (h.lookUp_within kwargs).bind fun l => ?_
  cases l.message with
  | some m => exact .pure _
  | none =>
    refine Within.bind ?_ fun p => h.updateCache_within hnext hcallbacks _ _ _ _
    unfold askBelow
    split
    · rename_i below hsome
      exact (hbelow below hsome _).bind fun _ => .pure _
    · refine (Within.pure _).ite (Within.bind ?_ fun _ => .pure _)
      exact (h.outside _).bind fun _ => hllm.bind fun _ => .pure _

/-- A chain of caches, each at its place. -/
def ChainStages (T : Caches D X → Caches D X → Prop) : Nat → Core.Cache B E R H D → List (Core.Cache B E R H D) → Prop
  | place, c, [] => Stages T place c
  | place, c, n :: ns => Stages T place c ∧ ChainStages T (place + 1) n ns

omit [Std.Refl T] [IsTrans _ T] in
theorem ChainStages.head : ∀ {nexts : List (Core.Cache B E R H D)}, ChainStages T place c nexts → Stages T place c
  | [], h => h
  | _ :: _, h => h.1

/-- A request stays within `T` on its way down the chain and back up. -/
theorem adapt_within [DecidableEq B] {callbacks : Callbacks B H D X L} (hllm : ∀ place, Within T (onReport place .llm))
    (hcallbacks : callbacks.Within T) : ∀ (nexts : List (Core.Cache B E R H D)) {place : Nat}
    {c : Core.Cache B E R H D},
    ChainStages T place c nexts → ∀ kwargs, Within T (adapt rt callbacks place c nexts kwargs)
  | [], place, c, h, kwargs => by
    rw [adapt]
    exact Stages.adaptLevel_within h (fun _ hn => by cases hn) (fun _ hb => by cases hb) (hllm place) hcallbacks kwargs
  | n :: ns, place, c, h, kwargs => by
    rw [adapt]
    refine h.1.adaptLevel_within (fun n' hn => ?_) (fun below hb => ?_) (hllm place) hcallbacks kwargs
    · cases hn
      exact h.2.head
    · cases hb
      exact adapt_within hllm hcallbacks ns h.2

/-! ## One cache's data -/

/-- The data of the cache at `place`. -/
def Caches.dataAt (place : Nat) (s : Caches D X) : D := (s.levels place).data

section

variable {T : D → D → Prop}

theorem onData_eq_some {α : Type} {m : Exec PyError D α} {s s' : Caches D X} {r : Except PyError α}
    (h : onData place m s = some (r, s')) : m (s.dataAt place) = some (r, s'.dataAt place) := by
  simp only [onData, Exec.zoom] at h
  unfold Caches.dataAt
  cases hm : m (s.levels place).data with
  | none => simp [hm] at h
  | some p =>
    obtain ⟨r₁, d⟩ := p
    simp only [hm, Option.some.injEq, Prod.mk.injEq] at h
    obtain ⟨rfl, rfl⟩ := h
    simp

theorem onData_within {α : Type} {m : Exec PyError D α} (h : Within T m) :
    Within (InvImage T (Caches.dataAt place)) (onData place m : Exec PyError (Caches D X) α) :=
  fun _ _ _ hr => h _ _ _ (onData_eq_some hr)

variable [Std.Refl T]

theorem onOutside_within {α : Type} (m : Exec PyError X α) :
    Within (InvImage T (Caches.dataAt place)) (onOutside m : Exec PyError (Caches D X) α) :=
  .zoom (fun s _ => Std.Refl.refl (s.dataAt place)) m

theorem onReport_within (i : Nat) (report : Report → Report) :
    Within (InvImage T (Caches.dataAt place)) (onReport i report : Exec PyError (Caches D X) Unit) := by
  refine .modify fun s => ?_
  show T (s.dataAt place) ((s.reported i report).dataAt place)
  have hdata : (s.reported i report).dataAt place = s.dataAt place := Caches.reported_data s i place report
  rw [hdata]
  exact Std.Refl.refl _

theorem onData_other {α : Type} {i : Nat} (hne : place ≠ i) (m : Exec PyError D α) :
    Within (InvImage T (Caches.dataAt place)) (onData i m : Exec PyError (Caches D X) α) := by
  refine .zoom (fun s d => ?_) m
  have hdata : (s.withData i d).dataAt place = s.dataAt place := by simp [Caches.dataAt, hne]
  show T (s.dataAt place) ((s.withData i d).dataAt place)
  rw [hdata]
  exact Std.Refl.refl _

/-- What is done at another cache. -/
theorem otherStages {i : Nat} (hne : place ≠ i) (c : Core.Cache B E R H D) :
    Stages (InvImage T (Caches.dataAt (X := X) place)) i c :=
  .of_any onOutside_within (fun report _ => onReport_within i report) (onData_other hne)

theorem otherChain : ∀ (nexts : List (Core.Cache B E R H D)) {i : Nat} (_ : place < i) (c : Core.Cache B E R H D),
    ChainStages (InvImage T (Caches.dataAt (X := X) place)) i c nexts
  | [], _, hlt, c => otherStages (Nat.ne_of_lt hlt) c
  | n :: ns, _, hlt, c => ⟨otherStages (Nat.ne_of_lt hlt) c, otherChain ns (Nat.lt_succ_of_lt hlt) n⟩

end

end GptCache
