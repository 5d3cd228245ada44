/-
`adapt` (gptcache/adapter/adapter.py): what happens to a request on its way
through a cache, and through the caches linked behind it by `next_cache`.

A `Core.Cache` is the source's `Cache` object after `init` (gptcache/core.py):
the functions and the data manager it was given, each a computation on the
data (`D`) they share. The caches of a chain are told apart by their place in
it, the first at place 0; `Caches` holds the data and the report of each, and
what is outside of all of them (`X`): the random generator, the model, the
callbacks a caller passes.

Keyword arguments are a dictionary of `Arg`s, popped in the order of the
source. `H` is what callbacks hand to `save`, `L` what the model answers, `R`
what a search answers, `E` an embedding. Times are left out, and with them
`log_time_func`; a report counts calls.
-/
import Mathlib.Data.List.Sort
import GptCache.Lib.Dict
import GptCache.Lib.Exec
import GptCache.Lib.Rounding
import GptCache.Manager.Scalar

namespace GptCache

/-! ## Requests -/

/-- What a question is once it is stored: the data it was stored under, or a
`Question` with that data as its content. -/
inductive Asked (B : Type) where
  | plain (content : Content B)
  | question (content : Content B) (deps : Option (List QuestionDep))
  deriving DecidableEq

/-- The answer data of an entry as a caller gives it. -/
inductive Data (B : Type) where
  | answers (a : AnswerArg B)
  /-- An object that is neither a text nor an `Answer` nor a list. -/
  | other (b : B)
  deriving DecidableEq

def Content.toData {B : Type} : Content B → Data B
  | .str s => .answers (.str s)
  | .other b => .other b

structure Session (B : Type) where
  name : String
  checkHitFunc : String → List String → List (Asked B) → Data B → Bool

/-- `cache_context`: the `data` of its `deps`, where it has any, and the extra
parameters for the functions of a cache, by the name of the function. -/
structure Context (B : Type) where
  deps : Option (List String) := none
  extra : Dict String B := .empty

/-- A keyword argument. -/
inductive Arg (B : Type) where
  | none
  | bool (b : Bool)
  | num (x : ℚ)
  | str (s : String)
  | session (s : Session B)
  | context (c : Context B)
  | cache (place : Nat)
  | other (b : B)

abbrev Kwargs (B : Type) := Dict String (Arg B)

/-- `CacheData` as the adapter reads it. -/
structure Entry (B E : Type) where
  question : Asked B
  answers : List (Answer B)
  embeddingData : Option E

/-- What `adapt` uses from outside of the caches. -/
structure Runtime (B X : Type) where
  truthy : B → Bool
  str : B → String
  len : B → Except PyError Nat
  /-- An argument, where an object is expected. -/
  box : Arg B → B
  /-- `numpy.random.choice` by the softmax of the given scores: the place of the chosen one. -/
  draw : List ℚ → Exec PyError X Nat
  /-- The summarizer behind `_summarize_input`. -/
  summarize : Content B → Nat → Exec PyError X (Content B)
  /-- What an object does when it is called as a `hit_callback`, if it is callable. -/
  callback : B → Option (List (Asked B × ℚ) → Exec PyError X Unit)

namespace Arg

variable {B : Type}

/-- Python's truth value. -/
def truthy {X : Type} (rt : Runtime B X) : Arg B → Bool
  | .none => false
  | .bool b => b
  | .num x => x ≠ 0
  | .str s => s ≠ ""
  | .session _ | .context _ | .cache _ => true
  | .other b => rt.truthy b

/-- What arithmetic takes the argument for. -/
def asNumber : Arg B → Except PyError ℚ
  | .num x => .ok x
  | .bool b => .ok (if b then 1 else 0)
  | _ => .error ⟨.TypeError, ""⟩

/-- Nothing but a `Session` has a name and a `check_hit_func`. -/
def asSession : Arg B → Option (Session B)
  | .session s => .some s
  | _ => Option.none

def asContext : Arg B → Except PyError (Context B)
  | .context c => .ok c
  | _ => .error ⟨.AttributeError, ""⟩

end Arg

/-! ## A cache -/

structure Config where
  similarityThreshold : ℚ := Binary64.round (4 / 5)
  prompts : Option (List String) := none
  template : Option String := none
  autoFlush : Nat := 20
  inputSummaryLen : Option Nat := none
  contextLen : Option Nat := none
  skipList : List String := ["system", "assistant"]
  dataCheck : Bool := false
  disableReport : Bool := false

/-- What `pre_embedding_func` returns: one value, or a pair of what is stored
and what is embedded. -/
inductive PreEmbedding (B : Type) where
  | single (data : Content B)
  | pair (store embedding : Content B)

/-- The vector store as `cache_health_check` uses it. -/
structure VectorView (E R D : Type) where
  /-- `_, data_id = search_result`. -/
  dataId : R → Except PyError Nat
  getEmbeddings : Nat → Exec PyError D (Option E)
  updateEmbeddings : Nat → Option E → Exec PyError D Unit

/-- `DataManager`, as far as the adapter calls it. An optional argument `B` is
the function's `extra_param`. -/
structure DataManager (B E R H D : Type) where
  search : E → Option B → Arg B → Exec PyError D (Option (List R))
  getScalarData : R → Option B → Option (Session B) → Exec PyError D (Option (Entry B E))
  hitCacheCallback : R → Exec PyError D Unit
  save : Asked B → H → E → Option B → Option (Session B) → Exec PyError D Unit
  addSession : R → String → Content B → Exec PyError D Unit
  reportCache : String → String → R → String → ℚ → Exec PyError D Unit
  flush : Exec PyError D Unit
  /-- `data_manager.o`, and whether it is an object store. -/
  o : Except PyError Bool
  v : Except PyError (VectorView E R D)

/-- The two dictionaries an evaluation gets. -/
structure EvalQuery (B E : Type) where
  question : Content B
  embedding : Option E

structure EvalCache (B E R : Type) where
  question : Asked B
  answer : Content B
  searchResult : R
  cacheData : Entry B E
  embedding : Option E

structure SimilarityEvaluation (B E R D : Type) where
  evaluation : EvalQuery B E → EvalCache B E R → Option B → Exec PyError D ℚ
  /-- The least and the greatest score. -/
  range : ℚ × ℚ

/-- `post_process_messages_func`, by what `adapt` passes to it. -/
inductive PostProcess (B D : Type) where
  | temperatureSoftmax
  /-- The class `LlmVerifier` itself: called with answers, it is constructed, and has no such arguments. -/
  | llmVerifier
  | func (f : List (Content B) → Exec PyError D (Option (Content B)))

structure Core.Cache (B E R H D : Type) where
  hasInit : Bool := true
  cacheEnableFunc : Kwargs B → Bool
  preEmbeddingFunc : Kwargs B → Option B → Config → Exec PyError D (PreEmbedding B)
  embeddingFunc : Content B → Option B → Exec PyError D E
  dataManager : DataManager B E R H D
  similarityEvaluation : SimilarityEvaluation B E R D
  postProcess : PostProcess B D
  config : Config

/-- How often each operation was done (gptcache/report.py). -/
structure Report where
  opPre : Nat := 0
  opEmbedding : Nat := 0
  opSearch : Nat := 0
  opData : Nat := 0
  opEvaluation : Nat := 0
  opPost : Nat := 0
  opLlm : Nat := 0
  opSave : Nat := 0
  hintCacheCount : Nat := 0
  deriving DecidableEq, Repr

namespace Report

def pre (r : Report) : Report := { r with opPre := r.opPre + 1 }
def embedding (r : Report) : Report := { r with opEmbedding := r.opEmbedding + 1 }
def search (r : Report) : Report := { r with opSearch := r.opSearch + 1 }
def data (r : Report) : Report := { r with opData := r.opData + 1 }
def evaluation (r : Report) : Report := { r with opEvaluation := r.opEvaluation + 1 }
def post (r : Report) : Report := { r with opPost := r.opPost + 1 }
def llm (r : Report) : Report := { r with opLlm := r.opLlm + 1 }
def save (r : Report) : Report := { r with opSave := r.opSave + 1 }
def hintCache (r : Report) : Report := { r with hintCacheCount := r.hintCacheCount + 1 }

end Report

structure Level (D : Type) where
  data : D
  report : Report

structure Caches (D X : Type) where
  levels : Nat → Level D
  outside : X

namespace Caches

variable {D X α : Type}

def withData (s : Caches D X) (place : Nat) (d : D) : Caches D X :=
  { s with levels := fun i => if i = place then { s.levels i with data := d } else s.levels i }

def reported (s : Caches D X) (place : Nat) (report : Report → Report) : Caches D X :=
  { s with levels := fun i =>
      if i = place then { s.levels i with report := report (s.levels i).report } else s.levels i }

/-- A computation on the data of the cache at `place`. -/
def onData (place : Nat) (m : Exec PyError D α) : Exec PyError (Caches D X) α :=
  Exec.zoom (fun s => (s.levels place).data) (fun s d => s.withData place d) m

def onOutside (m : Exec PyError X α) : Exec PyError (Caches D X) α :=
  Exec.zoom Caches.outside (fun s x => { s with outside := x }) m

def onReport (place : Nat) (report : Report → Report) : Exec PyError (Caches D X) Unit :=
  Exec.modify fun s => s.reported place report

/-- `time_cal(func, report_func=...)`: a call that raises is not reported. -/
def timeCal (place : Nat) (report : Report → Report) (m : Exec PyError (Caches D X) α) :
    Exec PyError (Caches D X) α :=
  m >>= fun a => onReport place report >>= fun _ => pure a

section

variable (s : Caches D X) (place i : Nat) (d : D) (report : Report → Report)

@[simp] theorem reported_data : ((s.reported place report).levels i).data = (s.levels i).data := by
  simp only [reported]
  split <;> rfl

@[simp] theorem withData_data :
    ((s.withData place d).levels i).data = if i = place then d else (s.levels i).data := by
  simp only [withData]
  split <;> rfl

theorem withData_same : s.withData place (s.levels place).data = s := by
  have hlevels : (s.withData place (s.levels place).data).levels = s.levels := by
    funext i
    simp only [withData]
    split
    · rename_i he
      rw [he]
    · rfl
  exact congrArg (fun l => ({ s with levels := l } : Caches D X)) hlevels

end

variable {m : Exec PyError D α} {place : Nat} {report : Report → Report} {s : Caches D X}
  {Q : α → Caches D X → Prop} {E : PyError → Caches D X → Prop}

@[simp] theorem onData_pure (a : α) : onData place (pure a) = (pure a : Exec PyError (Caches D X) α) := by
  funext s
  exact congrArg (fun s => some ((Except.ok a : Except PyError α), s)) (withData_same s place)

@[simp] theorem onOutside_pure (a : α) : onOutside (pure a) = (pure a : Exec PyError (Caches D X) α) := rfl

@[simp] theorem wp_onData : Exec.wp (onData place m) Q E s ↔
    Exec.wp m (fun a d => Q a (s.withData place d)) (fun e d => E e (s.withData place d))
      (s.levels place).data := Exec.wp_zoom

@[simp] theorem wp_onOutside {m : Exec PyError X α} : Exec.wp (onOutside m) Q E s ↔
    Exec.wp m (fun a x => Q a { s with outside := x }) (fun e x => E e { s with outside := x }) s.outside :=
  Exec.wp_zoom

@[simp] theorem wp_onReport {Q : Unit → Caches D X → Prop} :
    Exec.wp (onReport place report) Q E s ↔ Q () (s.reported place report) := Iff.rfl

@[simp] theorem wp_timeCal {m : Exec PyError (Caches D X) α} : Exec.wp (timeCal place report m) Q E s ↔
    Exec.wp m (fun a s' => Q a (s'.reported place report)) E s := by
  simp only [timeCal, Exec.wp_bind, wp_onReport, Exec.wp_pure]

end Caches

open Caches (onData onOutside onReport timeCal)

/-! ## adapt -/

/-- What a caller of `adapt` passes besides the keyword arguments. -/
structure Callbacks (B H D X L : Type) where
  llmHandler : Kwargs B → Exec PyError X (Option L)
  cacheDataConvert : Content B → Option L
  /-- The second argument is `update_cache_func`: what to save, and the `deps`
  of the `Question` to save it under, where there is one. -/
  updateCacheCallback : L → (H → Option (Option (List QuestionDep)) → Exec PyError (Caches D X) Unit) →
    Kwargs B → Exec PyError (Caches D X) (Option L)
  /-- `not llm_data`. -/
  falsy : L → Bool

/-- `temperature_softmax` (gptcache/processor/post.py). -/
def temperatureSoftmax {B X M : Type} (rt : Runtime B X) (messages : List M) (scores : List ℚ)
    (temperature : ℚ) : Exec PyError X M :=
  if temperature > 0 then do
    let i ← rt.draw (scores.map (· / temperature))
    match messages[i % messages.length]? with
    | some m => pure m
    | none => Exec.raise ⟨.ValueError, ""⟩
  else
    match (messages.zip scores).insertionSort (fun a b => b.2 ≤ a.2) with
    | [] => Exec.raise ⟨.IndexError, ""⟩
    | (m, _) :: _ => pure m

/-- The arguments `adapt` takes out of `kwargs` before it looks anything up,
and what is left of `kwargs`. -/
structure Request (B : Type) where
  searchOnly : Arg B
  userTemperature : Bool
  userTopK : Bool
  temperature : ℚ
  session : Option (Session B)
  cacheEnable : Bool
  context : Context B
  cacheSkip : Arg B
  cacheFactor : Arg B
  kwargs : Kwargs B

/-- The key of the request: `embeddingData` is there when the cache is enabled. -/
structure Embedded (B E : Type) where
  preStoreData : Content B
  preEmbeddingData : Content B
  embeddingData : Option E

/-- An element of `cache_answers`. -/
structure CacheAnswer (B E R : Type) where
  rank : ℚ
  answer : Content B
  searchData : R
  cacheData : Entry B E

section

variable {B E R H D X L : Type} (rt : Runtime B X) (place : Nat) (c : Core.Cache B E R H D)

/-- A positive temperature lets chance decide between asking again and the
cache; the draw is made whether or not `cache_skip` is given. -/
def popCacheSkip (temperature : ℚ) (kwargs : Kwargs B) : Exec PyError (Caches D X) (Arg B × Kwargs B) :=
  if 0 < temperature ∧ temperature < 2 then do
    let skip ← onOutside (temperatureSoftmax rt [true, false] [0, 1] temperature)
    pure (kwargs.pop "cache_skip" (.bool skip))
  else if temperature ≥ 2 then pure (kwargs.pop "cache_skip" (.bool true))
  else pure (kwargs.pop "cache_skip" (.bool false))

def assertObjectStore (required : Bool) : Exec PyError (Caches D X) Unit :=
  if required then do
    let o ← Exec.ofExcept c.dataManager.o
    if o then pure () else Exec.raise ⟨.AssertionError, "Object store is required for adapter."⟩
  else pure ()

def popRequest (kwargs : Kwargs B) : Exec PyError (Caches D X) (Request B) := do
  let (searchOnly, kwargs) := kwargs.pop "search_only" (.bool false)
  let userTemperature := kwargs.contains "temperature"
  let userTopK := kwargs.contains "top_k"
  let (temperature, kwargs) := kwargs.pop "temperature" (.num 0)
  let kwargs := kwargs.erase "cache_obj"
  let (session, kwargs) := kwargs.pop "session" .none
  let (requireObjectStore, kwargs) := kwargs.pop "require_object_store" (.bool false)
  assertObjectStore c (requireObjectStore.truthy rt)
  if c.hasInit then pure () else Exec.raise ⟨.NotInitError, "The cache should be inited before using"⟩
  let cacheEnable := c.cacheEnableFunc kwargs
  let (context, kwargs) := kwargs.pop "cache_context" (.context {})
  let temperature ← Exec.ofExcept temperature.asNumber
  let (cacheSkip, kwargs) ← popCacheSkip rt temperature kwargs
  let (cacheFactor, kwargs) := kwargs.pop "cache_factor" (.num 1)
  let context ← Exec.ofExcept context.asContext
  pure ⟨searchOnly, userTemperature, userTopK, temperature, session.asSession, cacheEnable, context,
    cacheSkip, cacheFactor, kwargs⟩

/-- `_summarize_input`. -/
def summarizeInput (text : Content B) (textLength : Nat) : Exec PyError (Caches D X) (Content B) := do
  let len ← Exec.ofExcept (match text with | .str s => .ok s.length | .other b => rt.len b)
  if len ≤ textLength then pure text else onOutside (rt.summarize text textLength)

def embed (r : Request B) : Exec PyError (Caches D X) (Embedded B E) := do
  let pre ← timeCal place .pre (onData place
    (c.preEmbeddingFunc r.kwargs (r.context.extra.get? "pre_embedding_func") c.config))
  let (preStoreData, preEmbeddingData) := match pre with
    | .single data => (data, data)
    | .pair store embedding => (store, embedding)
  let preEmbeddingData ← match c.config.inputSummaryLen with
    | none => pure preEmbeddingData
    | some n => summarizeInput rt preEmbeddingData n
  if r.cacheEnable then do
    let e ← timeCal place .embedding (onData place
      (c.embeddingFunc preEmbeddingData (r.context.extra.get? "embedding_func")))
    pure ⟨preStoreData, preEmbeddingData, some e⟩
  else pure ⟨preStoreData, preEmbeddingData, none⟩

/-- Computed in doubles; a width that is infinite as one is left out. -/
def rankThreshold (range : ℚ × ℚ) (similarityThreshold cacheFactor : ℚ) : ℚ :=
  let (minRank, maxRank) := range
  let t := Binary64.round (Binary64.round (Binary64.round (maxRank - minRank) * similarityThreshold) * cacheFactor)
  if t > maxRank then maxRank else if t < minRank then minRank else t

/-- `cache_health_check`: an entry whose vector is not the one stored for it
is not served, and its vector is put right. -/
def cacheHealthCheck [DecidableEq E] (embedding : Option E) (searchData : R) : Exec PyError D Bool := do
  let v ← Exec.ofExcept c.dataManager.v
  let dataId ← Exec.ofExcept (v.dataId searchData)
  let inVector ← v.getEmbeddings dataId
  if embedding = inVector then pure true
  else do
    v.updateEmbeddings dataId embedding
    pure false

/-- `cache_data.answers[0].answer`. -/
def Entry.answer (entry : Entry B E) : Except PyError (Content B) :=
  match entry.answers with
  | [] => .error ⟨.IndexError, ""⟩
  | a :: _ => .ok a.answer

/-- The dictionaries for the evaluation of `entry`. -/
def evalData (r : Request B) (k : Embedded B E) (searchData : R) (entry : Entry B E) :
    Except PyError (EvalQuery B E × EvalCache B E R) :=
  match r.context.deps, entry.question with
  | some deps, .question _ entryDeps =>
    match deps, entryDeps, entry.answer with
    | [], _, _ => .error ⟨.IndexError, ""⟩
    | _, none, _ => .error ⟨.TypeError, ""⟩
    | _, some [], _ => .error ⟨.IndexError, ""⟩
    | _, _, .error e => .error e
    | dep :: _, some (entryDep :: _), .ok answer =>
      .ok (⟨.str dep, none⟩, ⟨.plain (.str entryDep.data), answer, searchData, entry, none⟩)
  | _, _ =>
    match entry.answer with
    | .error e => .error e
    | .ok answer =>
      .ok (⟨k.preStoreData, k.embeddingData⟩,
        ⟨entry.question, answer, searchData, entry, entry.embeddingData⟩)

/-- The body of the loop over what the search found. -/
def rankOne [DecidableEq E] (r : Request B) (k : Embedded B E) (threshold : ℚ) (searchData : R) :
    Exec PyError (Caches D X) (Option (CacheAnswer B E R)) := do
  let found ← timeCal place .data (onData place
    (c.dataManager.getScalarData searchData (r.context.extra.get? "get_scalar_data") r.session))
  match found with
  | none => pure none
  | some entry => do
    let healthy ← if c.config.dataCheck then onData place (cacheHealthCheck c entry.embeddingData searchData)
      else pure true
    if healthy then do
      let (query, cached) ← Exec.ofExcept (evalData r k searchData entry)
      let rank ← timeCal place .evaluation (onData place
        (c.similarityEvaluation.evaluation query cached (r.context.extra.get? "evaluation_func")))
      if threshold ≤ rank then do
        onData place (c.dataManager.hitCacheCallback searchData)
        pure (some ⟨rank, cached.answer, searchData, entry⟩)
      else pure none
    else pure none

/-- `sorted(cache_answers, key=lambda x: x[0], reverse=True)`: a stable sort, the best first. -/
def sortAnswers (answers : List (CacheAnswer B E R)) : List (CacheAnswer B E R) :=
  answers.insertionSort fun a b => b.rank ≤ a.rank

/-- `dict((d[1], d) for d in cache_answers)`. -/
def answersDict [DecidableEq B] (answers : List (CacheAnswer B E R)) : Dict (Content B) (CacheAnswer B E R) :=
  answers.foldl (fun d a => d.set a.answer a) .empty

/-- The accepted answers, the best first, and what the search leaves of `kwargs`. -/
def searchAnswers [DecidableEq E] (r : Request B) (k : Embedded B E) :
    Exec PyError (Caches D X) (List (CacheAnswer B E R) × Kwargs B) :=
  match k.embeddingData with
  | none => pure ([], r.kwargs)
  | some embedding =>
    if r.cacheSkip.truthy rt then pure ([], r.kwargs)
    else do
      let (topK, kwargs) := r.kwargs.pop "top_k" (.num (if r.userTemperature && !r.userTopK then 5 else -1))
      let found ← timeCal place .search (onData place
        (c.dataManager.search embedding (r.context.extra.get? "search_func") topK))
      let factor ← Exec.ofExcept r.cacheFactor.asNumber
      let threshold := rankThreshold c.similarityEvaluation.range c.config.similarityThreshold factor
      let answers ← Exec.filterMap (rankOne place c r k threshold) (found.getD [])
      pure (sortAnswers answers, kwargs)

def hitCallback (callback : Arg B) (answers : List (CacheAnswer B E R)) : Exec PyError (Caches D X) Unit :=
  match callback with
  | .other b =>
    match rt.truthy b, rt.callback b with
    | true, some f =>
      let (minRank, maxRank) := c.similarityEvaluation.range
      let factor := maxRank - minRank
      onOutside (f (answers.map fun a =>
        (a.cacheData.question, if factor ≠ 0 then a.rank / factor else a.rank)))
    | _, _ => pure ()
  | _ => pure ()

def postProcess (r : Request B) (answers : List (CacheAnswer B E R)) :
    Exec PyError (Caches D X) (Option (Content B)) :=
  let messages := answers.map (·.answer)
  let scores := answers.map (·.rank)
  match c.postProcess with
  | .temperatureSoftmax => do
    let m ← onOutside (temperatureSoftmax rt messages scores r.temperature)
    pure (some m)
  | .llmVerifier => Exec.raise ⟨.TypeError, ""⟩
  | .func f => onData place (f messages)

/-- `x if isinstance(x, str) else ""`. -/
def Content.text : Content B → String
  | .str s => s
  | .other _ => ""

def Asked.text : Asked B → String
  | .plain q => q.text
  | .question .. => ""

/-- A hit: the session and the report are told which answer was served. -/
def recordHit [DecidableEq B] (r : Request B) (k : Embedded B E) (answers : List (CacheAnswer B E R))
    (message : Content B) : Exec PyError (Caches D X) Unit := do
  onReport place .hintCache
  match (answersDict answers).get? (.str (message.toStr rt.str)) with
  | none => pure ()
  | some whole => do
    match r.session with
    | none => pure ()
    | some session => onData place (c.dataManager.addSession whole.searchData session.name k.preEmbeddingData)
    if c.config.disableReport then pure ()
    else onData place (c.dataManager.reportCache k.preStoreData.text whole.cacheData.question.text
      whole.searchData whole.answer.text whole.rank)

/-- The message to answer with, where there is one, and what is left of `kwargs`. -/
def hitMessage [DecidableEq B] (r : Request B) (k : Embedded B E) (answers : List (CacheAnswer B E R))
    (kwargs : Kwargs B) : Exec PyError (Caches D X) (Option (Content B) × Kwargs B) :=
  match answers with
  | [] => pure (none, kwargs)
  | _ :: _ => do
    let (callback, kwargs) := kwargs.pop "hit_callback" .none
    hitCallback rt c callback answers
    let message ← timeCal place .post (postProcess rt place c r answers)
    match message with
    | none => pure (none, kwargs)
    | some m => do
      recordHit rt place c r k answers m
      pure (some m, kwargs)

/-- `Cache.flush`: the data of this cache and of the next. -/
def flush (next : Option (Core.Cache B E R H D)) : Exec PyError (Caches D X) Unit := do
  onData place c.dataManager.flush
  match next with
  | none => pure ()
  | some n => onData (place + 1) n.dataManager.flush

/-- `update_cache_func`. -/
def updateCacheFunc (next : Option (Core.Cache B E R H D)) (r : Request B) (k : Embedded B E) (embedding : E)
    (handledLlmData : H) (question : Option (Option (List QuestionDep))) : Exec PyError (Caches D X) Unit := do
  let question := match question with
    | none => .plain k.preStoreData
    | some deps => .question k.preStoreData deps
  timeCal place .save (onData place (c.dataManager.save question handledLlmData embedding
    (r.context.extra.get? "save_func") r.session))
  let s ← Exec.read
  let count := (s.levels place).report.opSave
  if count = 0 then pure ()
  else if c.config.autoFlush = 0 then Exec.raise ⟨.ZeroDivisionError, ""⟩
  else if count % c.config.autoFlush = 0 then flush place c next
  else pure ()

/-- What a request goes on with when this cache has no answer: `kwargs` for the next cache. -/
def nextKwargs (r : Request B) (kwargs : Kwargs B) : Kwargs B :=
  ((((kwargs.set "cache_obj" (.cache (place + 1))).set "cache_context" (.context r.context)).set
    "cache_skip" r.cacheSkip).set "cache_factor" r.cacheFactor).set "search_only" r.searchOnly

variable (callbacks : Callbacks B H D X L)

/-- What the rest of the chain, or the model, answers, and the `kwargs` it was asked with. -/
def askBelow (next : Option (Kwargs B → Exec PyError (Caches D X) (Option L))) (r : Request B)
    (kwargs : Kwargs B) : Exec PyError (Caches D X) (Option L × Kwargs B) :=
  match next with
  | some below => do
    let kwargs := nextKwargs place r kwargs
    let d ← below kwargs
    pure (d, kwargs)
  | none =>
    if r.searchOnly.truthy rt then pure (none, kwargs)
    else do
      let d ← timeCal place .llm (onOutside (callbacks.llmHandler kwargs))
      pure (d, kwargs)

/-- An answer from below is given to the callback, which may save it. An error
of the callback is logged and forgotten; without one the callback's result is
the answer. -/
def updateCache (next : Option (Core.Cache B E R H D)) (r : Request B) (k : Embedded B E)
    (llmData : Option L) (kwargs : Kwargs B) : Exec PyError (Caches D X) (Option L) :=
  match llmData with
  | none => pure none
  | some d =>
    if callbacks.falsy d then pure none
    else
      match k.embeddingData with
      | none => pure (some d)
      | some embedding =>
        Exec.catching (callbacks.updateCacheCallback d (updateCacheFunc place c next r k embedding) kwargs)
          fun _ => pure (some d)

/-- The answer to a request whose key is made: this cache's, or what `next`, or the model, answers. -/
def respond [DecidableEq B] [DecidableEq E]
    (next : Option (Core.Cache B E R H D × (Kwargs B → Exec PyError (Caches D X) (Option L))))
    (r : Request B) (k : Embedded B E) : Exec PyError (Caches D X) (Option L) := do
  let (answers, kwargs) ← searchAnswers rt place c r k
  let (message, kwargs) ← hitMessage rt place c r k answers kwargs
  match message with
  | some m => pure (callbacks.cacheDataConvert m)
  | none => do
    let (llmData, kwargs) ← askBelow rt place callbacks (next.map Prod.snd) r kwargs
    updateCache place c callbacks (next.map Prod.fst) r k llmData kwargs

/-- One cache of the chain; `next` is the cache behind it and `adapt` from there on. -/
def adaptLevel [DecidableEq B] [DecidableEq E]
    (next : Option (Core.Cache B E R H D × (Kwargs B → Exec PyError (Caches D X) (Option L))))
    (kwargs : Kwargs B) : Exec PyError (Caches D X) (Option L) := do
  let r ← popRequest rt c kwargs
  let k ← embed rt place c r
  respond rt place c callbacks next r k

end

/-- `adapt` on the cache `c`, at `place`, with the caches `nexts` linked behind it. -/
def adapt {B E R H D X L : Type} [DecidableEq B] [DecidableEq E] (rt : Runtime B X)
    (callbacks : Callbacks B H D X L) : Nat → Core.Cache B E R H D → List (Core.Cache B E R H D) →
      Kwargs B → Exec PyError (Caches D X) (Option L)
  | place, c, [] => adaptLevel rt place c callbacks none
  | place, c, n :: ns =>
    adaptLevel rt place c callbacks (some (n, adapt rt callbacks (place + 1) n ns))

end GptCache
