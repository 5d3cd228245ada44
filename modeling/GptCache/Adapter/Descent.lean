/-
The way of a request down a chain of caches.

`lookUp` is what one cache does with a request before it answers or passes it
on; `descend` goes down the chain as far as the request gets: to the cache
that answers, to the end of the chain, where it may only search, or to the
model. None of it depends on the callbacks. `adapt_eq_descend` says that
`adapt` is the descent, one call of the model where the descent asks for it,
and the way back up (`climb`), on which each cache passed may save the answer.
-/
import GptCache.Adapter.Adapt

namespace GptCache

open Caches (onData onOutside onReport timeCal)

variable {B E R H D X L : Type}

/-- What a cache made of a request: its answer, where it has one, and what is left of `kwargs`. -/
structure LookUp (B E R : Type) where
  request : Request B
  key : Embedded B E
  answers : List (CacheAnswer B E R)
  message : Option (Content B)
  kwargs : Kwargs B

/-- `chat_cache.data_manager.search` is called. -/
def LookUp.searched (rt : Runtime B X) (l : LookUp B E R) : Bool :=
  l.key.embeddingData.isSome && !l.request.cacheSkip.truthy rt

/-- A cache the request passed, and the `kwargs` it goes on with. -/
structure Step (B E R H D : Type) where
  place : Nat
  cache : Core.Cache B E R H D
  next : Option (Core.Cache B E R H D)
  lookUp : LookUp B E R
  kwargs : Kwargs B

/-- Where a request ends up. -/
inductive Outcome (B : Type) where
  | answered (message : Content B)
  /-- It was to search only, and no cache has an answer. -/
  | missed
  /-- The model is asked, at the cache at `place`, with these `kwargs`. -/
  | asked (place : Nat) (kwargs : Kwargs B)

structure Descent (B E R H D : Type) where
  /-- The caches passed, from the top. -/
  steps : List (Step B E R H D)
  outcome : Outcome B

/-! ## What a hit is told to -/

section

variable [DecidableEq B] (place : Nat) (c : Core.Cache B E R H D) (r : Request B) (k : Embedded B E)

/-- The session is told which entry was served. -/
def tellSession (whole : CacheAnswer B E R) : Exec PyError (Caches D X) Unit :=
  match r.session with
  | none => pure ()
  | some session => onData place (c.dataManager.addSession whole.searchData session.name k.preEmbeddingData)

/-- The report is told. -/
def tellReport (whole : CacheAnswer B E R) : Exec PyError (Caches D X) Unit :=
  onData place (c.dataManager.reportCache k.preStoreData.text whole.cacheData.question.text whole.searchData
    whole.answer.text whole.rank)

theorem recordHit_eq (rt : Runtime B X) (answers : List (CacheAnswer B E R)) (message : Content B) :
    recordHit rt place c r k answers message = onReport place .hintCache >>= fun _ =>
      match (answersDict answers).get? (.str (message.toStr rt.str)) with
      | none => pure ()
      | some whole => tellSession place c r k whole >>= fun _ =>
        if c.config.disableReport then pure () else tellReport place c k whole := by
  unfold recordHit tellSession
  cases r.session <;> rfl

end

/-! ## The descent -/

theorem timeCal_ok {α : Type} {place : Nat} {report : Report → Report}
    {m : Exec PyError (Caches D X) α} {s s' : Caches D X} {a : α} (h : timeCal place report m s = some (.ok a, s')) :
    ∃ s₁, m s = some (.ok a, s₁) ∧ s' = s₁.reported place report := by
  obtain ⟨b, s₁, hm, h⟩ := Exec.bind_ok.mp h
  obtain ⟨_, s₂, hreport, h⟩ := Exec.bind_ok.mp h
  cases hreport
  obtain ⟨rfl, rfl⟩ := Exec.pure_ok.mp h
  exact ⟨s₁, hm, rfl⟩

section

variable [DecidableEq B] [DecidableEq E] (rt : Runtime B X)

def lookUp (place : Nat) (c : Core.Cache B E R H D) (kwargs : Kwargs B) :
    Exec PyError (Caches D X) (LookUp B E R) := do
  let r ← popRequest rt c kwargs
  let k ← embed rt place c r
  let (answers, kwargs) ← searchAnswers rt place c r k
  let (message, kwargs) ← hitMessage rt place c r k answers kwargs
  pure ⟨r, k, answers, message, kwargs⟩

/-- The stages of a request that was looked up. -/
theorem lookUp_ok {place : Nat} {c : Core.Cache B E R H D} {kwargs : Kwargs B} {s s' : Caches D X} {l : LookUp B E R}
    (h : lookUp rt place c kwargs s = some (.ok l, s')) : ∃ s₁ s₂ s₃ kw,
      popRequest rt c kwargs s = some (.ok l.request, s₁) ∧ embed rt place c l.request s₁ = some (.ok l.key, s₂) ∧
      searchAnswers rt place c l.request l.key s₂ = some (.ok (l.answers, kw), s₃) ∧
      hitMessage rt place c l.request l.key l.answers kw s₃ = some (.ok (l.message, l.kwargs), s') := by
  unfold lookUp at h
  obtain ⟨r, s₁, hr, h⟩ := Exec.bind_ok.mp h
  obtain ⟨k, s₂, hk, h⟩ := Exec.bind_ok.mp h
  obtain ⟨p, s₃, hp, h⟩ := Exec.bind_ok.mp h
  obtain ⟨q, s₄, hq, h⟩ := Exec.bind_ok.mp h
  obtain ⟨rfl, rfl⟩ := Exec.pure_ok.mp h
  exact ⟨s₁, s₂, s₃, p.2, hr, hk, hp, hq⟩

omit [DecidableEq B] [DecidableEq E] in
/-- What was taken out of the arguments. -/
theorem popRequest_ok {c : Core.Cache B E R H D} {kwargs : Kwargs B} {s s' : Caches D X} {r : Request B}
    (h : popRequest rt c kwargs s = some (.ok r, s')) :
    r.searchOnly = (kwargs.get? "search_only").getD (.bool false) ∧
    r.session = ((kwargs.get? "session").getD .none).asSession ∧ ∃ temperature p s₁,
      popCacheSkip rt temperature ((((((kwargs.erase "search_only").erase "temperature").erase "cache_obj").erase
        "session").erase "require_object_store").erase "cache_context") s₁ = some (.ok p, s') ∧
      r.kwargs = p.2.erase "cache_factor" := by
  simp only [popRequest, Dict.pop] at h
  obtain ⟨_, s₁, -, h⟩ := Exec.bind_ok.mp h
  split at h
  · obtain ⟨temperature, s₂, -, h⟩ := Exec.bind_ok.mp h
    obtain ⟨p, s₃, hskip, h⟩ := Exec.bind_ok.mp h
    obtain ⟨context, s₄, hcontext, h⟩ := Exec.bind_ok.mp h
    obtain ⟨-, rfl⟩ := Exec.ofExcept_eq_ok.mp hcontext
    obtain ⟨rfl, rfl⟩ := Exec.pure_ok.mp h
    exact ⟨rfl, by simp [Dict.get?_erase], temperature, p, s₂, hskip, rfl⟩
  · obtain ⟨_, _, h, -⟩ := Exec.bind_ok.mp h
    exact absurd h Exec.raise_ok

omit [DecidableEq B] in
/-- What a search that was made left: each entry found was ranked. -/
theorem searchAnswers_ok {place : Nat} {c : Core.Cache B E R H D} {r : Request B} {k : Embedded B E} {s s' : Caches D X}
    {p : List (CacheAnswer B E R) × Kwargs B} (h : searchAnswers rt place c r k s = some (.ok p, s')) :
    (k.embeddingData.isSome && !r.cacheSkip.truthy rt) = false ∧ p = ([], r.kwargs) ∨
    (k.embeddingData.isSome && !r.cacheSkip.truthy rt) = true ∧ ∃ embedding topK found s₁ threshold answers,
      timeCal place .search (onData place
        (c.dataManager.search embedding (r.context.extra.get? "search_func") topK)) s =
        some (.ok found, s₁) ∧
      Exec.filterMap (rankOne place c r k threshold) (found.getD []) s₁ = some (.ok answers, s') ∧
      p = (sortAnswers answers, r.kwargs.erase "top_k") := by
  cases hk : k.embeddingData with
  | none =>
    simp only [searchAnswers, hk] at h
    exact .inl ⟨rfl, (Exec.pure_ok.mp h).1.symm⟩
  | some embedding =>
    simp only [searchAnswers, hk] at h
    cases hskip : r.cacheSkip.truthy rt with
    | true =>
      rw [hskip, if_pos rfl] at h
      exact .inl ⟨rfl, (Exec.pure_ok.mp h).1.symm⟩
    | false =>
      rw [hskip, if_neg Bool.false_ne_true] at h
      obtain ⟨found, s₁, hfound, h⟩ := Exec.bind_ok.mp h
      obtain ⟨factor, s₂, hfactor, h⟩ := Exec.bind_ok.mp h
      obtain ⟨-, rfl⟩ := Exec.ofExcept_eq_ok.mp hfactor
      obtain ⟨answers, s₃, hanswers, h⟩ := Exec.bind_ok.mp h
      obtain ⟨rfl, rfl⟩ := Exec.pure_ok.mp h
      exact .inr ⟨rfl, embedding, _, found, s₁, _, answers, hfound, hanswers, rfl⟩

omit [DecidableEq B] in
/-- An entry that was accepted was read. -/
theorem rankOne_ok {place : Nat} {c : Core.Cache B E R H D} {r : Request B} {k : Embedded B E} {threshold : ℚ}
    {searchData : R} {s s' : Caches D X} {a : CacheAnswer B E R}
    (h : rankOne place c r k threshold searchData s = some (.ok (some a), s')) : a.searchData = searchData ∧
      ∃ s₁, onData place (c.dataManager.getScalarData searchData (r.context.extra.get? "get_scalar_data") r.session) s =
        some (.ok (some a.cacheData), s₁) := by
  unfold rankOne at h
  obtain ⟨found, _, htimed, h⟩ := Exec.bind_ok.mp h
  obtain ⟨s₁, hfound, rfl⟩ := timeCal_ok htimed
  cases found with
  | none => cases (Exec.pure_ok.mp h).1
  | some entry =>
    dsimp only at h
    -- checked or not, the entry is evaluated
    split at h
    all_goals
      obtain ⟨healthy, s₂, -, h⟩ := Exec.bind_ok.mp h
      split at h
      · obtain ⟨data, s₃, -, h⟩ := Exec.bind_ok.mp h
        obtain ⟨rank, s₄, -, h⟩ := Exec.bind_ok.mp h
        split at h
        · obtain ⟨_, s₅, -, h⟩ := Exec.bind_ok.mp h
          cases (Exec.pure_ok.mp h).1
          exact ⟨rfl, s₁, hfound⟩
        · cases (Exec.pure_ok.mp h).1
      · cases (Exec.pure_ok.mp h).1

omit [DecidableEq E] in
/-- The stages of a hit. -/
theorem hitMessage_ok {place : Nat} {c : Core.Cache B E R H D} {r : Request B} {k : Embedded B E}
    {answers : List (CacheAnswer B E R)} {kwargs kwargs' : Kwargs B} {s s' : Caches D X} {m : Content B}
    (h : hitMessage rt place c r k answers kwargs s = some (.ok (some m, kwargs'), s')) : ∃ top rest s₁ s₂,
      answers = top :: rest ∧
      hitCallback rt c ((kwargs.get? "hit_callback").getD .none) answers s = some (.ok (), s₁) ∧
      timeCal place .post (postProcess rt place c r answers) s₁ = some (.ok (some m), s₂) ∧
      recordHit rt place c r k answers m s₂ = some (.ok (), s') := by
  cases answers with
  | nil => cases (Exec.pure_ok.mp h).1
  | cons top rest =>
    simp only [hitMessage, Dict.pop] at h
    obtain ⟨_, s₁, hcallback, h⟩ := Exec.bind_ok.mp h
    obtain ⟨message, s₂, hpost, h⟩ := Exec.bind_ok.mp h
    cases message with
    | none => cases (Exec.pure_ok.mp h).1
    | some m' =>
      obtain ⟨_, s₃, hrecord, h⟩ := Exec.bind_ok.mp h
      obtain ⟨heq, rfl⟩ := Exec.pure_ok.mp h
      cases heq
      exact ⟨top, rest, s₁, s₂, rfl, hcallback, hpost, hrecord⟩

/-- Where a request that the last cache does not answer ends up. -/
def lastOutcome (place : Nat) (l : LookUp B E R) : Outcome B :=
  if l.request.searchOnly.truthy rt then .missed else .asked place l.kwargs

def descend : Nat → Core.Cache B E R H D → List (Core.Cache B E R H D) → Kwargs B →
    Exec PyError (Caches D X) (Descent B E R H D)
  | place, c, [], kwargs => do
    let l ← lookUp rt place c kwargs
    match l.message with
    | some m => pure ⟨[], .answered m⟩
    | none => pure ⟨[⟨place, c, none, l, l.kwargs⟩], lastOutcome rt place l⟩
  | place, c, n :: ns, kwargs => do
    let l ← lookUp rt place c kwargs
    match l.message with
    | some m => pure ⟨[], .answered m⟩
    | none => do
      let kwargs := nextKwargs place l.request l.kwargs
      let d ← descend (place + 1) n ns kwargs
      pure ⟨⟨place, c, some n, l, kwargs⟩ :: d.steps, d.outcome⟩

variable (callbacks : Callbacks B H D X L)

/-- What the request gets at the end of the descent. -/
def conclude : Outcome B → Exec PyError (Caches D X) (Option L)
  | .answered m => pure (callbacks.cacheDataConvert m)
  | .missed => pure none
  | .asked place kwargs => timeCal place .llm (onOutside (callbacks.llmHandler kwargs))

/-- The way back up: each cache may save the answer, the last one passed first. -/
def climb (steps : List (Step B E R H D)) (llmData : Option L) : Exec PyError (Caches D X) (Option L) :=
  steps.foldr
    (fun step answer => answer >>= fun llmData =>
      updateCache step.place step.cache callbacks step.next step.lookUp.request step.lookUp.key llmData step.kwargs)
    (pure llmData)

theorem adaptLevel_eq_lookUp (place : Nat) (c : Core.Cache B E R H D)
    (next : Option (Core.Cache B E R H D × (Kwargs B → Exec PyError (Caches D X) (Option L)))) (kwargs : Kwargs B) :
    adaptLevel rt place c callbacks next kwargs = lookUp rt place c kwargs >>= fun l =>
      match l.message with
      | some m => pure (callbacks.cacheDataConvert m)
      | none => askBelow rt place callbacks (next.map Prod.snd) l.request l.kwargs >>= fun p =>
        updateCache place c callbacks (next.map Prod.fst) l.request l.key p.1 p.2 := by
  simp only [adaptLevel, lookUp, respond, Exec.bind_assoc]
  rfl

/-- **`adapt` is a descent, what the request gets there, and the way back up.** -/
theorem adapt_eq_descend : ∀ (place : Nat) (c : Core.Cache B E R H D) (nexts : List (Core.Cache B E R H D))
    (kwargs : Kwargs B), adapt rt callbacks place c nexts kwargs =
      descend rt place c nexts kwargs >>= fun d => conclude callbacks d.outcome >>= climb callbacks d.steps
  | place, c, [], kwargs => by
    rw [adapt, adaptLevel_eq_lookUp, descend, Exec.bind_assoc]
    congr 1
    funext l
    cases l.message with
    | some m => rfl
    | none =>
      cases hs : l.request.searchOnly.truthy rt <;> simp only [askBelow, lastOutcome, hs, Option.map_none]
      · rw [if_neg Bool.false_ne_true, if_neg Bool.false_ne_true, Exec.bind_assoc]
        rfl
      · rfl
  | place, c, n :: ns, kwargs => by
    rw [adapt, adaptLevel_eq_lookUp, descend, Exec.bind_assoc]
    congr 1
    funext l
    cases l.message with
    | some m => rfl
    | none =>
      simp only [askBelow, Option.map_some, adapt_eq_descend (place + 1) n ns, Exec.bind_assoc]
      rfl

end

end GptCache
