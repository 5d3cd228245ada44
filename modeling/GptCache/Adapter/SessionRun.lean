/-
Requests of a session to a cache over an `SSDataManager`, among others.

A session lets an entry through that it was not told of before
(`searchAnswers_untold`), and it is told of the entry a hit is credited to
(`lookUp_remembers`), for as long as the entry is live (`run_remembers`). So an
entry that was served and credited is not served to the session again; one that
was served and not credited may be.
-/
import GptCache.Adapter.MapRun
import GptCache.Adapter.SessionCache
import GptCache.Evaluation.Distance

namespace GptCache

open Caches (onData onReport timeCal dataAt)
open Exec (Within)

variable {B E S H X L σ α : Type} [DecidableEq E]

namespace SSCache

variable (c : SSCache B E S H σ α) {rt : Runtime B X} {s s' : Caches (σ × World B E) X} {name : String}

/-! ## What a session is served is new to it -/

theorem searchAnswers_untold {r : Request B} (hsession : r.session = some (.default name)) {k : Embedded B E}
    {p : List (CacheAnswer B E (ℚ × Nat)) × Kwargs B} (h : searchAnswers rt 0 c.core r k s = some (.ok p, s')) :
    ∀ a ∈ p.1, Untold name a.searchData.2 (s.dataAt 0).2 := by
  rcases searchAnswers_ok rt h with ⟨-, rfl⟩ | ⟨-, embedding, topK, found, s₁, threshold, answers,
    hfound, hanswers, rfl⟩
  · exact fun a ha => absurd ha List.not_mem_nil
  · have hsame : InvImage SameRowsOf (dataAt 0) s s₁ :=
      c.reads.timeCal_within .search (fun _ => rfl) (c.reads.search _ _ _) s _ s₁ hfound
    have hkeeps : ∀ searchData, Within (Exec.Carries fun s' => InvImage SameRowsOf (dataAt 0) s s')
        (rankOne 0 c.core r k threshold searchData) := fun searchData =>
      (c.reads.rankOne_within r k threshold searchData).mono fun _ _ h hs => IsTrans.trans _ _ _ hs h
    have huntold := Exec.filterMap_mem (P := fun a => Untold name a.searchData.2 (s.dataAt 0).2) hkeeps
      (fun searchData a s₂ s₃ hs hrank => by
        obtain ⟨rfl, s₄, hread⟩ := rankOne_ok hrank
        rw [hsession] at hread
        have hread := onData_eq_some hread
        rw [c.dataManager] at hread
        exact (SSDataManager.getScalarData_untold hread).of_same (congrArg Prod.fst hs)) _ hsame hanswers
    intro a ha
    exact huntold a ((List.perm_insertionSort _ _).subset ha)

variable [DecidableEq B] {kwargs : Kwargs B} {l : LookUp B E (ℚ × Nat)}

theorem lookUp_session {place : Nat} {D R : Type} {c : Core.Cache B E R H D} {s s' : Caches D X} {l : LookUp B E R}
    (h : lookUp rt place c kwargs s = some (.ok l, s')) {session : Session B}
    (hsession : kwargs.get? "session" = some (.session session)) : l.request.session = some session := by
  obtain ⟨s₁, s₂, s₃, kw, hr, -⟩ := lookUp_ok rt h
  rw [(popRequest_ok rt hr).2.1, hsession]
  rfl

/-- The entries accepted for a request of the session are new to it. -/
theorem lookUp_untold (h : lookUp rt 0 c.core kwargs s = some (.ok l, s'))
    (hsession : kwargs.get? "session" = some (.session (.default name))) :
    ∀ a ∈ l.answers, Untold name a.searchData.2 (s.dataAt 0).2 := by
  have hname := lookUp_session h hsession
  obtain ⟨s₁, s₂, s₃, kw, hr, hk, hsearch, -⟩ := lookUp_ok rt h
  have h₁ : SSDataManager.rowsOf (s₁.dataAt 0).2 = SSDataManager.rowsOf (s.dataAt 0).2 :=
    c.reads.popRequest_within kwargs s _ s₁ hr
  have h₂ : SSDataManager.rowsOf (s₂.dataAt 0).2 = SSDataManager.rowsOf (s₁.dataAt 0).2 :=
    c.reads.embed_within _ s₁ _ s₂ hk
  intro a ha
  exact (c.searchAnswers_untold hname hsearch a ha).of_same (congrArg Prod.fst (h₂.trans h₁))

/-- After a hit that is credited to the entry served, the session remembers it. -/
theorem lookUp_remembers {session : Session B} {m : Content B} (h : lookUp rt 0 c.core kwargs s = some (.ok l, s'))
    (hsession : kwargs.get? "session" = some (.session session)) (hm : l.message = some m)
    {top : CacheAnswer B E (ℚ × Nat)}
    (hcredits : credits rt c.core l.request l.key l.answers m = creditsOf c.core l.request l.key top)
    (hwf : (s.dataAt 0).2.s.WellFormed) :
    Remembers session.name top.searchData.2 ((s.dataAt 0).2.births top.searchData.2) (s'.dataAt 0).2 := by
  have hname := lookUp_session h hsession
  obtain ⟨s₁, s₂, s₃, kw, hr, hk, hsearch, hhit⟩ := lookUp_ok rt h
  rw [hm] at hhit
  obtain ⟨_, _, s₄, s₅, -, hcallback, hpost, hrecord⟩ := hitMessage_ok rt hhit
  have hrows : SSDataManager.rowsOf (s₅.dataAt 0).2 = SSDataManager.rowsOf (s.dataAt 0).2 := by
    have h₁ : SSDataManager.rowsOf (s₁.dataAt 0).2 = _ := c.reads.popRequest_within kwargs s _ s₁ hr
    have h₂ : SSDataManager.rowsOf (s₂.dataAt 0).2 = _ := c.reads.embed_within _ s₁ _ s₂ hk
    have h₃ : SSDataManager.rowsOf (s₃.dataAt 0).2 = _ := c.reads.searchAnswers_within _ _ s₂ _ s₃ hsearch
    have h₄ : SSDataManager.rowsOf (s₄.dataAt 0).2 = _ := c.reads.hitCallback_within _ _ s₃ _ s₄ hcallback
    have h₅ : SSDataManager.rowsOf (s₅.dataAt 0).2 = _ :=
      c.reads.timeCal_within .post (fun _ => rfl) (c.reads.postProcess_within _ _) s₄ _ s₅ hpost
    rw [h₅, h₄, h₃, h₂, h₁]
  have hs : (s₅.dataAt 0).2.s = (s.dataAt 0).2.s := congrArg Prod.fst hrows
  have himported : (s₅.dataAt 0).2.imported = (s.dataAt 0).2.imported := congrArg Prod.snd hrows
  have hbirths : (s₅.dataAt 0).2.births top.searchData.2 = (s.dataAt 0).2.births top.searchData.2 := by
    rw [World.births, World.births, himported]
  rw [recordHit_credits, hcredits, creditsOf, hname] at hrecord
  obtain ⟨_, s₆, hreport, hrecord⟩ := Exec.bind_ok.mp hrecord
  obtain ⟨_, s₇, hadd, hrest⟩ := Exec.bind_ok.mp hrecord
  cases hreport
  have hadd := onData_eq_some hadd
  rw [c.dataManager] at hadd
  have hdata : (s₅.reported 0 .hintCache).dataAt 0 = s₅.dataAt 0 := Caches.reported_data s₅ 0 0 .hintCache
  rw [hdata] at hadd
  have htold := SSDataManager.addSession_remembers (hs ▸ hwf) hadd
  rw [hbirths] at htold
  exact Within.forEach c.stages.credit_within _ s₇ _ s' hrest htold

end SSCache

/-! ## Runs -/

/-- Requests one after another. A request that raises leaves the state it reached. -/
def runRequests {D R L : Type} [DecidableEq B] (rt : Runtime B X) (callbacks : Callbacks B H D X L)
    (c : Core.Cache B E R H D) (nexts : List (Core.Cache B E R H D)) (s : Caches D X) (requests : List (Kwargs B)) :
    Caches D X :=
  requests.foldl (fun s kwargs => (adapt rt callbacks 0 c nexts kwargs).after s) s

section

variable {D R L : Type} [DecidableEq B] (rt : Runtime B X) (callbacks : Callbacks B H D X L) (c : Core.Cache B E R H D)
  (nexts : List (Core.Cache B E R H D)) (s : Caches D X)

theorem runRequests_cons (kwargs : Kwargs B) (requests : List (Kwargs B)) :
    runRequests rt callbacks c nexts s (kwargs :: requests) =
      runRequests rt callbacks c nexts ((adapt rt callbacks 0 c nexts kwargs).after s) requests := rfl

theorem runRequests_append (before requests : List (Kwargs B)) :
    runRequests rt callbacks c nexts s (before ++ requests) =
      runRequests rt callbacks c nexts (runRequests rt callbacks c nexts s before) requests := List.foldl_append

end

/-- What a callback does to the caches it does by the function it is given for it. -/
def Callbacks.OnlySaves {D : Type} (callbacks : Callbacks B H D X L) : Prop :=
  ∀ J : (Nat → Level D) → Prop, callbacks.Within (Exec.Carries fun s => J s.levels)

theorem run_remembers [DecidableEq B] {rt : Runtime B X} {callbacks : Callbacks B H (σ × World B E) X L}
    (hcallbacks : callbacks.OnlySaves) (c : SSCache B E S H σ α)
    (nexts : List (Core.Cache B E (ℚ × Nat) H (σ × World B E))) {name : String} {id n : Nat} :
    ∀ (requests : List (Kwargs B)) {s : Caches (σ × World B E) X}, Remembers name id n (s.dataAt 0).2 →
      Remembers name id n ((runRequests rt callbacks c.core nexts s requests).dataAt 0).2
  | [], _, h => h
  | kwargs :: requests, s, h => by
    have hsaves : callbacks.Within (InvImage (StaysTold name id n) (dataAt 0)) :=
      hcallbacks fun levels => Remembers name id n (levels 0).data.2
    have hstep : Within (InvImage (StaysTold name id n) (dataAt 0)) (adapt rt callbacks 0 c.core nexts kwargs) :=
      adapt_within (fun place => onReport_within place .llm) hsaves nexts (c.chain nexts) kwargs
    exact run_remembers hcallbacks c nexts requests (hstep.after s h)

/-! ## A hit is credited to the entry that was served -/

/-- **A hit is credited to the entry that was served**, the best one accepted,
exactly when the last accepted entry with its text makes no difference to what
is passed on. Where that is so of a hit of a session, no later hit of the
session is on that entry, whatever requests come between: it is another id, or
the id was given to a new row. -/
theorem hit_credited [DecidableEq B] :
    (∀ {D R : Type} (rt : Runtime B X) (callbacks : Callbacks B H D X L) (place : Nat) (c : Core.Cache B E R H D)
        (nexts : List (Core.Cache B E R H D)) (kwargs : Kwargs B) (s s' : Caches D X)
        (l : LookUp B E R) (m : Content B),
      TextHit rt place c kwargs s l m s' → ∃ top rest s₁, l.answers = top :: rest ∧ (∀ a ∈ rest, a.rank ≤ top.rank) ∧
        adapt rt callbacks place c nexts kwargs s = some (.ok (callbacks.cacheDataConvert top.answer), s') ∧
        (onReport place .hintCache >>= fun _ =>
          Exec.forEach (Credit.exec place c) (credits rt c l.request l.key l.answers m)) s₁ = some (.ok (), s') ∧
        (credits rt c l.request l.key l.answers m = creditsOf c l.request l.key top ↔
          CreditsTop c l.request l.answers top)) ∧
    ∀ (rt : Runtime B X) (callbacks : Callbacks B H (σ × World B E) X L) (_ : callbacks.OnlySaves)
        (c : SSCache B E S H σ α) (nexts : List (Core.Cache B E (ℚ × Nat) H (σ × World B E)))
        (s : Caches (σ × World B E) X) (_ : (s.dataAt 0).2.s.WellFormed) (name : String)
        (before between : List (Kwargs B)) (kwargs kwargs' : Kwargs B) (l l' : LookUp B E (ℚ × Nat)) (m m' : Content B)
        (s₁ s₁' s₂ s₂' : Caches (σ × World B E) X) (top top' : CacheAnswer B E (ℚ × Nat))
        (rest rest' : List (CacheAnswer B E (ℚ × Nat))),
      kwargs.get? "session" = some (.session (.default name)) →
        kwargs'.get? "session" = some (.session (.default name)) →
      s₁ = runRequests rt callbacks c.core nexts s before → TextHit rt 0 c.core kwargs s₁ l m s₁' →
      l.answers = top :: rest → CreditsTop c.core l.request l.answers top →
      s₂ = runRequests rt callbacks c.core nexts s (before ++ kwargs :: between) →
      TextHit rt 0 c.core kwargs' s₂ l' m' s₂' → l'.answers = top' :: rest' →
      (top'.searchData.2, (s₂.dataAt 0).2.births top'.searchData.2) ≠
        (top.searchData.2, (s₁.dataAt 0).2.births top.searchData.2) := by
  refine ⟨?_, ?_⟩
  · intro D R rt callbacks place c nexts kwargs s s' l m h
    obtain ⟨top, rest, hanswers, hranked, rfl⟩ := hit_best h.lookUp h.message h.post
    obtain ⟨hadapt, s₁, hcalls⟩ := h.adapt_eq callbacks nexts
    have htop : top ∈ l.answers := hanswers ▸ List.mem_cons_self
    exact ⟨top, rest, s₁, hanswers, hranked, hadapt, hcalls, h.credits_eq_iff htop rfl⟩
  · intro rt callbacks hcallbacks c nexts s hwf name before between kwargs kwargs' l l' m m' s₁ s₁' s₂ s₂' top top'
      rest rest' hsession hsession' hs₁ hhit hanswers hcredits hs₂ hhit' hanswers'
    have hwf₁ : (s₁.dataAt 0).2.s.WellFormed := by
      obtain ⟨id, hr⟩ := Remembers.of_wellFormed hwf name
      rw [hs₁]
      exact (run_remembers hcallbacks c nexts before hr).wellFormed
    obtain ⟨top₁, rest₁, hbest, -, hm⟩ := hit_best hhit.lookUp hhit.message hhit.post
    obtain ⟨rfl, -⟩ : top = top₁ ∧ rest = rest₁ := List.cons.inj (hanswers.symm.trans hbest)
    have htop : top ∈ l.answers := hanswers ▸ List.mem_cons_self
    have htold := c.lookUp_remembers hhit.lookUp hsession hhit.message ((hhit.credits_eq_iff htop hm).mpr hcredits) hwf₁
    -- what comes between the two hits
    have hrun : s₂ = runRequests rt callbacks c.core nexts s₁' between := by
      have hafter : (adapt rt callbacks 0 c.core nexts kwargs).after s₁ = s₁' := by
        rw [Exec.after, (hhit.adapt_eq callbacks nexts).1]
      rw [hs₂, runRequests_append, ← hs₁, runRequests_cons, hafter]
    have hremembers : Remembers name top.searchData.2 ((s₁.dataAt 0).2.births top.searchData.2) (s₂.dataAt 0).2 := by
      rw [hrun]
      exact run_remembers hcallbacks c nexts between htold
    have huntold := c.lookUp_untold hhit'.lookUp hsession' top' (hanswers' ▸ List.mem_cons_self)
    intro heq
    obtain ⟨hid, hbirths⟩ := Prod.mk.inj heq
    rw [hid] at huntold hbirths
    exact huntold.births_ne hremembers hbirths

/-! ## Two answers -/

/-- `SearchDistanceEvaluation` (gptcache/similarity_evaluation/distance.py). -/
def searchDistanceEvaluation {D : Type} (maxDistance : ℚ) (positive : Bool) : SimilarityEvaluation B E (ℚ × Nat) D where
  evaluation _ cached _ :=
    let distance := cached.searchResult.1
    let distance := if distance < 0 then 0 else if distance > maxDistance then maxDistance else distance
    pure (if positive then distance else maxDistance - distance)
  range := (0, maxDistance)

def nearEnv : Env Unit ℚ ℚ where
  norm := abs
  div := (· / ·)
  float32 := id
  download _ := .ok ()
  path := toString
  fails _ := false
  reindexes := false

/-- All vectors, with the squares of their distances. -/
def nearParts : Parts Unit ℚ Unit where
  search v embedding _ := v.map fun d => ((d.2 - embedding) ^ 2, d.1)
  toAnswers _ := .str ""
  toText
    | .str s => .ok s
    | .other _ => .error ⟨.StorageError, ""⟩
  missing := ()
  objects := false

def nearIndex : MemoryCacheEviction (Policy.LRU.State Nat Unit) Nat Unit (World Unit ℚ) :=
  .ofPolicy id .LRU 1 (World.clear nearEnv)

/-- A cache with one embedding for all texts, `first` and the default evaluation by distance. -/
def nearCache : SSCache Unit ℚ ℚ Unit (Policy.LRU.State Nat Unit) Unit where
  env := nearEnv
  parts := nearParts
  index := nearIndex
  fuel := 3
  core :=
    { cacheEnableFunc := fun _ => true
      preEmbeddingFunc := fun kwargs _ _ => pure (.single (getPrompt Api.quiet kwargs))
      embeddingFunc := fun _ _ => pure 1
      dataManager := SSDataManager.dataManager nearEnv nearParts nearIndex 3
      similarityEvaluation := searchDistanceEvaluation 4 false
      postProcess := .func first
      config := {} }
  dataManager := rfl
  onEvict := rfl
  leaves :=
    { preEmbedding := fun _ _ _ => .pure _
      embedding := fun _ _ => .pure _
      evaluation := fun _ _ _ => .pure _
      post := fun f hf messages => by
        cases hf
        cases messages with
        | nil => exact .raise _
        | cons m _ => exact .pure _ }

/-- The cache holds these answers to questions near to each other. -/
def nearCaches (answers : List String) : Caches (Policy.LRU.State Nat Unit × World Unit ℚ) Unit where
  levels _ := ⟨(nearIndex.cls.new 4 fun _ => 1, { World.init false with
    s := (SQLStorage.empty.batchInsert (answers.map fun a => .init (.str "q") (.str a) (some 1) none)).2
    v := [(1, 1), (2, 9 / 10)] }), {}⟩
  outside := ()

def modelless {D : Type} : Callbacks Unit Unit D Unit Unit where
  llmHandler _ := pure none
  cacheDataConvert _ := some ()
  updateCacheCallback d _ _ := pure (some d)
  falsy _ := false

def promptOf (name : String) : Kwargs Unit :=
  (Dict.empty.set "prompt" (.str "p")).set "session" (.session (.default name))

/-- What a look-up leaves, where it is a hit whose answers and ids are these. -/
def hitsOn (answers : List (String × Nat)) (s : Caches (Policy.LRU.State Nat Unit × World Unit ℚ) Unit) : Bool :=
  match lookUp Api.quiet 0 nearCache.core (promptOf "one") s with
  | some (.ok l, _) => l.message = answers.head?.map (fun a => .str a.1) ∧
      l.answers.map (fun a => (a.answer, a.searchData.2)) = answers.map fun a => (.str a.1, a.2)
  | _ => false

theorem textHit_of_hitsOn {answers : List (String × Nat)} {a : String × Nat}
    {s : Caches (Policy.LRU.State Nat Unit × World Unit ℚ) Unit} (h : hitsOn (a :: answers) s = true) :
    ∃ l s' top rest, TextHit Api.quiet 0 nearCache.core (promptOf "one") s l (.str a.1) s' ∧ l.answers = top :: rest ∧
      top.searchData.2 = a.2 ∧ l.answers.map (fun a => (a.answer, a.searchData.2)) =
        (a :: answers).map fun a => (.str a.1, a.2) := by
  unfold hitsOn at h
  split at h
  · rename_i l s' hl
    obtain ⟨hm, hmap⟩ := of_decide_eq_true h
    cases hanswers : l.answers with
    | nil =>
      rw [hanswers] at hmap
      cases hmap
    | cons top rest =>
      have htop : (top.answer, top.searchData.2) = (.str a.1, a.2) := by
        rw [hanswers] at hmap
        exact (List.cons.inj hmap).1
      refine ⟨l, s', top, rest, ⟨hl, hm, .inl rfl, fun b hb => ?_⟩, hanswers, (Prod.mk.inj htop).2, hanswers ▸ hmap⟩
      have hb' := List.mem_map_of_mem (f := fun a : CacheAnswer Unit ℚ (ℚ × Nat) => (a.answer, a.searchData.2)) hb
      rw [hmap] at hb'
      obtain ⟨c, -, hc⟩ := List.mem_map.mp hb'
      exact ⟨c.1, (Prod.mk.inj hc).1.symm⟩
  · cases h

/-- Two entries with one text: the session is told of the second, and served the first again. -/
theorem same_text_served_again :
    let s := nearCaches ["a", "a"]
    let s₂ := runRequests Api.quiet modelless nearCache.core [] s [promptOf "one"]
    ∃ l s' top rest, TextHit Api.quiet 0 nearCache.core (promptOf "one") s l (.str "a") s' ∧ l.answers = top :: rest ∧
      credits Api.quiet nearCache.core l.request l.key l.answers (.str "a") ≠
        creditsOf nearCache.core l.request l.key top ∧
      ∃ l' s'' top' rest', TextHit Api.quiet 0 nearCache.core (promptOf "one") s₂ l' (.str "a") s'' ∧
        l'.answers = top' :: rest' ∧ (top'.searchData.2, (s₂.dataAt 0).2.births top'.searchData.2) =
          (top.searchData.2, (s.dataAt 0).2.births top.searchData.2) := by
  intro s s₂
  have heval : hitsOn [("a", 1), ("a", 2)] s = true ∧ hitsOn [("a", 1)] s₂ = true ∧
      (s₂.dataAt 0).2.births 1 = (s.dataAt 0).2.births 1 := by decide +kernel
  obtain ⟨l, s', top, rest, hhit, hanswers, hid, hmap⟩ := textHit_of_hitsOn heval.1
  obtain ⟨l', s'', top', rest', hhit', hanswers', hid', -⟩ := textHit_of_hitsOn heval.2.1
  refine ⟨l, s', top, rest, hhit, hanswers, ?_, l', s'', top', rest', hhit', hanswers', by rw [hid, hid', heval.2.2]⟩
  obtain ⟨last, rfl⟩ : ∃ last, rest = [last] := by
    rw [hanswers] at hmap
    exact List.length_eq_one_iff.mp (by simpa using congrArg List.length hmap)
  rw [hanswers] at hmap
  obtain ⟨⟨htop, -⟩, hlast, hlastId⟩ : (top.answer = .str "a" ∧ top.searchData.2 = 1) ∧
      last.answer = .str "a" ∧ last.searchData.2 = 2 := by simpa using hmap
  intro hcredits
  have hsame := (hhit.credits_eq_iff (hanswers ▸ List.mem_cons_self) htop.symm).mp hcredits last
    (by simp [hanswers, htop, hlast])
  have hsession : l.request.session.isSome = true := by rw [SSCache.lookUp_session hhit.lookUp rfl]; rfl
  have hsearch := hsame.searchData (.inl hsession)
  rw [hsearch, hid] at hlastId
  cases hlastId

/-- Two entries with texts of their own: the session is served one after the other. -/
theorem hit_credited_two :
    let s := nearCaches ["a", "b"]
    let s₂ := runRequests Api.quiet modelless nearCache.core [] s [promptOf "one"]
    ∃ l s' top rest, TextHit Api.quiet 0 nearCache.core (promptOf "one") s l (.str "a") s' ∧ l.answers = top :: rest ∧
      credits Api.quiet nearCache.core l.request l.key l.answers (.str "a") =
        creditsOf nearCache.core l.request l.key top ∧
      ∃ l' s'' top' rest', TextHit Api.quiet 0 nearCache.core (promptOf "one") s₂ l' (.str "b") s'' ∧
        l'.answers = top' :: rest' ∧ (top'.searchData.2, (s₂.dataAt 0).2.births top'.searchData.2) ≠
          (top.searchData.2, (s.dataAt 0).2.births top.searchData.2) := by
  intro s s₂
  obtain ⟨hcredited, hnever⟩ := hit_credited (B := Unit) (E := ℚ) (S := ℚ) (H := Unit) (X := Unit) (L := Unit)
    (σ := Policy.LRU.State Nat Unit) (α := Unit)
  have heval : hitsOn [("a", 1), ("b", 2)] s = true ∧ hitsOn [("b", 2)] s₂ = true := by decide +kernel
  obtain ⟨l, s', top, rest, hhit, hanswers, hid, hmap⟩ := textHit_of_hitsOn heval.1
  obtain ⟨l', s'', top', rest', hhit', hanswers', hid', -⟩ := textHit_of_hitsOn heval.2
  have hnodup : (l.answers.map CacheAnswer.answer).Nodup := by
    have htexts := congrArg (List.map Prod.fst) hmap
    rw [List.map_map] at htexts
    exact (congrArg List.Nodup htexts).mpr (by decide)
  have htop : CreditsTop nearCache.core l.request l.answers top := .of_nodup (hanswers ▸ List.mem_cons_self) hnodup
  have hcredits : credits Api.quiet nearCache.core l.request l.key l.answers (.str "a") =
      creditsOf nearCache.core l.request l.key top := by
    obtain ⟨top₁, rest₁, -, hanswers₁, -, -, -, hiff⟩ :=
      hcredited Api.quiet modelless 0 nearCache.core [] (promptOf "one") s s' l (.str "a") hhit
    obtain ⟨rfl, -⟩ : top = top₁ ∧ rest = rest₁ := List.cons.inj (hanswers.symm.trans hanswers₁)
    exact hiff.mpr htop
  refine ⟨l, s', top, rest, hhit, hanswers, hcredits, l', s'', top', rest', hhit', hanswers', ?_⟩
  have hwf : (s.dataAt 0).2.s.WellFormed :=
    (SQLStorage.batchInsert_inserted _ _).wellFormed SQLStorage.empty_wellFormed
  exact hnever Api.quiet modelless (fun J d save kwargs _ => .pure _) nearCache [] s hwf "one" [] []
    (promptOf "one") (promptOf "one") l l' _ _ s s' s₂ s'' top top' rest rest' rfl rfl rfl hhit hanswers
      htop rfl hhit' hanswers'

end GptCache
