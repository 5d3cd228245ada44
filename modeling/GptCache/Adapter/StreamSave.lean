/-
What a caller of `ChatCompletion` gets of a response of the model when the
caches on the way back fail to save it.

A plain response is saved inside the `try` of `adapt` and `aadapt`, so an
exception of a save is logged and forgotten. A stream is saved by the hooks
the caches put around it, when the caller has drawn the last chunk: outside of
that `try`, and an exception of a save is the caller's.
-/
import GptCache.Adapter.AsyncAdapt
import GptCache.Adapter.OpenAI

namespace GptCache

open Caches (onData onOutside onReport timeCal)

variable {B E R D X : Type}

/-- `ChatCompletion`, on top of a model, with its `cache_data_convert` and its
`get_message_from_openai_answer`. -/
def chatCompletion (rt : Runtime B X) (llmHandler : Kwargs B → Exec PyError X (Option (Response B (Caches D X))))
    (cacheDataConvert : Content B → Option (Response B (Caches D X))) (message : B → Except PyError (Content B)) :
    AsyncCallbacks B (Data B) D X (Response B (Caches D X)) where
  llmHandler := llmHandler
  cacheDataConvert := cacheDataConvert
  updateCacheCallback llmData updateCacheFunc _ :=
    updateCacheCallback message llmData fun data => updateCacheFunc data none
  falsy
    | .plain b => !rt.truthy b
    | _ => false
  updateCacheNone _ _ := Exec.raise ⟨.TypeError, "'NoneType' object is not subscriptable"⟩

/-! ## Both entry points -/

/-- The two ways into a cache. -/
inductive EntryPoint where
  | adapt
  | aadapt
  deriving DecidableEq

section

variable {H L : Type} [DecidableEq B] (rt : Runtime B X)

/-- What one cache does with a request of `aadapt`. -/
def alookUp (place : Nat) (c : Core.Cache B E R H D) (kwargs : Kwargs B) :
    Exec PyError (Caches D X) (LookUp B E R) := do
  let r ← apopRequest rt c kwargs
  let k ← embed rt place c r
  let (answers, kwargs) ← asearchAnswers rt place c r k
  let message ← ahitMessage rt place c r k answers
  pure ⟨r, k, answers, message, kwargs⟩

theorem aadapt_eq_alookUp (place : Nat) (c : Core.Cache B E R H D) (callbacks : AsyncCallbacks B H D X L)
    (nexts : List (Core.Cache B E R H D)) (kwargs : Kwargs B) : aadapt rt place c callbacks nexts kwargs =
      alookUp rt place c kwargs >>= fun l =>
        match l.message with
        | some m => pure (callbacks.cacheDataConvert m)
        | none =>
          match nexts with
          | _ :: _ => Exec.raise ⟨.NameError, "name 'search_only_flag' is not defined"⟩
          | [] => onOutside (callbacks.llmHandler l.kwargs) >>= fun llmData =>
            aupdateCache place c callbacks l.request l.key llmData l.kwargs := by
  simp only [aadapt, alookUp, Exec.bind_assoc]
  cases nexts <;> rfl

variable [DecidableEq E]

namespace EntryPoint

variable (callbacks : AsyncCallbacks B H D X L) (place : Nat) (c : Core.Cache B E R H D)
  (nexts : List (Core.Cache B E R H D)) (kwargs : Kwargs B)

def call : EntryPoint → Exec PyError (Caches D X) (Option L)
  | adapt => GptCache.adapt rt callbacks.toCallbacks place c nexts kwargs
  | aadapt => GptCache.aadapt rt place c callbacks nexts kwargs

/-- A request on its way to the model: the caches passed and what the model
answers, if it gets there. -/
def reach : EntryPoint → Exec PyError (Caches D X) (Option (List (Step B E R H D) × Option L))
  | adapt => descend rt place c nexts kwargs >>= fun d =>
    match d.outcome with
    | .asked p kwargs => timeCal p .llm (onOutside (callbacks.llmHandler kwargs)) >>= fun llmData =>
      pure (some (d.steps, llmData))
    | _ => pure none
  | aadapt => alookUp rt place c kwargs >>= fun l =>
    match l.message, nexts with
    | none, [] => onOutside (callbacks.llmHandler l.kwargs) >>= fun llmData =>
      pure (some ([⟨place, c, none, l, l.kwargs⟩], llmData))
    | _, _ => pure none

/-- What a cache that was passed does with the answer on its way back. -/
def handBack (step : Step B E R H D) (llmData : Option L) : EntryPoint → Exec PyError (Caches D X) (Option L)
  | adapt => updateCache step.place step.cache callbacks.toCallbacks step.next step.lookUp.request step.lookUp.key
      llmData step.kwargs
  | aadapt => aupdateCache step.place step.cache callbacks step.lookUp.request step.lookUp.key llmData step.kwargs

/-- The way back through all of them. -/
def back (e : EntryPoint) (steps : List (Step B E R H D)) (llmData : Option L) : Exec PyError (Caches D X) (Option L) :=
  steps.foldr (fun step answer => answer >>= fun llmData => e.handBack callbacks step llmData) (pure llmData)

/-- The caches that can have been passed: one at least, and `aadapt` passes the first one only. -/
structure Passed (e : EntryPoint) (steps : List (Step B E R H D)) : Prop where
  ne_nil : steps ≠ []
  next : e = aadapt → ∀ step ∈ steps, step.next = none

theorem descend_steps_ne_nil {s s' : Caches D X} {steps : List (Step B E R H D)} {p : Nat} {kw : Kwargs B}
    (h : descend rt place c nexts kwargs s = some (.ok ⟨steps, .asked p kw⟩, s')) : steps ≠ [] := by
  cases nexts with
  | nil =>
    rw [descend] at h
    obtain ⟨l, s₁, -, h⟩ := Exec.bind_ok.mp h
    cases hm : l.message with
    | some m => simp [hm, Exec.pure_ok] at h
    | none =>
      simp only [hm, Exec.pure_ok, Descent.mk.injEq] at h
      rw [← h.1.1]
      exact List.cons_ne_nil _ _
  | cons n ns =>
    rw [descend] at h
    obtain ⟨l, s₁, -, h⟩ := Exec.bind_ok.mp h
    cases hm : l.message with
    | some m => simp [hm, Exec.pure_ok] at h
    | none =>
      simp only [hm] at h
      obtain ⟨d, s₂, -, h⟩ := Exec.bind_ok.mp h
      simp only [Exec.pure_ok, Descent.mk.injEq] at h
      rw [← h.1.1]
      exact List.cons_ne_nil _ _

variable {rt callbacks place c nexts kwargs} {s s' : Caches D X} {steps : List (Step B E R H D)} {llmData : Option L}

/-- **A call that reaches the model is what comes back from there.** -/
theorem call_of_reach {e : EntryPoint}
    (h : e.reach rt callbacks place c nexts kwargs s = some (.ok (some (steps, llmData)), s')) :
    e.call rt callbacks place c nexts kwargs s = e.back callbacks steps llmData s' ∧ e.Passed steps := by
  cases e with
  | adapt =>
    unfold reach at h
    obtain ⟨d, s₁, hd, h⟩ := Exec.bind_ok.mp h
    obtain ⟨steps', outcome⟩ := d
    cases outcome with
    | answered m => cases (Exec.pure_ok.mp h).1
    | missed => cases (Exec.pure_ok.mp h).1
    | asked p kw =>
      obtain ⟨d', s₂, hllm, h⟩ := Exec.bind_ok.mp h
      obtain ⟨heq, rfl⟩ := Exec.pure_ok.mp h
      cases heq
      refine ⟨?_, descend_steps_ne_nil rt place c nexts kwargs hd, fun he => by cases he⟩
      rw [call, adapt_eq_descend, Exec.bind_of_ok _ hd]
      exact Exec.bind_of_ok _ hllm
  | aadapt =>
    unfold reach at h
    obtain ⟨l, s₁, hl, h⟩ := Exec.bind_ok.mp h
    cases hm : l.message with
    | some m =>
      rw [hm] at h
      cases (Exec.pure_ok.mp h).1
    | none =>
      cases nexts with
      | cons n ns =>
        rw [hm] at h
        cases (Exec.pure_ok.mp h).1
      | nil =>
        simp only [hm] at h
        obtain ⟨d', s₂, hllm, h⟩ := Exec.bind_ok.mp h
        obtain ⟨heq, rfl⟩ := Exec.pure_ok.mp h
        cases heq
        refine ⟨?_, List.cons_ne_nil _ _, fun _ step hstep => by rw [List.mem_singleton.mp hstep]⟩
        rw [call, aadapt_eq_alookUp, Exec.bind_of_ok _ hl]
        simp only [hm]
        exact Exec.bind_of_ok _ hllm

end EntryPoint

end

/-! ## Saving what came back -/

/-- What a cache saves when it is handed `data`: nothing, when it is disabled. -/
def Step.save (step : Step B E R (Data B) D) (data : Data B) : Exec PyError (Caches D X) Unit :=
  match step.lookUp.key.embeddingData with
  | none => pure ()
  | some embedding =>
    updateCacheFunc step.place step.cache step.next step.lookUp.request step.lookUp.key embedding data none

/-- One save after the other, until one raises; the last cache passed is the first to save. -/
def saveAll (steps : List (Step B E R (Data B) D)) (data : Data B) : Exec PyError (Caches D X) Unit :=
  steps.foldr (fun step saves => saves >>= fun _ => step.save data) (pure ())

/-- Each save by itself, its exception forgotten. -/
def saveEach (steps : List (Step B E R (Data B) D)) (data : Data B) : Exec PyError (Caches D X) Unit :=
  steps.foldr (fun step saves => saves >>= fun _ => Exec.catching (step.save data) fun _ => pure ()) (pure ())

/-- What the saves of a plain response do. -/
def savePlain (message : B → Except PyError (Content B)) (steps : List (Step B E R (Data B) D)) (b : B) :
    Exec PyError (Caches D X) Unit :=
  match message b with
  | .error _ => pure ()
  | .ok content => saveEach steps (.answers (.answer ⟨content, .STR⟩))

section

variable {rt : Runtime B X} {llmHandler : Kwargs B → Exec PyError X (Option (Response B (Caches D X)))}
  {cacheDataConvert : Content B → Option (Response B (Caches D X))} {message : B → Except PyError (Content B)}
  {e : EntryPoint}

/-- A falsy response does not come back from `adapt`. -/
theorem back_falsy {H L : Type} {callbacks : AsyncCallbacks B H D X L} {d : L} (hd : callbacks.falsy d = true) :
    ∀ {steps : List (Step B E R H D)}, steps ≠ [] → EntryPoint.adapt.back callbacks steps (some d) = pure none
  | [], h => absurd rfl h
  | [step], _ => by
    unfold EntryPoint.back
    rw [List.foldr_cons, List.foldr_nil, Exec.pure_bind]
    simp only [EntryPoint.handBack, updateCache, hd, if_true]
  | step :: next :: steps, _ => by
    have hrest := back_falsy hd (List.cons_ne_nil next steps)
    unfold EntryPoint.back at hrest ⊢
    rw [List.foldr_cons, hrest, Exec.pure_bind]
    rfl

/-- What a cache does with an answer that is there. -/
theorem handBack_some {callbacks : AsyncCallbacks B (Data B) D X (Response B (Caches D X))}
    {step : Step B E R (Data B) D} {d : Response B (Caches D X)} (hfalsy : e = .adapt → callbacks.falsy d = false)
    (hnext : e = .aadapt → step.next = none) : e.handBack callbacks step (some d) =
      match step.lookUp.key.embeddingData with
      | none => pure (some d)
      | some embedding => Exec.catching
          (callbacks.updateCacheCallback d (updateCacheFunc step.place step.cache step.next
          step.lookUp.request step.lookUp.key embedding) step.kwargs) fun _ => pure (some d) := by
  cases e with
  | adapt => exact if_neg (ne_true_of_eq_false (hfalsy rfl))
  | aadapt => rw [hnext rfl]; rfl

theorem handBack_plain {step : Step B E R (Data B) D} {b : B} (htruthy : e = .adapt → rt.truthy b = true)
    (hnext : e = .aadapt → step.next = none) :
    e.handBack (chatCompletion rt llmHandler cacheDataConvert message) step (some (.plain b)) =
      (match message b with
        | .error _ => pure ()
        | .ok content => Exec.catching (step.save (.answers (.answer ⟨content, .STR⟩))) fun _ => pure ()) >>= fun _ =>
      pure (some (.plain b)) := by
  rw [handBack_some (fun he => by simp [chatCompletion, htruthy he]) hnext]
  unfold Step.save
  cases step.lookUp.key.embeddingData with
  | none => cases message b <;> rfl
  | some embedding =>
    simp only [chatCompletion, updateCacheCallback]
    cases message b with
    | error err => rfl
    | ok content =>
      simp only [Exec.ofExcept_ok, Exec.pure_bind]
      rw [Exec.catching_bind_pure, Exec.bind_pure_unit]

/-- **A plain response comes back**, whatever its saves raise. -/
theorem back_plain {b : B} (htruthy : e = .adapt → rt.truthy b = true) :
    ∀ {steps : List (Step B E R (Data B) D)}, (e = .aadapt → ∀ step ∈ steps, step.next = none) →
      e.back (chatCompletion rt llmHandler cacheDataConvert message) steps (some (.plain b)) =
        savePlain message steps b >>= fun _ => pure (some (.plain b))
  | [], _ => by
    unfold savePlain
    cases message b <;> rfl
  | step :: steps, hnext => by
    have hnext' : e = .aadapt → ∀ step ∈ steps, step.next = none := fun he step hstep =>
      hnext he step (List.mem_cons_of_mem _ hstep)
    have hrest := back_plain htruthy hnext'
    unfold EntryPoint.back savePlain at hrest ⊢
    rw [List.foldr_cons, hrest, Exec.bind_assoc]
    simp only [Exec.pure_bind, handBack_plain htruthy fun he => hnext he step List.mem_cons_self]
    cases message b with
    | error err => rfl
    | ok content =>
      rw [← Exec.bind_assoc]
      rfl

theorem handBack_stream {step : Step B E R (Data B) D} {d : Response B (Caches D X)} {it : ChunkStream B (Caches D X)}
    (hd : d.stream = some it) (hnext : e = .aadapt → step.next = none) :
    e.handBack (chatCompletion rt llmHandler cacheDataConvert message) step (some d) =
      match step.lookUp.key.embeddingData with
      | none => pure (some d)
      | some _ => pure (some (d.withStream (hookOpenaiData step.save it))) := by
  have hfalsy : (chatCompletion (D := D) rt llmHandler cacheDataConvert message).falsy d = false := by
    cases d with
    | plain b => cases hd
    | iterator it => rfl
    | asyncGenerator it => rfl
  rw [handBack_some (fun _ => hfalsy) hnext]
  unfold Step.save
  cases step.lookUp.key.embeddingData with
  | none => rfl
  | some embedding =>
    simp only [chatCompletion, updateCacheCallback_stream hd, Exec.catching_pure]

/-- The hooks around a stream once it came back, the last cache's innermost. -/
def hooks (steps : List (Step B E R (Data B) D)) (it : ChunkStream B (Caches D X)) : ChunkStream B (Caches D X) :=
  steps.foldr
    (fun step it => match step.lookUp.key.embeddingData with | none => it | some _ => hookOpenaiData step.save it) it

/-- **A stream comes back with hooks around it**, and nothing has happened yet. -/
theorem back_stream {d : Response B (Caches D X)} {it : ChunkStream B (Caches D X)} (hd : d.stream = some it) :
    ∀ {steps : List (Step B E R (Data B) D)}, (e = .aadapt → ∀ step ∈ steps, step.next = none) →
      e.back (chatCompletion rt llmHandler cacheDataConvert message) steps (some d) =
        pure (some (d.withStream (hooks steps it)))
  | [], _ => by
    rw [hooks, List.foldr_nil, Response.withStream_self hd]
    rfl
  | step :: steps, hnext => by
    have hnext' : e = .aadapt → ∀ step ∈ steps, step.next = none := fun he step hstep =>
      hnext he step (List.mem_cons_of_mem _ hstep)
    have hrest := back_stream hd hnext'
    unfold EntryPoint.back hooks at hrest ⊢
    rw [List.foldr_cons, hrest, Exec.pure_bind,
      handBack_stream (Response.stream_withStream hd) fun he => hnext he step List.mem_cons_self, List.foldr_cons]
    cases step.lookUp.key.embeddingData with
    | none => rfl
    | some embedding => simp only [Response.withStream_withStream]

/-- The hooks of the caches that are enabled save one after the other at the end. -/
theorem hooks_yields {chunks : List (Chunk B)} (h : ∀ chunk ∈ chunks, chunk.Readable) :
    ∀ steps : List (Step B E R (Data B) D),
      Generator.Yields (hooks steps (.iter chunks) : ChunkStream B (Caches D X)) chunks
        (saveAll steps (savedAnswer chunks))
  | [] => Generator.yields_iter chunks
  | step :: steps => by
    have hrest := hooks_yields h steps
    unfold hooks saveAll at hrest ⊢
    rw [List.foldr_cons, List.foldr_cons]
    cases hk : step.lookUp.key.embeddingData with
    | none =>
      have hsave : step.save (savedAnswer chunks) = (pure () : Exec PyError (Caches D X) Unit) := by
        unfold Step.save
        rw [hk]
      rwa [hsave, Exec.bind_pure_unit]
    | some embedding => exact hrest.hook (addAnswers_text h "")

theorem hooks_disabled (it : ChunkStream B (Caches D X)) : ∀ {steps : List (Step B E R (Data B) D)},
    (∀ step ∈ steps, step.lookUp.key.embeddingData = none) → hooks steps it = it
  | [], _ => rfl
  | step :: steps, h => by
    obtain ⟨hstep, h⟩ := List.forall_mem_cons.mp h
    rw [hooks, List.foldr_cons, hstep]
    exact hooks_disabled it h

theorem hooks_raises {chunks : List (Chunk B)} {chunk : Chunk B} (hmem : chunk ∈ chunks) (h : ¬ chunk.Readable) :
    ∀ {steps : List (Step B E R (Data B) D)}, (∃ step ∈ steps, step.lookUp.key.embeddingData ≠ none) →
      Generator.Raises (hooks steps (.iter chunks) : ChunkStream B (Caches D X)) chunks
  | [], henabled => by simp at henabled
  | step :: steps, henabled => by
    by_cases hrest : ∃ step ∈ steps, step.lookUp.key.embeddingData ≠ none
    · have hraises := hooks_raises hmem h hrest
      rw [hooks, List.foldr_cons]
      cases step.lookUp.key.embeddingData with
      | none => exact hraises
      | some embedding => exact hraises.hook ""
    · obtain ⟨first, hfirst, hne⟩ := henabled
      have hnone : ∀ step ∈ steps, step.lookUp.key.embeddingData = none := by
        intro step hstep
        by_contra hsome
        exact hrest ⟨step, hstep, hsome⟩
      rcases List.mem_cons.mp hfirst with rfl | hfirst
      · rw [hooks, List.foldr_cons, ← hooks, hooks_disabled _ hnone]
        cases hk : first.lookUp.key.embeddingData with
        | none => exact absurd hk hne
        | some embedding => exact hookOpenaiData_raises _ hmem h
      · exact absurd (hnone first hfirst) hne

/-- A caller gets the response `d`, reading it, where it is a stream of
`chunks`, to its end, from `t` on: all of it and no exception. -/
def Received (d : Response B (Caches D X)) (chunks : List (Chunk B)) (t : Caches D X)
    (answer : Option (Response B (Caches D X))) : Prop :=
  match d with
  | .plain b => answer = some (.plain b)
  | d => ∃ it, answer = some (d.withStream it) ∧ ∃ t', it.drain (chunks.length + 1) t = some (.ok (chunks, none), t')

/-- When a response reaches the caller. Of a plain one the saves have to
return, or to raise; those of a stream must not raise. -/
def Unharmed (rt : Runtime B X) (message : B → Except PyError (Content B)) (e : EntryPoint)
    (steps : List (Step B E R (Data B) D)) (d : Response B (Caches D X)) (chunks : List (Chunk B))
    (s t : Caches D X) : Prop :=
  match d with
  | .plain b => (e = .adapt → rt.truthy b = true) ∧ ∃ s', savePlain message steps b s = some (.ok (), s')
  | _ => (∀ step ∈ steps, step.lookUp.key.embeddingData = none) ∨
    (∀ chunk ∈ chunks, chunk.Readable) ∧ ∃ t', saveAll steps (savedAnswer chunks) t = some (.ok (), t')

/-- A stream that came back, read to its end. -/
theorem hooks_drain_iff {chunks : List (Chunk B)} {steps : List (Step B E R (Data B) D)} {t : Caches D X} :
    (∃ t', (hooks steps (.iter chunks)).drain (chunks.length + 1) t = some (.ok (chunks, none), t')) ↔
      (∀ step ∈ steps, step.lookUp.key.embeddingData = none) ∨
        (∀ chunk ∈ chunks, chunk.Readable) ∧ ∃ t', saveAll steps (savedAnswer chunks) t = some (.ok (), t') := by
  by_cases hdisabled : ∀ step ∈ steps, step.lookUp.key.embeddingData = none
  · refine iff_of_true ⟨t, ?_⟩ (.inl hdisabled)
    rw [hooks_disabled _ hdisabled, (Generator.yields_iter chunks).drain (Nat.lt_succ_self _)]
    rfl
  · have henabled : ∃ step ∈ steps, step.lookUp.key.embeddingData ≠ none := by
      simpa only [not_forall, exists_prop] using hdisabled
    rw [or_iff_right hdisabled]
    by_cases hreadable : ∀ chunk ∈ chunks, chunk.Readable
    · rw [(hooks_yields hreadable steps).drain (Nat.lt_succ_self _), and_iff_right hreadable]
      cases hsave : saveAll steps (savedAnswer chunks) t with
      | none => simp
      | some p =>
        obtain ⟨r, t'⟩ := p
        cases r <;> simp
    · obtain ⟨chunk, hmem, hchunk⟩ : ∃ chunk ∈ chunks, ¬ chunk.Readable := by
        simpa only [not_forall, exists_prop] using hreadable
      refine iff_of_false ?_ fun h => hreadable h.1
      intro ⟨t', hdrain⟩
      obtain ⟨got, err, hraise⟩ := (hooks_raises hmem hchunk henabled).drain (n := chunks.length + 1) (s := t)
        (Nat.lt_succ_self _)
      rw [hraise] at hdrain
      simp at hdrain

/-- **What a caller receives of a response of the model.** A plain one
reaches the caller whatever the saves raise. A stream does when no cache
passed is enabled, or when each of its chunks has a text and no save of the
sum raises. -/
theorem received_iff [DecidableEq B] [DecidableEq E] {place : Nat} {c : Core.Cache B E R (Data B) D}
    {nexts : List (Core.Cache B E R (Data B) D)} {kwargs : Kwargs B} {s s' : Caches D X}
    {steps : List (Step B E R (Data B) D)}
    {d : Response B (Caches D X)} {chunks : List (Chunk B)} (hchunks : ∀ it, d.stream = some it → it = .iter chunks)
    (h : e.reach rt (chatCompletion rt llmHandler cacheDataConvert message) place c nexts kwargs s =
      some (.ok (some (steps, some d)), s')) (t : Caches D X) :
    (∃ answer s'', e.call rt (chatCompletion rt llmHandler cacheDataConvert message) place c nexts kwargs s =
        some (.ok answer, s'') ∧ Received d chunks t answer) ↔ Unharmed rt message e steps d chunks s' t := by
  obtain ⟨hcall, hpassed⟩ := EntryPoint.call_of_reach h
  rw [hcall]
  cases hd : d.stream with
  | some it =>
    obtain rfl := hchunks it hd
    have hreceived : ∀ answer, Received d chunks t answer ↔ ∃ it, answer = some (d.withStream it) ∧
        ∃ t', it.drain (chunks.length + 1) t = some (.ok (chunks, none), t') := by
      intro answer
      cases d with
      | plain b => cases hd
      | iterator it => rfl
      | asyncGenerator it => rfl
    have hunharmed : Unharmed rt message e steps d chunks s' t ↔
        ∃ t', (hooks steps (.iter chunks)).drain (chunks.length + 1) t = some (.ok (chunks, none), t') := by
      rw [hooks_drain_iff]
      cases d with
      | plain b => cases hd
      | iterator it => rfl
      | asyncGenerator it => rfl
    rw [hunharmed, back_stream hd hpassed.next]
    simp only [hreceived, Exec.pure_ok]
    constructor
    · intro ⟨answer, s'', ⟨hanswer, _⟩, it, heq, hdrain⟩
      rw [← hanswer] at heq
      rwa [Response.withStream_inj hd (Option.some.inj heq)]
    · intro hdrain
      exact ⟨_, s', ⟨rfl, rfl⟩, _, rfl, hdrain⟩
  | none =>
    cases d with
    | iterator it => cases hd
    | asyncGenerator it => cases hd
    | plain b =>
      by_cases htruthy : e = .adapt → rt.truthy b = true
      · rw [back_plain htruthy hpassed.next]
        constructor
        · intro ⟨answer, s'', hback, _⟩
          obtain ⟨_, s₁, hsave, _⟩ := Exec.bind_ok.mp hback
          exact ⟨htruthy, s₁, hsave⟩
        · intro ⟨_, s₁, hsave⟩
          exact ⟨_, s₁, (Exec.bind_of_ok _ hsave).trans rfl, rfl⟩
      · refine iff_of_false ?_ fun hunharmed => htruthy hunharmed.1
        intro ⟨answer, s'', hback, hreceived⟩
        obtain ⟨rfl, hfalsy⟩ := Classical.not_imp.mp htruthy
        rw [back_falsy (by simp [chatCompletion, hfalsy]) hpassed.ne_nil] at hback
        rw [← (Exec.pure_ok.mp hback).1] at hreceived
        cases hreceived

end

/-! ## A model that streams -/

/-- `ChatCompletion`, on top of a model that streams these chunks. -/
def streaming (chunks : List (Chunk Unit)) :
    AsyncCallbacks Unit (Data Unit) (MapDataManager Unit (Content Unit)) Unit (Response Unit (MapCaches Unit Unit)) :=
  chatCompletion Api.quiet (fun _ => pure (some (.iterator (.iter chunks)))) (fun _ => none) fun _ => .ok (.str "")

def hello : List (Chunk Unit) := [deltaChunk { content := .str "hello" }]

/-- `get_data_manager(max_size=0)`: no value is small enough for it. -/
def roomless : MapCaches Unit Unit := Api.fresh (fun _ => 0) (fun _ => "data_map.txt") (fun _ => true) ()

/-- What a caller receives who reads what a call answered to its end. -/
def readToEnd (call : Exec PyError (MapCaches Unit Unit) (Option (Response Unit (MapCaches Unit Unit)))) (n : Nat)
    (s : MapCaches Unit Unit) : Option (List (Chunk Unit) × Option PyError) :=
  match call s with
  | some (.ok (some (.iterator it)), s') => (it.drain n s').bind fun p => p.1.toOption
  | _ => none

/-- The chunk arrives, and then the exception of the save. -/
theorem save_raises_in_stream :
    readToEnd (adapt Api.quiet (streaming hello).toCallbacks 0 (mapCache Api.quiet) [] promptTopK) 2 roomless =
        some (hello, some ⟨.ValueError, "value too large"⟩) ∧
      ∀ answer s', adapt Api.quiet (streaming hello).toCallbacks 0 (mapCache Api.quiet) [] promptTopK roomless =
        some (.ok answer, s') → ¬ Received (.iterator (.iter hello)) hello s' answer := by
  have hrun : readToEnd (adapt Api.quiet (streaming hello).toCallbacks 0 (mapCache Api.quiet) [] promptTopK)
      2 roomless = some (hello, some ⟨.ValueError, "value too large"⟩) := by decide +kernel
  refine ⟨hrun, fun answer s' hcall hreceived => ?_⟩
  obtain ⟨it, rfl, t', hdrain⟩ := hreceived
  simp only [readToEnd, hcall, Response.withStream] at hrun
  rw [show (2 : Nat) = hello.length + 1 from rfl, hdrain] at hrun
  simp [Except.toOption] at hrun

/-- The model streams the chunks, and their answer can be saved. -/
def savesStream (chunks : List (Chunk Unit)) (s : MapCaches Unit Unit) : Bool :=
  match EntryPoint.adapt.reach Api.quiet (streaming chunks) 0 (mapCache Api.quiet) [] promptTopK s with
  | some (.ok (some (steps, some (.iterator (.iter streamed)))), s') =>
    decide (streamed = chunks) && (match saveAll steps (savedAnswer chunks) s' with
      | some (.ok (), _) => true
      | _ => false)
  | _ => false

/-- A role, two texts and the end. -/
def helloWorld : List (Chunk Unit) :=
  [deltaChunk { role := some "assistant" }, deltaChunk { content := .str "hello" },
    deltaChunk { content := .str " world" }, deltaChunk {}]

/-- A response is truthy. -/
def allTruthy : Runtime Unit Unit := { Api.quiet with truthy := fun _ => true }

/-- `ChatCompletion`, on top of a model that answers plainly. -/
def plainly : AsyncCallbacks Unit (Data Unit) (MapDataManager Unit (Content Unit)) Unit
    (Response Unit (MapCaches Unit Unit)) :=
  chatCompletion allTruthy (fun _ => pure (some (.plain ()))) (fun _ => none) fun _ => .ok (.str "hello")

/-- The model answers plainly, and the save raises. -/
def saveRaises (s : MapCaches Unit Unit) : Bool :=
  match EntryPoint.adapt.reach allTruthy plainly 0 (mapCache allTruthy) [] promptTopK s with
  | some (.ok (some (steps, some (.plain ()))), s') =>
    (match saveAll steps (.answers (.answer ⟨.str "hello", .STR⟩)) s' with
      | some (.error _, _) => true
      | _ => false) &&
    (savePlain (fun _ => .ok (.str "hello")) steps () s').any fun p => p.1.isOk
  | _ => false

/-- Where there is room for the answer the caller receives the stream to its
end; and a plain response also where there is none and the save raises. -/
theorem received_iff_hello :
    (∃ steps s' answer s'',
      EntryPoint.adapt.reach Api.quiet (streaming helloWorld) 0 (mapCache Api.quiet) [] promptTopK emptyMaps =
        some (.ok (some (steps, some (.iterator (.iter helloWorld)))), s') ∧
      EntryPoint.adapt.call Api.quiet (streaming helloWorld) 0 (mapCache Api.quiet) [] promptTopK emptyMaps =
        some (.ok answer, s'') ∧ Received (.iterator (.iter helloWorld)) helloWorld s' answer) ∧
    ∃ steps s' answer s'',
      EntryPoint.adapt.reach allTruthy plainly 0 (mapCache allTruthy) [] promptTopK roomless =
        some (.ok (some (steps, some (.plain ()))), s') ∧
      (∃ err s₁, saveAll steps (.answers (.answer ⟨.str "hello", .STR⟩)) s' = some (.error err, s₁)) ∧
      EntryPoint.adapt.call allTruthy plainly 0 (mapCache allTruthy) [] promptTopK roomless =
        some (.ok answer, s'') ∧ Received (.plain ()) [] s' answer := by
  constructor
  · have hrun : savesStream helloWorld emptyMaps = true := by decide +kernel
    unfold savesStream at hrun
    split at hrun
    · rename_i steps chunks s' hreach
      rw [Bool.and_eq_true, decide_eq_true_iff] at hrun
      obtain ⟨rfl, hsave⟩ := hrun
      have hreadable : ∀ chunk ∈ helloWorld, chunk.Readable := by
        simp [helloWorld, deltaChunk, Chunk.Readable, Chunk.IsNull, getStreamMessageFromOpenaiAnswer]
      have hsaved : ∃ t', saveAll steps (savedAnswer helloWorld) s' = some (.ok (), t') := by
        split at hsave
        · rename_i t' hsaved
          exact ⟨t', hsaved⟩
        · cases hsave
      have hchunks : ∀ it,
          (Response.iterator (.iter helloWorld) : Response Unit (MapCaches Unit Unit)).stream = some it →
            it = .iter helloWorld := fun it h => (Option.some.inj h).symm
      obtain ⟨answer, s'', hcall, hreceived⟩ := (received_iff hchunks hreach s').mpr (.inr ⟨hreadable, hsaved⟩)
      exact ⟨steps, s', answer, s'', hreach, hcall, hreceived⟩
    · cases hrun
  · have hrun : saveRaises roomless = true := by decide +kernel
    unfold saveRaises at hrun
    split at hrun
    · rename_i steps s' hreach
      obtain ⟨hraise, hsaved⟩ := Bool.and_eq_true_iff.mp hrun
      have hraise : ∃ err s₁, saveAll steps (.answers (.answer ⟨.str "hello", .STR⟩)) s' = some (.error err, s₁) := by
        split at hraise
        · rename_i err s₁ hfailed
          exact ⟨err, s₁, hfailed⟩
        · cases hraise
      have hsaved : ∃ s₁, savePlain (fun _ => .ok (.str "hello")) steps () s' = some (.ok (), s₁) := by
        rcases h : savePlain (fun _ => .ok (.str "hello")) steps () s' with _ | ⟨_ | _, s₁⟩
        · simp [h] at hsaved
        · simp [h, Except.isOk, Except.toBool] at hsaved
        · exact ⟨s₁, rfl⟩
      have hchunks : ∀ it, (Response.plain () : Response Unit (MapCaches Unit Unit)).stream = some it → it = .iter [] :=
        fun it h => by cases h
      obtain ⟨answer, s'', hcall, hreceived⟩ := (received_iff hchunks hreach s').mpr ⟨fun _ => rfl, hsaved⟩
      exact ⟨steps, s', answer, s'', hreach, hraise, hcall, hreceived⟩
    · cases hrun

end GptCache
