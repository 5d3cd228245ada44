/-
`LlmVerifier` (gptcache/processor/post.py): a model is asked whether the best
cached answer answers the question, as the post processing of a cache.

The verifier needs the question and the scores. `adapt` passes them where the
function is the class `LlmVerifier` itself; an instance is called with the
answers only. `verified_hit_iff` says what becomes of a request then.
-/
import GptCache.Adapter.Descent
import GptCache.Adapter.MapRun

namespace GptCache

open Caches (onData onOutside onReport timeCal)

variable {B E R H D X : Type}

/-! ## The verifier -/

/-- `completions.create(model=..., messages=..., temperature=0, max_tokens=10)`,
and the content of its first choice. -/
abbrev Completions (D : Type) := String → List (String × String) → Exec PyError D (Option String)

/-- A client object: its own `completions`, and its `chat`'s. -/
structure Client (D : Type) where
  completions : Option (Completions D)
  chat : Option (Completions D)

/-- `client if hasattr(client, 'completions') else client.chat`. -/
def Client.resolve (client : Client D) : Except PyError (Completions D) :=
  match client.completions, client.chat with
  | some create, _ => .ok create
  | none, some create => .ok create
  | none, none => .error ⟨.AttributeError, ""⟩

/-- `str.isspace`, which is what `strip` takes away. -/
def isSpace (c : Char) : Bool :=
  let n := c.toNat
  (9 ≤ n && n ≤ 13) || (28 ≤ n && n ≤ 32) || n = 0x85 || n = 0xa0 || n = 0x1680 || (0x2000 ≤ n && n ≤ 0x200a) ||
    n = 0x2028 || n = 0x2029 || n = 0x202f || n = 0x205f || n = 0x3000

/-- `content.strip().lower() in {"yes"}`. No letter outside of ASCII has one of
these for its lower case. -/
def verdictYes (content : String) : Bool :=
  let stripped := ((content.toList.dropWhile isSpace).reverse.dropWhile isSpace).reverse
  stripped.map Char.toLower = "yes".toList

/-- `messages[0] if not scores else messages[scores.index(max(scores))]`. -/
def bestAnswer {M : Type} (messages : List M) (scores : Option (List ℚ)) : Except PyError M :=
  let i := match (scores.getD []).max? with
    | none => 0
    | some best => (scores.getD []).idxOf best
  match messages[i]? with
  | some m => .ok m
  | none => .error ⟨.IndexError, "list index out of range"⟩

def defaultPrompt : String :=
  "You are a strict semantic verification assistant. … Only answer 'yes' or 'no'. If unsure, answer 'no'."

/-- What the model is asked. -/
def verification (systemPrompt : Option String) (question answer : String) : List (String × String) :=
  [("system", systemPrompt.getD defaultPrompt),
    ("user", "Question: " ++ question ++ "\nAnswer: " ++ answer ++
      "\nDoes this answer fully match the question? yes/no")]

/-- Python's truth value. -/
def Content.truthy (rt : Runtime B X) : Content B → Bool
  | .str s => s ≠ ""
  | .other b => rt.truthy b

variable (rt : Runtime B X) (openai : Completions D)

/-- `llm_semantic_verification`; `openai` is the module's own client. -/
def llmSemanticVerification (messages : List (Content B)) (scores : Option (List ℚ))
    (originalQuestion : Option (Content B))
    (client : Option (Client D)) (systemPrompt : Option String) (model : String) :
    Exec PyError D (Option (Content B)) :=
  match messages, originalQuestion.filter (Content.truthy rt) with
  | [], _ | _, none => pure none
  | _, some question => do
    let best ← Exec.ofExcept (bestAnswer messages scores)
    let create ← match client with
      | none => pure openai
      | some client => Exec.ofExcept client.resolve
    Exec.catching
      (create model (verification systemPrompt (question.toStr rt.str) (best.toStr rt.str)) >>= fun content =>
        match content with
        | none => Exec.raise ⟨.AttributeError, "'NoneType' object has no attribute 'strip'"⟩
        | some content => pure (if verdictYes content then some best else none))
      fun _ => pure none

structure LlmVerifier (D : Type) where
  client : Option (Client D) := none
  systemPrompt : Option String := none
  model : String := "gpt-3.5-turbo"

namespace LlmVerifier

variable (v : LlmVerifier D)

/-- `__call__`. -/
def call (messages : List (Content B)) (scores : Option (List ℚ)) (originalQuestion : Option (Content B)) :
    Exec PyError D (Option (Content B)) :=
  llmSemanticVerification rt openai messages scores originalQuestion v.client v.systemPrompt v.model

/-- An instance as a cache's `post_process_messages_func`: it is not the class,
so `adapt` calls it with the answers. -/
def postProcess : PostProcess B D := .func fun messages => v.call rt openai messages none none

/-- The model the verifier asks. -/
def completions : Except PyError (Completions D) :=
  match v.client with
  | none => .ok openai
  | some client => client.resolve

/-- Asked about the question and the answer, the model says yes. -/
def SaysYes (question answer : Content B) (d : D) : Prop :=
  ∃ create content d', v.completions openai = .ok create ∧
    create v.model (verification v.systemPrompt (question.toStr rt.str) (answer.toStr rt.str)) d =
      some (.ok (some content), d') ∧
    verdictYes content = true

/-! ## What `adapt` does -/

section

variable [DecidableEq B] [DecidableEq E] (rt : Runtime B X) (place : Nat) (c : Core.Cache B E R H D) (kwargs : Kwargs B)
  (s : Caches D X)

/-- The request ends here: `adapt` returns the message, converted, and asks neither the
caches behind this one nor the model, whatever the callbacks are. -/
def AnswersWith (m : Content B) : Prop :=
  ∃ l s', lookUp rt place c kwargs s = some (.ok l, s') ∧ l.message = some m ∧
    ∀ {L : Type} (callbacks : Callbacks B H D X L) (nexts : List (Core.Cache B E R H D)),
      adapt rt callbacks place c nexts kwargs s = some (.ok (callbacks.cacheDataConvert m), s')

/-- The request is a miss: `adapt` goes on with the cache behind this one, or the model. -/
def Misses : Prop :=
  ∃ l s', lookUp rt place c kwargs s = some (.ok l, s') ∧ l.message = none ∧
    ∀ {L : Type} (callbacks : Callbacks B H D X L)
      (next : Option (Core.Cache B E R H D × (Kwargs B → Exec PyError (Caches D X) (Option L)))),
      adaptLevel rt place c callbacks next kwargs s =
        (askBelow rt place callbacks (next.map Prod.snd) l.request l.kwargs >>= fun p =>
          updateCache place c callbacks (next.map Prod.fst) l.request l.key p.1 p.2) s'

variable {rt place c kwargs s openai}

theorem misses_of_lookUp {l : LookUp B E R} {s' : Caches D X} (h : lookUp rt place c kwargs s = some (.ok l, s'))
    (hm : l.message = none) : Misses rt place c kwargs s := by
  refine ⟨l, s', h, hm, fun callbacks next => ?_⟩
  rw [adaptLevel_eq_lookUp, Exec.bind_of_ok _ h, hm]

/-- A request is not answered and passed on. -/
theorem Misses.not_answersWith (h : Misses rt place c kwargs s) (m : Content B) :
    ¬ AnswersWith rt place c kwargs s m := by
  obtain ⟨l, s', hl, hnone, -⟩ := h
  intro hanswers
  obtain ⟨l', s'', hl', hsome, -⟩ := hanswers
  rw [hl] at hl'
  cases hl'
  rw [hnone] at hsome
  cases hsome

variable {v : LlmVerifier D} {r : Request B} {k : Embedded B E} {best : CacheAnswer B E R}
  {rest : List (CacheAnswer B E R)} {kw : Kwargs B} {s₁ s₂ s₃ s₄ : Caches D X}

/-- The instance is called without the question, and gives nothing. -/
theorem misses_of_instance (hpost : c.postProcess = v.postProcess rt openai)
    (hr : popRequest rt c kwargs s = some (.ok r, s₁)) (hk : embed rt place c r s₁ = some (.ok k, s₂))
    (hanswers : searchAnswers rt place c r k s₂ = some (.ok (best :: rest, kw), s₃))
    (hcallback : hitCallback rt c ((kw.get? "hit_callback").getD .none) (best :: rest) s₃ = some (.ok (), s₄)) :
    Misses rt place c kwargs s := by
  have hnothing : GptCache.postProcess rt place c r (best :: rest) = pure none := by
    simp only [GptCache.postProcess, hpost, LlmVerifier.postProcess]
    exact Caches.onData_pure none
  have hmessage : hitMessage rt place c r k (best :: rest) kw s₃ =
      some (.ok (none, kw.erase "hit_callback"), s₄.reported place .post) := by
    simp only [hitMessage, Dict.pop]
    rw [Exec.bind_of_ok _ hcallback, hnothing]
    rfl
  have hlookUp : lookUp rt place c kwargs s = some (.ok ⟨r, k, best :: rest, none, kw.erase "hit_callback"⟩,
      s₄.reported place .post) := by
    rw [lookUp, Exec.bind_of_ok _ hr, Exec.bind_of_ok _ hk, Exec.bind_of_ok _ hanswers]
    exact (Exec.bind_of_ok _ hmessage).trans rfl
  exact misses_of_lookUp hlookUp rfl

/-- Of a cache whose post processing is an `LlmVerifier`, and a request with an
accepted candidate: it is answered with the best one if the model says yes to
it, and is a miss otherwise, just when the model does not say yes. -/
theorem verified_hit_iff (hpost : c.postProcess = v.postProcess rt openai)
    (hr : popRequest rt c kwargs s = some (.ok r, s₁)) (hk : embed rt place c r s₁ = some (.ok k, s₂))
    (hanswers : searchAnswers rt place c r k s₂ = some (.ok (best :: rest, kw), s₃))
    (hcallback : hitCallback rt c ((kw.get? "hit_callback").getD .none) (best :: rest) s₃ = some (.ok (), s₄)) :
    ((v.SaysYes rt openai k.preEmbeddingData best.answer (s₄.levels place).data →
      AnswersWith rt place c kwargs s best.answer) ∧
      (¬ v.SaysYes rt openai k.preEmbeddingData best.answer (s₄.levels place).data → Misses rt place c kwargs s)) ↔
      ¬ v.SaysYes rt openai k.preEmbeddingData best.answer (s₄.levels place).data := by
  have hmiss := misses_of_instance hpost hr hk hanswers hcallback
  constructor
  · exact fun h hyes => hmiss.not_answersWith _ (h.1 hyes)
  · exact fun hno => ⟨fun hyes => absurd hyes hno, fun _ => hmiss⟩

/-- A request that was looked up and has a candidate came to its post processing. -/
theorem lookUp_candidate {l : LookUp B E R} {s' : Caches D X} (h : lookUp rt place c kwargs s = some (.ok l, s'))
    (hbest : l.answers = best :: rest) : ∃ s₁ s₂ s₃ s₄ kw,
      popRequest rt c kwargs s = some (.ok l.request, s₁) ∧ embed rt place c l.request s₁ = some (.ok l.key, s₂) ∧
      searchAnswers rt place c l.request l.key s₂ = some (.ok (best :: rest, kw), s₃) ∧
      hitCallback rt c ((kw.get? "hit_callback").getD .none) (best :: rest) s₃ = some (.ok (), s₄) := by
  obtain ⟨s₁, s₂, s₃, kw, hr, hk, hanswers, hmessage⟩ := lookUp_ok rt h
  rw [hbest] at hanswers hmessage
  simp only [hitMessage, Dict.pop] at hmessage
  obtain ⟨_, s₄, hcallback, -⟩ := Exec.bind_ok.mp hmessage
  exact ⟨s₁, s₂, s₃, s₄, kw, hr, hk, hanswers, hcallback⟩

end

/-! ## A verifier whose model always says the same -/

section

/-- A map cache with such a verifier. -/
def verifying (content : String) : Core.Cache Unit (Content Unit) (MapItem Unit (Content Unit)) (Data Unit)
    (MapDataManager Unit (Content Unit)) :=
  { mapCache Api.quiet with postProcess := postProcess Api.quiet (fun _ _ => pure (some content)) {} }

/-- An answer is saved. -/
def answered (content : String) : MapCaches Unit Unit :=
  (Api.put Api.quiet 0 (verifying content) [] "p" (.answers (.str "a")) .empty :
    Exec PyError (MapCaches Unit Unit) Unit).after (Api.fresh (fun _ => 2) (fun _ => "data_map.txt") (fun _ => true) ())

def asked : Kwargs Unit := Dict.empty.set "prompt" (.str "p")

theorem saysYes_iff {content : String} {question answer : Content Unit} {d : MapDataManager Unit (Content Unit)} :
    SaysYes Api.quiet (fun _ _ => pure (some content)) {} question answer d ↔ verdictYes content = true := by
  constructor
  · intro hyes
    obtain ⟨create, content', d', hcreate, hrun, hverdict⟩ := hyes
    cases hcreate
    cases hrun
    exact hverdict
  · exact fun hverdict => ⟨_, content, d, rfl, rfl, hverdict⟩

theorem verified_hit_iff_no : Misses Api.quiet 0 (verifying "no") asked (answered "no") := by
  have hcandidate : ((lookUp Api.quiet 0 (verifying "no") asked (answered "no")).bind fun o => o.1.toOption).any
      (fun l => !l.answers.isEmpty) = true := by decide +kernel
  rcases h : lookUp Api.quiet 0 (verifying "no") asked (answered "no") with _ | ⟨_ | l, s'⟩
  · simp [h] at hcandidate
  · simp [h, Except.toOption] at hcandidate
  · rw [h] at hcandidate
    obtain ⟨best, rest, hbest⟩ : ∃ best rest, l.answers = best :: rest :=
      List.exists_cons_of_ne_nil (by simpa [Except.toOption] using hcandidate)
    obtain ⟨s₁, s₂, s₃, s₄, kw, hr, hk, hanswers, hcallback⟩ := lookUp_candidate h hbest
    have hno : ¬ SaysYes Api.quiet (fun _ _ => pure (some "no")) {} l.key.preEmbeddingData best.answer
        (s₄.levels 0).data := by
      rw [saysYes_iff]
      decide
    have hpost : (verifying "no").postProcess = postProcess Api.quiet (fun _ _ => pure (some "no")) {} := rfl
    exact ((verified_hit_iff hpost hr hk hanswers hcallback).mpr hno).2 hno

/-- The model says yes, in whatever state it is asked, and the request is a miss. -/
theorem instance_misses :
    (∀ d : MapDataManager Unit (Content Unit),
        SaysYes Api.quiet (fun _ _ => pure (some "yes")) {} (.str "p") (.str "a") d) ∧
      ((lookUp Api.quiet 0 (verifying "yes") asked (answered "yes")).map fun o => match o.1 with
        | .ok l => (some l.key.preEmbeddingData, l.answers.map (·.answer), l.message)
        | .error _ => (none, [], none)) = some (some (.str "p"), [.str "a"], none) :=
  ⟨fun _ => saysYes_iff.mpr (by decide), by decide +kernel⟩

end

end LlmVerifier

end GptCache
