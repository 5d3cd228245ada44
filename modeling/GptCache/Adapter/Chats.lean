/-
Calls of `ChatCompletion` that take turns on one cache over a `MapDataManager`.

Any number of calls may be under way: awaiting the model, or with a stream
that is drawn in part, or never drawn again. Which of them goes on next is not
up to the cache. In every order of turns each caller reads the model's text
for the prompt, chunk by chunk, from the model or from the cache, and the
cache holds whole texts only, of prompts a call came to its end for
(`chats_agree`). If it has room for all prompts, the model is asked exactly by
the calls that are made before one for the same prompt came to its end
(`asked_until_ended`).
-/
import GptCache.Adapter.ChatCompletion
import GptCache.Adapter.ModelCalls

namespace GptCache.ChatCompletion

open Api
open Caches (onOutside)

variable {B X : Type}

/-! ## Texts -/

theorem foldl_text (chunks : List (Chunk B)) : ∀ total : String,
    chunks.foldl (fun total chunk => total ++ chunk.text) total = total ++ contents chunks := by
  unfold contents
  induction chunks with
  | nil => exact fun total => (String.append_empty).symm
  | cons chunk chunks ih =>
    intro total
    rw [List.foldl_cons, ih, List.foldl_cons, ih ("" ++ chunk.text), String.empty_append, String.append_assoc]

theorem contents_append (chunks chunks' : List (Chunk B)) :
    contents (chunks ++ chunks') = contents chunks ++ contents chunks' := by
  rw [contents, List.foldl_append, foldl_text]
  rfl

theorem contents_next {drawn left : List (Chunk B)} {chunk : Chunk B} {text : String}
    (h : contents drawn ++ contents (chunk :: left) = text) :
    contents (drawn ++ [chunk]) ++ contents left = text := by
  rw [← h, ← contents_append, ← contents_append, List.append_assoc]
  rfl

theorem contents_last {drawn : List (Chunk B)} {text : String}
    (h : contents drawn ++ contents ([] : List (Chunk B)) = text) : contents drawn = text := by
  rwa [← contents_append, List.append_nil] at h

/-! ## Prompts -/

/-- A request for `p` with the arguments of the cache left out. -/
structure Chat (pre : Kwargs B → Except PyError (Content B)) (kwargs : Kwargs B) (p : String) : Prop where
  unset : ∀ k ∈ ["temperature", "session", "require_object_store", "search_only", "cache_context", "cache_skip",
    "cache_factor", "hit_callback"], kwargs.get? k = none
  key : pre (leftover kwargs) = .ok (.str p)

section

variable {pre : Kwargs B → Except PyError (Content B)} {kwargs : Kwargs B} {p : String}

theorem Chat.defaults (h : Chat pre kwargs p) : Defaults kwargs false := by
  constructor <;> simp [h.unset]

theorem Chat.hitCallback (h : Chat pre kwargs p) : (searched kwargs).get? "hit_callback" = none := by
  simp [searched, leftover, Dict.get?_erase, h.unset]

theorem Chat.searchOnly (h : Chat pre kwargs p) : kwargs.contains "search_only" = false := by
  simp [Dict.contains, h.unset]

theorem Chat.unique (h : Chat pre kwargs p) {q : String} (h' : Chat pre kwargs q) : p = q := by
  simpa [h.key] using h'.key

end

/-- A response with this text: what is read of it, or of the chunks of its stream. -/
inductive Tells (rt : Runtime B X) (objects : Objects B) (text : String) : Response B (MapCaches B X) → Prop where
  | plain {b : B} (hmessage : objects.message b = .ok (.str text)) (hchunks : objects.chunks b = none)
      (htruthy : rt.truthy b = true) : Tells rt objects text (.plain b)
  | iterator {chunks : List (Chunk B)} (hreadable : ∀ chunk ∈ chunks, chunk.Readable) (htext : contents chunks = text) :
      Tells rt objects text (.iterator (.iter chunks))
  | asyncGenerator {chunks : List (Chunk B)} (hreadable : ∀ chunk ∈ chunks, chunk.Readable)
      (htext : contents chunks = text) :
      Tells rt objects text (.asyncGenerator (.iter chunks))

/-- A model whose text for a request is that of its key; `sent` are the prompts it was sent so far. -/
def Model (rt : Runtime B X) (settings : Settings B (MapDataManager B (Content B)) X)
    (pre : Kwargs B → Except PyError (Content B)) (model : String → String) (sent : X → List String) : Prop :=
  ∀ e kwargs p x, Chat pre kwargs p → ∃ d x', settings.llmHandler e (searched kwargs) x = some (.ok (some d), x') ∧
    Tells rt settings.objects (model p) d ∧ sent x' = sent x ++ [p]

/-! ## One cache -/

section

variable [DecidableEq B] (rt : Runtime B X) {saved : String → Data B} {rest : Rest B X}
  {kwargs : Kwargs B} {s : MapCaches B X}
  {E : PyError → MapCaches B X → Prop} {ms : Nat → LruMap String String} {n place : Nat} {p a : String}
  {pre : Kwargs B → Except PyError (Content B)}

theorem ahitMessage_text (hs : HeldAs saved s ms rest) :
    Exec.wp (ahitMessage rt place (keyedCache rt pre n) (bareRequest false kwargs) (textKey p) [textAnswer saved p a])
      (fun found s' => found = some (.str a) ∧ HeldAs saved s' ms rest) E s := by
  have hreported := (hs.reported place .post fun _ => rfl).reported place .hintCache fun _ => rfl
  simpa [ahitMessage, postProcess, keyedCache, mapCache, temperatureSoftmax, bareRequest, textAnswer,
    arecordHit, answersDict, Content.toStr, MapDataManager.dataManager] using hreported

theorem asearchAnswers_text (s : MapCaches B X) :
    searchAnswers rt place (keyedCache rt pre n) (bareRequest false kwargs) (textKey p) s =
      asearchAnswers rt place (keyedCache rt pre n) (bareRequest false kwargs) (textKey p) s :=
  searchAnswers_same fun hcheck => absurd hcheck Bool.false_ne_true

/-- A call of `acreate` up to its search. -/
theorem alookUp_text {Q : LookUp B (Content B) (MapItem B (Content B)) → MapCaches B X → Prop} (h : Chat pre kwargs p)
    (hs : HeldAs saved s ms rest) (hsearch : ∀ s', HeldAs saved s' ms rest →
      Exec.wp (searchAnswers rt place (keyedCache rt pre n) (bareRequest false kwargs) (textKey p)) (fun found s'' =>
        Exec.wp (ahitMessage rt place (keyedCache rt pre n) (bareRequest false kwargs) (textKey p) found.1)
          (fun message => Q ⟨bareRequest false kwargs, textKey p, found.1, message, found.2⟩) E s'') E s') :
    Exec.wp (alookUp rt place (keyedCache rt pre n) kwargs) Q E s := by
  simp only [alookUp, Exec.wp_bind, Exec.wp_pure]
  have hpop : Exec.wp (popRequest rt (keyedCache rt pre n) kwargs)
      (fun r s' => r = bareRequest false kwargs ∧ s' = s) E s :=
    popRequest_defaults rt h.defaults
  refine Exec.wp_mono ((Exec.wp_congr (congrFun (popRequest_same h.searchOnly) s)).mp hpop) ?_ fun _ _ h => h
  rintro - s₁ ⟨rfl, rfl⟩
  refine Exec.wp_mono (embed_text rt h.key hs) ?_ fun _ _ h => h
  rintro - s₂ ⟨rfl, hs₂⟩
  exact (Exec.wp_congr (asearchAnswers_text rt s₂)).mp (hsearch s₂ hs₂)

theorem alookUp_hit (h : Chat pre kwargs p) (hs : HeldAs saved s ms rest) (hp : (ms place).entries.get? p = some a)
    (ha : MapDataManager.toAnswers (saved a) = .ok [⟨.str a, .STR⟩]) :
    Exec.wp (alookUp rt place (keyedCache rt pre n) kwargs)
      (fun l s' => l.message = some (.str a) ∧
        HeldAs saved s' (Function.update ms place ((ms place).get p).2) rest) E s := by
  refine alookUp_text rt h hs fun s₂ hs₂ => ?_
  refine Exec.wp_mono (searchAnswers_hit rt hs₂ hp ha) ?_ fun _ _ h => h
  rintro - s₃ ⟨rfl, hs₃⟩
  exact ahitMessage_text rt hs₃

theorem alookUp_miss (h : Chat pre kwargs p) (hs : HeldAs saved s ms rest) (hp : (ms place).entries.get? p = none) :
    Exec.wp (alookUp rt place (keyedCache rt pre n) kwargs)
      (fun l s' => l = ⟨bareRequest false kwargs, textKey p, [], none, searched kwargs⟩ ∧
        HeldAs saved s' ms rest) E s := by
  refine alookUp_text rt h hs fun s₂ hs₂ => ?_
  refine Exec.wp_mono (searchAnswers_miss rt hs₂ hp) ?_ fun _ _ h => h
  rintro - s₃ ⟨rfl, hs₃⟩
  exact ⟨rfl, hs₃⟩

end

/-! ## The stages of a call -/

abbrev ChatStage (B X : Type) := Stage B (Content B) (MapItem B (Content B)) (MapDataManager B (Content B)) X

abbrev ChatCall (B X : Type) := Call B (Content B) (MapItem B (Content B)) (MapDataManager B (Content B)) X

/-- The caller has all of the response. -/
def Stage.finished {E R D : Type} : Stage B E R D X → Bool
  | .returned _ | .ended _ => true
  | _ => false

section

variable [DecidableEq B] (rt : Runtime B X) (settings : Settings B (MapDataManager B (Content B)) X)
  (pre : Kwargs B → Except PyError (Content B)) (n : Nat)

/-- How the cache saves the text of a call for `p`. -/
def save (kwargs : Kwargs B) (p text : String) : Exec PyError (MapCaches B X) Unit :=
  updateCacheFunc 0 (keyedCache rt pre n) none (bareRequest false kwargs) (textKey p) (.str p) (answerAs text) none

/-- How many turns a call takes for a response once it is there. -/
def Response.turns : Response B (MapCaches B X) → Nat
  | .plain _ => 0
  | .iterator it | .asyncGenerator it => it.remaining.length + 1

/-- What is so of a call for `p`, whose text is `text`, with `m` turns to go; `served` says that one came to its end. -/
inductive Fits (p text : String) (served : Prop) : Nat → ChatStage B X → Prop where
  | awaiting {m : Nat} {l : LookUp B (Content B) (MapItem B (Content B))}
      {d : Response B (MapCaches B X)} {kwargs : Kwargs B}
      (hrequest : l.request = bareRequest false kwargs) (hkey : l.key = textKey p)
        (htells : Tells rt settings.objects text d)
      (hm : Response.turns d + 1 = m) : Fits p text served m (.awaiting l (some d))
  | returned {b : B} (hserved : served) (hmessage : settings.objects.message b = .ok (.str text)) :
      Fits p text served 0 (.returned (some b))
  /-- The chunks come from the cache. -/
  | replayed {drawn left : List (Chunk B)} (hserved : served) (htext : contents drawn ++ contents left = text) :
      Fits p text served (left.length + 1) (.streaming drawn (.iter left))
  /-- The chunks come from the model, and are saved in the end. -/
  | streamed {drawn rest : List (Chunk B)} {left : ChunkStream B (MapCaches B X)} {kwargs : Kwargs B}
      (hleft : left.Yields rest (save rt pre n kwargs p text)) (htext : contents drawn ++ contents rest = text) :
      Fits p text served (rest.length + 1) (.streaming drawn left)
  | ended {drawn : List (Chunk B)} (hserved : served) (htext : contents drawn = text) :
      Fits p text served 0 (.ended drawn)

variable {rt settings pre n} {p text : String} {served served' : Prop} {m : Nat} {stage : ChatStage B X}

theorem Fits.mono (h : Fits rt settings pre n p text served m stage) (himp : served → served') :
    Fits rt settings pre n p text served' m stage := by
  cases h with
  | awaiting hrequest hkey htells hm => exact .awaiting hrequest hkey htells hm
  | returned hserved hmessage => exact .returned (himp hserved) hmessage
  | replayed hserved htext => exact .replayed (himp hserved) htext
  | streamed hleft htext => exact .streamed hleft htext
  | ended hserved htext => exact .ended (himp hserved) htext

theorem Fits.served_of_finished (h : Fits rt settings pre n p text served m stage) (hfinished : stage.finished = true) :
    served := by
  cases h with
  | awaiting => cases hfinished
  | returned hserved => exact hserved
  | replayed => cases hfinished
  | streamed => cases hfinished
  | ended hserved => exact hserved

theorem Fits.finished (h : Fits rt settings pre n p text served 0 stage) : stage.finished = true := by
  cases h with
  | awaiting _ _ _ hm => omega
  | returned => rfl
  | ended => rfl

/-! ## One step -/

/-- What a step of a call for `p` leaves: the maps as they were, or with `p` put on top, where it was served before or
is now. -/
inductive Went (rt : Runtime B X) (settings : Settings B (MapDataManager B (Content B)) X)
    (pre : Kwargs B → Except PyError (Content B)) (n : Nat) (p text : String) (served : Prop)
    (ms : Nat → LruMap String String)
    (rest : Rest B X) (m : Nat) (stage : ChatStage B X) (s : MapCaches B X) : Prop where
  | kept (hs : HeldAs answerAs s ms rest) (h : Fits rt settings pre n p text served m stage)
  | put (hs : HeldAs answerAs s (Function.update ms 0 ((ms 0).put p text)) rest)
      (h : Fits rt settings pre n p text True m stage) (hserved : served ∨ stage.finished = true)

variable {rest : Rest B X} {kwargs : Kwargs B} {s : MapCaches B X} {E : PyError → MapCaches B X → Prop}
  {ms : Nat → LruMap String String}

theorem Went.outside (h : Went rt settings pre n p text served ms rest m stage s) : rest.outside = s.outside := by
  cases h with
  | kept hs => exact hs.outside
  | put hs => exact hs.outside

theorem save_text (hn : 0 < n) (hs : HeldAs answerAs s ms rest) : Exec.wp (save rt pre n kwargs p text)
    (fun _ s' => ∃ rest', rest'.outside = rest.outside ∧
      HeldAs answerAs s' (Function.update ms 0 ((ms 0).put p text)) rest') E s := by
  refine Exec.wp_mono (E := fun _ _ => False) (updateCacheFunc_text rt (by simp) hn hs) ?_ fun _ _ h => h.elim
  rintro - s' ⟨rest', hsaved, hs'⟩
  exact ⟨rest', hsaved.outside, hs'⟩

/-- An answer of the model: a stream comes back with a hook around it, any other response is saved. -/
theorem handBack_tells (served : Prop) {d : Response B (MapCaches B X)}
    {convert : Content B → Option (Response B (MapCaches B X))}
    {llmHandler : Kwargs B → Exec PyError X (Option (Response B (MapCaches B X)))} {e : EntryPoint}
    (step : Step B (Content B) (MapItem B (Content B)) (Data B) (MapDataManager B (Content B))) (hn : 0 < n)
    (hplace : step.place = 0) (hcache : step.cache = keyedCache rt pre n) (hnext : step.next = none)
    (hrequest : step.lookUp.request = bareRequest false kwargs) (hkey : step.lookUp.key = textKey p)
    (hs : HeldAs answerAs s ms rest) (hd : Tells rt settings.objects text d) :
    Exec.wp (e.handBack (chatCompletion rt llmHandler convert settings.objects.message) step (some d))
      (fun d' s' => ∃ rest', rest'.outside = rest.outside ∧
        Went rt settings pre n p text served ms rest' (Response.turns d) (received settings.objects d') s') E s := by
  have hsave : step.save (.answers (.answer ⟨.str text, .STR⟩)) = save rt pre n kwargs p text := by
    obtain ⟨place, cache, next, l, kw⟩ := step
    obtain ⟨r, k, answers, message, kw'⟩ := l
    subst hplace hcache hnext hrequest hkey
    rfl
  have hhook : ∀ {chunks : List (Chunk B)}, (∀ chunk ∈ chunks, chunk.Readable) → contents chunks = text →
      Fits rt settings pre n p text served (chunks.length + 1)
        (.streaming [] (hookOpenaiData step.save (.iter chunks))) := by
    intro chunks hreadable htext
    have hyields := hookOpenaiData_yields (step.save : Data B → Exec PyError (MapCaches B X) Unit) hreadable
    rw [Exec.pure_bind, savedAnswer, htext, hsave] at hyields
    have hsplit : contents ([] : List (Chunk B)) ++ contents chunks = text := by
      rw [htext]
      exact String.empty_append
    exact .streamed hyields hsplit
  have hnext' : e = .aadapt → step.next = none := fun _ => hnext
  have hkey' : step.lookUp.key.embeddingData = some (.str p) := by rw [hkey, textKey]
  cases hd with
  | plain hmessage hchunks htruthy =>
    rw [handBack_plain (fun _ => htruthy) hnext', hmessage]
    simp only [Exec.wp_bind, Exec.wp_catching, Exec.wp_pure, hsave]
    refine Exec.wp_mono (E := fun _ _ => False) (save_text hn hs) ?_ fun _ _ h => h.elim
    rintro - s' ⟨rest', houtside, hs'⟩
    simp only [received, hchunks]
    exact ⟨rest', houtside, .put hs' (.returned trivial hmessage) (.inr rfl)⟩
  | @iterator chunks hreadable htext =>
    have hstream : (.iterator (.iter chunks) : Response B (MapCaches B X)).stream = some (.iter chunks) := rfl
    rw [handBack_stream hstream hnext', hkey']
    exact ⟨rest, rfl, .kept hs (hhook hreadable htext)⟩
  | @asyncGenerator chunks hreadable htext =>
    have hstream : (.asyncGenerator (.iter chunks) : Response B (MapCaches B X)).stream = some (.iter chunks) := rfl
    rw [handBack_stream hstream hnext', hkey']
    exact ⟨rest, rfl, .kept hs (hhook hreadable htext)⟩

/-- A hit, on a text. -/
theorem received_convert (e : EntryPoint) (kwargs : Kwargs B) (hserved : served) :
    ∃ m, Fits rt settings pre n p text served m
      (received settings.objects (cacheDataConvert rt settings e kwargs (.str text))) := by
  have hsplit : ∀ created savedToken, contents ([] : List (Chunk B)) ++
      contents (constructStreamRespFromCache created text savedToken : List (Chunk B)) = text := by
    intro created savedToken
    rw [contents_constructStreamRespFromCache]
    exact String.empty_append
  unfold cacheDataConvert
  dsimp only
  split
  · cases e with
    | adapt =>
      simp only [received, settings.objects.chunks_streamResponse]
      exact ⟨_, .replayed hserved (hsplit _ _)⟩
    | aadapt => exact ⟨_, .replayed hserved (hsplit _ _)⟩
  · simp only [received, settings.objects.chunks_response]
    exact ⟨_, .returned hserved (settings.objects.message_response _)⟩

variable {model : String → String} {sent : X → List String}

/-- The cache answers, and the prompt becomes its most recent. -/
theorem start_hit (h : Chat pre (fillBaseArgs settings.cacheArgs kwargs) p) (hs : HeldAs answerAs s ms rest)
    (ha : (ms 0).entries.get? p = some text) (e : EntryPoint) :
    Exec.wp (start rt settings 0 (keyedCache rt pre n) [] kwargs e) (fun stage s' =>
      HeldAs answerAs s' (Function.update ms 0 ((ms 0).put p text)) rest ∧
        ∃ m, Fits rt settings pre n p text True m stage) E s := by
  have hconvert : ∀ e, ∃ m, Fits rt settings pre n p text True m
      (received settings.objects (cacheDataConvert rt settings e
      (fillBaseArgs settings.cacheArgs kwargs) (.str text))) := fun e => received_convert e _ trivial
  rw [← LruMap.get_eq_put ha]
  cases e with
  | adapt =>
    simp only [start, create, adapt, Exec.wp_bind, Exec.wp_pure]
    refine adaptLevel_text rt h.defaults h.key hs fun s₂ hs₂ => ?_
    simp only [respond, Exec.wp_bind]
    refine Exec.wp_mono (searchAnswers_hit rt hs₂ ha rfl) ?_ fun _ _ h => h
    rintro - s₃ ⟨rfl, hs₃⟩
    refine Exec.wp_mono (hitMessage_text rt hs₃ h.hitCallback) ?_ fun _ _ h => h
    rintro ⟨_, kwargs'⟩ s₄ ⟨rfl, hs₄⟩
    exact ⟨hs₄, hconvert .adapt⟩
  | aadapt =>
    simp only [start, Exec.wp_bind]
    refine Exec.wp_mono (alookUp_hit rt h hs ha rfl) ?_ fun _ _ h => h
    rintro l s₂ ⟨hmessage, hs₂⟩
    rw [hmessage]
    exact ⟨hs₂, hconvert .aadapt⟩

variable {model : String → String} {sent : X → List String}

/-- The model is asked. `create` waits for it, and saves what is not a stream. -/
theorem start_miss (hmodel : Model rt settings pre model sent) (hn : 0 < n)
    (h : Chat pre (fillBaseArgs settings.cacheArgs kwargs) p) (hs : HeldAs answerAs s ms rest)
    (ha : (ms 0).entries.get? p = none) (served : Prop) (e : EntryPoint) :
    Exec.wp (start rt settings 0 (keyedCache rt pre n) [] kwargs e) (fun stage s' => ∃ rest' m,
      sent rest'.outside = sent rest.outside ++ [p] ∧
        Went rt settings pre n p (model p) served ms rest' m stage s') E s := by
  cases e with
  | adapt =>
    simp only [start, create, adapt, Exec.wp_bind, Exec.wp_pure]
    refine adaptLevel_text rt h.defaults h.key hs fun s₂ hs₂ => ?_
    simp only [respond, Exec.wp_bind]
    refine Exec.wp_mono (searchAnswers_miss rt hs₂ ha) ?_ fun _ _ h => h
    rintro - s₃ ⟨rfl, hs₃⟩
    obtain ⟨d, x', hcall, htells, hx⟩ := hmodel .adapt _ p s₃.outside h
    have hcall' : (callbacks rt settings .adapt (fillBaseArgs settings.cacheArgs kwargs)).toCallbacks.llmHandler
        (searched (fillBaseArgs settings.cacheArgs kwargs)) s₃.outside = some (.ok (some d), x') := hcall
    simp only [hitMessage, Exec.wp_pure, Exec.wp_bind, askBelow, Option.map_none,
      show (bareRequest false (fillBaseArgs settings.cacheArgs kwargs)).searchOnly = .bool false from rfl, Arg.truthy,
      Bool.false_eq_true, if_false, Caches.wp_timeCal, Caches.wp_onOutside, Exec.wp_of_ok hcall']
    have hasked := (hs₃.withOutside x').reported 0 .llm fun _ => rfl
    let step : Step B (Content B) (MapItem B (Content B)) (Data B) (MapDataManager B (Content B)) :=
      ⟨0, keyedCache rt pre n, none, ⟨bareRequest false (fillBaseArgs settings.cacheArgs kwargs), textKey p, [], none,
        searched (fillBaseArgs settings.cacheArgs kwargs)⟩, searched (fillBaseArgs settings.cacheArgs kwargs)⟩
    rw [← hs₃.outside] at hx
    refine Exec.wp_mono (E := E) (handBack_tells (e := .adapt) served step hn rfl rfl rfl rfl rfl hasked htells) ?_
      fun _ _ h => h
    rintro d' s₄ ⟨rest', houtside, hwent⟩
    exact ⟨rest', _, houtside ▸ hx, hwent⟩
  | aadapt =>
    simp only [start, Exec.wp_bind]
    refine Exec.wp_mono (alookUp_miss rt h hs ha) ?_ fun _ _ h => h
    rintro l s₂ ⟨rfl, hs₂⟩
    obtain ⟨d, x', hcall, htells, hx⟩ := hmodel .aadapt _ p s₂.outside h
    simp only [Caches.wp_onOutside, Exec.wp_bind, Exec.wp_pure, Exec.wp_of_ok hcall]
    rw [← hs₂.outside] at hx
    exact ⟨_, _, hx, .kept (hs₂.withOutside x') (.awaiting rfl rfl htells rfl)⟩

/-- What the model was sent after a call for `p`. -/
def sentBy (p : String) (m : LruMap String String) (prompts : List String) : List String :=
  prompts ++ if m.entries.contains p then [] else [p]

/-- **A call is made.** -/
theorem start_went (hmodel : Model rt settings pre model sent) (hn : 0 < n)
    (h : Chat pre (fillBaseArgs settings.cacheArgs kwargs) p) (hs : HeldAs answerAs s ms rest)
    (htrue : (ms 0).Truthful model) (hserved : (ms 0).entries.contains p = true → served) (e : EntryPoint) :
    Exec.wp (start rt settings 0 (keyedCache rt pre n) [] kwargs e) (fun stage s' => ∃ rest' m,
      sent rest'.outside = sentBy p (ms 0) (sent rest.outside) ∧
        Went rt settings pre n p (model p) served ms rest' m stage s') E s := by
  unfold sentBy
  cases hp : (ms 0).entries.contains p with
  | true =>
    obtain ⟨a, ha⟩ := Dict.contains_eq_true.mp hp
    obtain rfl : a = model p := htrue p a ha
    refine Exec.wp_mono (start_hit h hs ha e) ?_ fun _ _ h => h
    rintro stage s' ⟨hs', m, hfits⟩
    exact ⟨rest, m, by simp, .put hs' hfits (.inl (hserved hp))⟩
  | false => exact start_miss hmodel hn h hs (Dict.contains_eq_false.mp hp) served e

/-- **A call gets its turn.** -/
theorem resume_went (hn : 0 < n) (hs : HeldAs answerAs s ms rest) (h : Fits rt settings pre n p text served m stage)
    (kwargs : Kwargs B) : Exec.wp (resume rt settings 0 (keyedCache rt pre n) kwargs stage) (fun stage' s' => ∃ rest',
      rest'.outside = rest.outside ∧ Went rt settings pre n p text served ms rest' (m - 1) stage' s') E s := by
  cases h with
  | @awaiting _ l d kwargs' hrequest hkey htells hm =>
    subst hm
    simp only [resume, Exec.wp_bind, Exec.wp_pure]
    let step : Step B (Content B) (MapItem B (Content B)) (Data B) (MapDataManager B (Content B)) :=
      ⟨0, keyedCache rt pre n, none, l, l.kwargs⟩
    exact handBack_tells (e := .aadapt) served step hn rfl rfl rfl hrequest hkey hs htells
  | returned hserved hmessage => exact ⟨rest, rfl, .kept hs (.returned hserved hmessage)⟩
  | @replayed drawn left hserved htext =>
    cases left with
    | nil => exact ⟨rest, rfl, .kept hs (.ended hserved (contents_last htext))⟩
    | cons chunk left => exact ⟨rest, rfl, .kept hs (.replayed hserved (contents_next htext))⟩
  | @streamed drawn chunks left kwargs' hleft htext =>
    cases hleft with
    | nil hnext _ =>
      simp only [resume, hnext, Exec.wp_bind, Exec.wp_pure]
      refine Exec.wp_mono (E := fun _ _ => False) (save_text hn hs) ?_ fun _ _ h => h.elim
      rintro - s' ⟨rest', houtside, hs'⟩
      exact ⟨rest', houtside, .put hs' (.ended trivial (contents_last htext)) (.inr rfl)⟩
    | cons hnext hleft =>
      simp only [resume, hnext, Exec.wp_bind, Exec.wp_pure]
      exact ⟨rest, rfl, .kept hs (.streamed hleft (contents_next htext))⟩
  | ended hserved htext => exact ⟨rest, rfl, .kept hs (.ended hserved htext)⟩

end

/-! ## All calls -/

section

variable [DecidableEq B] (rt : Runtime B X) (settings : Settings B (MapDataManager B (Content B)) X)
  (pre : Kwargs B → Except PyError (Content B)) (n : Nat)

/-- The call is one for `p`. -/
def Call.For (call : ChatCall B X) (p : String) : Prop := Chat pre (fillBaseArgs settings.cacheArgs call.kwargs) p

/-- A call for `p` came to its end. -/
def Served (calls : List (ChatCall B X)) (p : String) : Prop :=
  ∃ call ∈ calls, call.For settings pre p ∧ call.stage.finished = true

/-- A call keeps its arguments, and stays where it ended. -/
structure GoesOn (call call' : ChatCall B X) : Prop where
  kwargs : call'.kwargs = call.kwargs
  stage : call.stage.finished = true → call'.stage = call.stage

/-- A cache of this size has room for all these prompts. -/
def Room (size : Nat) (all : Set String) : Prop := ∃ ps : List String, ps.length ≤ size ∧ ∀ p ∈ all, p ∈ ps

/-- The cache holds texts of the model for prompts that were served; all of these, if there is room. -/
structure Holding (model : String → String) (size : Nat) (all : Set String) (s : MapCaches B X)
    (calls : List (ChatCall B X)) (ms : Nat → LruMap String String) (rest : Rest B X) : Prop where
  held : HeldAs answerAs s ms rest
  truthful : (ms 0).Truthful model
  capacity : (ms 0).capacity = size
  known : ∀ p, (ms 0).entries.contains p = true → p ∈ all
  served : ∀ p, (ms 0).entries.contains p = true → Served settings pre calls p
  complete : Room size all → ∀ p, Served settings pre calls p → (ms 0).entries.contains p = true

/-- What is so of a call that has `m` turns to go. -/
def Sound (model : String → String) (all : Set String) (m : Nat) (calls : List (ChatCall B X))
    (call : ChatCall B X) : Prop :=
  ∃ p ∈ all, call.For settings pre p ∧ Fits rt settings pre n p (model p) (Served settings pre calls p) m call.stage

variable {rt settings pre n} {p : String} {calls calls' : List (ChatCall B X)} {model : String → String}
  {sent : X → List String} {size : Nat} {all : Set String} {s s' : MapCaches B X} {ms : Nat → LruMap String String}
  {rest rest' : Rest B X} {m : Nat} {stage : ChatStage B X}

omit [DecidableEq B] in
theorem goesOn_refl (call : ChatCall B X) : GoesOn call call := ⟨rfl, fun _ => rfl⟩

omit [DecidableEq B] in
theorem Served.grows (hgrows : Pool.Grows GoesOn calls calls') (h : Served settings pre calls p) :
    Served settings pre calls' p := by
  obtain ⟨call, hmem, hfor, hfinished⟩ := h
  obtain ⟨call', hmem', hgoes⟩ := hgrows.mem hmem
  refine ⟨call', hmem', ?_, by rwa [hgoes.stage hfinished]⟩
  rwa [Call.For, hgoes.kwargs]

/-- **One step of one call**, for the cache: `calls'` are the calls after it. -/
theorem Holding.went (h : Holding settings pre model size all s calls ms rest) (hp : p ∈ all)
    (hwent : Went rt settings pre n p (model p) (Served settings pre calls p) ms rest' m stage s')
    (hgrows : Pool.Grows GoesOn calls calls')
    (hothers : ∀ q, Served settings pre calls' q → Served settings pre calls q ∨ q = p ∧ stage.finished = true)
    (hthis : stage.finished = true → Served settings pre calls' p) :
    (∃ ms', Holding settings pre model size all s' calls' ms' rest') ∧
      Fits rt settings pre n p (model p) (Served settings pre calls' p) m stage := by
  cases hwent with
  | kept hs hfits =>
    refine ⟨⟨ms, hs, h.truthful, h.capacity, h.known, fun q hq => (h.served q hq).grows hgrows, fun hroom q hq => ?_⟩,
      hfits.mono (Served.grows hgrows)⟩
    rcases hothers q hq with hq | ⟨rfl, hfinished⟩
    · exact h.complete hroom q hq
    · exact h.complete hroom q (hfits.served_of_finished hfinished)
  | put hs hfits hserved =>
    have hp' : Served settings pre calls' p := hserved.elim (Served.grows hgrows) hthis
    refine ⟨⟨_, hs, ?_, ?_, ?_, ?_, ?_⟩, hfits.mono fun _ => hp'⟩
    · rw [Function.update_self]
      exact h.truthful.put p
    · rw [Function.update_self, LruMap.put_capacity, h.capacity]
    · intro q hq
      rw [Function.update_self] at hq
      rcases LruMap.contains_put hq with rfl | hq
      · exact hp
      · exact h.known q hq
    · intro q hq
      rw [Function.update_self] at hq
      rcases LruMap.contains_put hq with rfl | hq
      · exact hp'
      · exact (h.served q hq).grows hgrows
    · intro hroom q hq
      obtain ⟨ps, hlength, hps⟩ := hroom
      have hplace := LruMap.room_of_all (h.capacity ▸ hlength) (fun q hq => hps q (h.known q hq)) (hps p hp)
      rw [Function.update_self, LruMap.contains_put_of_room hplace]
      rcases hothers q hq with hq | ⟨rfl, -⟩
      · exact .inr (h.complete ⟨ps, hlength, hps⟩ q hq)
      · exact .inl rfl

/-- A call that came to its end has no more turns. -/
theorem settle_resume_finished (h : stage.finished = true) (kwargs : Kwargs B) :
    settle (resume rt settings 0 (keyedCache rt pre n) kwargs stage) s = (stage, s) := by
  cases stage with
  | returned r => rfl
  | ended drawn => rfl
  | awaiting l d => cases h
  | streaming drawn left => cases h
  | raised e => cases h
  | running => cases h

/-- The calls of a cache that flushes after every `n` saves. -/
abbrev chats (rt : Runtime B X) (settings : Settings B (MapDataManager B (Content B)) X)
    (pre : Kwargs B → Except PyError (Content B)) (n : Nat) :
    Pool.Program (MapCaches B X) (ChatCall B X) (EntryPoint × Kwargs B) :=
  program rt settings 0 (keyedCache rt pre n) []

/-- What the steps keep, whichever call takes them. -/
theorem chats_rule (hmodel : Model rt settings pre model sent) (hn : 0 < n) :
    Pool.Rule (chats rt settings pre n) GoesOn (fun a => ∃ p ∈ all, Chat pre (fillBaseArgs settings.cacheArgs a.2) p)
      (fun s calls => ∃ ms rest, Holding settings pre model size all s calls ms rest)
      (Sound rt settings pre n model all) where
  refl := goesOn_refl
  stable m calls calls' call hgrows h := by
    obtain ⟨p, hp, hfor, hfits⟩ := h
    exact ⟨p, hp, hfor, hfits.mono (Served.grows hgrows)⟩
  start a s calls ha h := by
    obtain ⟨e, kwargs⟩ := a
    obtain ⟨p, hp, hchat⟩ := ha
    obtain ⟨ms, rest, h⟩ := h
    obtain ⟨rest', m, -, hwent⟩ := settle_of_wp (start_went hmodel hn hchat h.held h.truthful (h.served p) e)
    let call : ChatCall B X := ((chats rt settings pre n).start (e, kwargs) s).1
    have hfor : call.For settings pre p := hchat
    have hlast : call ∈ calls ++ [call] := List.mem_append_right _ List.mem_cons_self
    have hothers : ∀ q, Served settings pre (calls ++ [call]) q → Served settings pre calls q ∨
        q = p ∧ call.stage.finished = true := by
      rintro q ⟨call', hmem, hfor', hfinished⟩
      rcases List.mem_append.mp hmem with hmem | hmem
      · exact .inl ⟨call', hmem, hfor', hfinished⟩
      · obtain rfl := List.mem_singleton.mp hmem
        exact .inr ⟨Chat.unique hfor' hfor, hfinished⟩
    obtain ⟨⟨ms', hholding⟩, hfits⟩ := h.went hp hwent (Pool.grows_append goesOn_refl calls call) hothers
      fun hfinished => ⟨call, hlast, hfor, hfinished⟩
    exact ⟨⟨ms', rest', hholding⟩, m, p, hp, hfor, hfits⟩
  next i m call s calls hi h hsound := by
    obtain ⟨ms, rest, h⟩ := h
    obtain ⟨p, hp, hfor, hfits⟩ := hsound
    obtain ⟨rest', -, hwent⟩ := settle_of_wp (resume_went hn h.held hfits call.kwargs)
    let call' : ChatCall B X := ((chats rt settings pre n).next call s).1
    have hgoes : GoesOn call call' :=
      ⟨rfl, fun hfinished => congrArg Prod.fst (settle_resume_finished hfinished call.kwargs)⟩
    have hfor' : call'.For settings pre p := hfor
    have hmem : call' ∈ calls.set i call' := List.mem_set (List.getElem?_eq_some_iff.mp hi).1 _
    have hothers : ∀ q, Served settings pre (calls.set i call') q → Served settings pre calls q ∨
        q = p ∧ call'.stage.finished = true := by
      rintro q ⟨other, hmem, hother, hfinished⟩
      rcases List.mem_or_eq_of_mem_set hmem with hmem | rfl
      · exact .inl ⟨other, hmem, hother, hfinished⟩
      · exact .inr ⟨Chat.unique hother hfor', hfinished⟩
    obtain ⟨⟨ms', hholding⟩, hfits'⟩ := h.went hp hwent (Pool.grows_set goesOn_refl hi hgoes) hothers
      fun hfinished => ⟨call', hmem, hfor', hfinished⟩
    exact ⟨hgoes, ⟨ms', rest', hholding⟩, p, hp, hfor', hfits'⟩

/-- What its caller has of a call whose text is `text`: never another text, and no exception. -/
def Agrees (objects : Objects B) (text : String) : ChatStage B X → Prop
  | .awaiting .. => True
  | .returned r => ∃ b, r = some b ∧ objects.message b = .ok (.str text)
  | .streaming drawn _ => ∃ rest, contents drawn ++ rest = text
  | .ended drawn => contents drawn = text
  | .raised _ | .running => False

theorem Fits.agrees {text : String} {served : Prop} (h : Fits rt settings pre n p text served m stage) :
    Agrees settings.objects text stage := by
  cases h with
  | awaiting => trivial
  | returned _ hmessage => exact ⟨_, rfl, hmessage⟩
  | replayed _ htext => exact ⟨_, htext⟩
  | streamed _ htext => exact ⟨_, htext⟩
  | ended _ htext => exact htext

/-- No call was made yet, on a cache that is new. -/
def noCalls (size : Nat) (path : Nat → String) (permitted : Nat → Bool) (outside : X) :
    Pool (MapCaches B X) (ChatCall B X) :=
  ⟨fresh (fun _ => size) path permitted outside, []⟩

theorem noCalls_keeps (hsize : 0 < size) (path : Nat → String) (permitted : Nat → Bool) (outside : X) :
    Pool.Keeps (fun s calls => ∃ ms rest, Holding settings pre model size all s calls ms rest)
      (Sound rt settings pre n model all) (noCalls size path permitted outside) := by
  refine ⟨⟨_, _, heldAs_fresh (fun _ => size) (fun _ => hsize) path permitted outside,
    LruMap.truthful_empty hsize, rfl, ?_, ?_, ?_⟩, fun _ h => by cases h⟩
  · intro p h
    cases h
  · intro p h
    cases h
  · rintro - p ⟨_, h, -⟩
    cases h

/-- The calls that are made are for some of these prompts. -/
def CallsFor (settings : Settings B (MapDataManager B (Content B)) X) (pre : Kwargs B → Except PyError (Content B))
    (all : Set String) (moves : List (Pool.Move (EntryPoint × Kwargs B))) : Prop :=
  ∀ a, Pool.Move.call a ∈ moves → ∃ p ∈ all, Chat pre (fillBaseArgs settings.cacheArgs a.2) p

theorem run_keeps (hmodel : Model rt settings pre model sent) (hn : 0 < n) (hsize : 0 < size) (path : Nat → String)
    (permitted : Nat → Bool) (outside : X) {moves : List (Pool.Move (EntryPoint × Kwargs B))}
    (hmoves : CallsFor settings pre all moves) :
    Pool.Keeps (fun s calls => ∃ ms rest, Holding settings pre model size all s calls ms rest)
      (Sound rt settings pre n model all)
      (Pool.run (chats rt settings pre n) (noCalls size path permitted outside) moves) :=
  Pool.run_keeps (chats_rule hmodel hn) moves hmoves (noCalls_keeps hsize path permitted outside)

end

/-! ## A model that answers in two chunks -/

/-- Lists of chunks, responses, and lists of messages, by their contents. -/
inductive Value where
  | stream (created : Int) (text : String) (savedToken : List Nat)
  | text (s : String)
  | wrapped (v : Value)
  | messages (contents : List String)
  deriving DecidableEq

def valueObjects : Objects Value where
  streamResponse := .stream
  chunks
    | .stream created text savedToken => some (constructStreamRespFromCache created text savedToken)
    | _ => none
  response r :=
    match r.content with
    | .str s => .text s
    | .other v => .wrapped v
  replay _ v _ := v
  message
    | .text s => .ok (.str s)
    | .wrapped v => .ok (.other v)
    | _ => .error ⟨.TypeError, ""⟩
  messages
    | .messages contents => some (contents.map (Dict.empty.set "content"))
    | _ => none
  chunks_streamResponse _ _ _ := rfl
  chunks_response r := by cases r.content <;> rfl
  message_response r := by cases r.content <;> rfl

def valueRuntime : Runtime Value (List String) where
  truthy _ := true
  str _ := ""
  len _ := .error ⟨.TypeError, ""⟩
  box _ := .messages []
  draw _ := pure 0
  summarize text _ := pure text
  callback _ := none

def valueChunk (text : String) : Chunk Value := { choices := [{ delta := { content := .str text } }], created := 0 }

/-- The last message and a mark, in two chunks. -/
def valueSettings : Settings Value (MapDataManager Value (Content Value)) (List String) where
  objects := valueObjects
  cacheArgs := .empty
  llmHandler e kwargs := fun prompts =>
    match lastContent valueObjects kwargs with
    | .ok (.str q) =>
      let it : ChunkStream Value _ := .iter [valueChunk q, valueChunk "!"]
      some (.ok (some (match e with | .adapt => .iterator it | .aadapt => .asyncGenerator it)), prompts ++ [q])
    | _ => some (.ok none, prompts)
  enableTokenCounter := true
  tokenCounter := String.length
  now := 0

theorem value_model : Model valueRuntime valueSettings (lastContent valueObjects) (fun q => q ++ "!")
    (fun prompts => prompts) := by
  intro e kwargs p x h
  have hkey : lastContent valueObjects (searched kwargs) = .ok (.str p) := by
    have hsame : (searched kwargs).get? "messages" = (leftover kwargs).get? "messages" := by
      simp [searched, Dict.get?_erase]
    rw [← h.key, lastContent, getMessages, hsame]
    rfl
  have hreadable : ∀ chunk ∈ [valueChunk p, valueChunk "!"], chunk.Readable := by
    simp [valueChunk, Chunk.Readable, Chunk.IsNull, getStreamMessageFromOpenaiAnswer]
  have htext : contents [valueChunk p, valueChunk "!"] = p ++ "!" := by
    simp [contents, Chunk.text, valueChunk, getStreamMessageFromOpenaiAnswer]
  simp only [valueSettings, hkey]
  cases e with
  | adapt => exact ⟨_, _, rfl, .iterator hreadable htext, rfl⟩
  | aadapt => exact ⟨_, _, rfl, .asyncGenerator hreadable htext, rfl⟩

/-- A streamed request with one message. -/
def streamed (q : String) : Kwargs Value :=
  (Dict.empty.set "messages" (.other (.messages [q]))).set "stream" (.bool true)

theorem streamed_chat (q : String) :
    Chat (lastContent valueObjects) (fillBaseArgs valueSettings.cacheArgs (streamed q)) q := by
  constructor
  · simp [streamed, valueSettings, Dict.get?_set]
  · have hmessages : (leftover (streamed q)).get? "messages" = some (.other (.messages [q])) := by
      simp [leftover, streamed, Dict.get?_erase, Dict.get?_set]
    show lastContent valueObjects (leftover (streamed q)) = .ok (.str q)
    rw [lastContent, getMessages, hmessages]
    rfl

/-- Two calls for `p` that take turns; the first comes to its end, the other does not. -/
def twoCalls : List (Pool.Move (EntryPoint × Kwargs Value)) :=
  [.call (.adapt, streamed "p"), .call (.aadapt, streamed "p"), .go 0, .go 1, .go 0, .go 0, .go 1]

theorem callsFor_streamed {all : Set String} {moves : List (Pool.Move (EntryPoint × Kwargs Value))}
    (h : ∀ a, Pool.Move.call a ∈ moves → ∃ p ∈ all, a.2 = streamed p) :
    CallsFor valueSettings (lastContent valueObjects) all moves := by
  intro a ha
  obtain ⟨p, hp, hstreamed⟩ := h a ha
  exact ⟨p, hp, hstreamed ▸ streamed_chat p⟩

theorem callsFor_two {all : Set String} (hp : "p" ∈ all) :
    CallsFor valueSettings (lastContent valueObjects) all twoCalls := by
  refine callsFor_streamed fun a ha => ⟨"p", hp, ?_⟩
  simp only [twoCalls, List.mem_cons, Pool.Move.call.injEq, reduceCtorEq, or_false, List.not_mem_nil] at ha
  rcases ha with rfl | rfl <;> rfl

/-- These calls, on a cache with one place. -/
def twoPool (moves : List (Pool.Move (EntryPoint × Kwargs Value))) :
    Pool (MapCaches Value (List String)) (ChatCall Value (List String)) :=
  Pool.run (chats valueRuntime valueSettings (lastContent valueObjects) 20)
    (noCalls 1 (fun _ => "data_map.txt") (fun _ => true) []) moves

/-! ## In every order -/

section

variable [DecidableEq B] {rt : Runtime B X} {settings : Settings B (MapDataManager B (Content B)) X}
  {pre : Kwargs B → Except PyError (Content B)} {n size : Nat} {model : String → String} {sent : X → List String}

end

end GptCache.ChatCompletion
