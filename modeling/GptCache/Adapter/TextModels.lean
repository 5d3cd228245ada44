/-
Models that answer with a text, behind caches with `ExactMatchEvaluation`.

`textModel` is what the adapters of such models have in common: the text of an
answer is saved, and an answer is made of a saved text. If the model answers
each prompt always with the same text, nobody can tell from the texts that
there are caches: whatever was asked before (by requests that do not give the
threshold up, `Asks`), whatever the searches return, whatever is evicted and
whatever calls of the stores fail, the text of an answer is the model's
(`sql_transparent`, `map_transparent`).
-/
import GptCache.Adapter.Honest
import GptCache.Adapter.SessionRun
import GptCache.Manager.Genuine

namespace GptCache

open Caches (onData onOutside onReport timeCal dataAt)
open Exec (Within Ensures Carries)

variable {B E S R D X L σ α : Type}

/-! ## The adapters -/

/-- `message` is the text of an answer, `construct` an answer made of a saved text. -/
def textModel (llmHandler : Kwargs B → Exec PyError X (Option L)) (message : L → Except PyError (Content B))
    (construct : Content B → L) (falsy : L → Bool) : Callbacks B (Data B) D X L where
  llmHandler := llmHandler
  cacheDataConvert cacheData := some (construct cacheData)
  updateCacheCallback llmData updateCacheFunc _ := do
    let text ← Exec.ofExcept (message llmData)
    updateCacheFunc (.answers (.answer ⟨text, .STR⟩)) none
    pure (some llmData)
  falsy := falsy

structure TextChoice (B : Type) where
  text : Content B
  finishReason : Option String := none
  index : Nat := 0

structure Usage where
  completionTokens : Nat := 0
  promptTokens : Nat := 0
  totalTokens : Nat := 0

/-- The dictionary a completion is. -/
structure TextCompletion (B : Type) where
  gptcache : Bool := false
  choices : List (TextChoice B)
  created : Int
  usage : Usage := {}
  object : String

namespace Completion

/-- `get_text_from_openai_answer` (gptcache/utils/response.py). -/
def getTextFromOpenaiAnswer (openaiResp : TextCompletion B) : Except PyError (Content B) :=
  match openaiResp.choices with
  | [] => .error ⟨.IndexError, "list index out of range"⟩
  | choice :: _ => .ok choice.text

/-- `_construct_text_from_cache`, at the time `created`. -/
def constructTextFromCache (created : Int) (returnText : Content B) : TextCompletion B where
  gptcache := true
  choices := [{ text := returnText, finishReason := some "stop" }]
  created := created
  object := "text_completion"

theorem getText_construct (created : Int) (m : Content B) :
    getTextFromOpenaiAnswer (constructTextFromCache created m) = .ok m := rfl

/-- `Completion` (gptcache/adapter/openai.py). -/
def callbacks (created : Int) (llmHandler : Kwargs B → Exec PyError X (Option (TextCompletion B))) :
    Callbacks B (Data B) D X (TextCompletion B) :=
  textModel llmHandler getTextFromOpenaiAnswer (constructTextFromCache created) fun _ => false

end Completion

/-! ## A model with one text for each question -/

/-- The answer with the text `model q` is the answer to `q`. -/
def oneText (message : L → Except PyError (Content B)) (model : String → String) : Answering B (Data B) L where
  stored q a := a = .str (model q)
  handed q data := data = .answers (.answer ⟨.str (model q), .STR⟩)
  given q d := message d = .ok (.str (model q))

/-- What is read out of an answer made of a text is the text. -/
theorem textModel_faithful {llmHandler : Kwargs B → Exec PyError X (Option L)}
    {message : L → Except PyError (Content B)}
    {construct : Content B → L} (hconstruct : ∀ m, message (construct m) = .ok m) (falsy : L → Bool)
    {model : String → String} {key : Kwargs B → Content B} (hmodel : ∀ q kwargs x x' d, key kwargs = .str q →
      llmHandler kwargs x = some (.ok (some d), x') → message d = .ok (.str (model q))) :
    (textModel llmHandler message construct falsy : Callbacks B (Data B) D X L).Faithful
    (oneText message model) key where
  llmHandler := hmodel
  cacheDataConvert q m d hm hd := by
    rw [← Option.some.inj hd]
    exact (hconstruct m).trans (congrArg _ hm)
  updateCacheCallback J q d save kwargs hd hsave := by
    have htext : message d = .ok (.str (model q)) := hd
    simp only [textModel, htext, Exec.ofExcept_ok, Exec.pure_bind]
    exact (Ensures.of_carries (hsave _ _ rfl)).bind fun _ _ => .pure fun d' hd' => Option.some.inj hd' ▸ hd

theorem isKey_getPrompt (rt : Runtime B X) : IsKey (getPrompt rt) := by
  intro kwargs kwargs' h
  have hprompt : "prompt" ∉ controlKeys := by decide +kernel
  rw [getPrompt, getPrompt, ← Dict.get?_without kwargs' hprompt, h, Dict.get?_without kwargs hprompt]

/-! ## Runs -/

/-- Requests for answers to questions leave honest caches honest. -/
theorem runRequests_allHold [DecidableEq B] [DecidableEq E] {H : Type} {fits : Answering B H L}
    {key : Kwargs B → Content B}
    (hkey : IsKey key) {I : D → Prop} {F : R → Prop} {rt : Runtime B X} {callbacks : Callbacks B H D X L}
    (hcallbacks : callbacks.Faithful fits key) {c : Core.Cache B E R H D} {nexts : List (Core.Cache B E R H D)}
    (hcaches : ∀ c' ∈ c :: nexts, Honest fits key I F c') : ∀ {requests : List (Kwargs B)} {s : Caches D X},
      (∀ kwargs ∈ requests, ∃ q, Asks key q kwargs) → AllHold I s →
      AllHold I (runRequests rt callbacks c nexts s requests)
  | [], _, _, hs => hs
  | kwargs :: requests, s, hrequests, hs => by
    obtain ⟨⟨q, hasks⟩, hrequests⟩ := List.forall_mem_cons.mp hrequests
    rw [runRequests_cons]
    refine runRequests_allHold hkey hcallbacks hcaches hrequests ?_
    exact (adapt_ensures hkey hcallbacks nexts hcaches hasks).within.after s hs

/-- Whatever honest caches were asked before, a text is the model's. -/
theorem textModel_text [DecidableEq B] [DecidableEq E] {rt : Runtime B X}
    {key : Kwargs B → Content B} (hkey : IsKey key)
    {I : D → Prop} {F : R → Prop} {llmHandler : Kwargs B → Exec PyError X (Option L)}
    {message : L → Except PyError (Content B)}
    {construct : Content B → L} (hconstruct : ∀ m, message (construct m) = .ok m) {falsy : L → Bool}
    {model : String → String} (hmodel : ∀ q kwargs x x' d, key kwargs = .str q →
      llmHandler kwargs x = some (.ok (some d), x') → message d = .ok (.str (model q)))
    {c : Core.Cache B E R (Data B) D} {nexts : List (Core.Cache B E R (Data B) D)}
    (hcaches : ∀ c' ∈ c :: nexts, Honest (oneText message model) key I F c') {s : Caches D X} (hs : AllHold I s)
    {before : List (Kwargs B)} (hbefore : ∀ kwargs ∈ before, ∃ q, Asks key q kwargs) {q : String} {kwargs : Kwargs B}
    (hasks : Asks key q kwargs) {d : L} {s' : Caches D X}
    (h : adapt rt (textModel llmHandler message construct falsy) 0 c nexts kwargs
      (runRequests rt (textModel llmHandler message construct falsy) c nexts s before) = some (.ok (some d), s')) :
    message d = .ok (.str (model q)) := by
  have hcallbacks := textModel_faithful (D := D) hconstruct falsy hmodel
  have hrun : AllHold I (runRequests rt (textModel llmHandler message construct falsy) c nexts s before) :=
    runRequests_allHold hkey hcallbacks hcaches hbefore hs
  exact (adapt_ensures hkey hcallbacks nexts hcaches hasks _ _ _ hrun h).2 _ rfl d rfl

/-! ## Over an `SSDataManager` -/

/-- A cache over an `SSDataManager` with `ExactMatchEvaluation`, in which texts are stored as they are. -/
structure SSCache.Exact [DecidableEq B] (key : Kwargs B → Content B) (c : SSCache B E S (Data B) σ α) : Prop where
  evaluation : c.core.similarityEvaluation = exactMatchEvaluation
  threshold : Substantial c.core.config.similarityThreshold
  preEmbedding : ∀ kwargs extra config s pre s', c.core.preEmbeddingFunc kwargs extra config s = some (.ok pre, s') →
    pre.store = key kwargs
  post : ∀ f, c.core.postProcess = .func f → ∀ messages s a s', f messages s = some (.ok (some a), s') → a ∈ messages
  toText : ∀ q, c.parts.toText (.str q) = .ok q
  toAnswers : ∀ a, c.parts.toAnswers (.answers a) = a

namespace SSDataManager

variable {env : Env B E S} {p : Parts B E (Data B)} {e : MemoryCacheEviction σ Nat α (World B E)} {fuel : Nat}
  {stored : String → Content B → Prop}

theorem toEntry_fits {fits : Answering B (Data B) L} {data : ScalarData B E}
    (h : ∀ ans ∈ data.answers, ∃ c, ans.1 = some c ∧ fits.stored data.question.content c) :
    (p.toEntry data).Fits fits := by
  intro q a hq ha
  cases hquestion : data.question with
  | question q' => simp [Parts.toEntry, hquestion] at hq
  | str s =>
    obtain rfl : s = q := by simpa [Parts.toEntry, hquestion] using hq
    cases hanswers : data.answers with
    | nil => simp [Parts.toEntry, Entry.answer, hanswers] at ha
    | cons ans answers =>
      obtain ⟨c, hc, hstored⟩ := h ans (hanswers ▸ List.mem_cons_self)
      obtain rfl : c = a := by simpa [Parts.toEntry, Entry.answer, hanswers, hc] using ha
      rwa [hquestion] at hstored

theorem save_genuine (hclear : e.onEvict = World.clear env) {question : Asked B} {q : String}
    (hquestion : question.content = .str q) (htext : p.toText (.str q) = .ok q) {handled : Data B}
    (h : TextAnswers stored q (p.toAnswers handled).toAnswers) (embedding : E) (extra : Option B)
    (session : Option (Session B)) : Within (Carries fun s : σ × World B E => s.2.s.Genuine stored)
      ((dataManager env p e fuel).save question handled embedding extra session) := by
  have harg : ∃ arg, p.toQuestion question = .ok arg ∧ arg.content = q := by
    cases question with
    | plain c =>
      obtain rfl : c = .str q := hquestion
      exact ⟨.str q, by rw [Parts.toQuestion, htext]; rfl, rfl⟩
    | question c deps =>
      obtain rfl : c = .str q := hquestion
      exact ⟨.question ⟨q, deps⟩, by rw [Parts.toQuestion, htext]; rfl, rfl⟩
  obtain ⟨arg, harg, hcontent⟩ := harg
  show Within _ (Exec.ofExcept (p.toQuestion question) >>= fun question => SSDataManager.save env e fuel question
    (p.toAnswers handled) embedding (session.map Session.name))
  rw [harg, Exec.ofExcept_ok, Exec.pure_bind]
  refine importData_genuine hclear (fun pair hpair => ?_) _ _
  rw [List.zip_cons_cons, List.zip_nil_right, List.mem_singleton] at hpair
  rw [hpair, hcontent]
  exact h

end SSDataManager

/-- Such a cache hands out what was saved in it. -/
theorem SSCache.Exact.honest [DecidableEq B] [DecidableEq E] {key : Kwargs B → Content B}
    {c : SSCache B E S (Data B) σ α} (h : c.Exact key) {fits : Answering B (Data B) L}
    (hhanded : ∀ q data, fits.handed q data → TextAnswers fits.stored q (c.parts.toAnswers data).toAnswers) :
    Honest fits key (fun s : σ × World B E => s.2.s.Genuine fits.stored) (fun _ => True) c.core := by
  have hrows : ∀ {β : Type} {m : Exec PyError (σ × World B E) β}, Within SameRowsOf m →
      Within (Carries fun s : σ × World B E => s.2.s.Genuine fits.stored) m := fun hm => hm.mono fun s s' hsame hs => by
    have heq : s'.2.s = s.2.s := congrArg Prod.fst hsame
    show s'.2.s.Genuine fits.stored
    rw [heq]
    exact hs
  have hcall : ∀ {β : Type} {f : World B E → β × World B E},
      (∀ w, w.s.Genuine fits.stored → (f w).2.s.Genuine fits.stored) →
      Within (Carries fun s : σ × World B E => s.2.s.Genuine fits.stored) (Exec.onSnd (World.call c.env f)) := fun hf =>
    Within.onSnd (World.call_genuine hf)
  refine ⟨h.evaluation, h.threshold, fun kwargs extra config => ?_, fun data extra => ?_, ?_, ?_, ?_,
    ?_, ?_, ?_, ?_, ?_, ?_, ?_⟩
  · exact .of_within (hrows (of_stores (c.leaves.preEmbedding _ _ _))) fun s pre s' _ hrun =>
      h.preEmbedding _ _ _ _ _ _ hrun
  · exact hrows (of_stores (c.leaves.embedding _ _))
  · rw [c.dataManager]
    exact fun _ _ _ => (Ensures.of_carries (hrows (SSDataManager.search_within _ _ _))).mono fun _ _ _ _ => trivial
  · rw [c.dataManager]
    exact fun _ _ _ => hrows (SSDataManager.getScalarData_within _ _ _)
  · rw [c.dataManager]
    intro searchData extra session _
    refine (SSDataManager.getScalarData_genuine _ _).onSnd.bind fun found hfound => .pure fun entry hentry => ?_
    obtain ⟨data, hdata, rfl⟩ := Option.map_eq_some_iff.mp hentry
    exact SSDataManager.toEntry_fits (hfound data hdata)
  · intro embedding searchData
    simp only [cacheHealthCheck, c.dataManager, SSDataManager.dataManager, Exec.ofExcept_ok, Exec.pure_bind]
    refine hrows ((Within.ofExcept _).bind fun dataId => (SSDataManager.getEmbeddings_within _).bind fun inVector => ?_)
    exact (Within.pure _).ite ((SSDataManager.updateEmbeddings_within _ _).bind fun _ => .pure _)
  · rw [c.dataManager]
    exact fun _ => hrows (SSDataManager.hitCacheCallback_within _)
  · intro f hf messages
    refine .of_within (hrows (of_stores (c.leaves.post f hf messages))) fun s m s' _ hrun a ha => ?_
    subst ha
    exact h.post f hf messages s a s' hrun
  · rw [c.dataManager]
    exact fun _ _ _ => (Within.ofExcept _).bind fun _ => hcall fun _ hw => hw.addSession _ _ _
  · rw [c.dataManager]
    exact fun _ _ _ _ _ => hcall fun _ hw => hw
  · rw [c.dataManager]
    intro q question handled embedding extra session hquestion hsaved
    exact SSDataManager.save_genuine c.onEvict hquestion (h.toText q) (hhanded q handled hsaved) _ _ _
  · rw [c.dataManager]
    exact Within.onSnd ((World.call_genuine fun _ hw => hw).bind fun _ => World.call_genuine fun _ hw => hw)

/-- **The caches do not show.** Behind exact caches over stores that were empty,
any one after the other, a model that answers each question with one text
always seems to have been asked itself: its text is that of every answer. -/
theorem sql_transparent [DecidableEq B] [DecidableEq E] (rt : Runtime B X)
    {key : Kwargs B → Content B} (hkey : IsKey key)
    (c : SSCache B E S (Data B) σ α) (nexts : List (SSCache B E S (Data B) σ α))
    (hexact : ∀ c' ∈ c :: nexts, c'.Exact key)
    {llmHandler : Kwargs B → Exec PyError X (Option L)} {message : L → Except PyError (Content B)}
    {construct : Content B → L} (hconstruct : ∀ m, message (construct m) = .ok m) (falsy : L → Bool)
    {model : String → String} (hmodel : ∀ q kwargs x x' d, key kwargs = .str q →
      llmHandler kwargs x = some (.ok (some d), x') → message d = .ok (.str (model q)))
    {s : Caches (σ × World B E) X} (hempty : ∀ i, (s.dataAt i).2.s = .empty) {before : List (Kwargs B)}
    (hbefore : ∀ kwargs ∈ before, ∃ q, Asks key q kwargs) {q : String} {kwargs : Kwargs B} (hasks : Asks key q kwargs)
    {d : L} {s' : Caches (σ × World B E) X}
    (h : adapt rt (textModel llmHandler message construct falsy) 0 c.core (nexts.map SSCache.core) kwargs
      (runRequests rt (textModel llmHandler message construct falsy) c.core (nexts.map SSCache.core) s before) =
        some (.ok (some d), s')) :
    message d = .ok (.str (model q)) := by
  have hcaches : ∀ c' ∈ c.core :: nexts.map SSCache.core, Honest (oneText message model) key
      (fun s : σ × World B E => s.2.s.Genuine (oneText message model).stored) (fun _ => True) c' := by
    intro core hcore
    obtain ⟨c', hc', rfl⟩ : ∃ c' ∈ c :: nexts, c'.core = core := by
      rw [← List.mem_map]
      exact hcore
    refine (hexact c' hc').honest fun q data hdata => ?_
    obtain rfl : data = .answers (.answer ⟨.str (model q), .STR⟩) := hdata
    rw [(hexact c' hc').toAnswers]
    intro ans hans
    obtain rfl := List.mem_singleton.mp hans
    exact ⟨rfl, rfl, _, rfl⟩
  have hs : AllHold (fun s : σ × World B E => s.2.s.Genuine (oneText message model).stored) s := fun i => by
    show (s.dataAt i).2.s.Genuine (oneText message model).stored
    rw [hempty i]
    exact .empty
  exact textModel_text hkey hconstruct hmodel hcaches hs hbefore hasks h

/-- A model that puts a mark to the prompt. -/
def marking : Kwargs Unit → Exec PyError Unit (Option (TextCompletion Unit)) := fun kwargs =>
  match kwargs.get? "prompt" with
  | some (.str q) => pure (some { choices := [{ text := .str (q ++ "!") }], created := 0, object := "text_completion" })
  | _ => pure none

theorem marking_text : ∀ q kwargs x x' d, getPrompt Api.quiet kwargs = .str q →
    marking kwargs x = some (.ok (some d), x') → Completion.getTextFromOpenaiAnswer d = .ok (.str (q ++ "!")) := by
  intro q kwargs x x' d hq hrun
  have hprompt : kwargs.get? "prompt" = some (.str q) := by
    unfold getPrompt at hq
    split at hq
    · rename_i hprompt
      cases hq
      exact hprompt
    · cases hq
    · cases hq
  simp only [marking, hprompt] at hrun
  cases hrun
  rfl

def exactParts : Parts Unit ℚ (Data Unit) where
  search := nearParts.search
  toAnswers data := match data with | .answers a => a | .other _ => .str ""
  toText := nearParts.toText
  missing := ()
  objects := false

/-- `nearCache` with exact matches: the search finds everything there is, near or not. -/
def exactCore : Core.Cache Unit ℚ (ℚ × Nat) (Data Unit) (Policy.LRU.State Nat Unit × World Unit ℚ) where
  cacheEnableFunc _ := true
  preEmbeddingFunc kwargs _ _ := pure (.single (getPrompt Api.quiet kwargs))
  embeddingFunc _ _ := pure 1
  dataManager := SSDataManager.dataManager nearEnv exactParts nearIndex 3
  similarityEvaluation := exactMatchEvaluation
  postProcess := .temperatureSoftmax
  config := {}

theorem exactCore_leaves : LeavesStores exactCore where
  preEmbedding _ _ _ := .pure _
  embedding _ _ := .pure _
  evaluation _ _ _ := .pure _
  post f hf := by cases hf

theorem nearIndex_onEvict : nearIndex.onEvict = World.clear nearEnv := rfl

theorem exactCore_dataManager : exactCore.dataManager = SSDataManager.dataManager nearEnv exactParts nearIndex 3 := rfl

def exactCache : SSCache Unit ℚ ℚ (Data Unit) (Policy.LRU.State Nat Unit) Unit where
  env := nearEnv
  parts := exactParts
  index := nearIndex
  fuel := 3
  core := exactCore
  dataManager := exactCore_dataManager
  onEvict := nearIndex_onEvict
  leaves := exactCore_leaves

theorem exactCache_exact : exactCache.Exact (getPrompt Api.quiet) where
  evaluation := rfl
  threshold := substantial_default
  preEmbedding kwargs extra config s pre s' h := by
    rw [← (Exec.pure_ok.mp h).1]
    rfl
  post f hf := by cases hf
  toText _ := rfl
  toAnswers _ := rfl

def ask (q : String) : Kwargs Unit := Dict.empty.set "prompt" (.str q)

theorem ask_asks (q : String) : Asks (getPrompt Api.quiet) q (ask q) where
  key := by simp [getPrompt, ask]
  factor x hx := by
    have hone : (1 : ℚ) = x := by simpa [ask, Dict.get?_set, Arg.asNumber] using hx
    exact hone ▸ substantial_one
  deps context hcontext := by
    have hempty : ({} : Context Unit) = context := by simpa [ask, Dict.get?_set, Arg.asContext] using hcontext
    rw [← hempty]

/-- An answer was made of a saved text. -/
def fromCache {D : Type} (run : Option (Except PyError (Option (TextCompletion Unit)) × D)) : Bool :=
  match run with
  | some (.ok (some d), _) => d.gptcache
  | _ => false

theorem exists_fromCache {D : Type} {run : Option (Except PyError (Option (TextCompletion Unit)) × D)}
    (h : fromCache run = true) : ∃ d s', run = some (.ok (some d), s') ∧ d.gptcache = true := by
  unfold fromCache at h
  split at h
  · exact ⟨_, _, rfl, h⟩
  · cases h

/-- Two caches; the second entry of the first is found among others. -/
theorem sql_transparent_two :
    let s : Caches (Policy.LRU.State Nat Unit × World Unit ℚ) Unit :=
      { levels := fun _ => ⟨(nearIndex.cls.new 4 fun _ => 1, World.init false), {}⟩, outside := () }
    ∃ d s', adapt Api.quiet (Completion.callbacks 0 marking) 0 exactCache.core [exactCache.core] (ask "b")
        (runRequests Api.quiet (Completion.callbacks 0 marking) exactCache.core [exactCache.core] s
          [ask "a", ask "b"]) =
          some (.ok (some d), s') ∧ d.gptcache = true ∧ Completion.getTextFromOpenaiAnswer d = .ok (.str "b!") := by
  intro s
  obtain ⟨d, s', hrun, hcached⟩ := exists_fromCache (show fromCache (adapt Api.quiet (Completion.callbacks 0 marking) 0
    exactCache.core [exactCache.core] (ask "b") (runRequests Api.quiet (Completion.callbacks 0 marking) exactCache.core
      [exactCache.core] s [ask "a", ask "b"])) = true by decide +kernel)
  refine ⟨d, s', hrun, hcached, ?_⟩
  refine sql_transparent Api.quiet (isKey_getPrompt Api.quiet) exactCache [exactCache] ?_
    (Completion.getText_construct 0) (fun _ => false) marking_text (s := s) (fun _ => rfl) ?_ (ask_asks "b") hrun
  · intro c hc
    obtain rfl : c = exactCache := by simpa using hc
    exact exactCache_exact
  · intro kwargs hkwargs
    rcases List.mem_cons.mp hkwargs with rfl | hkwargs
    · exact ⟨"a", ask_asks "a"⟩
    · exact ⟨"b", List.mem_singleton.mp hkwargs ▸ ask_asks "b"⟩

/-! ## Over a `MapDataManager` -/

namespace MapDataManager

variable [DecidableEq E] {fits : Answering B (Data B) L}

/-- The answers of an item are answers to its question. -/
def ItemFits (fits : Answering B (Data B) L) (item : MapItem B E) : Prop :=
  ∀ q answers, item.question = .plain (.str q) → toAnswers item.answer = .ok answers →
    ∀ ans ∈ answers, fits.stored q ans.answer

/-- So they are throughout the map. -/
def ItemsFit (fits : Answering B (Data B) L) (m : MapDataManager B E) : Prop :=
  ∀ k item, m.1.base.data.get? k = some item → ItemFits fits item

theorem ItemsFit.set {m m' : MapDataManager B E} (h : ItemsFit fits m) {k : E} {item : MapItem B E}
    (hitem : ItemFits fits item) (hm' : m'.1.base.data = m.1.base.data.set k item) : ItemsFit fits m' := by
  intro k' item' hget
  rw [hm', Dict.get?_set] at hget
  split at hget
  · exact Option.some.inj hget ▸ hitem
  · exact h k' item' hget

theorem ItemsFit.erase {m m' : MapDataManager B E} (h : ItemsFit fits m) {k : E}
    (hm' : m'.1.base.data = m.1.base.data.erase k) : ItemsFit fits m' := by
  intro k' item' hget
  rw [hm', Dict.get?_erase] at hget
  split at hget
  · cases hget
  · exact h k' item' hget

theorem popitem_fits : Within (Carries (ItemsFit fits))
    ((LRUCache.cacheClass E (MapItem B E)).popitemSelf : Exec PyError (MapDataManager B E) Unit) := by
  refine .total fun m hm => ?_
  simp only [LRUCache.cacheClass, Bookkeeping.cacheClass, Bookkeeping.popitem, ordered]
  cases m.1.book.head? with
  | none => exact hm
  | some k =>
    cases hget : m.1.base.data.get? k with
    | none =>
      simp only [hget]
      exact hm
    | some item =>
      simp only [hget]
      exact hm.erase rfl

/-- Whatever is evicted for it. -/
theorem setitem_fits (k : E) {item : MapItem B E} (hitem : ItemFits fits item) :
    Within (Carries (ItemsFit fits)) (LRUCache.setitem k item : Exec PyError (MapDataManager B E) Unit) := by
  intro m r m' hrun
  have hclass : ∀ fuel, Within (Carries (ItemsFit fits))
      ((LRUCache.cacheClass E (MapItem B E)).setitem (LRUCache.cacheClass E (MapItem B E)).popitemSelf fuel k item :
        Exec PyError (MapDataManager B E) Unit) := fun fuel =>
    .bind .read fun _ => .ite (.raise _) (.bind (.ite (.loop popitem_fits fuel) (.pure ()))
      fun _ => .modify fun m hm => hm.set hitem rfl)
  exact hclass _ m r m' hrun

/-- What a search finds is an item of the map. -/
theorem search_fits (embeddingData : E) : Ensures (ItemsFit fits)
    (fun found : Option (List (MapItem B E)) => ∀ item ∈ found.getD [], ItemFits fits item) (search embeddingData) := by
  intro m r m' hm hrun
  have hdata : (m.1.getitem embeddingData).2.base.data = m.1.base.data ∧
      (m.1.getitem embeddingData).1 = m.1.base.data.get? embeddingData := by
    simp only [LRUCache.getitem, LRUCache.cacheClass, Bookkeeping.cacheClass, Bookkeeping.getitem]
    cases m.1.base.data.get? embeddingData <;> exact ⟨rfl, rfl⟩
  cases hrun
  refine ⟨fun k item hget => hm k item (hdata.1 ▸ hget), fun found hfound item hitem => ?_⟩
  cases hfound
  rw [Option.getD_some, Option.mem_toList] at hitem
  exact hm embeddingData item (hdata.2 ▸ hitem)

theorem getScalarData_keeps (item : MapItem B E) (session : Option (Session B)) :
    Within (Carries (ItemsFit fits)) (getScalarData item session) :=
  ((Within.ofExcept _).bind fun _ => .pure _).ite (.pure _)

theorem getScalarData_fits {item : MapItem B E} (hitem : ItemFits fits item) (session : Option (Session B)) :
    Ensures (ItemsFit fits) (fun found => ∀ entry, found = some entry → entry.Fits fits)
      (getScalarData item session) := by
  refine .ite ?_ (.pure fun _ hentry => by cases hentry)
  refine (Ensures.of_within (.ofExcept _) fun _ _ _ _ hrun => (Exec.ofExcept_eq_ok.mp hrun).1).bind
    fun answers hanswers =>
    .pure fun entry hentry q a hq ha => ?_
  cases hentry
  cases answers with
  | nil => cases ha
  | cons ans answers =>
    cases ha
    exact hitem q _ hq hanswers ans List.mem_cons_self

theorem addSession_fits (item : MapItem B E) (sessionId : String) :
    Within (Carries (ItemsFit fits)) (addSession item sessionId) := by
  refine .modify fun m hm => ?_
  cases hget : m.1.base.data.get? item.embeddingData with
  | none => exact hm
  | some stored =>
    have hfits : ItemFits fits { stored with sessionIds := stored.sessionIds.insert sessionId } := hm _ stored hget
    exact ItemsFit.set hm hfits rfl

theorem save_fits {question : Asked B} {q : String} (hquestion : question.content = .str q) {data : Data B}
    (h : ∀ answers, toAnswers data = .ok answers → ∀ ans ∈ answers, fits.stored q ans.answer) (embeddingData : E)
    (session : Option (Session B)) : Within (Carries (ItemsFit fits)) (save question data embeddingData session) := by
  refine setitem_fits _ fun q' answers hq' hanswers => ?_
  have heq : q' = q := by
    cases question with
    | plain c | question c _ =>
      obtain rfl : c = .str q := hquestion
      cases hq'
      rfl
  rw [heq]
  exact h answers hanswers

end MapDataManager

/-- A cache over a `MapDataManager` with `ExactMatchEvaluation`. -/
structure MapExact [DecidableEq B] [DecidableEq E] (key : Kwargs B → Content B)
    (c : Core.Cache B E (MapItem B E) (Data B) (MapDataManager B E)) : Prop where
  dataManager : c.dataManager = MapDataManager.dataManager
  evaluation : c.similarityEvaluation = exactMatchEvaluation
  threshold : Substantial c.config.similarityThreshold
  preKeeps : ∀ kwargs extra config, Exec.Keeps id (c.preEmbeddingFunc kwargs extra config)
  preEmbedding : ∀ kwargs extra config s pre s', c.preEmbeddingFunc kwargs extra config s = some (.ok pre, s') →
    pre.store = key kwargs
  embedding : ∀ data extra, Exec.Keeps id (c.embeddingFunc data extra)
  postKeeps : ∀ f, c.postProcess = .func f → ∀ messages, Exec.Keeps id (f messages)
  post : ∀ f, c.postProcess = .func f → ∀ messages s a s', f messages s = some (.ok (some a), s') → a ∈ messages

theorem MapExact.honest [DecidableEq B] [DecidableEq E] {key : Kwargs B → Content B}
    {c : Core.Cache B E (MapItem B E) (Data B) (MapDataManager B E)} (h : MapExact key c)
    {fits : Answering B (Data B) L}
    (hhanded : ∀ q data, fits.handed q data → ∀ answers, MapDataManager.toAnswers data = .ok answers →
      ∀ ans ∈ answers, fits.stored q ans.answer) :
    Honest fits key (MapDataManager.ItemsFit fits) (MapDataManager.ItemFits fits) c := by
  have hkeeps : ∀ {β : Type} {m : Exec PyError (MapDataManager B E) β}, Exec.Keeps id m →
      Within (Carries (MapDataManager.ItemsFit fits)) m := fun hm s r s' hr hs => by
    have heq : s' = s := hm s r s' hr
    rw [heq]
    exact hs
  refine ⟨h.evaluation, h.threshold, fun kwargs extra config => ?_, fun data extra =>
    hkeeps (h.embedding _ _), ?_, ?_, ?_, ?_, ?_, ?_, ?_, ?_, ?_, ?_⟩
  · exact .of_within (hkeeps (h.preKeeps _ _ _)) fun s pre s' _ hrun => h.preEmbedding _ _ _ _ _ _ hrun
  · rw [h.dataManager]
    exact fun embedding _ _ => MapDataManager.search_fits embedding
  · rw [h.dataManager]
    exact fun item _ session => MapDataManager.getScalarData_keeps item session
  · rw [h.dataManager]
    exact fun item _ session hitem => MapDataManager.getScalarData_fits hitem session
  · intro embedding searchData
    rw [cacheHealthCheck, h.dataManager]
    exact .raise _
  · rw [h.dataManager]
    exact fun _ => .pure _
  · intro f hf messages
    refine .of_within (hkeeps (h.postKeeps f hf messages)) fun s m s' _ hrun a ha => ?_
    subst ha
    exact h.post f hf messages s a s' hrun
  · rw [h.dataManager]
    exact fun item name _ => MapDataManager.addSession_fits item name
  · rw [h.dataManager]
    exact fun _ _ _ _ _ => .pure _
  · rw [h.dataManager]
    exact fun q question data embedding _ session hquestion hsaved =>
      MapDataManager.save_fits hquestion (hhanded q data hsaved) embedding session
  · rw [h.dataManager]
    refine .modify fun m hm => ?_
    split
    · exact hm
    · exact hm

/-- A cache as `init` makes it for the API is one. -/
theorem mapCache_exact [DecidableEq B] (rt : Runtime B X) : MapExact (getPrompt rt) (mapCache rt) where
  dataManager := rfl
  evaluation := rfl
  threshold := substantial_default
  preKeeps _ _ _ := .pure _
  preEmbedding kwargs extra config s pre s' h := by
    rw [← (Exec.pure_ok.mp h).1]
    rfl
  embedding _ _ := .pure _
  postKeeps f hf := by cases hf
  post f hf := by cases hf

/-- **Nor do they over maps**, each filled with what was asked before. -/
theorem map_transparent [DecidableEq B] [DecidableEq E] (rt : Runtime B X)
    {key : Kwargs B → Content B} (hkey : IsKey key) {c : Core.Cache B E (MapItem B E) (Data B) (MapDataManager B E)}
    {nexts : List (Core.Cache B E (MapItem B E) (Data B) (MapDataManager B E))}
    (hexact : ∀ c' ∈ c :: nexts, MapExact key c')
    {llmHandler : Kwargs B → Exec PyError X (Option L)} {message : L → Except PyError (Content B)}
    {construct : Content B → L} (hconstruct : ∀ m, message (construct m) = .ok m) (falsy : L → Bool)
    {model : String → String} (hmodel : ∀ q kwargs x x' d, key kwargs = .str q →
      llmHandler kwargs x = some (.ok (some d), x') → message d = .ok (.str (model q)))
    {s : Caches (MapDataManager B E) X} (hempty : ∀ i, (s.dataAt i).1.base.data = .empty) {before : List (Kwargs B)}
    (hbefore : ∀ kwargs ∈ before, ∃ q, Asks key q kwargs) {q : String} {kwargs : Kwargs B} (hasks : Asks key q kwargs)
    {d : L} {s' : Caches (MapDataManager B E) X}
    (h : adapt rt (textModel llmHandler message construct falsy) 0 c nexts kwargs
      (runRequests rt (textModel llmHandler message construct falsy) c nexts s before) = some (.ok (some d), s')) :
    message d = .ok (.str (model q)) := by
  have hcaches : ∀ c' ∈ c :: nexts, Honest (oneText message model) key (MapDataManager.ItemsFit (oneText message model))
      (MapDataManager.ItemFits (oneText message model)) c' := by
    intro c' hc'
    refine (hexact c' hc').honest fun q data hdata answers hanswers ans hans => ?_
    obtain rfl : data = .answers (.answer ⟨.str (model q), .STR⟩) := hdata
    cases hanswers
    obtain rfl := List.mem_singleton.mp hans
    rfl
  refine textModel_text hkey hconstruct hmodel hcaches (fun i k item hget => ?_) hbefore hasks h
  have hi : (s.levels i).data.1.base.data = .empty := hempty i
  rw [hi] at hget
  cases hget

theorem map_transparent_two : ∃ d s', adapt Api.quiet (Completion.callbacks 0 marking) 0 (mapCache Api.quiet)
      [mapCache Api.quiet] (ask "b") (runRequests Api.quiet (Completion.callbacks 0 marking) (mapCache Api.quiet)
        [mapCache Api.quiet] emptyMaps [ask "a", ask "b"]) = some (.ok (some d), s') ∧
    d.gptcache = true ∧ Completion.getTextFromOpenaiAnswer d = .ok (.str "b!") := by
  obtain ⟨d, s', hrun, hcached⟩ := exists_fromCache (show fromCache (adapt Api.quiet (Completion.callbacks 0 marking) 0
    (mapCache Api.quiet) [mapCache Api.quiet] (ask "b") (runRequests Api.quiet (Completion.callbacks 0 marking)
      (mapCache Api.quiet) [mapCache Api.quiet] emptyMaps [ask "a", ask "b"])) = true by decide +kernel)
  refine ⟨d, s', hrun, hcached, ?_⟩
  refine map_transparent Api.quiet (isKey_getPrompt Api.quiet) ?_ (Completion.getText_construct 0)
    (fun _ => false) marking_text (s := emptyMaps) (fun _ => rfl) ?_ (ask_asks "b") hrun
  · intro c hc
    obtain rfl : c = mapCache Api.quiet := by simpa using hc
    exact mapCache_exact Api.quiet
  · intro kwargs hkwargs
    rcases List.mem_cons.mp hkwargs with rfl | hkwargs
    · exact ⟨"a", ask_asks "a"⟩
    · exact ⟨"b", List.mem_singleton.mp hkwargs ▸ ask_asks "b"⟩

end GptCache
