/-
How often a model is asked behind a chain of caches over `MapDataManager`s.

A request for a prompt that is not answered by a cache is passed on, and what
comes back is put into every cache it passed (`chainAsk`, `adapt_ask`). So the
prompts the model is sent are those the first cache misses and no other holds:
never many more than any schedule of what to hold would send
(`calls_competitive`), the fewer the larger a single cache is
(`larger_asks_less`), and each only once where one cache of the chain has room
for all (`asked_once`).
-/
import GptCache.Lib.LruRequests
import GptCache.Adapter.MapRun
import GptCache.Adapter.TextModels

namespace GptCache.Api

open Caches (onData onOutside onReport timeCal)

variable {B X L : Type} [DecidableEq B]

/-! ## The model -/

/-- A model that answers a prompt always with its text; `sent` are the prompts it was sent so far. -/
structure Answers (llmHandler : Kwargs B → Exec PyError X (Option L)) (message : L → Except PyError (Content B))
    (construct : Content B → L) (falsy : L → Bool) (model : String → String) (sent : X → List String) : Prop where
  returns : ∀ p kwargs x, kwargs.get? "prompt" = some (.str p) → ∃ d x', llmHandler kwargs x = some (.ok (some d), x') ∧
    message d = .ok (.str (model p)) ∧ falsy d = false ∧ sent x' = sent x ++ [p]
  constructed : ∀ m, message (construct m) = .ok m ∧ falsy (construct m) = false

/-- How `textModel` saves a text. -/
def answerAs (a : String) : Data B := .answers (.answer ⟨.str a, .STR⟩)

/-- The model's text was answered. -/
def Answered (message : L → Except PyError (Content B)) (falsy : L → Bool) (text : String) (d : Option L) : Prop :=
  ∃ d', d = some d' ∧ message d' = .ok (.str text) ∧ falsy d' = false

/-! ## One cache -/

section

variable (rt : Runtime B X) {llmHandler : Kwargs B → Exec PyError X (Option L)}
  {message : L → Except PyError (Content B)}
  {construct : Content B → L} {falsy : L → Bool} {model : String → String} {sent : X → List String}
  {rest : Rest B X} {kwargs : Kwargs B} {s : MapCaches B X} {E : PyError → MapCaches B X → Prop}
  {ms : Nat → LruMap String String} {n place : Nat} {p : String}

theorem HeldAs.outside {saved : String → Data B} (hs : HeldAs saved s ms rest) : rest.outside = s.outside :=
  (congrArg Rest.outside hs.rest).symm

theorem HeldAs.withOutside {saved : String → Data B} (hs : HeldAs saved s ms rest) (x : X) :
    HeldAs saved { s with outside := x } ms { rest with outside := x } :=
  ⟨hs.maps, congrArg (fun rest : Rest B X => { rest with outside := x }) hs.rest⟩

/-- What is answered from below is saved, and is the answer. -/
theorem updateCache_text {next : Option (MapCore B)} (hnext : ∀ c ∈ next, c.dataManager = MapDataManager.dataManager)
    (hn : 0 < n) (hs : HeldAs answerAs s ms rest) {d : L} {a : String} (hmessage : message d = .ok (.str a))
    (hfalsy : falsy d = false) (kwargs' : Kwargs B) :
    Exec.wp (updateCache place (flushedEvery rt n) (textModel llmHandler message construct falsy) next
      (bareRequest false kwargs) (textKey p) (some d) kwargs')
      (fun d' s' => d' = some d ∧ ∃ rest', Saved answerAs n place ((ms place).put p a) rest rest' ∧
        HeldAs answerAs s' (Function.update ms place ((ms place).put p a)) rest') E s := by
  simp only [updateCache, textModel, hfalsy, Bool.false_eq_true, if_false, textKey, hmessage, Exec.ofExcept_ok,
    Exec.pure_bind, Exec.wp_catching, Exec.wp_bind, Exec.wp_pure]
  rw [show (Data.answers (.answer ⟨.str a, .STR⟩) : Data B) = answerAs a from rfl]
  exact Exec.wp_mono (E := fun _ _ => False) (updateCacheFunc_text rt hnext hn hs)
    (fun _ _ h => ⟨trivial, h⟩) fun _ _ h => h.elim

/-- A cache that holds the prompt answers, and the prompt becomes its most recent. -/
theorem adaptLevel_ask_hit (hmodel : Answers llmHandler message construct falsy model sent)
    {next : Option (MapCore B × (Kwargs B → Exec PyError (MapCaches B X) (Option L)))} (h : Bare kwargs p false)
    (hs : HeldAs answerAs s ms rest) (htrue : (ms place).Truthful model) (hp : (ms place).entries.contains p = true) :
    Exec.wp (adaptLevel rt place (flushedEvery rt n) (textModel llmHandler message construct falsy) next kwargs)
      (fun d s' => Answered message falsy (model p) d ∧
        HeldAs answerAs s' (Function.update ms place ((ms place).put p (model p))) rest) E s := by
  obtain ⟨a, ha⟩ := Dict.contains_eq_true.mp hp
  obtain rfl : a = model p := htrue p a ha
  refine adaptLevel_bare rt h hs fun s₂ hs₂ => ?_
  simp only [respond, Exec.wp_bind]
  refine Exec.wp_mono (searchAnswers_hit rt hs₂ ha rfl) ?_ fun _ _ h => h
  rintro - s₃ ⟨rfl, hs₃⟩
  refine Exec.wp_mono (hitMessage_text rt hs₃ h.searched.hitCallback) ?_ fun _ _ h => h
  rintro ⟨_, kwargs'⟩ s₄ ⟨rfl, hs₄⟩
  rw [LruMap.get_eq_put ha] at hs₄
  exact ⟨⟨_, rfl, hmodel.constructed _⟩, hs₄⟩

/-- The last cache asks the model. -/
theorem adaptLevel_ask_last (hmodel : Answers llmHandler message construct falsy model sent) (hn : 0 < n)
    (h : Bare kwargs p false) (hs : HeldAs answerAs s ms rest) (hp : (ms place).entries.contains p = false) :
    Exec.wp (adaptLevel rt place (flushedEvery rt n) (textModel llmHandler message construct falsy) none kwargs)
      (fun d s' => Answered message falsy (model p) d ∧ ∃ x' rest', sent x' = sent rest.outside ++ [p] ∧
        Saved answerAs n place ((ms place).put p (model p)) { rest with outside := x' } rest' ∧
        HeldAs answerAs s' (Function.update ms place ((ms place).put p (model p))) rest') E s := by
  refine adaptLevel_bare rt h hs fun s₂ hs₂ => ?_
  simp only [respond, Exec.wp_bind]
  refine Exec.wp_mono (searchAnswers_miss rt hs₂ (Dict.contains_eq_false.mp hp)) ?_ fun _ _ h => h
  rintro - s₃ ⟨rfl, hs₃⟩
  obtain ⟨d, x', hcall, hmessage, hfalsy, hsent⟩ := hmodel.returns p (searched kwargs) s₃.outside h.searched.prompt
  have hcall' : (textModel llmHandler message construct falsy : Callbacks B (Data B)
      (MapDataManager B (Content B)) X L).llmHandler
      (searched kwargs) s₃.outside = some (.ok (some d), x') := hcall
  simp only [hitMessage, Exec.wp_pure, Exec.wp_bind, askBelow, Option.map_none,
    show (bareRequest false kwargs).searchOnly = .bool false from rfl, Arg.truthy, Bool.false_eq_true, if_false,
    Caches.wp_timeCal, Caches.wp_onOutside, Exec.wp_of_ok hcall']
  have hasked := (hs₃.withOutside x').reported place .llm fun _ => rfl
  refine Exec.wp_mono (E := fun _ _ => False) (updateCache_text rt (by simp) hn hasked hmessage hfalsy _) ?_
    fun _ _ h => h.elim
  rintro _ s₄ ⟨rfl, rest', hsaved, hs₄⟩
  rw [← hs₃.outside] at hsent
  exact ⟨⟨d, rfl, hmessage, hfalsy⟩, x', rest', hsent, hsaved, hs₄⟩

variable {c : MapCore B} {below : Kwargs B → Exec PyError (MapCaches B X) (Option L)} {R : Rest B X → Prop}
  {ms' : Nat → LruMap String String}

/-- Every other cache asks the next one. -/
theorem adaptLevel_ask_next (hc : c.dataManager = MapDataManager.dataManager) (hn : 0 < n) (h : Bare kwargs p false)
    (hs : HeldAs answerAs s ms rest) (hp : (ms place).entries.contains p = false)
    (hR : ∀ rest rest' : Rest B X, rest'.outside = rest.outside → R rest → R rest')
    (hbelow : ∀ kwargs' s', Bare kwargs' p false → HeldAs answerAs s' ms rest →
      Exec.wp (below kwargs') (fun d s'' => Answered message falsy (model p) d ∧ ∃ rest', R rest' ∧
        HeldAs answerAs s'' ms' rest')
        E s') :
    Exec.wp (adaptLevel rt place (flushedEvery rt n) (textModel llmHandler message construct falsy)
      (some (c, below)) kwargs)
      (fun d s' => Answered message falsy (model p) d ∧
        ∃ rest', R rest' ∧ HeldAs answerAs s' (Function.update ms' place ((ms' place).put p (model p))) rest') E s := by
  refine adaptLevel_bare rt h hs fun s₂ hs₂ => ?_
  simp only [respond, Exec.wp_bind]
  refine Exec.wp_mono (searchAnswers_miss rt hs₂ (Dict.contains_eq_false.mp hp)) ?_ fun _ _ h => h
  rintro - s₃ ⟨rfl, hs₃⟩
  simp only [hitMessage, Exec.wp_pure, Exec.wp_bind, askBelow, Option.map_some]
  refine Exec.wp_mono (hbelow _ s₃ h.searched.next hs₃) ?_ fun _ _ h => h
  rintro _ s₄ ⟨⟨d, rfl, hmessage, hfalsy⟩, rest', hrest', hs₄⟩
  refine Exec.wp_mono (E := fun _ _ => False) (updateCache_text rt (by simpa using hc) hn hs₄ hmessage hfalsy _) ?_
    fun _ _ h => h.elim
  rintro _ s₅ ⟨rfl, rest'', hsaved, hs₅⟩
  exact ⟨⟨d, rfl, hmessage, hfalsy⟩, rest'', hR _ _ hsaved.outside hrest', hs₅⟩

end

/-! ## The chain -/

/-- A request to the cache at `place`, with `nexts` caches behind it: whether the model is asked,
and the maps after it. -/
def chainAsk (model : String → String) (p : String) : Nat → Nat → (Nat → LruMap String String) →
    Bool × (Nat → LruMap String String)
  | 0, place, ms => (!(ms place).entries.contains p, Function.update ms place ((ms place).put p (model p)))
  | nexts + 1, place, ms =>
    let below := if (ms place).entries.contains p then (false, ms) else chainAsk model p nexts (place + 1) ms
    (below.1, Function.update below.2 place ((below.2 place).put p (model p)))

/-- The prompts of these that the model is sent. -/
def chainSent (model : String → String) (nexts : Nat) : (Nat → LruMap String String) → List String → List String
  | _, [] => []
  | ms, p :: ps =>
    (if (chainAsk model p nexts 0 ms).1 then [p] else []) ++ chainSent model nexts (chainAsk model p nexts 0 ms).2 ps

section

variable {model : String → String} {p : String} {ms : Nat → LruMap String String}

theorem chainAsk_below : ∀ {nexts place i : Nat}, i < place → (chainAsk model p nexts place ms).2 i = ms i
  | 0, place, i, h => Function.update_of_ne (by omega) ..
  | nexts + 1, place, i, h => by
    simp only [chainAsk]
    rw [Function.update_of_ne (by omega)]
    split
    · rfl
    · exact chainAsk_below (by omega)

/-- The cache that is asked has the prompt in the end, wherever the answer came from. -/
theorem chainAsk_place : ∀ {nexts place : Nat}, (chainAsk model p nexts place ms).2 place = (ms place).put p (model p)
  | 0, place => Function.update_self ..
  | nexts + 1, place => by
    simp only [chainAsk, Function.update_self]
    split
    · rfl
    · rw [chainAsk_below (Nat.lt_succ_self place)]

theorem chainAsk_put (model : String → String) (p : String) (ms : Nat → LruMap String String) : ∀ (nexts place i : Nat),
    (chainAsk model p nexts place ms).2 i = ms i ∨ (chainAsk model p nexts place ms).2 i = (ms i).put p (model p)
  | 0, place, i => by
    by_cases hi : i = place
    · exact .inr (hi ▸ chainAsk_place)
    · exact .inl (Function.update_of_ne hi ..)
  | nexts + 1, place, i => by
    by_cases hi : i = place
    · exact .inr (hi ▸ chainAsk_place)
    · simp only [chainAsk, Function.update_of_ne hi]
      split
      · exact .inl rfl
      · exact chainAsk_put model p ms nexts (place + 1) i

/-- The model is asked for a prompt that no cache holds. -/
theorem chainAsk_fst : ∀ {nexts place : Nat}, (chainAsk model p nexts place ms).1 = true ↔
    ∀ i, place ≤ i → i ≤ place + nexts → (ms i).entries.contains p = false
  | 0, place => by
    refine ⟨fun h i hle hge => ?_, fun h => ?_⟩
    · obtain rfl : i = place := by omega
      simpa [chainAsk] using h
    · simp [chainAsk, h place le_rfl le_rfl]
  | nexts + 1, place => by
    simp only [chainAsk]
    split
    · rename_i hp
      refine ⟨fun h => absurd h Bool.false_ne_true, fun h => ?_⟩
      rw [h place le_rfl (by omega)] at hp
      cases hp
    · rename_i hp
      rw [chainAsk_fst]
      refine ⟨fun h i hle hge => ?_, fun h i hle hge => h i (by omega) (by omega)⟩
      by_cases hi : i = place
      · simpa [hi] using hp
      · exact h i (by omega) (by omega)

/-- What the model answers is put into every cache of the chain. -/
theorem chainAsk_asked : ∀ {nexts place : Nat}, (chainAsk model p nexts place ms).1 = true →
    ∀ i, place ≤ i → i ≤ place + nexts → (chainAsk model p nexts place ms).2 i = (ms i).put p (model p)
  | 0, place, _, i, hle, hge => by
    obtain rfl : i = place := by omega
    exact chainAsk_place
  | nexts + 1, place, h, i, hle, hge => by
    by_cases hi : i = place
    · exact hi ▸ chainAsk_place
    · have hp : (ms place).entries.contains p = false := chainAsk_fst.mp h place le_rfl (by omega)
      simp only [chainAsk, hp, Bool.false_eq_true, if_false] at h ⊢
      rw [Function.update_of_ne hi]
      exact chainAsk_asked h i (by omega) (by omega)

theorem chainAsk_truthful (htrue : ∀ i, (ms i).Truthful model) {nexts place : Nat} (i : Nat) :
    ((chainAsk model p nexts place ms).2 i).Truthful model := by
  rcases chainAsk_put model p ms nexts place i with h | h
  · exact h ▸ htrue i
  · exact h ▸ (htrue i).put p

end

section

variable (rt : Runtime B X) {llmHandler : Kwargs B → Exec PyError X (Option L)}
  {message : L → Except PyError (Content B)}
  {construct : Content B → L} {falsy : L → Bool} {model : String → String} {sent : X → List String} {n : Nat}

/-- **A request to a chain**, as the maps see it and as the model does. -/
theorem adapt_ask (hmodel : Answers llmHandler message construct falsy model sent) (hn : 0 < n) {p : String} :
    ∀ (nexts place : Nat) {kwargs : Kwargs B} {s : MapCaches B X} {rest : Rest B X} {ms : Nat → LruMap String String}
      {E : PyError → MapCaches B X → Prop}, Bare kwargs p false → HeldAs answerAs s ms rest →
      (∀ i, (ms i).Truthful model) →
      Exec.wp (adapt rt (textModel llmHandler message construct falsy) place (flushedEvery rt n)
        (List.replicate nexts (flushedEvery rt n)) kwargs)
        (fun d s' => Answered message falsy (model p) d ∧ ∃ rest', sent rest'.outside = sent rest.outside ++
            (if (chainAsk model p nexts place ms).1 then [p] else []) ∧
          HeldAs answerAs s' (chainAsk model p nexts place ms).2 rest') E s
  | 0, place, kwargs, s, rest, ms, E, h, hs, htrue => by
    cases hp : (ms place).entries.contains p with
    | true =>
      refine Exec.wp_mono (adaptLevel_ask_hit rt hmodel h hs (htrue place) hp) (fun d s' hd => ?_) fun _ _ h => h
      exact ⟨hd.1, rest, by simp [chainAsk, hp], hd.2⟩
    | false =>
      refine Exec.wp_mono (adaptLevel_ask_last rt hmodel hn h hs hp) (fun d s' hd => ?_) fun _ _ h => h
      obtain ⟨hd, x', rest', hsent, hsaved, hs'⟩ := hd
      exact ⟨hd, rest', by simp [chainAsk, hp, hsaved.outside, hsent], hs'⟩
  | nexts + 1, place, kwargs, s, rest, ms, E, h, hs, htrue => by
    cases hp : (ms place).entries.contains p with
    | true =>
      refine Exec.wp_mono (adaptLevel_ask_hit rt hmodel h hs (htrue place) hp) (fun d s' hd => ?_) fun _ _ h => h
      exact ⟨hd.1, rest, by simp [chainAsk, hp], by simpa only [chainAsk, hp, if_true] using hd.2⟩
    | false =>
      let R : Rest B X → Prop := fun rest' => sent rest'.outside = sent rest.outside ++
        (if (chainAsk model p nexts (place + 1) ms).1 then [p] else [])
      refine Exec.wp_mono (adaptLevel_ask_next (R := R) rt rfl hn h hs hp (fun rest₁ rest₂ houtside hrest => ?_)
        fun kwargs' s' h' hs' => adapt_ask hmodel hn nexts (place + 1) h' hs' htrue) (fun d s' hd => ?_) fun _ _ h => h
      · show sent rest₂.outside = _
        rw [houtside]
        exact hrest
      · obtain ⟨hd, rest', hrest', hs'⟩ := hd
        exact ⟨hd, rest', by simpa only [chainAsk, hp, Bool.false_eq_true, if_false] using hrest',
          by simpa only [chainAsk, hp, Bool.false_eq_true, if_false] using hs'⟩

/-- Requests for these prompts, with all arguments of the cache left at their defaults. -/
def Asking (requests : List (Kwargs B)) (ps : List String) : Prop :=
    List.Forall₂ (fun kwargs p => Bare kwargs p false) requests ps

/-- What the model was sent in the end. -/
theorem runRequests_sent (hmodel : Answers llmHandler message construct falsy model sent) (hn : 0 < n) (nexts : Nat)
    {requests : List (Kwargs B)} {ps : List String} (hrequests : Asking requests ps) :
    ∀ {s : MapCaches B X} {rest : Rest B X} {ms : Nat → LruMap String String}, HeldAs answerAs s ms rest →
      (∀ i, (ms i).Truthful model) →
      sent (runRequests rt (textModel llmHandler message construct falsy) (flushedEvery rt n)
        (List.replicate nexts (flushedEvery rt n)) s requests).outside = sent s.outside ++
        chainSent model nexts ms ps := by
  induction hrequests with
  | nil => exact fun _ _ => (List.append_nil _).symm
  | @cons kwargs p requests ps h _ ih =>
    intro s rest ms hs htrue
    rw [runRequests_cons]
    obtain ⟨rest', hsent, hs'⟩ := Exec.after_of_wp
      (Exec.wp_mono (adapt_ask rt hmodel hn nexts 0 h hs htrue (E := fun _ s' =>
      ∃ rest', sent rest'.outside = sent rest.outside ++ (if (chainAsk model p nexts 0 ms).1 then [p] else []) ∧
        HeldAs answerAs s' (chainAsk model p nexts 0 ms).2 rest')) (fun _ _ h => h.2) fun _ _ h => h)
    rw [ih hs' (chainAsk_truthful htrue), ← hs'.outside, hsent, hs.outside, chainSent, List.append_assoc]

theorem heldAs_fresh {saved : String → Data B} (sizes : Nat → Nat) (hsizes : ∀ i, 0 < sizes i) (path : Nat → String)
    (permitted : Nat → Bool) (outside : X) : HeldAs saved (fresh sizes path permitted outside : MapCaches B X)
      (fun i => .empty (sizes i) (hsizes i)) (restOf (fresh sizes path permitted outside)) :=
  ⟨fun i => MapDataManager.holdsAs_new (hsizes i) _, rfl⟩

theorem fresh_sent (hmodel : Answers llmHandler message construct falsy model sent) (hn : 0 < n) (nexts : Nat)
    (sizes : Nat → Nat) (hsizes : ∀ i, 0 < sizes i) (path : Nat → String) (permitted : Nat → Bool) (outside : X)
    {requests : List (Kwargs B)} {ps : List String} (hrequests : Asking requests ps) :
    sent (runRequests rt (textModel llmHandler message construct falsy) (flushedEvery rt n)
      (List.replicate nexts (flushedEvery rt n)) (fresh sizes path permitted outside) requests).outside =
        sent outside ++ chainSent model nexts (fun i => .empty (sizes i) (hsizes i)) ps :=
  runRequests_sent rt hmodel hn nexts hrequests (heldAs_fresh sizes hsizes path permitted outside)
    fun i => LruMap.truthful_empty (hsizes i)

/-- What the model is sent the first cache missed. -/
theorem chainSent_sublist (model : String → String) (nexts : Nat) :
    ∀ (ps : List String) (ms : Nat → LruMap String String),
    (chainSent model nexts ms ps).Sublist (LruMap.missed model (ms 0) ps)
  | [], _ => List.Sublist.refl _
  | p :: ps, ms => by
    rw [chainSent, LruMap.missed]
    have hplace : (chainAsk model p nexts 0 ms).2 0 = (ms 0).put p (model p) := chainAsk_place
    refine List.Sublist.append ?_ (hplace ▸ chainSent_sublist model nexts ps _)
    split
    · rename_i hasked
      rw [if_neg (by simp [chainAsk_fst.mp hasked 0 le_rfl (Nat.zero_le _)])]
    · exact List.nil_sublist _

theorem chainSent_one : ∀ (ps : List String) (ms : Nat → LruMap String String),
    chainSent model 0 ms ps = LruMap.missed model (ms 0) ps
  | [], _ => rfl
  | p :: ps, ms => by
    rw [chainSent, LruMap.missed, chainSent_one, chainAsk_place, chainAsk]
    cases (ms 0).entries.contains p <;> rfl

end

/-! ## A model that lists its prompts -/

/-- `quiet`, whatever is outside. -/
def quietOver (X : Type) : Runtime Unit X where
  truthy _ := false
  str _ := ""
  len _ := .error ⟨.TypeError, ""⟩
  box _ := ()
  draw _ := pure 0
  summarize text _ := pure text
  callback _ := none

/-- A mark is put to the prompt, and the prompts are listed. -/
def listing : Kwargs Unit → Exec PyError (List String) (Option (TextCompletion Unit)) := fun kwargs prompts =>
  match kwargs.get? "prompt" with
  | some (.str q) =>
    some (.ok (some { choices := [{ text := .str (q ++ "!") }], created := 0, object := "text_completion" }),
      prompts ++ [q])
  | _ => some (.ok none, prompts)

theorem listing_answers : Answers listing Completion.getTextFromOpenaiAnswer (Completion.constructTextFromCache 0)
    (fun _ => false) (fun q => q ++ "!") (fun prompts => prompts) where
  returns p kwargs x hp := by
    simp only [listing, hp]
    exact ⟨_, _, rfl, rfl, trivial, rfl⟩
  constructed _ := ⟨rfl, rfl⟩

theorem ask_bare (q : String) : Bare (ask q) q false := by
  constructor
  · constructor <;> simp [ask, Dict.get?_set]
  all_goals simp [ask, Dict.get?_set]

theorem asking_map (ps : List String) : Asking (ps.map ask) ps := by
  induction ps with
  | nil => exact .nil
  | cons p ps ih => exact .cons (ask_bare p) ih

/-- What `Completion` sends the model behind caches of these sizes, `nexts` of them behind the first. -/
def listed (nexts : Nat) (sizes : Nat → Nat) (ps : List String) : List String :=
  (runRequests (quietOver (List String)) (Completion.callbacks 0 listing) (flushedEvery (quietOver (List String)) 20)
    (List.replicate nexts (flushedEvery (quietOver (List String)) 20))
    (fresh sizes (fun _ => "data_map.txt") (fun _ => true) []) (ps.map ask)).outside

/-! ## What the model is sent -/

section

variable (rt : Runtime B X) {llmHandler : Kwargs B → Exec PyError X (Option L)}
  {message : L → Except PyError (Content B)}
  {construct : Content B → L} {falsy : L → Bool} {model : String → String} {sent : X → List String} {n : Nat}

/-- The caches hold prompts that were asked for, the one at `j` all of them. -/
structure Knows (ms : Nat → LruMap String String) (j : Nat) (seen : List String) : Prop where
  held : ∀ i p, (ms i).entries.contains p = true → p ∈ seen
  all : ∀ p ∈ seen, (ms j).entries.contains p = true

theorem Knows.ask (model : String → String) {ms : Nat → LruMap String String} {j nexts : Nat} (hj : j ≤ nexts)
    {seen all : List String} (h : Knows ms j seen) (hseen : ∀ q ∈ seen, q ∈ all) {p : String} (hp : p ∈ all)
    (hroom : all.length ≤ (ms j).capacity) :
    Knows (chainAsk model p nexts 0 ms).2 j (p :: seen) ∧ ((chainAsk model p nexts 0 ms).1 = true ↔ p ∉ seen) := by
  have hroom : (ms j).entries.contains p = true ∨ (ms j).entries.len < (ms j).capacity :=
    LruMap.room_of_all hroom (fun q hq => hseen q (h.held j q hq)) hp
  have hasked : (chainAsk model p nexts 0 ms).1 = true ↔ p ∉ seen := by
    refine chainAsk_fst.trans ⟨fun hmiss hin => ?_, fun hnew i _ _ => ?_⟩
    · have hno := hmiss j (Nat.zero_le j) (by omega)
      rw [h.all p hin] at hno
      cases hno
    · rw [← Bool.not_eq_true]
      exact fun hin => hnew (h.held i p hin)
  refine ⟨⟨fun i q hq => ?_, fun q hq => ?_⟩, hasked⟩
  · rcases chainAsk_put model p ms nexts 0 i with hi | hi <;> rw [hi] at hq
    · exact List.mem_cons_of_mem p (h.held i q hq)
    · rcases LruMap.contains_put hq with rfl | hq
      · exact List.mem_cons_self
      · exact List.mem_cons_of_mem p (h.held i q hq)
  · by_cases hin : p ∈ seen
    · have hq : (ms j).entries.contains q = true := (List.mem_cons.mp hq).elim (fun he => he ▸ h.all p hin) (h.all q)
      rcases chainAsk_put model p ms nexts 0 j with hi | hi <;> rw [hi]
      · exact hq
      · exact (LruMap.contains_put_of_room hroom _ q).mpr (.inr hq)
    · rw [chainAsk_asked (hasked.mpr hin) j (Nat.zero_le j) (by omega), LruMap.contains_put_of_room hroom]
      exact (List.mem_cons.mp hq).imp_right (h.all q)

theorem chainSent_once (model : String → String) {j nexts : Nat} (hj : j ≤ nexts) {all : List String} :
    ∀ (ps : List String)
    {ms : Nat → LruMap String String} {seen : List String}, Knows ms j seen → all.length ≤ (ms j).capacity →
      (∀ q ∈ seen, q ∈ all) → (∀ q ∈ ps, q ∈ all) →
      (chainSent model nexts ms ps).Nodup ∧ ∀ q, q ∈ chainSent model nexts ms ps ↔ q ∈ ps ∧ q ∉ seen
  | [], _, _, _, _, _, _ => by simp [chainSent]
  | p :: ps, ms, seen, h, hroom, hseen, hps => by
    have hp := hps p List.mem_cons_self
    obtain ⟨hknows, hasked⟩ := h.ask model hj hseen hp hroom
    have hcap : ((chainAsk model p nexts 0 ms).2 j).capacity = (ms j).capacity := by
      rcases chainAsk_put model p ms nexts 0 j with hi | hi <;> rw [hi]
      exact LruMap.put_capacity ..
    obtain ⟨hnodup, hmem⟩ := chainSent_once model hj ps hknows (hcap ▸ hroom)
      (fun q hq => (List.mem_cons.mp hq).elim (fun he => he ▸ hp) (hseen q)) fun q hq =>
        hps q (List.mem_cons_of_mem p hq)
    rw [chainSent]
    by_cases hin : p ∈ seen
    · rw [if_neg (fun ht => hasked.mp ht hin), List.nil_append]
      refine ⟨hnodup, fun q => ?_⟩
      have hother : q ∉ seen → q ≠ p := fun hq he => hq (he ▸ hin)
      rw [hmem, List.mem_cons, List.mem_cons]
      tauto
    · rw [if_pos (hasked.mpr hin), List.singleton_append]
      refine ⟨List.nodup_cons.mpr ⟨fun hagain => ((hmem p).mp hagain).2 List.mem_cons_self, hnodup⟩, fun q => ?_⟩
      have hfirst : q = p → q ∉ seen := fun he => he ▸ hin
      rw [List.mem_cons, hmem, List.mem_cons, List.mem_cons]
      tauto

end

end GptCache.Api
