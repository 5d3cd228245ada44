/-
What `put` and `get` do to the maps behind a chain of caches.

`Bare` kwargs are those a `put` or `get` arrives with at any cache of the
chain. The lemmas follow `adapt` from step to step for such kwargs: what it
pops (`popRequest_defaults`), the key it makes (`embed_text`), what it finds
(`searchAnswers_hit`, `searchAnswers_miss`) and serves (`hitMessage_text`),
and what a `put` saves (`updateCacheFunc_text`). `chainPut` and `chainGet` are
a whole call on the maps alone; `adapt_put` and `adapt_get` show that the code
does that, and returns.
-/
import Mathlib.Tactic.NormNum.Ineq
import Mathlib.Algebra.Order.Field.Rat
import GptCache.Adapter.Api

namespace GptCache.Api

/-! ## Arguments -/

section

variable {B : Type}

/-- What every cache leaves of the `kwargs` of a call with `prompt`. -/
structure Carries (kwargs : Kwargs B) (prompt : String) : Prop where
  prompt : kwargs.get? "prompt" = some (.str prompt)
  temperature : kwargs.get? "temperature" = none
  session : kwargs.get? "session" = none
  requireObjectStore : kwargs.get? "require_object_store" = none
  hitCallback : kwargs.get? "hit_callback" = none

/-- The `kwargs` of a call with `prompt`, as a cache gets them: all other
arguments, where they are given at all, are the defaults. -/
structure Bare (kwargs : Kwargs B) (prompt : String) (skip : Bool) : Prop extends Carries kwargs prompt where
  searchOnly : (kwargs.get? "search_only").getD (.bool false) = .bool false
  cacheContext : (kwargs.get? "cache_context").getD (.context {}) = .context {}
  cacheSkip : (kwargs.get? "cache_skip").getD (.bool false) = .bool skip
  cacheFactor : (kwargs.get? "cache_factor").getD (.num 1) = .num 1

/-- The arguments of the cache are at their defaults, but for `cache_skip`. -/
structure Defaults (kwargs : Kwargs B) (skip : Bool) : Prop where
  temperature : kwargs.get? "temperature" = none
  session : kwargs.get? "session" = none
  requireObjectStore : kwargs.get? "require_object_store" = none
  searchOnly : (kwargs.get? "search_only").getD (.bool false) = .bool false
  cacheContext : (kwargs.get? "cache_context").getD (.context {}) = .context {}
  cacheSkip : (kwargs.get? "cache_skip").getD (.bool false) = .bool skip
  cacheFactor : (kwargs.get? "cache_factor").getD (.num 1) = .num 1

/-- What `adapt` leaves of `kwargs` before it looks anything up. -/
def leftover (kwargs : Kwargs B) : Kwargs B :=
  (((((((kwargs.erase "search_only").erase "temperature").erase "cache_obj").erase "session").erase
    "require_object_store").erase "cache_context").erase "cache_skip").erase "cache_factor"

/-- What a search leaves of `kwargs`. -/
def searched (kwargs : Kwargs B) : Kwargs B := (leftover kwargs).erase "top_k"

/-- The arguments `adapt` finds in such `kwargs`. -/
def bareRequest (skip : Bool) (kwargs : Kwargs B) : Request B where
  searchOnly := .bool false
  userTemperature := false
  userTopK := (kwargs.erase "search_only").contains "top_k"
  temperature := 0
  session := none
  cacheEnable := true
  context := {}
  cacheSkip := .bool skip
  cacheFactor := .num 1
  kwargs := leftover kwargs

variable {kwargs kwargs' : Kwargs B} {p : String} {skip : Bool} {place : Nat}

theorem Bare.defaults (h : Bare kwargs p skip) : Defaults kwargs skip :=
  ⟨h.temperature, h.session, h.requireObjectStore, h.searchOnly, h.cacheContext, h.cacheSkip, h.cacheFactor⟩

theorem Carries.leftover (h : Carries kwargs p) : Carries (leftover kwargs) p := by
  constructor <;> simp [Api.leftover, Dict.get?_erase, h.prompt, h.hitCallback]

theorem Carries.searched (h : Carries kwargs p) : Carries (searched kwargs) p := by
  constructor <;> simp [Api.searched, Dict.get?_erase, h.leftover.prompt, h.leftover.temperature,
    h.leftover.session, h.leftover.requireObjectStore, h.leftover.hitCallback]

/-- A call that goes on to the next cache arrives there as it arrived here. -/
theorem Carries.next (h : Carries kwargs' p) : Bare (nextKwargs place (bareRequest skip kwargs) kwargs') p skip := by
  constructor
  · constructor <;> simp [nextKwargs, Dict.get?_set, h.prompt, h.temperature, h.session,
      h.requireObjectStore, h.hitCallback]
  all_goals simp [nextKwargs, Dict.get?_set, bareRequest]

end

/-! ## One cache -/

variable {B X : Type} [DecidableEq B] (rt : Runtime B X)

/-- The caches' data managers hold these maps. -/
def Held (s : MapCaches B X) (ms : Nat → LruMap String String) : Prop :=
  ∀ i, MapDataManager.Holds (s.levels i).data (ms i)

/-- What there is beside the maps: what is outside of the caches, the files, and how often each cache was saved to. -/
structure Rest (B X : Type) where
  outside : X
  file : Nat → DataFile (LRUCache (Content B) (MapItem B (Content B)))
  saves : Nat → Nat

def restOf (s : MapCaches B X) : Rest B X :=
  ⟨s.outside, fun i => (s.levels i).data.2, fun i => (s.levels i).report.opSave⟩

/-- The caches hold these maps, the answers as `saved` has them, and the rest is this. -/
structure HeldAs (saved : String → Data B) (s : MapCaches B X) (ms : Nat → LruMap String String) (rest : Rest B X) :
    Prop where
  maps : ∀ i, MapDataManager.HoldsAs saved (s.levels i).data (ms i)
  rest : restOf s = rest

/-- How `put` saves a text. -/
def putAs (a : String) : Data B := .answers (.str a)

theorem heldAs_put {s : MapCaches B X} {ms : Nat → LruMap String String} : HeldAs putAs s ms (restOf s) ↔ Held s ms :=
  ⟨fun h => h.maps, fun h => ⟨h, rfl⟩⟩

/-- A cache initialised as `mapCache` is, but for its `pre_embedding_func`, that flushes after every `n` saves. -/
def keyedCache (pre : Kwargs B → Except PyError (Content B)) (n : Nat) :
    Core.Cache B (Content B) (MapItem B (Content B)) (Data B) (MapDataManager B (Content B)) :=
  { mapCache rt with
    preEmbeddingFunc := fun kwargs _ _ => Exec.ofExcept ((pre kwargs).map .single)
    config := { autoFlush := n } }

/-- A cache initialised as `mapCache` is, that flushes after every `n` saves. -/
abbrev flushedEvery (n : Nat) : Core.Cache B (Content B) (MapItem B (Content B)) (Data B)
    (MapDataManager B (Content B)) :=
  keyedCache rt (fun kwargs => .ok (getPrompt rt kwargs)) n

theorem mapCache_eq : mapCache rt = flushedEvery rt 20 := rfl

/-- The key of a text is the text. -/
def textKey (prompt : String) : Embedded B (Content B) := ⟨.str prompt, .str prompt, some (.str prompt)⟩

/-- The one answer of a hit. -/
def textAnswer (saved : String → Data B) (prompt answer : String) : CacheAnswer B (Content B) (MapItem B (Content B)) :=
  ⟨1, .str answer, MapDataManager.savedItem saved prompt answer, ⟨.plain (.str prompt), [⟨.str answer, .STR⟩], none⟩⟩

variable {saved : String → Data B} {rest : Rest B X} {kwargs : Kwargs B} {skip : Bool} {s : MapCaches B X}
  {E : PyError → MapCaches B X → Prop} {ms : Nat → LruMap String String} {n place : Nat} {p a : String}
  {pre : Kwargs B → Except PyError (Content B)}

omit [DecidableEq B] in
theorem restOf_reported {report : Report → Report} (h : ∀ r, (report r).opSave = r.opSave) :
    restOf (s.reported place report) = restOf s := by
  have hsaves : ∀ i, ((s.reported place report).levels i).report.opSave = (s.levels i).report.opSave := by
    intro i
    simp only [Caches.reported]
    split
    · exact h _
    · rfl
  simp only [restOf, Caches.reported_data, hsaves]
  rfl

theorem HeldAs.reported (hs : HeldAs saved s ms rest) (place : Nat) (report : Report → Report)
    (h : ∀ r, (report r).opSave = r.opSave) : HeldAs saved (s.reported place report) ms rest := by
  refine ⟨fun i => ?_, (restOf_reported h).trans hs.rest⟩
  rw [Caches.reported_data]
  exact hs.maps i

theorem HeldAs.withData {d : MapDataManager B (Content B)} {m : LruMap String String} (hs : HeldAs saved s ms rest)
    (hd : MapDataManager.HoldsAs saved d m) (hfile : d.2 = (s.levels place).data.2) :
    HeldAs saved (s.withData place d) (Function.update ms place m) rest := by
  refine ⟨fun i => ?_, ?_⟩
  · rw [Caches.withData_data]
    split
    · rename_i he
      subst he
      rwa [Function.update_self]
    · rename_i he
      rw [Function.update_of_ne he]
      exact hs.maps i
  · have hfiles : ∀ i, ((s.withData place d).levels i).data.2 = (s.levels i).data.2 := by
      intro i
      rw [Caches.withData_data]
      split
      · rename_i he
        rw [he]
        exact hfile
      · rfl
    have hsaves : ∀ i, ((s.withData place d).levels i).report = (s.levels i).report := by
      intro i
      simp only [Caches.withData]
      split <;> rfl
    rw [← hs.rest]
    simp only [restOf, hfiles, hsaves]
    rfl

omit [DecidableEq B] in
theorem popCacheSkip_zero (kwargs : Kwargs B) :
    popCacheSkip rt 0 kwargs = (pure (kwargs.pop "cache_skip" (.bool false)) :
      Exec PyError (MapCaches B X) (Arg B × Kwargs B)) := by
  simp only [popCacheSkip, lt_irrefl, false_and, if_false]
  rw [if_neg (by norm_num)]

theorem popRequest_defaults (h : Defaults kwargs skip) :
    Exec.wp (popRequest rt (keyedCache rt pre n) kwargs) (fun r s' => r = bareRequest skip kwargs ∧ s' = s) E s := by
  have htemp : (kwargs.erase "search_only").contains "temperature" = false := by
    simp [Dict.contains, Dict.get?_erase, h.temperature]
  simp [popRequest, Dict.pop, Dict.get?_erase, h.temperature, h.session, h.requireObjectStore,
    h.searchOnly, h.cacheContext, h.cacheSkip, h.cacheFactor, assertObjectStore, popCacheSkip_zero, Arg.truthy,
    keyedCache, mapCache, Arg.asNumber, Arg.asContext, Arg.asSession, bareRequest, htemp, leftover]

theorem embed_text (hkey : pre (leftover kwargs) = .ok (.str p)) (hs : HeldAs saved s ms rest) :
    Exec.wp (embed rt place (keyedCache rt pre n) (bareRequest skip kwargs))
      (fun k s' => k = textKey p ∧ HeldAs saved s' ms rest) E s := by
  have hreported := (hs.reported place .pre fun _ => rfl).reported place .embedding fun _ => rfl
  simpa [embed, keyedCache, mapCache, bareRequest, hkey, Except.map, textKey] using hreported

omit [DecidableEq B] in
theorem getPrompt_leftover (h : Carries kwargs p) : getPrompt rt (leftover kwargs) = .str p := by
  simp [getPrompt, h.leftover.prompt]

theorem default_le_one : Binary64.round (4 / 5) ≤ 1 := by decide +kernel

theorem rankThreshold_default : rankThreshold (0, 1) (Binary64.round (4 / 5)) 1 = Binary64.round (4 / 5) := by
  decide +kernel

theorem rankOne_text (hs : HeldAs saved s ms rest) (ha : MapDataManager.toAnswers (saved a) = .ok [⟨.str a, .STR⟩]) :
    Exec.wp (rankOne place (keyedCache rt pre n) (bareRequest skip kwargs) (textKey p) (Binary64.round (4 / 5))
      (MapDataManager.savedItem saved p a))
      (fun found s' => found = some (textAnswer saved p a) ∧ HeldAs saved s' ms rest) E s := by
  have hreported := (hs.reported place .data fun _ => rfl).reported place .evaluation fun _ => rfl
  simp [rankOne, keyedCache, mapCache, bareRequest, MapDataManager.dataManager, evalData, Entry.answer,
    exactMatchEvaluation, textKey, textAnswer, MapDataManager.getScalarData_savedItem ha]
  rw [if_pos default_le_one]
  simpa using hreported

theorem searchAnswers_skip (kwargs : Kwargs B) :
    searchAnswers rt place (keyedCache rt pre n) (bareRequest true kwargs) (textKey p) =
      (pure ([], leftover kwargs) : Exec PyError (MapCaches B X) _) := rfl

theorem searchAnswers_get (kwargs : Kwargs B) :
    searchAnswers rt place (keyedCache rt pre n) (bareRequest false kwargs) (textKey p) =
      (Caches.timeCal place .search (Caches.onData place (MapDataManager.search (.str p))) >>= fun found =>
        Exec.filterMap (rankOne place (keyedCache rt pre n) (bareRequest false kwargs) (textKey p)
          (Binary64.round (4 / 5)))
          (found.getD []) >>= fun answers =>
        pure (sortAnswers answers, searched kwargs) : Exec PyError (MapCaches B X) _) := by
  rw [← rankThreshold_default]
  rfl

theorem searchAnswers_hit (hs : HeldAs saved s ms rest) (hp : (ms place).entries.get? p = some a)
    (ha : MapDataManager.toAnswers (saved a) = .ok [⟨.str a, .STR⟩]) :
    Exec.wp (searchAnswers rt place (keyedCache rt pre n) (bareRequest false kwargs) (textKey p))
      (fun found s' => found = ([textAnswer saved p a], searched kwargs) ∧
        HeldAs saved s' (Function.update ms place ((ms place).get p).2) rest) E s := by
  simp only [searchAnswers_get, Exec.wp_bind, Caches.wp_timeCal, Caches.wp_onData]
  refine Exec.wp_mono (E := fun _ _ => False) (MapDataManager.search_hit (hs.maps place) hp) ?_ fun _ _ h => h.elim
  rintro - d ⟨rfl, hd, hfile⟩
  simp only [Option.getD_some, Exec.filterMap_cons, Exec.filterMap_nil, Exec.wp_bind, Exec.wp_pure]
  refine Exec.wp_mono (rankOne_text rt ((hs.withData hd hfile).reported place .search fun _ => rfl) ha) ?_
    fun _ _ h => h
  rintro - s' ⟨rfl, hs'⟩
  exact ⟨rfl, hs'⟩

theorem searchAnswers_miss (hs : HeldAs saved s ms rest) (hp : (ms place).entries.get? p = none) :
    Exec.wp (searchAnswers rt place (keyedCache rt pre n) (bareRequest false kwargs) (textKey p))
      (fun found s' => found = ([], searched kwargs) ∧ HeldAs saved s' ms rest) E s := by
  simp only [searchAnswers_get, Exec.wp_bind, Caches.wp_timeCal, Caches.wp_onData]
  refine Exec.wp_mono (E := fun _ _ => False) (MapDataManager.search_miss (hs.maps place) hp) ?_ fun _ _ h => h.elim
  rintro - d ⟨rfl, rfl⟩
  simp only [Option.getD_some, Exec.filterMap_nil, Exec.wp_pure, Caches.withData_same]
  exact ⟨rfl, hs.reported place .search fun _ => rfl⟩

/-- The answer of the hit is served, and nothing but the reports changes. -/
theorem hitMessage_text (hs : HeldAs saved s ms rest) {kwargs' : Kwargs B} (hcb : kwargs'.get? "hit_callback" = none) :
    Exec.wp (hitMessage rt place (keyedCache rt pre n) (bareRequest skip kwargs) (textKey p)
      [textAnswer saved p a] kwargs')
      (fun found s' => found.1 = some (.str a) ∧ HeldAs saved s' ms rest) E s := by
  have hreported := (hs.reported place .post fun _ => rfl).reported place .hintCache fun _ => rfl
  simpa [hitMessage, Dict.pop, hcb, hitCallback, postProcess, keyedCache, mapCache, temperatureSoftmax, bareRequest,
    textAnswer, recordHit, answersDict, Content.toStr, MapDataManager.dataManager] using hreported

/-- What `flush` makes of the file of a cache that holds `m`. -/
structure Flushed (saved : String → Data B) (m : LruMap String String)
    (file file' : DataFile (LRUCache (Content B) (MapItem B (Content B)))) : Prop where
  forbidden : file.permitted = false → file' = file
  permitted : file.permitted = true → ∃ data, file' = { file with content := some data } ∧
    LRUCache.Represents Content.str (MapDataManager.savedItem saved) data m

theorem flush_text (hs : HeldAs saved s ms rest) :
    Exec.wp (Caches.onData place MapDataManager.flush)
      (fun _ s' => ∃ file, Flushed saved (ms place) (rest.file place) file ∧
      HeldAs saved s' ms { rest with file := Function.update rest.file place file }) E s := by
  obtain ⟨hmaps, rfl⟩ := hs
  simp only [MapDataManager.flush, Caches.wp_onData, Exec.wp_modify]
  have hfile : ∀ d : MapDataManager B (Content B), d.1 = (s.levels place).data.1 →
      HeldAs saved (s.withData place d) ms { restOf s with file := Function.update (restOf s).file place d.2 } := by
    intro d hd
    have hreport : ∀ i, ((s.withData place d).levels i).report = (s.levels i).report := by
      intro i
      simp only [Caches.withData]
      split <;> rfl
    refine ⟨fun i => ?_, ?_⟩
    · rw [Caches.withData_data]
      split
      · rename_i he
        subst he
        rw [MapDataManager.HoldsAs, hd]
        exact hmaps i
      · exact hmaps i
    · simp only [restOf, hreport]
      congr 1
      funext i
      rw [Caches.withData_data]
      by_cases he : i = place
      · rw [if_pos he, he, Function.update_self]
      · rw [if_neg he, Function.update_of_ne he]
  split
  · rename_i hpermitted
    refine ⟨_, ⟨fun hf => ?_, fun _ => ⟨_, rfl, hmaps place⟩⟩, hfile (_, _) rfl⟩
    exact absurd (hf.symm.trans hpermitted) Bool.false_ne_true
  · rename_i hforbidden
    exact ⟨_, ⟨fun _ => rfl, fun ht => absurd ht hforbidden⟩, hfile _ rfl⟩

/-- A text is saved to the cache at `place`, whose map is `m` then. -/
structure Saved (saved : String → Data B) (n place : Nat) (m : LruMap String String) (rest rest' : Rest B X) :
    Prop where
  outside : rest'.outside = rest.outside
  saves : rest'.saves = Function.update rest.saves place (rest.saves place + 1)
  kept : (rest.saves place + 1) % n ≠ 0 → rest'.file place = rest.file place
  flushed : (rest.saves place + 1) % n = 0 → Flushed saved m (rest.file place) (rest'.file place)

omit [DecidableEq B] in
theorem restOf_saved : restOf (s.reported place .save) =
    { restOf s with saves := Function.update (restOf s).saves place ((restOf s).saves place + 1) } := by
  simp only [restOf, Caches.reported_data]
  congr 1
  funext i
  simp only [Caches.reported]
  by_cases he : i = place
  · rw [if_pos he, he, Function.update_self]
    rfl
  · rw [if_neg he, Function.update_of_ne he]

/-- The caches of a chain, and what answers behind one. -/
abbrev MapCore (B : Type) := Core.Cache B (Content B) (MapItem B (Content B)) (Data B) (MapDataManager B (Content B))

/-- Whatever the report counts, the flush that may follow a save keeps the map. -/
theorem updateCacheFunc_text {next : Option (MapCore B)}
    (hnext : ∀ c ∈ next, c.dataManager = MapDataManager.dataManager) (hn : 0 < n) (hs : HeldAs saved s ms rest) :
    Exec.wp (updateCacheFunc place (keyedCache rt pre n) next (bareRequest skip kwargs) (textKey p)
      (.str p) (saved a) none)
      (fun _ s' => ∃ rest', Saved saved n place ((ms place).put p a) rest rest' ∧
        HeldAs saved s' (Function.update ms place ((ms place).put p a)) rest') E s := by
  simp only [updateCacheFunc, Exec.wp_bind, Caches.wp_timeCal, Caches.wp_onData, Exec.wp_read]
  refine Exec.wp_mono (E := fun _ _ => False) (MapDataManager.save_text (hs.maps place) p a) (fun _ d hd => ?_)
    fun _ _ h => h.elim
  have hheld := hs.withData hd.1 hd.2
  have hsaved : HeldAs saved ((s.withData place d).reported place .save) (Function.update ms place ((ms place).put p a))
      { rest with saves := Function.update rest.saves place (rest.saves place + 1) } := by
    refine ⟨fun i => ?_, ?_⟩
    · rw [Caches.reported_data]
      exact hheld.maps i
    · rw [restOf_saved, hheld.rest]
  have hcount : (((s.withData place d).reported place .save).levels place).report.opSave = rest.saves place + 1 :=
    (congrFun (congrArg Rest.saves hsaved.rest) place).trans (Function.update_self ..)
  rw [hcount, if_neg (Nat.succ_ne_zero _), if_neg (show (keyedCache rt pre n).config.autoFlush ≠ 0 from hn.ne')]
  split
  · rename_i hzero
    simp only [flush, Exec.wp_bind]
    refine Exec.wp_mono (E := fun _ _ => False) (flush_text hsaved) ?_ fun _ _ h => h.elim
    rintro - s₁ ⟨file, hflushed, hs₁⟩
    rw [Function.update_self] at hflushed
    cases next with
    | none =>
      have hrest : Saved saved n place ((ms place).put p a) rest
          ⟨rest.outside, Function.update rest.file place file, Function.update rest.saves place
            (rest.saves place + 1)⟩ :=
        ⟨rfl, rfl, fun hne => absurd hzero hne, fun _ => by
          simpa only [Function.update_self] using hflushed⟩
      exact ⟨_, hrest, hs₁⟩
    | some c =>
      have hflush : c.dataManager.flush = MapDataManager.flush := by rw [hnext c rfl, MapDataManager.dataManager]
      simp only [hflush]
      refine Exec.wp_mono (E := fun _ _ => False) (flush_text hs₁) ?_ fun _ _ h => h.elim
      rintro - s₂ ⟨file₂, -, hs₂⟩
      have hrest : Saved saved n place ((ms place).put p a) rest
          ⟨rest.outside, Function.update (Function.update rest.file place file) (place + 1) file₂,
            Function.update rest.saves place (rest.saves place + 1)⟩ :=
        ⟨rfl, rfl, fun hne => absurd hzero hne, fun _ => by
          simpa only [Function.update_of_ne (show place ≠ place + 1 by omega), Function.update_self] using hflushed⟩
      exact ⟨_, hrest, hs₂⟩
  · rename_i hnot
    have hrest : Saved saved n place ((ms place).put p a) rest
        { rest with saves := Function.update rest.saves place (rest.saves place + 1) } :=
      ⟨rfl, rfl, fun _ => rfl, fun hzero => absurd hzero hnot⟩
    exact ⟨_, hrest, hsaved⟩

section

variable {L : Type} {callbacks : Callbacks B (Data B) (MapDataManager B (Content B)) X L}

/-- The first half of `adaptLevel`: the key is made, and no map changes. -/
theorem adaptLevel_text {next : Option (MapCore B × (Kwargs B → Exec PyError (MapCaches B X) (Option L)))}
    {Q : Option L → MapCaches B X → Prop} (h : Defaults kwargs skip) (hkey : pre (leftover kwargs) = .ok (.str p))
    (hs : HeldAs saved s ms rest) (hrespond : ∀ s', HeldAs saved s' ms rest →
      Exec.wp (respond rt place (keyedCache rt pre n) callbacks next (bareRequest skip kwargs) (textKey p)) Q E s') :
    Exec.wp (adaptLevel rt place (keyedCache rt pre n) callbacks next kwargs) Q E s := by
  simp only [adaptLevel, Exec.wp_bind]
  refine Exec.wp_mono (popRequest_defaults rt h) ?_ fun _ _ h => h
  rintro - s₁ ⟨rfl, rfl⟩
  refine Exec.wp_mono (embed_text rt hkey hs) ?_ fun _ _ h => h
  rintro - s₂ ⟨rfl, hs₂⟩
  exact hrespond s₂ hs₂

theorem adaptLevel_bare {next : Option (MapCore B × (Kwargs B → Exec PyError (MapCaches B X) (Option L)))}
    {Q : Option L → MapCaches B X → Prop} (h : Bare kwargs p skip) (hs : HeldAs saved s ms rest)
    (hrespond : ∀ s', HeldAs saved s' ms rest →
      Exec.wp (respond rt place (flushedEvery rt n) callbacks next (bareRequest skip kwargs) (textKey p)) Q E s') :
    Exec.wp (adaptLevel rt place (flushedEvery rt n) callbacks next kwargs) Q E s :=
  adaptLevel_text rt h.defaults (congrArg Except.ok (getPrompt_leftover rt h.toCarries)) hs hrespond

end

/-! ## put and get -/

/-- The last cache of the chain saves what is put. -/
theorem adaptLevel_put_last (h : Bare kwargs p true) (ha : a ≠ "") (hs : Held s ms) :
    Exec.wp (adaptLevel rt place (mapCache rt) (putCallbacks rt (.answers (.str a))) none kwargs)
      (fun v s' => v = none ∧ Held s' (Function.update ms place ((ms place).put p a))) E s := by
  rw [mapCache_eq]
  refine adaptLevel_bare rt h (heldAs_put.mpr hs) fun s' hs' => ?_
  have hfalsy : Data.falsy rt (.answers (.str a)) = false := by simp [Data.falsy, ha]
  simp only [respond, searchAnswers_skip, hitMessage, Exec.wp_pure, Exec.wp_bind]
  simp only [askBelow, Option.map_none, show (bareRequest true kwargs).searchOnly = .bool false from rfl,
    Arg.truthy, Bool.false_eq_true, if_false, putCallbacks, Caches.onOutside_pure, Exec.wp_bind, Caches.wp_timeCal,
    Exec.wp_pure, updateCache, hfalsy, show (textKey p : Embedded B _).embeddingData = some (.str p) from rfl,
    Exec.wp_catching]
  have hreported := hs'.reported place .llm fun _ => rfl
  rw [show (Data.answers (.str a) : Data B) = putAs a from rfl]
  refine Exec.wp_mono (E := fun _ _ => False) (updateCacheFunc_text rt (by simp) (by decide) hreported) ?_
    fun _ _ h => h.elim
  rintro - s'' ⟨rest', -, hs''⟩
  exact ⟨trivial, hs''.maps⟩

variable {c : MapCore B} {below : Kwargs B → Exec PyError (MapCaches B X) (Option (Data B))}
  {ms' : Nat → LruMap String String}

/-- Every other cache passes a `put` on, and, answered nothing, saves nothing. -/
theorem adaptLevel_put_next (h : Bare kwargs p true) (hs : Held s ms) {data : Data B}
    (hbelow : ∀ kwargs' s', Bare kwargs' p true → Held s' ms →
      Exec.wp (below kwargs') (fun v s'' => v = none ∧ Held s'' ms') E s') :
    Exec.wp (adaptLevel rt place (mapCache rt) (putCallbacks rt data) (some (c, below)) kwargs)
      (fun v s' => v = none ∧ Held s' ms') E s := by
  rw [mapCache_eq]
  refine adaptLevel_bare rt h (heldAs_put.mpr hs) fun s₂ hs₂ => ?_
  simp only [respond, searchAnswers_skip, hitMessage, Exec.wp_pure, Exec.wp_bind, askBelow, Option.map_some]
  refine Exec.wp_mono (hbelow _ s₂ h.leftover.next hs₂.maps) ?_ fun _ _ h => h
  rintro - s₃ ⟨rfl, hs₃⟩
  exact ⟨rfl, hs₃⟩

/-- A `get` answers what the cache holds and makes it the most recent. -/
theorem adaptLevel_get_hit {next : Option (MapCore B × (Kwargs B → Exec PyError (MapCaches B X) (Option (Data B))))}
    (h : Bare kwargs p false) (hs : Held s ms) (hp : (ms place).entries.get? p = some a) :
    Exec.wp (adaptLevel rt place (mapCache rt) (getCallbacks rt) next kwargs)
      (fun v s' => v = some (.answers (.str a)) ∧ Held s' (Function.update ms place ((ms place).get p).2)) E s := by
  rw [mapCache_eq]
  refine adaptLevel_bare rt h (heldAs_put.mpr hs) fun s₂ hs₂ => ?_
  simp only [respond, Exec.wp_bind]
  refine Exec.wp_mono (searchAnswers_hit rt hs₂ hp rfl) ?_ fun _ _ h => h
  rintro - s₃ ⟨rfl, hs₃⟩
  refine Exec.wp_mono (hitMessage_text rt hs₃ h.searched.hitCallback) ?_ fun _ _ h => h
  rintro ⟨_, kwargs'⟩ s₄ ⟨rfl, hs₄⟩
  exact ⟨rfl, hs₄.maps⟩

/-- A miss on the last cache is a miss. -/
theorem adaptLevel_get_last (h : Bare kwargs p false) (hs : Held s ms)
    (hp : (ms place).entries.get? p = none) :
    Exec.wp (adaptLevel rt place (mapCache rt) (getCallbacks rt) none kwargs)
      (fun v s' => v = none ∧ Held s' ms) E s := by
  rw [mapCache_eq]
  refine adaptLevel_bare rt h (heldAs_put.mpr hs) fun s₂ hs₂ => ?_
  simp only [respond, Exec.wp_bind]
  refine Exec.wp_mono (searchAnswers_miss rt hs₂ hp) ?_ fun _ _ h => h
  rintro - s₃ ⟨rfl, hs₃⟩
  exact ⟨rfl, (hs₃.reported place .llm fun _ => rfl).maps⟩

/-- What a `get` is answered from below is dropped: its callback returns nothing. -/
theorem updateCache_get {next : Option (MapCore B)} (r : Request B) (v : Option (Data B)) (kwargs : Kwargs B) :
    updateCache place (flushedEvery rt n) (getCallbacks rt) next r (textKey p) v kwargs =
      (pure none : Exec PyError (MapCaches B X) (Option (Data B))) := by
  rcases v with _ | d
  · rfl
  · simp only [updateCache, textKey]
    split <;> rfl

/-- A miss on any other cache is a miss, whatever is held below. -/
theorem adaptLevel_get_next (h : Bare kwargs p false) (hs : Held s ms) (hp : (ms place).entries.get? p = none)
    (hbelow : ∀ kwargs' s', Bare kwargs' p false → Held s' ms →
      Exec.wp (below kwargs') (fun _ s'' => Held s'' ms') E s') :
    Exec.wp (adaptLevel rt place (mapCache rt) (getCallbacks rt) (some (c, below)) kwargs)
      (fun v s' => v = none ∧ Held s' ms') E s := by
  rw [mapCache_eq]
  refine adaptLevel_bare rt h (heldAs_put.mpr hs) fun s₂ hs₂ => ?_
  simp only [respond, Exec.wp_bind]
  refine Exec.wp_mono (searchAnswers_miss rt hs₂ hp) ?_ fun _ _ h => h
  rintro - s₃ ⟨rfl, hs₃⟩
  simp only [hitMessage, Exec.wp_pure, Exec.wp_bind, askBelow, Option.map_some, updateCache_get]
  exact Exec.wp_mono (hbelow _ s₃ h.searched.next hs₃.maps) (fun _ _ h => ⟨trivial, h⟩) fun _ _ h => h

/-! ## The chain -/

/-- A `put` on the cache at `place`, with `nexts` caches behind it. -/
def chainPut (p a : String) (nexts place : Nat) (ms : Nat → LruMap String String) : Nat → LruMap String String :=
  Function.update ms (place + nexts) ((ms (place + nexts)).put p a)

/-- A `get` on the cache at `place`, with `nexts` caches behind it. -/
def chainGet (p : String) : Nat → Nat → (Nat → LruMap String String) →
    Option String × (Nat → LruMap String String)
  | 0, place, ms => (((ms place).get p).1, Function.update ms place ((ms place).get p).2)
  | nexts + 1, place, ms =>
    match (ms place).entries.get? p with
    | some a => (some a, Function.update ms place ((ms place).get p).2)
    | none => (none, (chainGet p nexts (place + 1) ms).2)

/-- **A `put` lands in the last cache of the chain.** -/
theorem adapt_put (ha : a ≠ "") : ∀ (nexts place : Nat) {kwargs : Kwargs B} {s : MapCaches B X},
    Bare kwargs p true → Held s ms →
    Exec.wp (adapt rt (putCallbacks rt (.answers (.str a))) place (mapCache rt)
      (List.replicate nexts (mapCache rt)) kwargs)
      (fun v s' => v = none ∧ Held s' (chainPut p a nexts place ms)) E s
  | 0, _, _, _, h, hs => adaptLevel_put_last rt h ha hs
  | nexts + 1, place, _, _, h, hs => by
    refine adaptLevel_put_next rt h hs fun kwargs' s' h' hs' => ?_
    have hnext := adapt_put ha nexts (place + 1) h' hs'
    rwa [chainPut, show place + 1 + nexts = place + (nexts + 1) by omega] at hnext

/-- **A `get` is answered by the first cache, or, when it is the only one, not at all.** -/
theorem adapt_get : ∀ (nexts : Nat) {place : Nat} {kwargs : Kwargs B} {s : MapCaches B X},
    Bare kwargs p false → Held s ms →
    Exec.wp (adapt rt (getCallbacks rt) place (mapCache rt) (List.replicate nexts (mapCache rt)) kwargs)
      (fun v s' => v = (chainGet p nexts place ms).1.map (fun a => .answers (.str a)) ∧
        Held s' (chainGet p nexts place ms).2) E s
  | 0, place, _, _, h, hs => by
    rcases hp : (ms place).entries.get? p with _ | a
    · simpa only [List.replicate_zero, adapt, chainGet, LruMap.get_miss hp, Function.update_eq_self,
        Option.map_none] using
        adaptLevel_get_last rt h hs hp
    · simpa only [List.replicate_zero, adapt, chainGet, LruMap.get_fst, hp, Option.map_some]
        using adaptLevel_get_hit rt h hs hp
  | nexts + 1, place, _, _, h, hs => by
    rcases hp : (ms place).entries.get? p with _ | a
    · simp only [chainGet, hp, Option.map_none]
      refine adaptLevel_get_next rt h hs hp fun kwargs' s' h' hs' => ?_
      exact Exec.wp_mono (adapt_get nexts h' hs') (fun _ _ h => h.2) fun _ _ h => h
    · simp only [chainGet, hp, Option.map_some]
      exact adaptLevel_get_hit rt h hs hp

/-- `cache_obj=` the cache at `place`. -/
def cacheObj (place : Nat) : Kwargs B := Dict.empty.set "cache_obj" (.cache place)

omit [DecidableEq B] in
theorem withKwargs_cacheObj (named : Kwargs B) :
    withKwargs named (cacheObj place) = named.set "cache_obj" (.cache place) := rfl

theorem put_text (ha : a ≠ "") (nexts : Nat) (hs : Held s ms) :
    Exec.wp (put rt place (mapCache rt) (List.replicate nexts (mapCache rt)) p (.answers (.str a)) (cacheObj place))
      (fun _ s' => Held s' (chainPut p a nexts place ms)) E s := by
  have hbare : Bare (withKwargs ((Dict.empty.set "cache_skip" (.bool true)).set "prompt" (.str p))
      (cacheObj place) : Kwargs B) p true := by
    rw [withKwargs_cacheObj]
    constructor
    · constructor <;> simp [Dict.get?_set]
    all_goals simp [Dict.get?_set]
  have hskip : (cacheObj place : Kwargs B).contains "cache_skip" = false := by
    simp [cacheObj, Dict.contains, Dict.get?_set]
  simp only [put, hskip, Bool.false_eq_true, if_false, Exec.wp_bind, Exec.wp_pure]
  exact Exec.wp_mono (adapt_put rt ha nexts place hbare hs) (fun _ _ h => h.2) fun _ _ h => h

theorem get_text (nexts : Nat) (hs : Held s ms) :
    Exec.wp (get rt place (mapCache rt) (List.replicate nexts (mapCache rt)) p (cacheObj place))
      (fun v s' => v = (chainGet p nexts place ms).1.map (fun a => .answers (.str a)) ∧
        Held s' (chainGet p nexts place ms).2) E s := by
  have hbare : Bare (withKwargs (Dict.empty.set "prompt" (.str p)) (cacheObj place) : Kwargs B) p false := by
    rw [withKwargs_cacheObj]
    constructor
    · constructor <;> simp [Dict.get?_set]
    all_goals simp [Dict.get?_set]
  exact adapt_get rt nexts hbare hs

end GptCache.Api
