/-
The arguments the model is called with.

`adapt` takes its own arguments out of `kwargs` at different places. Eight of
them go at the entrance of every cache (`popRequest_kwargs`), and the next
cache is given five of them anew (`nextKwargs`). Two go on one branch only:
`top_k` where a cache is searched, `hit_callback` where it has an answer to
offer (`lookUp_kwargs`). Down a chain nothing else is touched, and each of the
two survives unless some cache takes its branch (`descend_kwargs`).
-/
import GptCache.Adapter.Descent
import GptCache.Adapter.MapRun

namespace GptCache

open Caches (onOutside timeCal)

/-- The arguments that are the cache's, not the model's. -/
def controlKeys : List String :=
  ["search_only", "temperature", "cache_obj", "session", "require_object_store", "cache_context", "cache_skip",
    "cache_factor", "top_k", "hit_callback"]

/-- Those every cache takes out before it looks anything up. -/
def entryKeys : List String :=
  ["search_only", "temperature", "cache_obj", "session", "require_object_store", "cache_context", "cache_skip",
    "cache_factor"]

variable {B E R H D X L : Type} {rt : Runtime B X} {place : Nat} {c : Core.Cache B E R H D} {kwargs : Kwargs B}
  {s s' : Caches D X}

/-- `kwargs` without the arguments taken at the entrance of a cache. -/
def entered (kwargs : Kwargs B) : Kwargs B :=
  (((((((kwargs.erase "search_only").erase "temperature").erase "cache_obj").erase "session").erase
    "require_object_store").erase "cache_context").erase "cache_skip").erase "cache_factor"

theorem popCacheSkip_kwargs {temperature : ℚ} {p : Arg B × Kwargs B}
    (h : popCacheSkip rt temperature kwargs s = some (.ok p, s')) : p.2 = kwargs.erase "cache_skip" := by
  unfold popCacheSkip at h
  split at h
  · obtain ⟨skip, s₁, -, h⟩ := Exec.bind_ok.mp h
    rw [← (Exec.pure_ok.mp h).1]
    rfl
  · split at h <;> rw [← (Exec.pure_ok.mp h).1] <;> rfl

theorem popRequest_kwargs {r : Request B} (h : popRequest rt c kwargs s = some (.ok r, s')) :
    r.kwargs = entered kwargs := by
  obtain ⟨-, -, _, _, _, hskip, hr⟩ := popRequest_ok rt h
  rw [hr, popCacheSkip_kwargs hskip, entered]

theorem searchAnswers_kwargs [DecidableEq E] {r : Request B} {k : Embedded B E}
    {p : List (CacheAnswer B E R) × Kwargs B} (h : searchAnswers rt place c r k s = some (.ok p, s')) :
    p.2 = if k.embeddingData.isSome && !r.cacheSkip.truthy rt then r.kwargs.erase "top_k" else r.kwargs := by
  rcases searchAnswers_ok rt h with ⟨hskipped, rfl⟩ | ⟨hsearched, _, _, _, _, _, _, -, -, rfl⟩
  · rw [hskipped]
    rfl
  · rw [hsearched]
    rfl

theorem hitMessage_kwargs [DecidableEq B] {r : Request B} {k : Embedded B E} {answers : List (CacheAnswer B E R)}
    {p : Option (Content B) × Kwargs B} (h : hitMessage rt place c r k answers kwargs s = some (.ok p, s')) :
    p.2 = if answers.isEmpty then kwargs else kwargs.erase "hit_callback" := by
  cases answers with
  | nil => rw [← (Exec.pure_ok.mp h).1]; rfl
  | cons a answers =>
    simp only [hitMessage, Dict.pop] at h
    obtain ⟨_, s₁, -, h⟩ := Exec.bind_ok.mp h
    obtain ⟨message, s₂, -, h⟩ := Exec.bind_ok.mp h
    cases message with
    | none => rw [← (Exec.pure_ok.mp h).1]; rfl
    | some m =>
      obtain ⟨_, s₃, -, h⟩ := Exec.bind_ok.mp h
      rw [← (Exec.pure_ok.mp h).1]
      rfl

/-! ## What is left of the arguments -/

theorem without_entered {ks : List String} (h : ∀ k ∈ entryKeys, k ∈ ks) :
    (entered kwargs).without ks = kwargs.without ks := by
  simp only [entryKeys, List.forall_mem_cons] at h
  obtain ⟨h₁, h₂, h₃, h₄, h₅, h₆, h₇, h₈, -⟩ := h
  simp only [entered, Dict.without_erase, h₁, h₂, h₃, h₄, h₅, h₆, h₇, h₈]

theorem contains_entered {key : String} :
    (entered kwargs).contains key = (!decide (key ∈ entryKeys) && kwargs.contains key) := by
  simp only [entered, Dict.contains_erase, entryKeys, List.mem_cons, List.not_mem_nil, or_false]
  by_cases h : kwargs.contains key
  · simp only [h, Bool.and_true, Bool.decide_or, Bool.not_or]
    ac_rfl
  · simp [h]

/-- Nothing but the cache's own arguments is taken, and of the two that are
not taken at the entrance each is there as long as its branch is not taken. -/
structure Left (kwargs kwargs' : Kwargs B) (searched offered : Bool) : Prop where
  others : kwargs'.without controlKeys = kwargs.without controlKeys
  topK : kwargs'.contains "top_k" = (!searched && kwargs.contains "top_k")
  hitCallback : kwargs'.contains "hit_callback" = (!offered && kwargs.contains "hit_callback")

theorem nextKwargs_left (r : Request B) (kwargs : Kwargs B) : Left kwargs (nextKwargs place r kwargs) false false := by
  refine ⟨?_, ?_, ?_⟩
  · simp [nextKwargs, Dict.without_set, controlKeys]
  · simp [nextKwargs, Dict.contains_set]
  · simp [nextKwargs, Dict.contains_set]

theorem Left.trans {kwargs kwargs' kwargs'' : Kwargs B} {a b a' b' : Bool} (h : Left kwargs kwargs' a b)
    (h' : Left kwargs' kwargs'' a' b') : Left kwargs kwargs'' (a || a') (b || b') := by
  refine ⟨h'.others.trans h.others, ?_, ?_⟩
  · rw [h'.topK, h.topK, Bool.not_or]
    ac_rfl
  · rw [h'.hitCallback, h.hitCallback, Bool.not_or]
    ac_rfl

/-! ## One cache -/

variable [DecidableEq B] [DecidableEq E]

/-- What a cache leaves of the `kwargs` it was asked with. -/
theorem lookUp_kwargs {l : LookUp B E R} (h : lookUp rt place c kwargs s = some (.ok l, s')) :
    l.kwargs =
      let kwargs := if l.searched rt then (entered kwargs).erase "top_k" else entered kwargs
      if l.answers.isEmpty then kwargs else kwargs.erase "hit_callback" := by
  obtain ⟨s₁, s₂, s₃, kw, hr, -, hp, hq⟩ := lookUp_ok rt h
  have hkwargs : l.kwargs = if l.answers.isEmpty then kw else kw.erase "hit_callback" := hitMessage_kwargs hq
  have hkw : kw = if l.key.embeddingData.isSome && !l.request.cacheSkip.truthy rt then l.request.kwargs.erase "top_k"
      else l.request.kwargs := searchAnswers_kwargs hp
  rw [hkwargs, hkw, popRequest_kwargs hr]
  rfl

theorem lookUp_searchOnly {l : LookUp B E R} (h : lookUp rt place c kwargs s = some (.ok l, s')) :
    l.request.searchOnly = (kwargs.get? "search_only").getD (.bool false) := by
  obtain ⟨s₁, s₂, s₃, kw, hr, -, -, -⟩ := lookUp_ok rt h
  exact (popRequest_ok rt hr).1

theorem lookUp_left {l : LookUp B E R} (h : lookUp rt place c kwargs s = some (.ok l, s')) :
    Left kwargs l.kwargs (l.searched rt) (!l.answers.isEmpty) ∧ ∀ key ∈ entryKeys, l.kwargs.contains key = false := by
  have hentered : (entered kwargs).without controlKeys = kwargs.without controlKeys :=
    without_entered (by decide +kernel)
  have htopk : "top_k" ∈ controlKeys := by decide +kernel
  have hcallback : "hit_callback" ∈ controlKeys := by decide +kernel
  have htop : "top_k" ∉ entryKeys := by decide +kernel
  have hhit : "hit_callback" ∉ entryKeys := by decide +kernel
  rw [lookUp_kwargs h]
  refine ⟨⟨?_, ?_, ?_⟩, fun key hkey => ?_⟩
  · cases l.searched rt <;> cases l.answers.isEmpty <;>
      simp only [if_true, if_false, Bool.false_eq_true, Dict.without_erase _ htopk, Dict.without_erase _ hcallback,
        hentered]
  all_goals
    cases l.searched rt <;> cases l.answers.isEmpty <;>
      simp [Dict.contains_erase, contains_entered, *]

/-! ## A chain of caches -/

/-- **The arguments the model is called with**: the caller's, without those
taken at every entrance; `top_k` is left unless a cache was searched, and
`hit_callback` unless a cache had an answer to offer. -/
theorem descend_kwargs : ∀ {place : Nat} {c : Core.Cache B E R H D} {nexts : List (Core.Cache B E R H D)}
    {kwargs : Kwargs B} {s s' : Caches D X} {steps : List (Step B E R H D)} {p : Nat} {kw : Kwargs B},
    descend rt place c nexts kwargs s = some (.ok ⟨steps, .asked p kw⟩, s') →
    Left kwargs kw (steps.any fun step => step.lookUp.searched rt)
      (steps.any fun step => !step.lookUp.answers.isEmpty) ∧
      ∀ key ∈ entryKeys, kw.contains key = false
  | place, c, [], kwargs, s, s', steps, p, kw, h => by
    rw [descend] at h
    obtain ⟨l, s₁, hl, h⟩ := Exec.bind_ok.mp h
    cases hm : l.message with
    | some m => simp [hm, Exec.pure_ok] at h
    | none =>
      simp only [hm, Exec.pure_ok, Descent.mk.injEq, lastOutcome] at h
      obtain ⟨⟨rfl, hask⟩, -⟩ := h
      split at hask
      · cases hask
      · cases hask
        simpa using lookUp_left hl
  | place, c, n :: ns, kwargs, s, s', steps, p, kw, h => by
    rw [descend] at h
    obtain ⟨l, s₁, hl, h⟩ := Exec.bind_ok.mp h
    cases hm : l.message with
    | some m => simp [hm, Exec.pure_ok] at h
    | none =>
      simp only [hm] at h
      obtain ⟨d, s₂, hd, h⟩ := Exec.bind_ok.mp h
      obtain ⟨d', outcome⟩ := d
      simp only [Exec.pure_ok, Descent.mk.injEq] at h
      obtain ⟨⟨rfl, rfl⟩, -⟩ := h
      obtain ⟨hbelow, hnone⟩ := descend_kwargs hd
      have hpassed : Left l.kwargs (nextKwargs place l.request l.kwargs) false false :=
        nextKwargs_left l.request l.kwargs
      have hhere := (lookUp_left hl).1.trans hpassed
      refine ⟨?_, hnone⟩
      simpa [Bool.or_assoc] using hhere.trans hbelow

/-- **The model is called with the same arguments whichever path leads to
it**, exactly when a `top_k` meets a cache that is searched on the way, and a
`hit_callback` a cache that has an answer to offer. -/
theorem llm_kwargs_iff (callbacks : Callbacks B H D X L) (c : Core.Cache B E R H D)
    (nexts : List (Core.Cache B E R H D)) (kwargs : Kwargs B) {s s' : Caches D X} {steps : List (Step B E R H D)}
    {p : Nat} {kw : Kwargs B} (h : descend rt place c nexts kwargs s = some (.ok ⟨steps, .asked p kw⟩, s')) :
    adapt rt callbacks place c nexts kwargs s =
        (timeCal p .llm (onOutside (callbacks.llmHandler kw)) >>= climb callbacks steps) s' ∧
      (kw = kwargs.without controlKeys ↔
        (kwargs.contains "top_k" = true → ∃ step ∈ steps, step.lookUp.searched rt = true) ∧
          (kwargs.contains "hit_callback" = true → ∃ step ∈ steps, step.lookUp.answers ≠ [])) := by
  refine ⟨by rw [adapt_eq_descend, Exec.bind_of_ok _ h]; rfl, ?_⟩
  obtain ⟨hleft, hnone⟩ := descend_kwargs h
  have hkeys : (∀ key ∈ controlKeys, kw.contains key = false) ↔
      kw.contains "top_k" = false ∧ kw.contains "hit_callback" = false := by
    have happ : controlKeys = entryKeys ++ ["top_k", "hit_callback"] := rfl
    rw [happ]
    simp only [List.forall_mem_append, List.forall_mem_cons, List.not_mem_nil, false_imp_iff, implies_true, and_true]
    exact and_iff_right hnone
  rw [Dict.eq_without_iff hleft.others, hkeys, hleft.topK, hleft.hitCallback]
  refine and_congr ?_ ?_
  · cases kwargs.contains "top_k" <;> simp
  · cases kwargs.contains "hit_callback" <;> simp

/-- A model that answers whether it was given `key`. -/
def tells {D : Type} (key : String) : Callbacks Unit (Data Unit) D Unit Bool where
  llmHandler kwargs := pure (some (kwargs.contains key))
  cacheDataConvert _ := none
  updateCacheCallback d _ _ := pure (some d)
  falsy d := !d

/-- A cache that is disabled. -/
def disabledCache : Core.Cache Unit (Content Unit) (MapItem Unit (Content Unit)) (Data Unit)
    (MapDataManager Unit (Content Unit)) :=
  { mapCache Api.quiet with cacheEnableFunc := fun _ => false }

/-- `prompt` and `top_k`, as a caller gives them. -/
def promptTopK : Kwargs Unit := (Dict.empty.set "prompt" (.str "p")).set "top_k" (.num 3)

def emptyMaps : MapCaches Unit Unit := Api.fresh (fun _ => 2) (fun _ => "data_map.txt") (fun _ => true) ()

/-- The model gets a `top_k` that was meant for a cache that is disabled. -/
theorem top_k_leaks : (adapt Api.quiet (tells "top_k") 0 disabledCache [] promptTopK emptyMaps).map Prod.fst =
    some (.ok (some true)) := by
  decide +kernel

/-- The model is asked, and a cache was searched before. -/
def askedAfterSearch {B E R H D X : Type} (rt : Runtime B X)
    (run : Option (Except PyError (Descent B E R H D) × Caches D X)) : Bool :=
  match run with
  | some (.ok ⟨steps, .asked _ _⟩, _) => steps.any fun step => step.lookUp.searched rt
  | _ => false

/-- A cache that is searched keeps it. -/
theorem llm_kwargs_iff_searched : ∃ steps p kw s',
    descend Api.quiet 0 (mapCache Api.quiet) [] promptTopK emptyMaps = some (.ok ⟨steps, .asked p kw⟩, s') ∧
      kw = promptTopK.without controlKeys := by
  have hrun : askedAfterSearch Api.quiet (descend Api.quiet 0 (mapCache Api.quiet) [] promptTopK emptyMaps) = true := by
    decide +kernel
  unfold askedAfterSearch at hrun
  split at hrun
  · rename_i steps p kw s' h
    refine ⟨steps, p, kw, s', h, (llm_kwargs_iff (tells "top_k") _ _ _ h).2.mpr ⟨fun _ => List.any_eq_true.mp hrun, ?_⟩⟩
    intro hcallback
    exact absurd hcallback (by decide +kernel)
  · cases hrun

end GptCache
