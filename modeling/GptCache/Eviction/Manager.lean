/-
`EvictionBase.get` (gptcache/manager/eviction/manager.py) and when the objects
it makes can be put to.

A `clean_size` of `None` or `0` stands for a fifth of the capacity, computed
in floating point and truncated. Below a capacity of 5 that is 0: a batch is
then empty, the wrapped `popitem` makes no progress and the overflow loop of
the first insertion into a full cache never ends (`put_full_none`).
`insertion_returns_iff` is the exact condition.
-/
import Mathlib.Algebra.Order.Floor.Semiring
import Mathlib.Data.Fintype.EquivFin
import GptCache.Eviction.MemoryRun
import GptCache.Lib.Rounding

namespace GptCache

/-- `int(maxsize * 0.2)`. -/
def defaultCleanSize (maxsize : Nat) : Except PyError Nat :=
  if 2 ^ 1024 ≤ Binary64.round maxsize then .error ⟨.OverflowError, "int too large to convert to float"⟩
  else .ok ⌊Binary64.round (Binary64.round maxsize * Binary64.round (1 / 5))⌋₊

/-- `if not clean_size: clean_size = int(maxsize * 0.2)`. -/
def batchSize (maxsize : Nat) (cleanSize : Option Nat) : Except PyError Nat :=
  if cleanSize.getD 0 = 0 then defaultCleanSize maxsize else .ok (cleanSize.getD 0)

/-- What `EvictionBase.get` makes. The Redis client is made with the policy it
is told to configure, if any. -/
inductive EvictionObject (K α ω : Type) [DecidableEq K] where
  | memory (policy : Policy) (e : MemoryCacheEviction (policy.State K α) K α ω) (cache : policy.State K α)
  | redis (policy : Option String)
  | noOp

/-- `EvictionBase.get`; `name in "memory"` is a substring test. -/
def EvictionBase.get {K α ω : Type} [DecidableEq K] (draws : Nat → Nat) (name policy : String) (maxsize : Nat)
    (cleanSize : Option Nat) (onEvict : List K → Exec PyError ω Unit) (getsizeof : Value α → ℚ) :
    Except PyError (EvictionObject K α ω) := do
  let cleanSize ← batchSize maxsize cleanSize
  if name.toList <:+: "memory".toList then
    let ⟨policy, e, cache⟩ ← MemoryCacheEviction.init draws policy maxsize cleanSize onEvict getsizeof
    return .memory policy e cache
  if name = "redis" then return .redis (if policy = "LRU" then none else some policy)
  if name = "no_op_eviction" then return .noOp
  throw ⟨.NotFoundError, "Unsupported $eviction base: " ++ name⟩

/-- An in-memory object calls what it was made to call, and its cache starts empty. -/
theorem EvictionBase.get_memory_eq {K α ω : Type} [DecidableEq K] {draws : Nat → Nat} {name policyName : String}
    {maxsize : Nat} {cleanSize : Option Nat} {onEvict : List K → Exec PyError ω Unit} {getsizeof : Value α → ℚ}
    {policy : Policy} {e : MemoryCacheEviction (policy.State K α) K α ω} {cache : policy.State K α}
    (h : EvictionBase.get draws name policyName maxsize cleanSize onEvict getsizeof = .ok (.memory policy e cache)) :
    e.onEvict = onEvict ∧ cache = e.cls.new maxsize getsizeof := by
  simp only [EvictionBase.get, MemoryCacheEviction.init, bind, Except.bind, pure, Except.pure, throw, throwThe,
    MonadExceptOf.throw] at h
  split at h
  · cases h
  split at h
  · split at h
    · cases h
    · rename_i found hinit
      split at hinit
      · cases hinit
      · cases hinit
        cases h
        exact ⟨rfl, rfl⟩
  · split at h
    · cases h
    · split at h <;> cases h

theorem EvictionBase.get_onEvict {K α ω : Type} [DecidableEq K] {draws : Nat → Nat} {name policyName : String}
    {maxsize : Nat} {cleanSize : Option Nat} {onEvict : List K → Exec PyError ω Unit} {getsizeof : Value α → ℚ}
    {policy : Policy} {e : MemoryCacheEviction (policy.State K α) K α ω} {cache : policy.State K α}
    (h : EvictionBase.get draws name policyName maxsize cleanSize onEvict getsizeof = .ok (.memory policy e cache)) :
    e.onEvict = onEvict :=
  (get_memory_eq h).1

/-! ## The default batch -/

theorem fifth_of_four : Binary64.round (Binary64.round 4 * Binary64.round (1 / 5)) < 1 := by decide +kernel

theorem fifth_of_five : Binary64.round (Binary64.round 5 * Binary64.round (1 / 5)) = 1 := by decide +kernel

theorem fifth_mono {m n : ℚ} (hm : 0 ≤ m) (h : m ≤ n) :
    Binary64.round (Binary64.round m * Binary64.round (1 / 5)) ≤
      Binary64.round (Binary64.round n * Binary64.round (1 / 5)) := by
  have hfifth : 0 ≤ Binary64.round (1 / 5) := Binary64.round_nonneg (by norm_num)
  exact Binary64.round_mono (mul_nonneg (Binary64.round_nonneg hm) hfifth)
    (mul_le_mul_of_nonneg_right (Binary64.round_mono hm h) hfifth)

theorem defaultCleanSize_pos {maxsize n : Nat} (h : defaultCleanSize maxsize = .ok n) : 0 < n ↔ 5 ≤ maxsize := by
  unfold defaultCleanSize at h
  split at h
  · cases h
  · obtain rfl := Except.ok.inj h
    rw [Nat.floor_pos]
    refine ⟨fun h => ?_, fun h => ?_⟩
    · by_contra hlt
      have hle : (maxsize : ℚ) ≤ 4 := by exact_mod_cast (by omega : maxsize ≤ 4)
      exact absurd (h.trans ((fifth_mono (Nat.cast_nonneg _) hle).trans_lt fifth_of_four).le) (by
        have := (fifth_mono (Nat.cast_nonneg _) hle).trans_lt fifth_of_four
        linarith)
    · have hle : (5 : ℚ) ≤ maxsize := by exact_mod_cast h
      exact fifth_of_five.symm.trans_le (fifth_mono (by norm_num) hle)

theorem batchSize_pos {maxsize : Nat} {cleanSize : Option Nat} {n : Nat} (h : batchSize maxsize cleanSize = .ok n) :
    0 < n ↔ 0 < cleanSize.getD 0 ∨ 5 ≤ maxsize := by
  unfold batchSize at h
  split at h
  · rename_i hzero
    simp [defaultCleanSize_pos h, hzero]
  · obtain rfl := Except.ok.inj h
    have := Nat.pos_of_ne_zero ‹_›
    simp [this]

theorem batchSize_error {maxsize : Nat} {cleanSize : Option Nat} {err : PyError}
    (h : batchSize maxsize cleanSize = .error err) :
    err = ⟨.OverflowError, "int too large to convert to float"⟩ ∧ cleanSize.getD 0 = 0 ∧
      2 ^ 1024 ≤ Binary64.round maxsize := by
  unfold batchSize defaultCleanSize at h
  split at h
  · split at h
    · exact ⟨(Except.error.inj h).symm, ‹_›, ‹_›⟩
    · cases h
  · cases h

namespace MemoryCacheEviction

variable {σ K α ω : Type} [DecidableEq K] {e : MemoryCacheEviction σ K α ω} {m : Nat}

/-! ## Insertion with a batch of at least one -/

/-- A cache of unit-size entries within its capacity. -/
structure Sized (e : MemoryCacheEviction σ K α ω) (m : Nat) (s : σ × ω) : Prop where
  inv : e.cls.Inv s.1
  unit : ∀ v, (e.cls.cache s.1).getsizeof v = 1
  maxsize : (e.cls.cache s.1).maxsize = m
  le : (e.cls.cache s.1).data.len ≤ m

theorem new_sized (e : MemoryCacheEviction σ K α ω) (m : Nat) (w : ω) :
    Sized e m (e.cls.new m fun _ => 1, w) := by
  refine ⟨e.cls.new_inv _ _, fun v => ?_, ?_, ?_⟩ <;> simp [e.cls.new_cache, Cache.new]

theorem Sized.overflows {s : σ × ω} (h : Sized e m s) :
    (e.cls.cache s.1).overflows 1 = true ↔ (e.cls.cache s.1).data.len = m := by
  have := h.le
  simp only [Cache.overflows, h.maxsize, Cache.currsize_of_unit h.unit, decide_eq_true_eq]
  rw [← Nat.cast_succ, Nat.cast_lt]
  omega

/-- Unit sizes: only a new key needs room. -/
theorem Sized.needsRoom {s : σ × ω} (h : Sized e m s) (k : K) :
    (e.cls.cache s.1).needsRoom k 1 = !(e.cls.cache s.1).data.contains k := by
  simp only [Cache.needsRoom, Dict.contains]
  rcases (e.cls.cache s.1).data.get? k with _ | v <;> simp [h.unit]

theorem Sized.evicted {f : List K → ω → ω} {s s₁ : σ × ω} {popped : List K} {reported : List (List K)}
    (h : Sized e m s) (hev : e.Evicted f s s₁ popped reported) : Sized e m s₁ := by
  refine ⟨hev.inv, fun v => ?_, ?_, ?_⟩
  · rw [hev.cache, Cache.popAll_getsizeof, h.unit]
  · rw [hev.cache, Cache.popAll_maxsize, h.maxsize]
  · have := hev.len
    have := h.le
    omega

/-- A key that is there, or that there is room for, can be stored. -/
theorem Sized.store {s : σ × ω} (h : Sized e m s) {k : K}
    (hroom : (e.cls.cache s.1).data.contains k = false → (e.cls.cache s.1).data.len < m) (v : Value α) (w : ω) :
    Sized e m (e.cls.store s.1 k v, w) := by
  refine ⟨e.cls.store_inv k v h.inv, fun v => by simp [h.unit], by simp [h.maxsize], ?_⟩
  simp only [e.cls.store_cache, Cache.store_data]
  rcases hk : (e.cls.cache s.1).data.contains k with _ | _
  · rw [Dict.len_set_of_not_mem hk]
    exact hroom hk
  · rw [Dict.len_set_of_mem hk]
    exact h.le

/-- What each `popitem` keeps is kept by a batch that does not run dry. -/
theorem popKeys_induction {C : CacheClass σ K (Value α)} {J : σ → Prop} {n : Nat}
    (hpop : ∀ s, C.Inv s → J s → 0 < (C.cache s).data.len → n ≤ (C.cache s).data.len → J (C.popitem s).2) :
    ∀ (size : Nat) {s : σ}, C.Inv s → J s → size ≤ (C.cache s).data.len → n + size ≤ (C.cache s).data.len + 1 →
      J (popKeys C size s).2
  | 0, _, _, hJ, _, _ => hJ
  | size + 1, s, hinv, hJ, hsize, hn => by
    have hpos : 0 < (C.cache s).data.len := by omega
    obtain ⟨k, v, hv, hpopped, hinv₁, hcache⟩ := C.popitem_some hinv hpos
    have hlen := Dict.len_erase_add_one (Dict.contains_eq_true.mpr ⟨v, hv⟩)
    rw [← Cache.pop_data, ← hcache] at hlen
    have heq : (popKeys C (size + 1) s).2 = (popKeys C size (C.popitem s).2).2 := by
      rw [popKeys]
      rcases hq : C.popitem s with ⟨_ | ⟨k', v'⟩, s'⟩
      · rw [hq] at hpopped
        cases hpopped
      · dsimp only
        rcases popKeys C size s' with ⟨_ | _, _⟩ <;> rfl
    rw [heq]
    exact popKeys_induction hpop size hinv₁ (hpop s hinv hJ hpos (by omega)) (by omega) (by omega)

/-- And by an insertion whose batches do not, up to its store. -/
theorem setitem_induction {J : σ → Prop} {f : List K → ω → ω} (hf : e.onEvict = fun ks => Exec.modify (f ks))
    (hclean : 0 < e.cleanSize) (hle : e.cleanSize ≤ m) {fuel : Nat} (hfuel : m < fuel) {s s' : σ × ω} (hs : Sized e m s)
    (hpop : ∀ s, e.cls.Inv s → J s → 0 < (e.cls.cache s).data.len → m + 1 - e.cleanSize ≤ (e.cls.cache s).data.len →
      J (e.cls.popitem s).2)
    (hJ : J s.1) {k : K} {v : Value α} (hset : e.setitem fuel k v s = some (.ok (), s')) :
    ∃ s₁ : σ × ω, s' = (e.cls.store s₁.1 k v, s₁.2) ∧ e.cls.Inv s₁.1 ∧ J s₁.1 := by
  have hwp : Exec.wp (e.setitem fuel k v) (fun _ s' => ∃ s₁ : σ × ω, s' = (e.cls.store s₁.1 k v, s₁.2) ∧
      e.cls.Inv s₁.1 ∧ J s₁.1) (fun _ _ => True) s := by
    refine Exec.wp_mono (e.cls.wp_setitem (m := m) (g := fun _ => 1) (E := fun _ _ => True)
      (J := fun s₁ => Sized e m s₁ ∧ J s₁.1) (fun s₁ h => ⟨h.1.maxsize, funext h.1.unit⟩) (fun s₁ h hover _ => ?_)
      (fun _ => trivial) ⟨hs, hJ⟩ (hs.le.trans_lt hfuel)) (fun _ s' h => ?_) fun _ _ _ => trivial
    · obtain ⟨hsized, hJ₁⟩ := h
      have hlen : (e.cls.cache s₁.1).data.len = m := hsized.overflows.mp hover
      obtain ⟨s₂, popped, hrun, hs₂, hif⟩ := wrapper_evicted hf hsized.inv
      rw [if_pos (by omega)] at hif
      have hJ₂ := popKeys_induction hpop e.cleanSize hsized.inv hJ₁ (by omega) (by omega)
      rw [Exec.wp_of_ok hrun]
      refine ⟨⟨hsized.evicted hif.1, hs₂ ▸ hJ₂⟩, ?_⟩
      have := hif.1.len
      omega
    · obtain ⟨s₁, -, ⟨hsized, hJ₁⟩, -, hs'⟩ := h
      exact ⟨s₁, hs', hsized.inv, hJ₁⟩
  rwa [Exec.wp_of_ok hset] at hwp

/-- With a place at least no value is too large: an insertion evicts and stores. -/
theorem setitem_stores {f : List K → ω → ω} (hf : e.onEvict = fun ks => Exec.modify (f ks))
    (hclean : 0 < e.cleanSize) (hm : 1 ≤ m) {fuel : Nat} (hfuel : m < fuel) {s : σ × ω} (h : Sized e m s) (k : K)
    (v : Value α) :
    ∃ s₁ popped reported, e.setitem fuel k v s = some (.ok (), (e.cls.store s₁.1 k v, s₁.2)) ∧
      e.Evicted f s s₁ popped reported ∧ Sized e m (e.cls.store s₁.1 k v, s₁.2) ∧
      reported.flatten.length ≤ popped.length ∧
      (e.ItemFull fuel s.1 k v ↔ reported.flatten.length = popped.length) ∧
      (e.ItemFull fuel s.1 k v → reported.flatten = popped) := by
  have hm' : (1 : ℚ) ≤ m := by exact_mod_cast hm
  rcases setitem_evicted hf hclean h.inv (h.le.trans_lt hfuel) k v with ⟨-, hlarge⟩ |
    ⟨s₁, popped, reported, hset, hev, hroom, hle, hiff, heq⟩
  · rw [h.unit, h.maxsize] at hlarge
    exact absurd hm' (not_le.mpr hlarge)
  have h₁ : Sized e m s₁ := h.evicted hev
  refine ⟨s₁, popped, reported, hset, hev, h₁.store (fun hk => ?_) v s₁.2, hle, hiff, heq⟩
  rw [h.unit, h.needsRoom] at hroom
  have hfits : ¬ (e.cls.cache s₁.1).overflows 1 = true := by
    split at hroom
    · simp [hroom]
    · subst hroom; simp_all
  have := h₁.le
  have := h₁.overflows.not.mp hfits
  omega

theorem setitem_sized {f : List K → ω → ω} (hf : e.onEvict = fun ks => Exec.modify (f ks))
    (hclean : 0 < e.cleanSize) (hm : 1 ≤ m) {s : σ × ω} (h : Sized e m s) (k : K) (v : Value α) :
    ∃ s', e.setitem (m + 1) k v s = some (.ok (), s') ∧ Sized e m s' ∧
      (e.cls.cache s'.1).data.contains k = true := by
  obtain ⟨s₁, popped, reported, hset, -, hsized, -⟩ := setitem_stores hf hclean hm (Nat.lt_succ_self m) h k v
  exact ⟨_, hset, hsized, by simp [Dict.contains_set]⟩

theorem setitems_sized {f : List K → ω → ω} (hf : e.onEvict = fun ks => Exec.modify (f ks))
    (hclean : 0 < e.cleanSize) (hm : 1 ≤ m) : ∀ (items : List (K × Value α)) {s : σ × ω}, Sized e m s →
      ∃ s', e.setitems (m + 1) items s = some (.ok (), s') ∧ Sized e m s' ∧
        ∀ item ∈ items.getLast?, (e.cls.cache s'.1).data.contains item.1 = true
  | [], s, h => ⟨s, rfl, h, by simp⟩
  | item :: items, s, h => by
    obtain ⟨s₁, hset, h₁, hk⟩ := setitem_sized hf hclean hm h item.1 item.2
    obtain ⟨s₂, hsets, h₂, hlast⟩ := setitems_sized hf hclean hm items h₁
    refine ⟨s₂, ?_, h₂, ?_⟩
    · simp only [setitems, Exec.forEach_cons, bind, Exec.andThen, hset]
      exact hsets
    · rcases items with _ | ⟨item', items⟩
      · obtain rfl : s₂ = s₁ := by simpa [setitems, pure, Exec.ret] using hsets.symm
        simpa using hk
      · simpa using hlast

theorem get_sized {s : σ × ω} (h : Sized e m s) (k : K) :
    ∃ r s', e.get k s = some (r, s') ∧ Sized e m s' := by
  rcases hk : (e.cls.cache s.1).data.get? k with _ | v
  · exact ⟨.ok none, s, by simp only [get, Exec.total, e.cls.get_miss hk], h⟩
  · obtain ⟨-, hi, hc⟩ := e.cls.get_hit h.inv hk
    exact ⟨_, _, rfl, hi, fun v => by simp [hc, h.unit], by simp [hc, h.maxsize], by simpa [hc] using h.le⟩

theorem callResult_sized {f : List K → ω → ω} (hf : e.onEvict = fun ks => Exec.modify (f ks))
    (hclean : 0 < e.cleanSize) (hm : 1 ≤ m) {s : σ × ω} (h : Sized e m s) (c : Call K) :
    ∃ s', e.callResult (m + 1) s c = some s' ∧ Sized e m s' := by
  cases c with
  | put objs costs =>
    obtain ⟨s', hset, h', -⟩ := setitems_sized hf hclean hm (putItems objs costs) h
    exact ⟨s', by simp only [callResult, put_items, hset, Option.map_some], h'⟩
  | get k =>
    obtain ⟨r, s', hget, h'⟩ := get_sized h k
    exact ⟨s', by simp only [callResult, hget, Option.map_some], h'⟩

theorem run_sized {f : List K → ω → ω} (hf : e.onEvict = fun ks => Exec.modify (f ks))
    (hclean : 0 < e.cleanSize) (hm : 1 ≤ m) : ∀ (cs : List (Call K)) {s : σ × ω}, Sized e m s →
      ∃ s', e.run (m + 1) s cs = some s' ∧ Sized e m s'
  | [], s, h => ⟨s, rfl, h⟩
  | c :: cs, s, h => by
    obtain ⟨s₁, hcall, h₁⟩ := callResult_sized hf hclean hm h c
    obtain ⟨s₂, hrun, h₂⟩ := run_sized hf hclean hm cs h₁
    exact ⟨s₂, by simp only [run, hcall, hrun], h₂⟩

/-! ## The batches of one insertion -/

theorem Sized.batchesFull_of_lt {s : σ × ω} (h : Sized e m s) (hlt : (e.cls.cache s.1).data.len < m) (n : Nat) :
    e.BatchesFull 1 n s.1 := by
  cases n with
  | zero => trivial
  | succ n =>
    intro hover
    have := h.overflows.mp hover
    omega

/-- A new key takes one batch out of a full cache. -/
theorem Sized.itemFull_iff {s : σ × ω} (h : Sized e m s) (hclean : 0 < e.cleanSize) (hm : 1 ≤ m)
    (hlen : (e.cls.cache s.1).data.len = m) {k : K} (hk : (e.cls.cache s.1).data.contains k = false) (fuel : Nat)
    (v : Value α) : e.ItemFull (fuel + 1) s.1 k v ↔ e.cleanSize ≤ m := by
  have hm' : (1 : ℚ) ≤ m := by exact_mod_cast hm
  have hover : (e.cls.cache s.1).overflows 1 = true := h.overflows.mpr hlen
  have hitem : e.ItemFull (fuel + 1) s.1 k v ↔
      e.cleanSize ≤ m ∧ e.BatchesFull 1 fuel (popKeys e.cls e.cleanSize s.1).2 := by
    simp only [ItemFull, BatchesFull, h.unit, h.maxsize, hm', h.needsRoom, hk, hover, hlen,
      Bool.not_false, true_imp_iff]
  rw [hitem, and_iff_left_iff_imp]
  intro hle
  obtain ⟨ks, hinv, hcache, -, -, hsum, hif⟩ := popKeys_spec e.cls e.cleanSize h.inv
  rw [if_pos (hlen ▸ hle)] at hif
  have hafter : Sized e m ((popKeys e.cls e.cleanSize s.1).2, s.2) := by
    refine ⟨hinv, fun v => ?_, ?_, by dsimp only; omega⟩
    · rw [hcache, Cache.popAll_getsizeof, h.unit]
    · rw [hcache, Cache.popAll_maxsize, h.maxsize]
  exact hafter.batchesFull_of_lt (by dsimp only; omega) fuel

/-! ## Insertion with an empty batch -/

/-- Below the capacity an insertion pops nothing. -/
theorem setitem_fits (fuel : Nat) {s : σ × ω} (h : Sized e m s) {k : K}
    (hk : (e.cls.cache s.1).data.contains k = false) (hlt : (e.cls.cache s.1).data.len < m) (v : Value α) :
    e.setitem (fuel + 1) k v s = some (.ok (), (e.cls.store s.1 k v, s.2)) ∧
      Sized e m (e.cls.store s.1 k v, s.2) := by
  have hfits : (e.cls.cache s.1).overflows 1 = false := by
    rw [← Bool.not_eq_true, h.overflows]; omega
  have hone : ¬ (m : ℚ) < 1 := by exact_mod_cast (by omega : ¬ m < 1)
  have hloop : Exec.loop (fun s => (e.cls.cache s.1).overflows 1) (popitemWrapper e.cls e.onEvict e.cleanSize)
      (fuel + 1) s = some (.ok (), s) := by
    simp only [Exec.loop, hfits, Bool.false_eq_true, if_false]
  refine ⟨?_, h.store (fun _ => hlt) v s.2⟩
  simp only [setitem, CacheClass.setitem, bind, Exec.andThen, Exec.read, h.unit, h.maxsize, hone, if_false,
    h.needsRoom, hk, Bool.not_false, if_true, hloop, Exec.modify]

/-- A cache fills up to its capacity, whatever the batch size. -/
theorem setitems_fit (fuel : Nat) : ∀ (items : List (K × Value α)) {s : σ × ω}, Sized e m s →
    (items.map Prod.fst).Nodup → (∀ k ∈ items.map Prod.fst, (e.cls.cache s.1).data.contains k = false) →
    (e.cls.cache s.1).data.len + items.length ≤ m →
    ∃ s', e.setitems (fuel + 1) items s = some (.ok (), s') ∧ Sized e m s' ∧ s'.2 = s.2 ∧
      (e.cls.cache s'.1).data.len = (e.cls.cache s.1).data.len + items.length ∧
      ∀ k, (e.cls.cache s'.1).data.contains k = (decide (k ∈ items.map Prod.fst) || (e.cls.cache s.1).data.contains k)
  | [], s, h, _, _, _ => ⟨s, rfl, h, rfl, rfl, by simp⟩
  | item :: items, s, h, hnodup, hfresh, hle => by
    simp only [List.map_cons, List.nodup_cons, List.length_cons, List.forall_mem_cons] at hnodup hfresh hle ⊢
    obtain ⟨hset, h₁⟩ := setitem_fits fuel h hfresh.1 (by omega) item.2
    have hlen : (e.cls.cache (e.cls.store s.1 item.1 item.2)).data.len = (e.cls.cache s.1).data.len + 1 := by
      simp only [e.cls.store_cache, Cache.store_data, Dict.len_set_of_not_mem hfresh.1]
    have hcont : ∀ k, (e.cls.cache (e.cls.store s.1 item.1 item.2)).data.contains k =
        (decide (k = item.1) || (e.cls.cache s.1).data.contains k) := fun k => by
      simp only [e.cls.store_cache, Cache.store_data, Dict.contains_set]
    obtain ⟨s', hsets, h', henv, hlen', hcont'⟩ := setitems_fit fuel items h₁ hnodup.2
      (fun k hk => by
        rw [hcont, hfresh.2 k hk, Bool.or_false, decide_eq_false_iff_not]
        rintro rfl
        exact hnodup.1 hk)
      (by simp only [hlen]; omega)
    refine ⟨s', ?_, h', henv, by simp only [hlen', hlen]; omega, fun k => ?_⟩
    · simp only [setitems, Exec.forEach_cons, bind, Exec.andThen, hset]
      exact hsets
    · rw [hcont', hcont, ← Bool.or_assoc, ← Bool.decide_or]
      simp only [List.mem_cons, or_comm]

/-- A new key is not stored while the overflow loop has not ended. -/
theorem setitem_none (fuel : Nat) (hm : 1 ≤ m) {s : σ × ω} (h : Sized e m s) {k : K}
    (hk : (e.cls.cache s.1).data.contains k = false)
    (hloop : Exec.loop (fun s => (e.cls.cache s.1).overflows 1) (popitemWrapper e.cls e.onEvict e.cleanSize)
      fuel s = none) (v : Value α) : e.setitem fuel k v s = none := by
  have hone : ¬ (m : ℚ) < 1 := by exact_mod_cast (by omega : ¬ m < 1)
  simp only [setitem, CacheClass.setitem, bind, Exec.andThen, Exec.read, h.unit, h.maxsize, hone, if_false,
    h.needsRoom, hk, Bool.not_false, if_true, hloop]

/-- An empty batch: a new key never gets into a full cache. -/
theorem put_full_none {f : List K → ω → ω} (hf : e.onEvict = fun ks => Exec.modify (f ks))
    (hclean : e.cleanSize = 0) (hm : 1 ≤ m) {s : σ × ω} (h : Sized e m s)
    (hfull : (e.cls.cache s.1).data.len = m) {k : K} (hk : (e.cls.cache s.1).data.contains k = false)
    (fuel : Nat) : e.put fuel [k] none s = none := by
  have hloop : Exec.loop (fun s => (e.cls.cache s.1).overflows 1)
      (popitemWrapper e.cls e.onEvict e.cleanSize) fuel s = none :=
    Exec.loop_none (J := fun s' => s'.1 = s.1) (fun s' hs' => by rw [hs']; exact h.overflows.mpr hfull)
      (fun s' (hs' : s'.1 = s.1) => ⟨(s'.1, f [] s'.2), by rw [hf, hclean]; rfl, hs'⟩) fuel rfl
  rw [put_covered e fuel rfl]
  simp only [putItems, List.map_cons, setitems, Exec.forEach_cons, bind, Exec.andThen,
    setitem_none _ hm h hk hloop]

/-! ## When insertion returns -/

/-- From `s₀`, whatever was called before, a `put` with a cost for every
object (or none for any) returns, the key put last is tracked and no more
than `m` keys are. -/
def InsertionReturns (e : MemoryCacheEviction σ K α ω) (s₀ : σ × ω) (m : Nat) : Prop :=
  ∀ (cs : List (Call K)) (objs : List K) (costs : Option (List ℚ)), costsCover objs costs = true →
    ∃ fuel s s', e.run fuel s₀ cs = some s ∧ e.put fuel objs costs s = some (.ok (), s') ∧
      (e.cls.cache s'.1).data.len ≤ m ∧
      ∀ k ∈ objs.getLast?, (e.cls.cache s'.1).data.contains k = true

omit [DecidableEq K] in
theorem keys_putItems {objs : List K} {costs : Option (List ℚ)} (h : costsCover objs costs = true) :
    (putItems (α := α) objs costs).map Prod.fst = objs := by
  cases costs with
  | none => simp [putItems, Function.comp_def]
  | some costs =>
    have hle : objs.length ≤ costs.length := of_decide_eq_true h
    simp only [putItems, List.map_map]
    exact List.map_fst_zip hle

/-- What a `put` that returned stored last is in the cache. -/
theorem put_ok_last {e : MemoryCacheEviction σ K α ω} {fuel : Nat} {objs : List K} {costs : Option (List ℚ)}
    (h : costsCover objs costs = true) {s s' : σ × ω} (hput : e.put fuel objs costs s = some (.ok (), s')) :
    ∀ k ∈ objs.getLast?, (e.cls.cache s'.1).data.contains k = true := by
  intro k hk
  rw [← keys_putItems (α := α) h, List.getLast?_map] at hk
  obtain ⟨item, hitem, rfl⟩ := Option.mem_map.mp hk
  rw [e.put_covered fuel h] at hput
  exact e.setitems_ok_last fuel _ hput item hitem

theorem insertionReturns_of_pos {f : List K → ω → ω} (hf : e.onEvict = fun ks => Exec.modify (f ks))
    (hclean : 0 < e.cleanSize) (hm : 1 ≤ m) (w : ω) :
    InsertionReturns e (e.cls.new m fun _ => 1, w) m := by
  intro cs objs costs hcover
  obtain ⟨s, hrun, h⟩ := run_sized hf hclean hm cs (new_sized e m w)
  obtain ⟨s', hset, h', hlast⟩ := setitems_sized hf hclean hm (putItems objs costs) h
  refine ⟨m + 1, s, s', hrun, by rw [put_covered e (m + 1) hcover, hset], h'.le, fun k hk => ?_⟩
  rw [← keys_putItems (α := α) hcover, List.getLast?_map] at hk
  obtain ⟨item, hitem, rfl⟩ := Option.map_eq_some_iff.mp hk
  exact hlast item hitem

/-- `m` new keys fill an empty cache, unless there is no fuel at all. -/
theorem put_fills (fuel : Nat) (hm : 1 ≤ m) {objs : List K} (hnodup : objs.Nodup) (hlen : objs.length = m) (w : ω)
    {s : σ × ω} (hrun : e.run fuel (e.cls.new m fun _ => 1, w) [.put objs none] = some s) :
    Sized e m s ∧ (e.cls.cache s.1).data.len = m ∧ ∀ k ∉ objs, (e.cls.cache s.1).data.contains k = false := by
  have hnew := new_sized e m w
  have hempty : ∀ k, (e.cls.cache (e.cls.new m fun _ => 1)).data.contains k = false := by
    simp [Cache.new, Dict.contains]
  have hkeys : (putItems (α := α) objs none).map Prod.fst = objs := by simp [putItems, Function.comp_def]
  simp only [run, callResult, put_items] at hrun
  rcases fuel with _ | fuel
  · obtain ⟨obj, objs, rfl⟩ : ∃ obj objs', objs = obj :: objs' :=
      List.exists_cons_of_ne_nil fun h => by simp [h] at hlen; omega
    have hset := setitem_none 0 hm hnew (hempty obj) rfl (.bool true)
    simp only [putItems, List.map_cons, setitems, Exec.forEach_cons, bind, Exec.andThen, hset,
      Option.map_none, reduceCtorEq] at hrun
  · obtain ⟨s', hset, h', -, hlen', hcont⟩ := setitems_fit fuel (putItems (α := α) objs none) hnew
      (by rwa [hkeys]) (fun k _ => hempty k) (by simp [putItems, Cache.new, hlen])
    simp only [hset, Option.map_some, Option.some.injEq] at hrun
    subst hrun
    refine ⟨h', ?_, fun k hk => ?_⟩
    · simpa [putItems, Cache.new, hlen] using hlen'
    · rw [hcont, hkeys, hempty]
      simpa using hk

/-- `m + 1` keys put into an empty cache that takes empty batches. -/
theorem not_insertionReturns_of_zero [Infinite K] {f : List K → ω → ω}
    (hf : e.onEvict = fun ks => Exec.modify (f ks)) (hclean : e.cleanSize = 0) (hm : 1 ≤ m) (w : ω) :
    ¬ InsertionReturns e (e.cls.new m fun _ => 1, w) m := by
  intro h
  let key := Infinite.natEmbedding K
  obtain ⟨fuel, s, s', hrun, hput, -⟩ := h [.put ((List.range m).map key) none] [key m] none rfl
  obtain ⟨hs, hlen, hfresh⟩ := put_fills fuel hm (List.nodup_range.map key.injective) (by simp) w hrun
  have hk : key m ∉ (List.range m).map key := by simp
  rw [put_full_none hf hclean hm hs hlen (hfresh _ hk)] at hput
  cases hput

/-- **Insertion.** For an in-memory policy `EvictionBase.get` makes an object,
unless the default batch of a capacity no double can hold is asked for, and
insertion into that object returns, whatever was done before, just when a
batch size was given or the capacity is at least 5. -/
theorem insertion_returns_iff [Infinite K] (draws : Nat → Nat) (name policyName : String) (policy : Policy)
    (hname : name.toList <:+: "memory".toList) (hpolicy : Policy.ofString policyName = .ok policy)
    (maxsize : Nat) (hm : 1 ≤ maxsize) (cleanSize : Option Nat) (f : List K → ω → ω) (w : ω) :
    (EvictionBase.get draws name policyName maxsize cleanSize (fun ks => Exec.modify (f ks))
        (fun _ : Value α => 1) = .error ⟨.OverflowError, "int too large to convert to float"⟩ ∧
      cleanSize.getD 0 = 0 ∧ 2 ^ 1024 ≤ Binary64.round maxsize) ∨
    ∃ e s₀, EvictionBase.get draws name policyName maxsize cleanSize (fun ks => Exec.modify (f ks))
        (fun _ : Value α => 1) = .ok (.memory policy e s₀) ∧
      (InsertionReturns e (s₀, w) maxsize ↔ 0 < cleanSize.getD 0 ∨ 5 ≤ maxsize) := by
  have hget : ∀ n, batchSize maxsize cleanSize = .ok n →
      EvictionBase.get draws name policyName maxsize cleanSize (fun ks => Exec.modify (f ks))
        (fun _ : Value α => 1) = .ok (.memory policy (ofPolicy draws policy n fun ks => Exec.modify (f ks))
          ((policy.cacheClass draws K α).new maxsize fun _ => 1)) := by
    intro n hn
    simp only [EvictionBase.get, hn, hname, init, hpolicy, if_true]
    rfl
  have hiff : ∀ n, InsertionReturns (ofPolicy draws policy n fun ks => Exec.modify (f ks))
      ((policy.cacheClass draws K α).new maxsize (fun _ => 1), w) maxsize ↔ 0 < n := fun n =>
    ⟨fun h => Nat.pos_of_ne_zero fun hn => not_insertionReturns_of_zero (f := f) rfl hn hm w h,
      fun hn => insertionReturns_of_pos (f := f) rfl hn hm w⟩
  rcases hn : batchSize maxsize cleanSize with err | n
  · obtain ⟨rfl, hzero, hlarge⟩ := batchSize_error hn
    refine .inl ⟨?_, hzero, hlarge⟩
    simp only [EvictionBase.get, hn]
    rfl
  · refine .inr ⟨_, _, hget n hn, ?_⟩
    rw [hiff, batchSize_pos hn]

theorem insertion_returns_iff_lru :
    ∃ e s₀, EvictionBase.get id "memory" "LRU" 10 none (fun (_ : List Nat) => Exec.modify fun w : Unit => w)
        (fun _ : Value Unit => 1) = .ok (.memory .LRU e s₀) ∧ InsertionReturns e (s₀, ()) 10 := by
  rcases insertion_returns_iff (K := Nat) (α := Unit) id "memory" "LRU" .LRU
    (by decide) (by decide +kernel) 10 (by decide) none (fun _ w => w) () with ⟨-, -, hlarge⟩ | ⟨e, s₀, hget, hiff⟩
  · exact absurd hlarge (by decide +kernel)
  · exact ⟨e, s₀, hget, hiff.mpr (.inr (by decide))⟩

/-- A capacity of 4 and no batch size: the fifth key is never stored. -/
theorem insertion_stuck :
    ∃ e s₀ s, EvictionBase.get id "memory" "LRU" 4 none (fun (_ : List Nat) => Exec.modify fun w : Unit => w)
        (fun _ : Value Unit => 1) = .ok (.memory .LRU e s₀) ∧
      e.run 1 (s₀, ()) [.put [1, 2, 3, 4] none] = some s ∧ (∀ fuel, e.put fuel [5] none s = none) ∧
      ¬ InsertionReturns e (s₀, ()) 4 := by
  let e : MemoryCacheEviction (Policy.LRU.State Nat Unit) Nat Unit Unit :=
    ofPolicy id .LRU 0 fun _ => Exec.modify fun w => w
  have hbatch : batchSize 4 none = .ok 0 := by decide +kernel
  have hpolicy : Policy.ofString "LRU" = .ok .LRU := by decide +kernel
  have hget : EvictionBase.get id "memory" "LRU" 4 none (fun (_ : List Nat) => Exec.modify fun w : Unit => w)
      (fun _ : Value Unit => 1) = .ok (.memory .LRU e (e.cls.new (4 : Nat) fun _ => 1)) := by
    simp only [EvictionBase.get, hbatch, init, hpolicy]
    rfl
  have hfill : (e.run 1 (e.cls.new (4 : Nat) fun _ => 1, ()) [.put [1, 2, 3, 4] none]).isSome = true := by
    decide +kernel
  obtain ⟨s, hrun⟩ := Option.isSome_iff_exists.mp hfill
  obtain ⟨hs, hlen, hfresh⟩ := put_fills 1 (by decide) (by decide) rfl () hrun
  exact ⟨e, _, s, hget, hrun,
    put_full_none (f := fun _ w => w) rfl rfl (by decide) hs hlen (hfresh 5 (by decide)),
    not_insertionReturns_of_zero (f := fun _ w => w) rfl rfl (by decide) ()⟩

end MemoryCacheEviction

end GptCache
