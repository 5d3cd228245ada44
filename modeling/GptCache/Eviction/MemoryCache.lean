/-
`MemoryCacheEviction` and `popitem_wrapper`
(gptcache/manager/eviction/memory_cache.py), over any `cachetools` class.

The instance's `popitem` is replaced by the wrapper, so an insertion that
overflows pops a batch of `clean_size` keys at a time and hands it to
`on_evict`. The batch is one list comprehension under `except KeyError`: when
the cache runs dry part-way, the keys already popped are lost and `on_evict`
gets the empty list (`popKeys_spec`).
-/
import Mathlib.Data.Rat.Cast.CharZero
import GptCache.Eviction.Gdsf
import GptCache.Cachetools.Policies

namespace GptCache

inductive Policy where
  | LRU
  | LFU
  | FIFO
  | RR
  | GDSF
  deriving DecidableEq, Repr

/-- `policy.upper()` as `__init__` compares it. -/
def Policy.ofString (policy : String) : Except PyError Policy :=
  match policy.toUpper with
  | "LRU" => .ok .LRU
  | "LFU" => .ok .LFU
  | "FIFO" => .ok .FIFO
  | "RR" => .ok .RR
  | "GDSF" => .ok .GDSF
  | _ => .error ⟨.ValueError, "Unknown policy " ++ policy⟩

/-- The state of the cache `__init__` builds for a policy. -/
def Policy.State (K α : Type) : Policy → Type
  | .LRU => LRUCache K (Value α)
  | .LFU => LFUCache K (Value α)
  | .FIFO => FIFOCache K (Value α)
  | .RR => RRCache K (Value α)
  | .GDSF => GDSFCache K α

/-- The class of that cache; `draws` is what `random.choice` draws from. -/
def Policy.cacheClass (draws : Nat → Nat) (K α : Type) [DecidableEq K] :
    (policy : Policy) → CacheClass (policy.State K α) K (Value α)
  | .LRU => LRUCache.cacheClass K (Value α)
  | .LFU => LFUCache.cacheClass K (Value α)
  | .FIFO => FIFOCache.cacheClass K (Value α)
  | .RR => RRCache.cacheClass draws K (Value α)
  | .GDSF => GDSFCache.cacheClass K α

namespace Cache

variable {K V : Type} [DecidableEq K]

def popAll (c : Cache K V) (ks : List K) : Cache K V := ks.foldl pop c

@[simp] theorem popAll_nil (c : Cache K V) : c.popAll [] = c := rfl
@[simp] theorem popAll_cons (c : Cache K V) (k : K) (ks : List K) : c.popAll (k :: ks) = (c.pop k).popAll ks := rfl

theorem popAll_append (c : Cache K V) (ks ks' : List K) : c.popAll (ks ++ ks') = (c.popAll ks).popAll ks' :=
  List.foldl_append ..

@[simp] theorem popAll_maxsize (c : Cache K V) (ks : List K) : (c.popAll ks).maxsize = c.maxsize := by
  induction ks generalizing c with
  | nil => rfl
  | cons k ks ih => simp [ih]

@[simp] theorem popAll_getsizeof (c : Cache K V) (ks : List K) : (c.popAll ks).getsizeof = c.getsizeof := by
  induction ks generalizing c with
  | nil => rfl
  | cons k ks ih => simp [ih]

theorem popAll_history (c : Cache K V) (ks : List K) :
    (c.popAll ks).history = ks.reverse.map .popped ++ c.history := by
  induction ks generalizing c with
  | nil => rfl
  | cons k ks ih => simp [ih]

/-- What is still there is what was there. -/
theorem get?_of_popAll {c : Cache K V} {ks : List K} {k : K} {v : V} (h : (c.popAll ks).data.get? k = some v) :
    c.data.get? k = some v := by
  induction ks generalizing c with
  | nil => exact h
  | cons k' ks ih =>
    have := ih h
    by_cases hk : k = k'
    · simp [hk] at this
    · rwa [pop_data, Dict.get?_erase_of_ne _ hk] at this

theorem contains_popAll (c : Cache K V) (ks : List K) (k : K) :
    (c.popAll ks).data.contains k = true ↔ k ∉ ks ∧ c.data.contains k = true := by
  induction ks generalizing c with
  | nil => simp
  | cons k' ks ih =>
    simp only [popAll_cons, ih, pop_data, Dict.contains_erase, Bool.and_eq_true, Bool.not_eq_true',
      decide_eq_false_iff_not, List.mem_cons, not_or]
    tauto

end Cache

section
variable {σ K V ω : Type} [DecidableEq K] (C : CacheClass σ K V)

/-- `[func()[0] for _ in range(n)]`; `none` when a `func` raised `KeyError`. -/
def popKeys : Nat → σ → Option (List K) × σ
  | 0, s => (some [], s)
  | n + 1, s =>
    match C.popitem s with
    | (none, s') => (none, s')
    | (some (k, _), s') =>
      match popKeys n s' with
      | (none, s'') => (none, s'')
      | (some ks, s'') => (some (k :: ks), s'')

/-- `popitem_wrapper(func, wrapper_func, clean_size)`. -/
def popitemWrapper (onEvict : List K → Exec PyError ω Unit) (cleanSize : Nat) : Exec PyError (σ × ω) Unit := fun s =>
  let r := popKeys C cleanSize s.1
  let keys := r.1.getD []
  Exec.onSnd (onEvict keys) (r.2, s.2)

/-- What a batch pops: `n` distinct keys, and then it answers them; or all
there are, and then it answers nothing. -/
theorem popKeys_spec : ∀ (n : Nat) {s : σ}, C.Inv s →
    ∃ ks, C.Inv (popKeys C n s).2 ∧ C.cache (popKeys C n s).2 = (C.cache s).popAll ks ∧ ks.Nodup ∧
      (∀ k ∈ ks, (C.cache s).data.contains k = true) ∧
      ks.length + (C.cache (popKeys C n s).2).data.len = (C.cache s).data.len ∧
      (if n ≤ (C.cache s).data.len then (popKeys C n s).1 = some ks ∧ ks.length = n
       else (popKeys C n s).1 = none ∧ ks.length = (C.cache s).data.len)
  | 0, s, h => ⟨[], h, rfl, List.nodup_nil, by simp, by simp [popKeys], by simp [popKeys]⟩
  | n + 1, s, h => by
    rcases Nat.eq_zero_or_pos (C.cache s).data.len with hlen | hlen
    · obtain ⟨hp, hi, hc⟩ := C.popitem_empty h hlen
      have hk : popKeys C (n + 1) s = (none, (C.popitem s).2) := by
        rw [popKeys]
        rcases hq : C.popitem s with ⟨_ | _, s'⟩
        · rfl
        · rw [hq] at hp; cases hp
      rw [hk]
      exact ⟨[], hi, hc, List.nodup_nil, by simp, by simp [hc], by simp [hlen]⟩
    · obtain ⟨k, v, hk, hp, hi, hc⟩ := C.popitem_some h hlen
      obtain ⟨ks, hi', hc', hnodup, hmem, hsum, hif⟩ := popKeys_spec n hi
      have hcont : (C.cache s).data.contains k = true := Dict.contains_eq_true.mpr ⟨v, hk⟩
      have herase := Dict.len_erase_add_one hcont
      simp only [hc, Cache.pop_data, Dict.contains_erase, Bool.and_eq_true, Bool.not_eq_true',
        decide_eq_false_iff_not] at hmem hif hsum
      have heq : popKeys C (n + 1) s = ((popKeys C n (C.popitem s).2).1.map (k :: ·),
          (popKeys C n (C.popitem s).2).2) := by
        rw [popKeys]
        rcases hq : C.popitem s with ⟨_ | ⟨k', v'⟩, s'⟩
        · rw [hq] at hp; cases hp
        · rw [hq] at hp; cases hp
          dsimp only
          rcases popKeys C n s' with ⟨_ | _, _⟩ <;> rfl
      rw [heq]
      refine ⟨k :: ks, hi', by rw [hc', hc]; rfl, ?_, ?_, ?_, ?_⟩
      · exact List.nodup_cons.mpr ⟨fun hm => (hmem k hm).1 rfl, hnodup⟩
      · intro k' hk'
        rcases List.mem_cons.mp hk' with rfl | hm
        · exact hcont
        · exact (hmem k' hm).2
      · simp only [List.length_cons]; omega
      · by_cases hn : n ≤ ((C.cache s).data.erase k).len
        · rw [if_pos hn] at hif
          rw [if_pos (by omega)]
          exact ⟨by simp [hif.1], by simp [hif.2]⟩
        · rw [if_neg hn] at hif
          rw [if_neg (by omega)]
          exact ⟨by simp [hif.1], by simp only [List.length_cons, hif.2]; omega⟩

/-- The keys `on_evict` gets were cached. -/
theorem contains_of_mem_popKeys (n : Nat) {s : σ} (h : C.Inv s) {k : K} (hk : k ∈ (popKeys C n s).1.getD []) :
    (C.cache s).data.contains k = true := by
  obtain ⟨ks, -, -, -, hmem, -, hif⟩ := popKeys_spec C n h
  refine hmem k ?_
  split at hif
  · simpa [hif.1] using hk
  · simp [hif.1] at hk

end

/-! ## The eviction object -/

/-- What `MemoryCacheEviction.__init__` sets up: the cache's class, the
callback it wraps `popitem` with and the batch size. The cache itself and
what `on_evict` reaches are the state `σ × ω` its methods run on. -/
structure MemoryCacheEviction (σ K α ω : Type) [DecidableEq K] where
  cls : CacheClass σ K (Value α)
  cleanSize : Nat
  onEvict : List K → Exec PyError ω Unit

namespace MemoryCacheEviction

/-- The object `__init__` builds for a policy it knows. -/
def ofPolicy {K α ω : Type} [DecidableEq K] (draws : Nat → Nat) (policy : Policy) (cleanSize : Nat)
    (onEvict : List K → Exec PyError ω Unit) : MemoryCacheEviction (policy.State K α) K α ω :=
  ⟨policy.cacheClass draws K α, cleanSize, onEvict⟩

/-- `__init__`: the object and its cache, which starts empty. -/
def init {K α ω : Type} [DecidableEq K] (draws : Nat → Nat) (policy : String) (maxsize : ℚ) (cleanSize : Nat)
    (onEvict : List K → Exec PyError ω Unit) (getsizeof : Value α → ℚ) :
    Except PyError (Σ policy : Policy, MemoryCacheEviction (policy.State K α) K α ω × policy.State K α) :=
  match Policy.ofString policy with
  | .error err => .error err
  | .ok policy => .ok ⟨policy, ofPolicy draws policy cleanSize onEvict,
      (policy.cacheClass draws K α).new maxsize getsizeof⟩

variable {σ K α ω : Type} [DecidableEq K] (e : MemoryCacheEviction σ K α ω)

/-- `self._cache[obj] = value`, with the wrapped `popitem`. -/
def setitem (fuel : Nat) (k : K) (v : Value α) : Exec PyError (σ × ω) Unit :=
  e.cls.setitem (popitemWrapper e.cls e.onEvict e.cleanSize) fuel k v

/-- `costs[i] if costs is not None else True`. -/
def costAt (costs : Option (List ℚ)) (i : Nat) : Except PyError (Value α) :=
  match costs with
  | none => .ok (.bool true)
  | some costs =>
    match costs[i]? with
    | none => .error ⟨.IndexError, "list index out of range"⟩
    | some c => .ok (.num c)

/-- `for i, obj in enumerate(objs, i): self._cache[obj] = ...`. -/
def putFrom (fuel : Nat) (costs : Option (List ℚ)) : Nat → List K → Exec PyError (σ × ω) Unit
  | _, [] => pure ()
  | i, obj :: objs =>
    match costAt costs i with
    | .error err => Exec.raise err
    | .ok v => e.setitem fuel obj v >>= fun _ => putFrom fuel costs (i + 1) objs

def put (fuel : Nat) (objs : List K) (costs : Option (List ℚ)) : Exec PyError (σ × ω) Unit :=
  e.putFrom fuel costs 0 objs

/-- `self._cache.get(obj)`. -/
def get (obj : K) : Exec PyError (σ × ω) (Option (Value α)) := Exec.total fun s =>
  let r := e.cls.get s.1 obj
  (.ok r.1, (r.2, s.2))

/-- `self._cache[obj] = value` for one pair after another. -/
def setitems (fuel : Nat) (items : List (K × Value α)) : Exec PyError (σ × ω) Unit :=
  Exec.forEach (fun item => e.setitem fuel item.1 item.2) items

/-- The pairs a `put` stores, in order. -/
def putItems (objs : List K) : Option (List ℚ) → List (K × Value α)
  | none => objs.map fun obj => (obj, .bool true)
  | some costs => (objs.zip costs).map fun item => (item.1, .num item.2)

/-- A list of costs that is too short ends the loop with an `IndexError`. -/
def costsCover (objs : List K) : Option (List ℚ) → Bool
  | none => true
  | some costs => objs.length ≤ costs.length

omit [DecidableEq K] in
theorem length_putItems (objs : List K) (costs : Option (List ℚ)) :
    (putItems (α := α) objs costs).length ≤ objs.length := by
  cases costs <;> simp [putItems]

theorem putFrom_none (fuel : Nat) : ∀ (i : Nat) (objs : List K),
    e.putFrom fuel none i objs = e.setitems fuel (objs.map fun obj => (obj, .bool true))
  | _, [] => rfl
  | i, obj :: objs => by
    simp only [putFrom, costAt, setitems, List.map_cons, Exec.forEach_cons]
    rw [putFrom_none fuel (i + 1) objs]
    rfl

theorem putFrom_some (fuel : Nat) : ∀ (done costs : List ℚ) (objs : List K),
    e.putFrom fuel (some (done ++ costs)) done.length objs =
      e.setitems fuel (putItems objs (some costs)) >>= fun _ =>
        if costsCover objs (some costs) then pure () else Exec.raise ⟨.IndexError, "list index out of range"⟩
  | _, _, [] => rfl
  | done, [], obj :: objs => by simp [putFrom, costAt, putItems, setitems, costsCover]; rfl
  | done, cost :: costs, obj :: objs => by
    have hcost : costAt (α := α) (some (done ++ cost :: costs)) done.length = .ok (.num cost) := by
      simp [costAt]
    have ih := putFrom_some fuel (done ++ [cost]) costs objs
    simp only [List.append_assoc, List.cons_append, List.nil_append, List.length_append,
      List.length_cons, List.length_nil, Nat.zero_add] at ih
    simp only [putFrom, hcost, ih, setitems, putItems, costsCover, List.zip_cons_cons, List.map_cons,
      Exec.forEach_cons, List.length_cons, Nat.add_le_add_iff_right, Exec.bind_assoc]
    rfl

/-- A `put` is the loop over its pairs. -/
theorem put_eq (fuel : Nat) (objs : List K) (costs : Option (List ℚ)) :
    e.put fuel objs costs = e.setitems fuel (putItems objs costs) >>= fun _ =>
      if costsCover objs costs then pure () else Exec.raise ⟨.IndexError, "list index out of range"⟩ := by
  cases costs with
  | none =>
    rw [put, putFrom_none]
    exact (Exec.bind_pure_unit _).symm
  | some costs => exact e.putFrom_some fuel [] costs objs

/-- A `put` ends in the state the loop over its pairs ends in. -/
theorem put_items (fuel : Nat) (objs : List K) (costs : Option (List ℚ)) (s : σ × ω) :
    (e.put fuel objs costs s).map Prod.snd = (e.setitems fuel (putItems objs costs) s).map Prod.snd := by
  simp only [put_eq, bind, Exec.andThen]
  rcases e.setitems fuel (putItems objs costs) s with _ | ⟨_ | _, _⟩
  · rfl
  · rfl
  · cases costsCover objs costs <;> rfl

/-- With a cost for every object it is that loop. -/
theorem put_covered (fuel : Nat) {objs : List K} {costs : Option (List ℚ)} (h : costsCover objs costs = true) :
    e.put fuel objs costs = e.setitems fuel (putItems objs costs) := by
  rw [put_eq, h]
  exact Exec.bind_pure_unit _

theorem put_one (fuel : Nat) (obj : K) (cost : ℚ) :
    e.put fuel [obj] (some [cost]) = e.setitem fuel obj (.num cost) := by
  rw [e.put_covered fuel (by simp [costsCover])]
  exact Exec.bind_pure_unit _

section

variable {R : σ × ω → σ × ω → Prop} [Std.Refl R] [IsTrans _ R]

/-- A `put` does what evictions and stores do. -/
theorem within_put (fuel : Nat) (objs : List K) (costs : Option (List ℚ))
    (hpop : Exec.Within R (popitemWrapper e.cls e.onEvict e.cleanSize))
    (hstore : ∀ k v s, R s (e.cls.store s.1 k v, s.2)) : Exec.Within R (e.put fuel objs costs) := by
  rw [put_eq]
  refine (Exec.Within.forEach (fun item => ?_) _).bind fun _ => (Exec.Within.pure _).ite (.raise _)
  refine Exec.Within.read.bind fun s => (Exec.Within.raise _).ite (Exec.Within.bind ?_ fun _ => ?_)
  · exact (hpop.loop fuel).ite (.pure _)
  · exact .modify (hstore item.1 item.2)

end

/-- And outside the cache what `on_evict` does. -/
theorem within_put_snd {T : ω → ω → Prop} [Std.Refl T] [IsTrans _ T] (fuel : Nat) (objs : List K)
    (costs : Option (List ℚ))
    (hevict : ∀ ks, Exec.Within T (e.onEvict ks)) : Exec.Within (InvImage T Prod.snd) (e.put fuel objs costs) := by
  refine e.within_put fuel objs costs (fun s r s' hrun => ?_) fun k v s => Std.Refl.refl s.2
  exact hevict _ _ _ _ (Exec.onSnd_eq_some.mp hrun).1

/-- What a `put` that returned stored last is in the cache. -/
theorem setitems_ok_last (fuel : Nat) : ∀ (items : List (K × Value α)) {s s' : σ × ω},
    e.setitems fuel items s = some (.ok (), s') →
      ∀ item ∈ items.getLast?, (e.cls.cache s'.1).data.contains item.1 = true
  | [], _, _, _ => by simp
  | [item], s, s', h => by
    intro last hlast
    obtain rfl : item = last := by simpa using hlast
    rw [setitems, Exec.forEach_cons, Exec.forEach_nil, Exec.bind_pure_unit, setitem, CacheClass.setitem,
      Exec.read_bind] at h
    split at h
    · exact absurd h Exec.raise_ok
    · obtain ⟨-, s₁, -, h⟩ := Exec.bind_ok.mp h
      cases h
      simp [e.cls.store_cache, Dict.contains_set]
  | item :: next :: items, s, s', h => by
    rw [setitems, Exec.forEach_cons] at h
    obtain ⟨-, s₁, -, h⟩ := Exec.bind_ok.mp h
    simpa using setitems_ok_last fuel (next :: items) h

/-! ## One insertion -/

/-- Every batch the overflow loop takes from `s`, for a value of this size,
finds `clean_size` keys. -/
def BatchesFull (size : ℚ) : Nat → σ → Prop
  | 0, _ => True
  | n + 1, s => (e.cls.cache s).overflows size = true →
      e.cleanSize ≤ (e.cls.cache s).data.len ∧ BatchesFull size n (popKeys e.cls e.cleanSize s).2

instance decidableBatchesFull (size : ℚ) : ∀ (n : Nat) (s : σ), Decidable (e.BatchesFull size n s)
  | 0, _ => .isTrue trivial
  | n + 1, s =>
    have := decidableBatchesFull size n (popKeys e.cls e.cleanSize s).2
    inferInstanceAs (Decidable (_ → _ ∧ _))

/-- From `s` to `s'`, `popped` left the cache in that order and `on_evict` was
called with the batches `reported`, doing `f` of each. -/
structure Evicted (f : List K → ω → ω) (s s' : σ × ω) (popped : List K) (reported : List (List K)) : Prop where
  inv : e.cls.Inv s'.1
  cache : e.cls.cache s'.1 = (e.cls.cache s.1).popAll popped
  env : s'.2 = reported.foldl (fun w ks => f ks w) s.2
  nodup : popped.Nodup
  tracked : ∀ k ∈ popped, (e.cls.cache s.1).data.contains k = true
  len : popped.length + (e.cls.cache s'.1).data.len = (e.cls.cache s.1).data.len

variable {e}

theorem Evicted.refl {f : List K → ω → ω} {s : σ × ω} (h : e.cls.Inv s.1) : e.Evicted f s s [] [] :=
  ⟨h, rfl, rfl, List.nodup_nil, by simp, by simp⟩

theorem Evicted.trans {f : List K → ω → ω} {s s' s'' : σ × ω} {p p' : List K} {r r' : List (List K)}
    (h : e.Evicted f s s' p r) (h' : e.Evicted f s' s'' p' r') : e.Evicted f s s'' (p ++ p') (r ++ r') := by
  have hfresh : ∀ k ∈ p', k ∉ p ∧ (e.cls.cache s.1).data.contains k = true := fun k hk => by
    have := h'.tracked k hk
    rwa [h.cache, Cache.contains_popAll] at this
  refine ⟨h'.inv, ?_, ?_, ?_, ?_, ?_⟩
  · rw [h'.cache, h.cache, Cache.popAll_append]
  · rw [h'.env, h.env, List.foldl_append]
  · exact List.nodup_append.mpr ⟨h.nodup, h'.nodup, fun a ha b hb he => (hfresh b hb).1 (he ▸ ha)⟩
  · intro k hk
    rcases List.mem_append.mp hk with hk | hk
    · exact h.tracked k hk
    · exact (hfresh k hk).2
  · have := h.len
    have := h'.len
    simp only [List.length_append]; omega

/-- One call of the wrapped `popitem`: a full batch is reported, of a batch
that runs dry nothing is. -/
theorem wrapper_evicted {f : List K → ω → ω} (hf : e.onEvict = fun ks => Exec.modify (f ks)) {s : σ × ω}
    (h : e.cls.Inv s.1) :
    ∃ s' popped, popitemWrapper e.cls e.onEvict e.cleanSize s = some (.ok (), s') ∧
      s'.1 = (popKeys e.cls e.cleanSize s.1).2 ∧
      if e.cleanSize ≤ (e.cls.cache s.1).data.len then
        e.Evicted f s s' popped [popped] ∧ popped.length = e.cleanSize
      else e.Evicted f s s' popped [[]] ∧ popped.length = (e.cls.cache s.1).data.len := by
  obtain ⟨ks, hi, hc, hnodup, hmem, hlen, hif⟩ := popKeys_spec e.cls e.cleanSize h
  refine ⟨((popKeys e.cls e.cleanSize s.1).2, f ((popKeys e.cls e.cleanSize s.1).1.getD []) s.2), ks,
    ?_, rfl, ?_⟩
  · rw [hf]; rfl
  · split at hif
    · rename_i hfull
      rw [if_pos hfull]
      exact ⟨⟨hi, hc, by simp [hif.1], hnodup, hmem, hlen⟩, hif.2⟩
    · rename_i hfull
      rw [if_neg hfull]
      exact ⟨⟨hi, hc, by simp [hif.1], hnodup, hmem, hlen⟩, hif.2⟩

/-- The overflow loop: it ends with room for the value, having reported no
more than it popped, and all of it just when every batch was full. -/
theorem loop_evicted {f : List K → ω → ω} (hf : e.onEvict = fun ks => Exec.modify (f ks))
    (hclean : 0 < e.cleanSize) {size : ℚ} :
    ∀ (n : Nat) {s : σ × ω}, e.cls.Inv s.1 → size ≤ (e.cls.cache s.1).maxsize →
      (e.cls.cache s.1).data.len < n →
      ∃ s' popped reported,
        Exec.loop (fun s => (e.cls.cache s.1).overflows size) (popitemWrapper e.cls e.onEvict e.cleanSize) n s =
          some (.ok (), s') ∧
        e.Evicted f s s' popped reported ∧ (e.cls.cache s'.1).overflows size = false ∧
        reported.flatten.length ≤ popped.length ∧
        (e.BatchesFull size n s.1 ↔ reported.flatten.length = popped.length) ∧
        (e.BatchesFull size n s.1 → reported.flatten = popped)
  | 0, _, _, _, hn => absurd hn (Nat.not_lt_zero _)
  | n + 1, s, h, hsize, hn => by
    rcases hover : (e.cls.cache s.1).overflows size with _ | _
    · refine ⟨s, [], [], ?_, .refl h, hover, by simp, ?_, fun _ => rfl⟩
      · simp only [Exec.loop, hover, Bool.false_eq_true, if_false]
      · simp [BatchesFull, hover]
    · have hpos := Cache.len_pos_of_overflows hsize hover
      obtain ⟨s₁, batch, hw, hs₁, hif⟩ := wrapper_evicted hf h
      have hloop : ∀ r, Exec.loop (fun s => (e.cls.cache s.1).overflows size)
          (popitemWrapper e.cls e.onEvict e.cleanSize) n s₁ = r →
          Exec.loop (fun s => (e.cls.cache s.1).overflows size)
          (popitemWrapper e.cls e.onEvict e.cleanSize) (n + 1) s = r := by
        intro r hr
        simp only [Exec.loop, hover, if_true, bind, Exec.andThen, hw, hr]
      by_cases hfull : e.cleanSize ≤ (e.cls.cache s.1).data.len
      · rw [if_pos hfull] at hif
        obtain ⟨hev, hlen⟩ := hif
        have := hev.len
        obtain ⟨s', popped, reported, hl, hev', hover', hle, hiff, heq⟩ := loop_evicted hf hclean n hev.inv
          (by simpa [hev.cache] using hsize) (by omega)
        have hB : e.BatchesFull size (n + 1) s.1 ↔ e.BatchesFull size n s₁.1 := by
          simp only [BatchesFull, hover, true_imp_iff, hfull, true_and, hs₁]
        refine ⟨s', batch ++ popped, [batch] ++ reported, hloop _ hl, hev.trans hev', hover', ?_, ?_, ?_⟩
        · simp only [List.flatten_append, List.flatten_singleton, List.length_append]; omega
        · rw [hB, hiff]
          simp only [List.flatten_append, List.flatten_singleton, List.length_append]; omega
        · intro hb
          simp [heq (hB.mp hb)]
      · rw [if_neg hfull] at hif
        obtain ⟨hev, hlen⟩ := hif
        have := hev.len
        obtain ⟨s', popped, reported, hl, hev', hover', hle, -, -⟩ := loop_evicted hf hclean n hev.inv
          (by simpa [hev.cache] using hsize) (by omega)
        have hB : ¬ e.BatchesFull size (n + 1) s.1 := fun hb => hfull (hb hover).1
        refine ⟨s', batch ++ popped, [[]] ++ reported, hloop _ hl, hev.trans hev', hover', ?_, ?_,
          fun hb => absurd hb hB⟩
        · simp only [List.flatten_append, List.flatten_singleton, List.nil_append, List.length_append]; omega
        · simp only [hB, false_iff, List.flatten_append, List.flatten_singleton, List.nil_append,
            List.length_append]
          omega

/-- Storing this pair takes full batches only. -/
def ItemFull (e : MemoryCacheEviction σ K α ω) (fuel : Nat) (s : σ) (k : K) (v : Value α) : Prop :=
  (e.cls.cache s).getsizeof v ≤ (e.cls.cache s).maxsize →
    (e.cls.cache s).needsRoom k ((e.cls.cache s).getsizeof v) = true →
    e.BatchesFull ((e.cls.cache s).getsizeof v) fuel s

instance (e : MemoryCacheEviction σ K α ω) (fuel : Nat) (s : σ) (k : K) (v : Value α) :
    Decidable (e.ItemFull fuel s k v) :=
  inferInstanceAs (Decidable (_ → _ → _))

/-- What `self._cache[obj] = value` does: it rejects a value that is too
large, and else evicts and stores. -/
theorem setitem_evicted {f : List K → ω → ω} (hf : e.onEvict = fun ks => Exec.modify (f ks))
    (hclean : 0 < e.cleanSize) {fuel : Nat} {s : σ × ω} (h : e.cls.Inv s.1)
    (hfuel : (e.cls.cache s.1).data.len < fuel) (k : K) (v : Value α) :
    (e.setitem fuel k v s = some (.error ⟨.ValueError, "value too large"⟩, s) ∧
      (e.cls.cache s.1).maxsize < (e.cls.cache s.1).getsizeof v) ∨
    ∃ s₁ popped reported, e.setitem fuel k v s = some (.ok (), (e.cls.store s₁.1 k v, s₁.2)) ∧
      e.Evicted f s s₁ popped reported ∧
      (if (e.cls.cache s.1).needsRoom k ((e.cls.cache s.1).getsizeof v) then
        (e.cls.cache s₁.1).overflows ((e.cls.cache s.1).getsizeof v) = false else s₁ = s) ∧
      reported.flatten.length ≤ popped.length ∧
      (e.ItemFull fuel s.1 k v ↔ reported.flatten.length = popped.length) ∧
      (e.ItemFull fuel s.1 k v → reported.flatten = popped) := by
  by_cases hlarge : (e.cls.cache s.1).maxsize < (e.cls.cache s.1).getsizeof v
  · exact .inl ⟨by simp only [setitem, CacheClass.setitem, bind, Exec.andThen, Exec.read, hlarge,
      if_true, Exec.raise], hlarge⟩
  · have hfits : (e.cls.cache s.1).getsizeof v ≤ (e.cls.cache s.1).maxsize := not_lt.mp hlarge
    refine .inr ?_
    rcases hroom : (e.cls.cache s.1).needsRoom k ((e.cls.cache s.1).getsizeof v) with _ | _
    · refine ⟨s, [], [], ?_, .refl h, by simp, by simp, by simp [ItemFull, hroom], fun _ => rfl⟩
      simp only [setitem, CacheClass.setitem, bind, Exec.andThen, Exec.read, hlarge, hroom,
        Bool.false_eq_true, if_false, Exec.modify]
      rfl
    · obtain ⟨s₁, popped, reported, hl, hev, hover, hle, hiff, heq⟩ := loop_evicted hf hclean fuel h hfits hfuel
      have hB : e.ItemFull fuel s.1 k v ↔ e.BatchesFull ((e.cls.cache s.1).getsizeof v) fuel s.1 := by
        simp only [ItemFull, hfits, hroom, true_imp_iff]
      refine ⟨s₁, popped, reported, ?_, hev, by simpa using hover, hle, hB.trans hiff, fun hb => heq (hB.mp hb)⟩
      simp only [setitem, CacheClass.setitem, bind, Exec.andThen, Exec.read, hlarge, hroom, if_true,
        if_false, hl, Exec.modify]

end MemoryCacheEviction

end GptCache
