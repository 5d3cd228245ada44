/-
Runs of a `MemoryCacheEviction` with an `on_evict` that does not raise: any
sequence of `put` and `get` calls. A `put` that raises (a value too large)
leaves what it has done so far, and the sequence goes on.

`on_evict` is any function on its own state; `recording` also notes the
batches it is called with. `notified_iff_full`: what left the cache is what
was reported, key by key and in order, just in the runs whose overflows each
find at least `clean_size` keys to pop.
-/
import GptCache.Eviction.MemoryCache

namespace GptCache

inductive Call (K : Type) where
  | put (objs : List K) (costs : Option (List ℚ))
  | get (obj : K)

/-- The pairs a call stores, in order. -/
def Call.items {K α : Type} : Call K → List (K × Value α)
  | .put objs costs => MemoryCacheEviction.putItems objs costs
  | .get _ => []

/-- How many pairs the calls store at most. -/
def stores {K : Type} : List (Call K) → Nat
  | [] => 0
  | .put objs _ :: cs => objs.length + stores cs
  | .get _ :: cs => stores cs

theorem items_add_stores_le {K α : Type} (c : Call K) (cs : List (Call K)) :
    (c.items (α := α)).length + stores cs ≤ stores (c :: cs) := by
  cases c with
  | put objs costs => exact Nat.add_le_add_right (MemoryCacheEviction.length_putItems objs costs) _
  | get k => simp [stores, Call.items]

/-- A callback that does `f` and notes the batch it was called with. -/
def recording {K ω : Type} (f : List K → ω → ω) (ks : List K) (w : ω × List (List K)) : ω × List (List K) :=
  (f ks w.1, w.2 ++ [ks])

theorem foldl_recording {K ω : Type} (f : List K → ω → ω) (batches : List (List K)) (w : ω × List (List K)) :
    (batches.foldl (fun w ks => recording f ks w) w).2 = w.2 ++ batches := by
  induction batches generalizing w with
  | nil => simp
  | cons ks batches ih => rw [List.foldl_cons, ih]; simp [recording]

namespace MemoryCacheEviction

variable {σ K α ω : Type} [DecidableEq K] (e : MemoryCacheEviction σ K α ω)

def callResult (fuel : Nat) (s : σ × ω) : Call K → Option (σ × ω)
  | .put objs costs => (e.put fuel objs costs s).map Prod.snd
  | .get obj => (e.get obj s).map Prod.snd

def run (fuel : Nat) : σ × ω → List (Call K) → Option (σ × ω)
  | s, [] => some s
  | s, c :: cs =>
    match e.callResult fuel s c with
    | none => none
    | some s' => run fuel s' cs

/-- Storing the pairs one after another takes full batches only. -/
def ItemsFull (fuel : Nat) : List (K × Value α) → σ × ω → Prop
  | [], _ => True
  | item :: items, s => e.ItemFull fuel s.1 item.1 item.2 ∧
      ∀ s', e.setitem fuel item.1 item.2 s = some (.ok (), s') → ItemsFull fuel items s'

instance decidableItemsFull (fuel : Nat) : ∀ (items : List (K × Value α)) (s : σ × ω),
    Decidable (e.ItemsFull fuel items s)
  | [], _ => .isTrue trivial
  | item :: items, s =>
    have : Decidable (∀ s', e.setitem fuel item.1 item.2 s = some (.ok (), s') → e.ItemsFull fuel items s') :=
      match h : e.setitem fuel item.1 item.2 s with
      | some (.ok (), s') =>
        have := decidableItemsFull fuel items s'
        decidable_of_iff (e.ItemsFull fuel items s') (by simp)
      | some (.error _, _) | none => .isTrue (by simp)
    inferInstanceAs (Decidable (_ ∧ _))

/-- Every overflow of the run finds at least `clean_size` keys. -/
def RunFull (fuel : Nat) : List (Call K) → σ × ω → Prop
  | [], _ => True
  | c :: cs, s => e.ItemsFull fuel c.items s ∧ ∀ s', e.callResult fuel s c = some s' → RunFull fuel cs s'

instance decidableRunFull (fuel : Nat) : ∀ (cs : List (Call K)) (s : σ × ω), Decidable (e.RunFull fuel cs s)
  | [], _ => .isTrue trivial
  | c :: cs, s =>
    have : ∀ s', Decidable (e.RunFull fuel cs s') := decidableRunFull fuel cs
    inferInstanceAs (Decidable (_ ∧ ∀ s' ∈ e.callResult fuel s c, e.RunFull fuel cs s'))

end MemoryCacheEviction

/-! ## The ledger -/

/-- The keys put so far less those that left since their last put. -/
def pending {K V : Type} [DecidableEq K] : List (Event K V) → K → Bool
  | [], _ => false
  | .stored k' _ :: h, k => k = k' || pending h k
  | .read _ :: h, k => pending h k
  | .deleted k' :: h, k | .popped k' :: h, k => k ≠ k' && pending h k

namespace Cache

variable {K V : Type} [DecidableEq K]

/-- A cache's entries are what its history leaves. -/
def Tracks (c : Cache K V) : Prop := ∀ k, c.data.contains k = pending c.history k

theorem Tracks.store {c : Cache K V} (h : c.Tracks) (k : K) (v : V) : (c.store k v).Tracks := fun k' => by
  simp [Dict.contains_set, pending, h k']

theorem Tracks.read {c : Cache K V} (h : c.Tracks) (k : K) : (c.read k).Tracks := fun k' => by
  simp [pending, h k']

theorem Tracks.pop {c : Cache K V} (h : c.Tracks) (k : K) : (c.pop k).Tracks := fun k' => by
  simp [Dict.contains_erase, pending, h k']

theorem Tracks.popAll {c : Cache K V} (h : c.Tracks) (ks : List K) : (c.popAll ks).Tracks := by
  induction ks generalizing c with
  | nil => exact h
  | cons k ks ih => exact ih (h.pop k)

end Cache

namespace MemoryCacheEviction

variable {σ K α ω : Type} [DecidableEq K] {e : MemoryCacheEviction σ K α (ω × List (List K))}
  {f : List K → ω → ω}

/-- What the caller of one insertion knows: `L` less the keys reported
meanwhile, and the key, if it was stored. -/
def noted (L : K → Bool) (k : K) (stored : Bool) (reported : List (List K)) (k' : K) : Bool :=
  (stored && k' = k) || (L k' && k' ∉ reported.flatten)

/-- The keys put so far less those reported since their last put. -/
def itemsLedger (e : MemoryCacheEviction σ K α (ω × List (List K))) (fuel : Nat) :
    List (K × Value α) → σ × ω × List (List K) → (K → Bool) → K → Bool
  | [], _, L => L
  | item :: items, s, L =>
    match e.setitem fuel item.1 item.2 s with
    | none => L
    | some (.error _, s') => noted L item.1 false (s'.2.2.drop s.2.2.length)
    | some (.ok _, s') => itemsLedger e fuel items s' (noted L item.1 true (s'.2.2.drop s.2.2.length))

def ledger (e : MemoryCacheEviction σ K α (ω × List (List K))) (fuel : Nat) :
    List (Call K) → σ × ω × List (List K) → (K → Bool) → K → Bool
  | [], _, L => L
  | c :: cs, s, L =>
    match e.callResult fuel s c with
    | none => L
    | some s' => ledger e fuel cs s' (itemsLedger e fuel c.items s L)

/-- What left the cache, in order. -/
def left (e : MemoryCacheEviction σ K α ω) (s : σ) : List K := evictions (e.cls.cache s).history.reverse

theorem left_eq {e : MemoryCacheEviction σ K α ω} {s s' : σ} {ks : List K} {v : Value α} {k : K}
    (h : e.cls.cache s' = ((e.cls.cache s).popAll ks).store k v) : e.left s' = e.left s ++ ks := by
  simp [left, h, Cache.popAll_history, evictions_append, evictions, ← List.map_reverse]

/-- The run invariant. `full` is what the run so far has met: reports fall
short of departures, and agree with them just when it is met. -/
structure Accounted (e : MemoryCacheEviction σ K α (ω × List (List K))) (full : Prop)
    (s : σ × ω × List (List K)) (L : K → Bool) : Prop where
  inv : e.cls.Inv s.1
  tracks : (e.cls.cache s.1).Tracks
  le : s.2.2.flatten.length ≤ (e.left s.1).length
  iff : full ↔ s.2.2.flatten.length = (e.left s.1).length
  eq : full → s.2.2.flatten = e.left s.1
  ledger : full → ∀ k, (e.cls.cache s.1).data.contains k = L k

theorem Accounted.iff_eq {full : Prop} {s : σ × ω × List (List K)} {L : K → Bool} (h : Accounted e full s L) :
    e.left s.1 = s.2.2.flatten ↔ full :=
  ⟨fun heq => h.iff.mpr (by rw [heq]), fun hf => (h.eq hf).symm⟩

theorem setitem_accounted (hf : e.onEvict = fun ks => Exec.modify (recording f ks)) (hclean : 0 < e.cleanSize)
    {full : Prop} {fuel : Nat} {s : σ × ω × List (List K)} {L : K → Bool} (h : Accounted e full s L)
    (hfuel : (e.cls.cache s.1).data.len < fuel) (k : K) (v : Value α) :
    (e.setitem fuel k v s = some (.error ⟨.ValueError, "value too large"⟩, s) ∧
      Accounted e (full ∧ e.ItemFull fuel s.1 k v) s (noted L k false [])) ∨
    ∃ s', e.setitem fuel k v s = some (.ok (), s') ∧
      Accounted e (full ∧ e.ItemFull fuel s.1 k v) s' (noted L k true (s'.2.2.drop s.2.2.length)) ∧
      (e.cls.cache s'.1).data.len ≤ (e.cls.cache s.1).data.len + 1 := by
  rcases setitem_evicted hf hclean h.inv hfuel k v with ⟨hset, hlarge⟩ |
    ⟨s₁, popped, reported, hset, hev, -, hle, hiff, heq⟩
  · refine .inl ⟨hset, ?_⟩
    have hitem : e.ItemFull fuel s.1 k v := fun hfits => absurd hlarge (not_lt.mpr hfits)
    have hL : noted L k false [] = L := by funext k'; simp [noted]
    simpa [hitem, hL] using h
  · have hcache : e.cls.cache (e.cls.store s₁.1 k v) = ((e.cls.cache s.1).popAll popped).store k v := by
      rw [e.cls.store_cache, hev.cache]
    have hleft := left_eq hcache
    have hlog : s₁.2.2 = s.2.2 ++ reported := by rw [hev.env, foldl_recording]
    have h1 := h.le
    refine .inr ⟨_, hset, ⟨e.cls.store_inv k v hev.inv, ?_, ?_, ?_, ?_, ?_⟩, ?_⟩
    · rw [hcache]; exact (h.tracks.popAll popped).store k v
    · simp only [hleft, hlog, List.flatten_append, List.length_append]; omega
    · simp only [hleft, hlog, List.flatten_append, List.length_append, h.iff, hiff]; omega
    · rintro ⟨hfull, hitem⟩
      simp only [hleft, hlog, List.flatten_append, h.eq hfull, heq hitem]
    · rintro ⟨hfull, hitem⟩ k'
      simp only [hlog, List.drop_left, noted, heq hitem, hcache, Cache.store_data, Dict.contains_set,
        Bool.true_and, ← h.ledger hfull k']
      congr 1
      rw [Bool.eq_iff_iff, Cache.contains_popAll]
      simp [and_comm]
    · have hlen := hev.len
      simp only [e.cls.store_cache, Cache.store_data]
      rcases hc : (e.cls.cache s₁.1).data.contains k with _ | _
      · rw [Dict.len_set_of_not_mem hc]; omega
      · rw [Dict.len_set_of_mem hc]; omega

theorem setitems_accounted (hf : e.onEvict = fun ks => Exec.modify (recording f ks)) (hclean : 0 < e.cleanSize)
    (fuel : Nat) : ∀ (items : List (K × Value α)) {full : Prop} {s : σ × ω × List (List K)} {L : K → Bool},
      Accounted e full s L → (e.cls.cache s.1).data.len + items.length < fuel + 1 →
      ∃ r s', e.setitems fuel items s = some (r, s') ∧
        Accounted e (full ∧ e.ItemsFull fuel items s) s' (e.itemsLedger fuel items s L) ∧
        (e.cls.cache s'.1).data.len ≤ (e.cls.cache s.1).data.len + items.length
  | [], full, s, L, h, _ => ⟨.ok (), s, rfl, by simpa [ItemsFull, itemsLedger] using h, by simp⟩
  | item :: items, full, s, L, h, hfuel => by
    simp only [List.length_cons] at hfuel ⊢
    rcases setitem_accounted hf hclean h (by omega : _ < fuel) item.1 item.2 with ⟨hset, hacc⟩ | ⟨s₁, hset, hacc, hlen⟩
    · refine ⟨.error ⟨.ValueError, "value too large"⟩, s, ?_, ?_, by omega⟩
      · simp only [setitems, Exec.forEach_cons, bind, Exec.andThen, hset]
      · have hI : e.ItemsFull fuel (item :: items) s ↔ e.ItemFull fuel s.1 item.1 item.2 := by
          simp [ItemsFull, hset]
        simpa only [hI, itemsLedger, hset, List.drop_length] using hacc
    · obtain ⟨r', s₂, hsets, hacc', hlen'⟩ := setitems_accounted hf hclean fuel items hacc (by omega)
      refine ⟨r', s₂, ?_, ?_, by omega⟩
      · simp only [setitems, Exec.forEach_cons, bind, Exec.andThen, hset]
        exact hsets
      · have hI : e.ItemsFull fuel (item :: items) s ↔
            e.ItemFull fuel s.1 item.1 item.2 ∧ e.ItemsFull fuel items s₁ := by
          simp [ItemsFull, hset]
        simpa only [hI, itemsLedger, hset, and_assoc] using hacc'

theorem get_accounted {full : Prop} {s : σ × ω × List (List K)} {L : K → Bool} (h : Accounted e full s L) (k : K) :
    ∃ r s', e.get k s = some (r, s') ∧ Accounted e full s' L ∧
      (e.cls.cache s'.1).data.len = (e.cls.cache s.1).data.len := by
  rcases hk : (e.cls.cache s.1).data.get? k with _ | v
  · refine ⟨.ok none, s, ?_, h, rfl⟩
    simp only [get, Exec.total, e.cls.get_miss hk]
  · obtain ⟨hv, hi, hc⟩ := e.cls.get_hit h.inv hk
    have hleft : e.left (e.cls.get s.1 k).2 = e.left s.1 := by
      simp [left, hc, evictions_append, evictions]
    refine ⟨_, _, rfl, ⟨hi, ?_, ?_, ?_, ?_, ?_⟩, ?_⟩
    · rw [hc]; exact h.tracks.read k
    · simpa only [hleft] using h.le
    · simpa only [hleft] using h.iff
    · simpa only [hleft] using h.eq
    · simpa only [hc, Cache.read_data] using h.ledger
    · simp only [hc, Cache.read_data]

theorem run_accounted (hf : e.onEvict = fun ks => Exec.modify (recording f ks)) (hclean : 0 < e.cleanSize)
    (fuel : Nat) : ∀ (cs : List (Call K)) {full : Prop} {s : σ × ω × List (List K)} {L : K → Bool},
      Accounted e full s L → (e.cls.cache s.1).data.len + stores cs < fuel + 1 →
      ∃ s', e.run fuel s cs = some s' ∧ Accounted e (full ∧ e.RunFull fuel cs s) s' (e.ledger fuel cs s L)
  | [], full, s, L, h, _ => ⟨s, rfl, by simpa [RunFull, MemoryCacheEviction.ledger] using h⟩
  | c :: cs, full, s, L, h, hfuel => by
    have hstores := items_add_stores_le (α := α) c cs
    obtain ⟨s₁, hcall, hacc, hlen⟩ : ∃ s₁, e.callResult fuel s c = some s₁ ∧
        Accounted e (full ∧ e.ItemsFull fuel c.items s) s₁ (e.itemsLedger fuel c.items s L) ∧
        (e.cls.cache s₁.1).data.len ≤ (e.cls.cache s.1).data.len + (c.items (α := α)).length := by
      cases c with
      | put objs costs =>
        obtain ⟨r, s₁, hset, hacc, hlen⟩ :=
          setitems_accounted hf hclean fuel (putItems objs costs) h (by simp only [Call.items] at hstores; omega)
        exact ⟨s₁, by simp only [callResult, put_items, hset, Option.map_some], hacc, hlen⟩
      | get k =>
        obtain ⟨r, s₁, hget, hacc, hlen⟩ := get_accounted h k
        exact ⟨s₁, by simp only [callResult, hget, Option.map_some],
          by simpa [Call.items, ItemsFull, itemsLedger] using hacc, by omega⟩
    obtain ⟨s₂, hrun, hacc'⟩ := run_accounted hf hclean fuel cs hacc (by omega)
    refine ⟨s₂, by simp only [run, hcall, hrun], ?_⟩
    have hR : e.RunFull fuel (c :: cs) s ↔ e.ItemsFull fuel c.items s ∧ e.RunFull fuel cs s₁ := by
      simp [RunFull, hcall]
    simpa only [hR, MemoryCacheEviction.ledger, hcall, and_assoc] using hacc'

/-- Before anything was put. -/
theorem new_accounted (e : MemoryCacheEviction σ K α (ω × List (List K))) (maxsize : ℚ)
    (getsizeof : Value α → ℚ) (w : ω) :
    Accounted e True (e.cls.new maxsize getsizeof, w, []) fun _ => false := by
  have hc := e.cls.new_cache maxsize getsizeof
  refine ⟨e.cls.new_inv _ _, ?_, ?_, ?_, ?_, ?_⟩ <;>
    simp [left, hc, Cache.new, Cache.Tracks, pending, evictions, Dict.contains]

/-- No key of a batch handed to `on_evict` is cached at that moment. -/
theorem batch_not_cached (e : MemoryCacheEviction σ K α ω) {s : σ} (h : e.cls.Inv s) {ks : List K}
    (hks : (popKeys e.cls e.cleanSize s).1 = some ks) :
    ∀ k ∈ ks, (e.cls.cache (popKeys e.cls e.cleanSize s).2).data.contains k = false := by
  obtain ⟨popped, -, hc, -, -, -, hif⟩ := popKeys_spec e.cls e.cleanSize h
  intro k hk
  split at hif
  · obtain rfl : popped = ks := Option.some.inj (hif.1.symm.trans hks)
    rw [hc, ← Bool.not_eq_true, Cache.contains_popAll]
    exact fun hm => hm.1 hk
  · cases hif.1.symm.trans hks

/-- What notification promises of a state, with what its caller has noted:
the reports are the departures, key by key in order, and what is tracked is
what was put and not reported since. -/
def Notified (e : MemoryCacheEviction σ K α (ω × List (List K))) (s : σ × ω × List (List K)) (L : K → Bool) : Prop :=
  e.left s.1 = s.2.2.flatten ∧ (∀ k, (e.cls.cache s.1).data.contains k = L k)

/-- **Notification.** Under every policy every sequence of calls returns, and
in the state it ends in the reports account for every departure if and only
if every overflow of the run found at least `clean_size` keys to pop. No key
still cached is ever reported. -/
theorem notified_iff_full (draws : Nat → Nat) (policy : Policy) (maxsize : ℚ) (getsizeof : Value α → ℚ)
    {cleanSize : Nat} (hclean : 0 < cleanSize) (f : List K → ω → ω) (w : ω) (cs : List (Call K)) (fuel : Nat)
    (hfuel : stores cs < fuel + 1) :
    let e : MemoryCacheEviction (policy.State K α) K α (ω × List (List K)) :=
      ofPolicy draws policy cleanSize fun ks => Exec.modify (recording f ks)
    let s₀ := (e.cls.new maxsize getsizeof, w, [])
    ∃ s, e.run fuel s₀ cs = some s ∧
      (Notified e s (e.ledger fuel cs s₀ fun _ => false) ↔ e.RunFull fuel cs s₀) ∧
      ∀ s', e.cls.Inv s' → ∀ ks, (popKeys e.cls cleanSize s').1 = some ks →
        ∀ k ∈ ks, (e.cls.cache (popKeys e.cls cleanSize s').2).data.contains k = false := by
  intro e s₀
  have hlen : (e.cls.cache (e.cls.new maxsize getsizeof)).data.len = 0 := by simp [e.cls.new_cache, Cache.new]
  obtain ⟨s, hrun, hacc⟩ := run_accounted (e := e) (f := f) rfl hclean fuel cs
    (new_accounted e maxsize getsizeof w) (by simp only [hlen]; omega)
  refine ⟨s, hrun, ⟨fun hn => (hacc.iff_eq.mp hn.1).2, fun hfull => ?_⟩, fun s' h ks hks => ?_⟩
  · exact ⟨hacc.iff_eq.mpr ⟨trivial, hfull⟩, hacc.ledger ⟨trivial, hfull⟩⟩
  · exact batch_not_cached e h hks

theorem notified_iff_full_lru :
    let e : MemoryCacheEviction (Policy.LRU.State Nat Unit) Nat Unit (Unit × List (List Nat)) :=
      ofPolicy id .LRU 1 fun ks => Exec.modify (recording (fun _ w => w) ks)
    let cs := [.put [1, 2, 3] none, .get 2, .put [4] none]
    let s₀ := (e.cls.new 2 fun _ => 1, (), [])
    ∃ s, e.run 5 s₀ cs = some s ∧ Notified e s (e.ledger 5 cs s₀ fun _ => false) := by
  intro e cs s₀
  obtain ⟨s, hrun, hiff, -⟩ := notified_iff_full (K := Nat) (α := Unit) id .LRU 2 (fun _ => 1)
    (show 0 < 1 by decide) (fun _ w => w) () [.put [1, 2, 3] none, .get 2, .put [4] none] 5 (by decide)
  have hfull : e.RunFull 5 cs s₀ := by decide +kernel
  exact ⟨s, hrun, hiff.mpr hfull⟩

/-- A batch of two from a cache that holds one key: the key is popped and
lost with the `KeyError`, so nobody hears that it left. -/
theorem batch_lost :
    let e : MemoryCacheEviction (Policy.LRU.State Nat Unit) Nat Unit (Unit × List (List Nat)) :=
      ofPolicy id .LRU 2 fun ks => Exec.modify (recording (fun _ w => w) ks)
    let cs := [.put [1] none, .put [2] none]
    let s₀ := (e.cls.new 1 fun _ => 1, (), [])
    ∃ s, e.run 3 s₀ cs = some s ∧ e.left s.1 = [1] ∧ s.2.2 = [[]] ∧
      (e.cls.cache s.1).data.contains 1 = false ∧ e.ledger 3 cs s₀ (fun _ => false) 1 = true ∧
      ¬ Notified e s (e.ledger 3 cs s₀ fun _ => false) := by
  intro e cs s₀
  have heval : (e.run 3 s₀ cs).map (fun s => (e.left s.1, s.2.2, (e.cls.cache s.1).data.contains 1)) =
      some ([1], [[]], false) := by decide +kernel
  have hledger : e.ledger 3 cs s₀ (fun _ => false) 1 = true := by decide +kernel
  rcases hrun : e.run 3 s₀ cs with _ | s <;> simp only [hrun, Option.map_none, Option.map_some, reduceCtorEq,
    Option.some.injEq, Prod.mk.injEq] at heval
  obtain ⟨hleft, hlog, hcont⟩ := heval
  exact ⟨s, rfl, hleft, hlog, hcont, hledger, fun hn => by simpa [hleft, hlog] using hn.1⟩

end MemoryCacheEviction

end GptCache
