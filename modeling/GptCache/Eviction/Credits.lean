/-
Policies as caches with credits (Lib/Landlord). `Credited C` says that the
victim of `popitem` has the least of some credits, which it takes from the
others, and that a store or a hit gives a key credit again.

An insertion into a cache of `m` entries is then evictions, each at
`m + 1 - clean_size` keys or more, and a load (`setitem_evictions`).

With unit weights LRU and FIFO are such policies: the credits rise along the
order whose first key they evict.
-/
import GptCache.Eviction.Manager
import GptCache.Lib.Landlord

namespace GptCache

/-- `Stores` is what may be stored for a key and `w` what the key is worth;
`Fine` is what is required of the states that stores and hits lead to. -/
structure Credited {σ K V : Type} [DecidableEq K] (C : CacheClass σ K V) (Stores : K → V → Prop) (w : K → ℚ) (b : ℚ)
    (Fine : σ → Prop) where
  Rel : σ → (K → ℚ) → Prop
  new : ∀ (m : ℚ) {g : V → ℚ}, (∀ v, g v = 1) → Rel (C.new m g) fun _ => 0
  popitem : ∀ {s credit k v}, C.Inv s → Rel s credit → (C.popitem s).1 = some (k, v) →
    (∀ f, (C.cache s).data.contains f = true → credit k ≤ credit f) ∧
      Rel (C.popitem s).2 fun f => credit f - credit k
  store : ∀ {s credit k v}, C.Inv s → Rel s credit → (C.cache s).data.contains k = false → Stores k v →
    Fine (C.store s k v) →
    ∃ c, w k ≤ c ∧ c ≤ b * w k ∧ Rel (C.store s k v) (Function.update credit k c)
  get : ∀ {s credit k}, C.Inv s → Rel s credit → (C.cache s).data.contains k = true → Fine (C.get s k).2 →
    ∃ c, credit k ≤ c ∧ c ≤ b * w k ∧ Rel (C.get s k).2 (Function.update credit k c)

namespace Credited

variable {σ K V : Type} [DecidableEq K] {C : CacheClass σ K V} {Stores : K → V → Prop} {w : K → ℚ} {b : ℚ}
  {Fine : σ → Prop}

/-- The tracked keys with their credits. -/
def state (C : CacheClass σ K V) (s : σ) (credit : K → ℚ) : Landlord.State K ℚ :=
  ⟨(C.cache s).data.keys.toFinset, credit⟩

@[simp] theorem state_credit (s : σ) (credit : K → ℚ) : (state C s credit).credit = credit := rfl

theorem mem_state {s : σ} {credit : K → ℚ} {k : K} :
    k ∈ (state C s credit).keys ↔ (C.cache s).data.contains k = true := by
  rw [state, List.mem_toFinset, Dict.mem_keys]

theorem card_state (s : σ) (credit : K → ℚ) : (state C s credit).keys.card = (C.cache s).data.len := by
  rw [state, List.toFinset_card_of_nodup (Dict.nodup_keys _), Dict.length_keys]

theorem popitem_evict (cr : Credited C Stores w b Fine) {s : σ} {credit : K → ℚ} (hinv : C.Inv s)
    (hrel : cr.Rel s credit) (hpos : 0 < (C.cache s).data.len) {n : Nat} (hn : n ≤ (C.cache s).data.len) :
    ∃ credit', cr.Rel (C.popitem s).2 credit' ∧
      Landlord.Evict n (state C s credit) (state C (C.popitem s).2 credit') := by
  obtain ⟨k, v, hv, hpop, -, hcache⟩ := C.popitem_some hinv hpos
  obtain ⟨hleast, hrel'⟩ := cr.popitem hinv hrel hpop
  have hmem : k ∈ (state C s credit).keys := mem_state.mpr (Dict.contains_eq_true.mpr ⟨v, hv⟩)
  refine ⟨_, hrel', k, hmem, ?_, ?_, ?_, ?_⟩
  · rwa [card_state]
  · exact fun f hf => hleast f (mem_state.mp hf)
  · ext f
    rw [mem_state, hcache, Cache.pop_data, Dict.contains_erase, Finset.mem_erase, mem_state]
    simp
  · exact fun f _ => rfl

/-- A class with the same methods, whatever its own invariant. -/
def ofMethods (cr : Credited C Stores w b Fine) {C' : CacheClass σ K V} (hnew : C'.new = C.new)
    (hcache : C'.cache = C.cache)
    (hstore : C'.store = C.store) (hgetitem : C'.getitem = C.getitem) (hpopitem : C'.popitem = C.popitem) :
    Credited C' Stores w b Fine where
  Rel s credit := C.Inv s ∧ cr.Rel s credit
  new m g hg := by
    rw [hnew]
    exact ⟨C.new_inv m g, cr.new m hg⟩
  popitem {s credit k v} _ hrel hpop := by
    rw [hpopitem] at hpop ⊢
    rw [hcache]
    obtain ⟨hleast, hrel'⟩ := cr.popitem hrel.1 hrel.2 hpop
    refine ⟨hleast, ?_, hrel'⟩
    rcases Nat.eq_zero_or_pos (C.cache s).data.len with hlen | hpos
    · exact (C.popitem_empty hrel.1 hlen).2.1
    · obtain ⟨-, -, -, -, hinv, -⟩ := C.popitem_some hrel.1 hpos
      exact hinv
  store {s credit k v} _ hrel hk hv hfine := by
    rw [hstore] at hfine ⊢
    rw [hcache] at hk
    obtain ⟨c, hle, hge, hrel'⟩ := cr.store hrel.1 hrel.2 hk hv hfine
    exact ⟨c, hle, hge, C.store_inv k _ hrel.1, hrel'⟩
  get {s credit k} _ hrel hk hfine := by
    have hget : C'.get s k = C.get s k := by rw [CacheClass.get, CacheClass.get, hcache, hgetitem]
    rw [hget] at hfine ⊢
    rw [hcache] at hk
    obtain ⟨v, hv⟩ := Dict.contains_eq_true.mp hk
    obtain ⟨c, hle, hge, hrel'⟩ := cr.get hrel.1 hrel.2 hk hfine
    exact ⟨c, hle, hge, (C.get_hit hrel.1 hv).2.1, hrel'⟩

end Credited

/-! ## One insertion -/

section

variable {σ K α ω : Type} [DecidableEq K] {e : MemoryCacheEviction σ K α ω} {Stores : K → Value α → Prop} {w : K → ℚ}
  {b : ℚ} {Fine : σ → Prop} {m : Nat}

/-- An insertion with batches that do not run dry stores after evictions, each
out of `m + 1 - clean_size` keys or more. -/
theorem Credited.setitem_evictions (cr : Credited e.cls Stores w b Fine) {f : List K → ω → ω}
    (hf : e.onEvict = fun ks => Exec.modify (f ks)) (hclean : 0 < e.cleanSize) (hle : e.cleanSize ≤ m) {fuel : Nat}
    (hfuel : m < fuel) {s s' : σ × ω} (hs : MemoryCacheEviction.Sized e m s) {credit : K → ℚ}
    (hrel : cr.Rel s.1 credit) {k : K} {v : Value α} (hset : e.setitem fuel k v s = some (.ok (), s')) :
    ∃ (s₁ : σ × ω) (credit₁ : K → ℚ), s' = (e.cls.store s₁.1 k v, s₁.2) ∧ e.cls.Inv s₁.1 ∧ cr.Rel s₁.1 credit₁ ∧
      Landlord.Evictions (m + 1 - e.cleanSize) (state e.cls s.1 credit) (state e.cls s₁.1 credit₁) := by
  obtain ⟨s₁, hs', hinv, credit₁, hrel₁, hev⟩ := MemoryCacheEviction.setitem_induction
    (J := fun s₁ => ∃ credit₁, cr.Rel s₁ credit₁ ∧
      Landlord.Evictions (m + 1 - e.cleanSize) (state e.cls s.1 credit) (state e.cls s₁ credit₁))
    hf hclean hle hfuel hs
    (fun s₁ hinv h hpos hn => by
      obtain ⟨credit₁, hrel₁, hev⟩ := h
      obtain ⟨credit₂, hrel₂, hlast⟩ := cr.popitem_evict hinv hrel₁ hpos hn
      exact ⟨credit₂, hrel₂, hev.tail hlast⟩) ⟨credit, hrel, .refl⟩ hset
  exact ⟨s₁, credit₁, hs', hinv, hrel₁, hev⟩

end

/-! ## LRU and FIFO -/

section

variable {K V : Type} [DecidableEq K]

theorem filter_ne_head {k : K} {order : List K} (h : (k :: order).Nodup) :
    (k :: order).filter (fun k' => k' ≠ k) = order := by
  rw [List.filter_cons_of_neg (by simp)]
  refine List.filter_eq_self.mpr fun f hf => ?_
  have : f ≠ k := fun he => (List.nodup_cons.mp h).1 (he ▸ hf)
  simpa using this

/-- Whatever a read does to the order, the first key leaves it. -/
theorem ordered_remove (touch : Bool) {k : K} {order : List K} (h : (k :: order).Nodup) :
    (ordered (V := V) touch).onRemove ((ordered (V := V) touch).onRead (k :: order) k) k = order := by
  cases touch with
  | true => exact filter_moveToEnd_head (List.nodup_cons.mp h).1
  | false => exact filter_ne_head h

/-- **LRU and FIFO** with credits of at most 1. -/
def orderedCredited (K V : Type) [DecidableEq K] (touch : Bool) :
    Credited (ordered (K := K) (V := V) touch).cacheClass (fun _ _ => True) (fun _ => 1) 1 fun _ => True where
  Rel s credit := Landlord.Rising s.book credit
  new m g _ := ⟨List.nodup_nil, List.Pairwise.nil, by simp [Bookkeeping.cacheClass, ordered]⟩
  popitem {s credit k v} hinv hrel hpop := by
    obtain ⟨base, order⟩ := s
    rcases order with _ | ⟨first, order⟩
    · simp [Bookkeeping.cacheClass, Bookkeeping.popitem, ordered] at hpop
    · rcases hv : base.data.get? first with _ | v'
      · simp [Bookkeeping.cacheClass, Bookkeeping.popitem, ordered, hv] at hpop
      · have hremove := ordered_remove (V := V) touch hrel.nodup
        have heq : (ordered (K := K) (V := V) touch).cacheClass.popitem ⟨base, first :: order⟩ =
            (some (first, v'), ⟨base.pop first, order⟩) := by
          simp only [ordered] at hremove
          simp only [Bookkeeping.cacheClass, Bookkeeping.popitem, ordered, List.head?_cons, hv, hremove]
        rw [heq] at hpop ⊢
        cases hpop
        refine ⟨fun f hf => ?_, hrel.tail⟩
        rcases List.mem_cons.mp ((hinv f).mpr hf) with rfl | hin
        · exact le_rfl
        · exact List.rel_of_pairwise_cons hrel.sorted hin
  store {s credit k v} _ hrel _ _ _ := ⟨1, le_rfl, by norm_num, hrel.last k⟩
  get {s credit k} hinv hrel hk _ := by
    obtain ⟨v, hv⟩ := Dict.contains_eq_true.mp hk
    have hmem : k ∈ s.book := (hinv k).mpr hk
    have hget : ((ordered (K := K) (V := V) touch).cacheClass.get s k).2 =
        ⟨s.base.read k, (ordered (V := V) touch).onRead s.book k⟩ := by
      have hk' : s.base.data.contains k = true := hk
      have hv' : s.base.data.get? k = some v := hv
      simp only [CacheClass.get, Bookkeeping.cacheClass, Bookkeeping.getitem, hk', if_true, hv']
    rw [hget]
    cases touch with
    | true => exact ⟨1, (hrel.bounds k hmem).2, by norm_num, hrel.last k⟩
    | false =>
      refine ⟨credit k, le_rfl, by simpa using (hrel.bounds k hmem).2, ?_⟩
      rw [Function.update_eq_self]
      exact hrel

end

end GptCache
