/-
`LRUCache` with entries of size one is a least-recently-used map: the key
order the library keeps is the map's, and the dictionary beside it holds the
map's values. Keys and values may be stored under another form (`f`, `g`).
-/
import GptCache.Cachetools.Policies
import GptCache.Lib.LruMap

namespace GptCache.LRUCache

variable {K V K' V' ω : Type} [DecidableEq K] [DecidableEq K']

/-- `cachetools.LRUCache(maxsize)`: every value has the size 1. -/
def new (maxsize : ℚ) : LRUCache K V := (cacheClass K V).new maxsize fun _ => 1

/-- `self[key] = value`. Every pass of the loop removes an entry, so the fuel suffices. -/
def setitem (k : K) (v : V) : Exec PyError (LRUCache K V × ω) Unit := fun s =>
  (cacheClass K V).setitem (cacheClass K V).popitemSelf (s.1.base.data.len + 1) k v s

/-- `self[key]`, `none` for a `KeyError`. -/
def getitem (s : LRUCache K V) (k : K) : Option V × LRUCache K V := (cacheClass K V).getitem s k

/-- `del self[key]`, of a key that is there. -/
def delitem (s : LRUCache K V) (k : K) : LRUCache K V :=
    ⟨s.base.delitem k, (ordered true : Bookkeeping _ K V).onRemove s.book k⟩

structure Represents (f : K' → K) (g : K' → V' → V) (s : LRUCache K V) (m : LruMap K' V') : Prop where
  maxsize : s.base.maxsize = m.capacity
  unit : ∀ v, s.base.getsizeof v = 1
  order : s.book = m.entries.keys.map f
  values : ∀ k, s.base.data.get? (f k) = (m.entries.get? k).map (g k)
  /-- Nothing is stored that the order does not list. -/
  listed : ∀ k, s.base.data.contains k = true → k ∈ s.book

variable {f : K' → K} {g : K' → V' → V} {s : LRUCache K V} {m : LruMap K' V'}

theorem represents_new {n : Nat} (h : 0 < n) : Represents f g (new n) (.empty n h : LruMap K' V') where
  maxsize := rfl
  unit _ := rfl
  order := rfl
  values _ := rfl
  listed k hk := by simp [new, cacheClass, Bookkeeping.cacheClass, Cache.new, Dict.contains] at hk

theorem Represents.contains (h : Represents f g s m) (k : K') :
    s.base.data.contains (f k) = m.entries.contains k := by
  simp only [Dict.contains, h.values, Option.isSome_map]

/-- The dictionary's keys are the order's, so they are as many. -/
theorem Represents.len (hf : Function.Injective f) (h : Represents f g s m) :
    s.base.data.len = m.entries.len := by
  have hperm : s.base.data.keys.Perm (m.entries.keys.map f) := by
    refine (List.perm_ext_iff_of_nodup s.base.data.nodup_keys (m.entries.nodup_keys.map hf)).mpr
      fun k => ⟨fun hk => h.order ▸ h.listed k (Dict.mem_keys.mp hk), fun hk => ?_⟩
    obtain ⟨k', hk', rfl⟩ := List.mem_map.mp hk
    exact Dict.mem_keys.mpr ((h.contains k').trans (Dict.mem_keys.mp hk'))
  simpa [Dict.length_keys] using hperm.length_eq

theorem Represents.overflows (hf : Function.Injective f) (h : Represents f g s m) :
    s.base.overflows 1 = decide (m.capacity ≤ m.entries.len) := by
  simp only [Cache.overflows, Cache.currsize_of_unit h.unit, h.maxsize, h.len hf, decide_eq_decide]
  constructor <;> intro hlt
  · have : m.capacity < m.entries.len + 1 := by exact_mod_cast hlt
    omega
  · exact_mod_cast (by omega : m.capacity < m.entries.len + 1)

/-- Only a new key needs room. -/
theorem Represents.needsRoom (h : Represents f g s m) (k : K') :
    s.base.needsRoom (f k) 1 = !m.entries.contains k := by
  rw [← h.contains]
  simp only [Cache.needsRoom, Dict.contains]
  rcases s.base.data.get? (f k) with _ | old
  · rfl
  · simp [h.unit]

/-- Storing moves the key to the end of the order, as `use` does. -/
theorem Represents.store (hf : Function.Injective f) (h : Represents f g s m) {k : K'} {v : V'}
    {m' : LruMap K' V'} (hcap : m'.capacity = m.capacity) (huse : m'.entries = m.entries.use k v) :
    Represents f g ((cacheClass K V).store s (f k) (g k v)) m' where
  maxsize := h.maxsize.trans (by rw [hcap])
  unit := h.unit
  order := by
    rw [huse, Dict.keys_use]
    simp only [cacheClass, Bookkeeping.cacheClass, Bookkeeping.store, ordered, moveToEnd, h.order,
      List.filter_map, List.map_append, List.map_cons, List.map_nil, Function.comp_def, hf.eq_iff,
      ne_eq]
  values k' := by
    simp only [cacheClass, Bookkeeping.cacheClass, Bookkeeping.store, Cache.store_data, Dict.get?_set,
      hf.eq_iff, huse, Dict.get?_use, h.values]
    split
    · rename_i he
      simp [he]
    · rfl
  listed k' hk' := by
    simp only [cacheClass, Bookkeeping.cacheClass, Bookkeeping.store, Cache.store_data,
      Dict.contains_set, Bool.or_eq_true, decide_eq_true_eq] at hk'
    exact mem_moveToEnd.mpr (hk'.imp_right (h.listed k'))

/-- Reading a key that is there makes it the most recent. -/
theorem Represents.getitem_hit (hf : Function.Injective f) (h : Represents f g s m) {k : K'} {v : V'}
    (hk : m.entries.get? k = some v) :
    (getitem s (f k)).1 = some (g k v) ∧ Represents f g (getitem s (f k)).2 (m.get k).2 := by
  have hdata : s.base.data.get? (f k) = some (g k v) := by rw [h.values, hk, Option.map_some]
  obtain ⟨-, hcap, huse⟩ := LruMap.get_hit hk
  simp only [getitem, cacheClass, Bookkeeping.cacheClass, Bookkeeping.getitem, hdata, true_and]
  refine ⟨h.maxsize.trans (by rw [hcap]), h.unit, ?_, fun k' => ?_, fun k' hk' => ?_⟩
  · rw [huse, Dict.keys_use]
    simp only [ordered, if_true, moveToEnd, h.order, List.filter_map, List.map_append, List.map_cons,
      List.map_nil, Function.comp_def, hf.eq_iff, ne_eq]
  · rw [LruMap.get?_get]
    exact h.values k'
  · exact mem_moveToEnd.mpr (.inr (h.listed k' hk'))

theorem Represents.getitem_miss (h : Represents f g s m) {k : K'} (hk : m.entries.get? k = none) :
    getitem s (f k) = (none, s) := by
  have hdata : s.base.data.get? (f k) = none := by rw [h.values, hk, Option.map_none]
  simp only [getitem, cacheClass, Bookkeeping.cacheClass, Bookkeeping.getitem, hdata]

/-- `popitem` takes the oldest entry. -/
theorem Represents.popitem (hf : Function.Injective f) (h : Represents f g s m)
    (hlen : 0 < m.entries.len) {w : ω} {m' : LruMap K' V'} (hcap : m'.capacity = m.capacity)
    (hdrop : m'.entries = m.entries.dropOldest) {E : PyError → LRUCache K V × ω → Prop} :
    Exec.wp (cacheClass K V).popitemSelf (fun _ s' => Represents f g s'.1 m' ∧ s'.2 = w) E (s, w) := by
  obtain ⟨k, ks, hkeys⟩ : ∃ k ks, m.entries.keys = k :: ks :=
    List.exists_cons_of_length_pos (by rwa [Dict.length_keys])
  have hmem : k ∈ m.entries.keys := hkeys ▸ List.mem_cons_self
  obtain ⟨v, hv⟩ := Dict.contains_eq_true.mp (Dict.mem_keys.mp hmem)
  have hdata : s.base.data.get? (f k) = some (g k v) := by rw [h.values, hv, Option.map_some]
  have hbook : s.book = f k :: ks.map f := by rw [h.order, hkeys, List.map_cons]
  have hnot : f k ∉ ks.map f := by
    have := m.entries.nodup_keys.map hf
    rw [hkeys, List.map_cons, List.nodup_cons] at this
    exact this.1
  have hpop : (cacheClass K V).popitem s =
      (some (f k, g k v), ⟨s.base.pop (f k), ks.map f⟩) := by
    simp only [cacheClass, Bookkeeping.cacheClass, Bookkeeping.popitem, ordered, hbook, List.head?_cons,
      hdata, if_true, filter_moveToEnd_head hnot]
  have hself : (cacheClass K V).popitemSelf (s, w) =
      some (.ok (), (⟨s.base.pop (f k), ks.map f⟩, w)) := by
    simp only [CacheClass.popitemSelf, Exec.total, hpop]
  rw [Exec.wp_of_ok hself]
  refine ⟨⟨h.maxsize.trans (by rw [hcap]), h.unit, ?_, fun k' => ?_, fun k' hk' => ?_⟩, rfl⟩
  · rw [hdrop, Dict.keys_dropOldest, hkeys, List.tail_cons]
  · simp only [Cache.pop_data, Dict.get?_erase, hf.eq_iff, hdrop, Dict.get?_dropOldest hkeys, h.values]
    split <;> rfl
  · simp only [Cache.pop_data, Dict.contains_erase, Bool.and_eq_true, Bool.not_eq_true',
      decide_eq_false_iff_not] at hk'
    have := h.listed k' hk'.2
    rw [hbook] at this
    exact (List.mem_cons.mp this).resolve_left hk'.1

/-- **`self[key] = value` is `put`.** -/
theorem Represents.setitem (hf : Function.Injective f) (h : Represents f g s m) (k : K') (v : V') {w : ω}
    {E : PyError → LRUCache K V × ω → Prop} :
    Exec.wp (setitem (f k) (g k v)) (fun _ s' => Represents f g s'.1 (m.put k v) ∧ s'.2 = w) E (s, w) := by
  let dropped : LruMap K' V' :=
    { m with entries := m.entries.dropOldest, fits := by rw [Dict.len_dropOldest]; have := m.fits; omega }
  have hpos := m.pos
  have hfits := m.fits
  have hroom : ¬ dropped.capacity ≤ dropped.entries.len := by
    have : dropped.entries.len = m.entries.len - 1 := Dict.len_dropOldest _
    show ¬ m.capacity ≤ _
    omega
  have hsize : ∀ {s' : LRUCache K V} {m' : LruMap K' V'}, Represents f g s' m' →
      s'.base.getsizeof = fun _ => 1 := fun h' => funext h'.unit
  have hover : s.base.overflows 1 = decide (m.capacity ≤ m.entries.len) := h.overflows hf
  -- the cache stands for `m` or, once it was full and lost its oldest entry, for what is left
  let J : LRUCache K V × ω → Prop := fun s' => s'.2 = w ∧
    (Represents f g s'.1 m ∨ m.capacity ≤ m.entries.len ∧ Represents f g s'.1 dropped)
  refine Exec.wp_mono ((cacheClass K V).wp_setitem (J := J) (m := m.capacity) (g := fun _ => 1) (E := E)
    ?_ ?_ ?_ ⟨rfl, .inl h⟩ (Nat.lt_succ_self _)) ?_ fun _ _ he => he
  · rintro s' ⟨-, hrep | ⟨-, hrep⟩⟩
    · exact ⟨hrep.maxsize, hsize hrep⟩
    · exact ⟨hrep.maxsize, hsize hrep⟩
  · rintro ⟨s', w'⟩ ⟨rfl, hrep | ⟨-, hrep⟩⟩ hover' hlen
    · have hfull : m.capacity ≤ m.entries.len := by
        simpa only [decide_eq_true_eq] using (hrep.overflows hf).symm.trans hover'
      have hlen' : 0 < m.entries.len := by omega
      refine Exec.wp_mono (hrep.popitem hf hlen' (show dropped.capacity = _ from rfl) rfl) ?_ fun _ _ he => he
      rintro - ⟨s'', w''⟩ ⟨hdropped, hw⟩
      refine ⟨⟨hw, .inr ⟨hfull, hdropped⟩⟩, ?_⟩
      have hshrunk : dropped.entries.len = m.entries.len - 1 := Dict.len_dropOldest _
      calc s''.base.data.len = dropped.entries.len := hdropped.len hf
        _ < m.entries.len := by omega
        _ = s'.base.data.len := (hrep.len hf).symm
    · exact absurd (of_decide_eq_true ((hrep.overflows hf).symm.trans hover')) hroom
  · intro hlarge
    have : (1 : ℚ) ≤ m.capacity := by exact_mod_cast hpos
    exact absurd hlarge (not_lt.mpr this)
  · rintro - ⟨s', w'⟩ ⟨⟨s₁, w₁⟩, -, ⟨rfl, hrep⟩, hloop, hs'⟩
    cases hs'
    refine ⟨?_, rfl⟩
    have hput : (m.put k v).entries = (m.kept k).use k v := rfl
    change (if s.base.needsRoom (f k) 1 = true then s₁.base.overflows 1 = false else (s₁, w₁) = (s, w₁)) at hloop
    rw [h.needsRoom k] at hloop
    cases hc : m.entries.contains k with
    | true =>
      rw [hc] at hloop
      cases hloop
      exact h.store hf rfl (by rw [hput, LruMap.kept, if_pos (.inl hc)])
    | false =>
      rw [hc] at hloop
      have hloop : s₁.base.overflows 1 = false := hloop
      rcases hrep with hrep | ⟨hfull, hrep⟩
      · have hlt : m.entries.len < m.capacity := by
          simpa using (hrep.overflows hf).symm.trans hloop
        exact hrep.store hf rfl (by rw [hput, LruMap.kept, if_pos (.inr hlt)])
      · refine hrep.store hf rfl ?_
        rw [hput, LruMap.kept, if_neg]
        simpa [hc] using hfull

end GptCache.LRUCache
