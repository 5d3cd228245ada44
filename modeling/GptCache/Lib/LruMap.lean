/-
Least-recently-used maps: a bounded number of entries, from the least to the
most recently used. `put` and a successful `get` make their key the most
recent; a `put` of a new key into a full map drops the oldest entry first.

`get?_put_of_room` is all a run needs that stays below the capacity, and
`held_le` bounds what a map holds by the keys that were put.
-/
import GptCache.Lib.Dict

namespace GptCache

namespace Dict

variable {K V : Type}

/-- The entries without the first. -/
def dropOldest (d : Dict K V) : Dict K V :=
  ⟨d.entries.tail, d.nodup.sublist ((List.tail_sublist _).map Prod.fst)⟩

theorem keys_dropOldest (d : Dict K V) : d.dropOldest.keys = d.keys.tail := by
  simp [keys, dropOldest, List.map_tail]

theorem len_dropOldest (d : Dict K V) : d.dropOldest.len = d.len - 1 := by simp [len, dropOldest]

variable [DecidableEq K]

theorem contains_dropOldest {d : Dict K V} {k : K} (h : d.contains k = false) : d.dropOldest.contains k = false := by
  rw [Bool.eq_false_iff]
  intro hd
  have hmem := mem_keys.mpr hd
  rw [keys_dropOldest] at hmem
  have := mem_keys.mp (List.mem_of_mem_tail hmem)
  simp [h] at this

/-- `k` moved to the end, with the value `v`. -/
def use (d : Dict K V) (k : K) (v : V) : Dict K V := (d.erase k).set k v

theorem get?_use (d : Dict K V) (k : K) (v : V) (k' : K) :
    (d.use k v).get? k' = if k' = k then some v else d.get? k' := by
  by_cases h : k' = k
  · simp [use, h]
  · simp [use, get?_set, get?_erase, h]

theorem entries_use (d : Dict K V) (k : K) (v : V) :
    (d.use k v).entries = d.entries.filter (fun e => e.1 ≠ k) ++ [(k, v)] := by
  have hk : k ∉ (d.erase k).keys := fun hm => by
    have := mem_keys.mp hm
    simp [contains_erase] at this
  exact entries_set_of_not_mem hk v

theorem keys_use (d : Dict K V) (k : K) (v : V) :
    (d.use k v).keys = d.keys.filter (fun k' => k' ≠ k) ++ [k] := by
  simp [keys, entries_use, List.filter_map, Function.comp_def]

theorem len_use_of_mem {d : Dict K V} {k : K} (h : d.contains k = true) (v : V) : (d.use k v).len = d.len := by
  have herase := len_erase_add_one h
  rw [use, len_set_of_not_mem (by simp [contains_erase])]
  omega

theorem len_use_of_not_mem {d : Dict K V} {k : K} (h : d.contains k = false) (v : V) :
    (d.use k v).len = d.len + 1 := by
  have herase : d.erase k = d := by
    refine ext (List.filter_eq_self.mpr fun e he => ?_)
    simp only [ne_eq, decide_not, Bool.not_eq_true', decide_eq_false_iff_not]
    rintro rfl
    have := mem_keys.mp (List.mem_map_of_mem (f := Prod.fst) he)
    simp [h] at this
  rw [use, herase, len_set_of_not_mem h]

/-- What is left after the first entry went: everything but its key. -/
theorem get?_dropOldest {d : Dict K V} {k : K} {ks : List K} (h : d.keys = k :: ks) (k' : K) :
    d.dropOldest.get? k' = if k' = k then none else d.get? k' := by
  obtain ⟨_ | ⟨e, es⟩, hn⟩ := d
  · cases h
  · simp only [keys, List.map_cons, List.cons.injEq] at h
    obtain ⟨rfl, -⟩ := h
    simp only [dropOldest, get?, List.tail_cons]
    simp only [List.map_cons, List.nodup_cons] at hn
    by_cases hk : k' = e.1
    · subst hk
      have hnot : (⟨es, hn.2⟩ : Dict K V).contains e.1 = false := by
        rw [Bool.eq_false_iff]
        exact fun hc => hn.1 (mem_keys.mpr hc)
      rw [if_pos rfl]
      exact contains_eq_false.mp hnot
    · obtain ⟨k₀, v₀⟩ := e
      simp only at hk
      simp [hk, List.lookup_cons, beq_eq_false_iff_ne.mpr hk]

end Dict

structure LruMap (K V : Type) where
  capacity : Nat
  /-- From the least to the most recently used. -/
  entries : Dict K V
  pos : 0 < capacity
  fits : entries.len ≤ capacity

namespace LruMap

variable {K V : Type}

def empty (capacity : Nat) (pos : 0 < capacity) : LruMap K V := ⟨capacity, .empty, pos, Nat.zero_le _⟩

@[simp] theorem empty_capacity (n : Nat) (h : 0 < n) : (empty n h : LruMap K V).capacity = n := rfl
@[simp] theorem empty_entries (n : Nat) (h : 0 < n) : (empty n h : LruMap K V).entries = .empty := rfl

variable [DecidableEq K]

/-- The entries that stay when `k` is put. -/
def kept (m : LruMap K V) (k : K) : Dict K V :=
  if m.entries.contains k = true ∨ m.entries.len < m.capacity then m.entries else m.entries.dropOldest

theorem len_kept (m : LruMap K V) (k : K) (v : V) : ((m.kept k).use k v).len ≤ m.capacity := by
  have hpos := m.pos
  have hfits := m.fits
  unfold kept
  cases hc : m.entries.contains k with
  | true => simpa [Dict.len_use_of_mem hc] using hfits
  | false =>
    simp only [Bool.false_eq_true, false_or]
    split
    · rw [Dict.len_use_of_not_mem hc]
      omega
    · rw [Dict.len_use_of_not_mem (Dict.contains_dropOldest hc), Dict.len_dropOldest]
      omega

def put (m : LruMap K V) (k : K) (v : V) : LruMap K V :=
  { m with entries := (m.kept k).use k v, fits := m.len_kept k v }

def get (m : LruMap K V) (k : K) : Option V × LruMap K V :=
  match h : m.entries.get? k with
  | none => (none, m)
  | some v => (some v, { m with
      entries := m.entries.use k v
      fits := by
        rw [Dict.len_use_of_mem (Dict.contains_eq_true.mpr ⟨v, h⟩)]
        exact m.fits })

@[simp] theorem put_capacity (m : LruMap K V) (k : K) (v : V) : (m.put k v).capacity = m.capacity := rfl

theorem put_entries (m : LruMap K V) (k : K) (v : V) : (m.put k v).entries = (m.kept k).use k v := rfl

theorem get_miss {m : LruMap K V} {k : K} (h : m.entries.get? k = none) : m.get k = (none, m) := by
  unfold get
  split
  · rfl
  · rename_i hv
    rw [h] at hv
    cases hv

theorem get_hit {m : LruMap K V} {k : K} {v : V} (h : m.entries.get? k = some v) :
    (m.get k).1 = some v ∧ (m.get k).2.capacity = m.capacity ∧
      (m.get k).2.entries = m.entries.use k v := by
  unfold get
  split
  · rename_i hn
    rw [h] at hn
    cases hn
  · rename_i v' hv
    rw [h] at hv
    cases hv
    exact ⟨rfl, rfl, rfl⟩

theorem get_fst (m : LruMap K V) (k : K) : (m.get k).1 = m.entries.get? k := by
  rcases h : m.entries.get? k with _ | v
  · rw [get_miss h]
  · exact (get_hit h).1

@[simp] theorem get_capacity (m : LruMap K V) (k : K) : (m.get k).2.capacity = m.capacity := by
  rcases h : m.entries.get? k with _ | v
  · rw [get_miss h]
  · exact (get_hit h).2.1

/-- A lookup changes the order only. -/
theorem get?_get (m : LruMap K V) (k k' : K) : (m.get k).2.entries.get? k' = m.entries.get? k' := by
  rcases h : m.entries.get? k with _ | v
  · rw [get_miss h]
  · rw [(get_hit h).2.2, Dict.get?_use]
    split
    · rename_i he
      rw [he, h]
    · rfl

/-- While there is room a `put` loses nothing. -/
theorem get?_put_of_room {m : LruMap K V} {k : K}
    (h : m.entries.contains k = true ∨ m.entries.len < m.capacity) (v : V) (k' : K) :
    (m.put k v).entries.get? k' = if k' = k then some v else m.entries.get? k' := by
  rw [put_entries, kept, if_pos h, Dict.get?_use]

/-- A map whose keys are all among `ks` holds at most as many entries. -/
theorem held_le {m : LruMap K V} {ks : List K} (h : ∀ k, m.entries.contains k = true → k ∈ ks) :
    m.entries.len ≤ ks.length := by
  rw [← Dict.length_keys]
  exact (List.subperm_of_subset m.entries.nodup_keys fun k hk => h k (Dict.mem_keys.mp hk)).length_le

end LruMap

end GptCache
