/-
Least-recently-used maps that are asked for keys one after the other.

A larger map holds what a smaller one holds, in the same order, whatever is
put and got (`Below`): so it answers whatever the smaller one does.

`serve` is a map in front of a function: a key it does not hold is computed
and put. `missed` are the keys that are computed: the fewer the larger the map
(`missed_sublist`), and never many more than any schedule of fewer places loads
(`missed_competitive`).
-/
import GptCache.Lib.LruMap
import GptCache.Lib.Landlord

namespace GptCache.LruMap

variable {K V : Type}

theorem eq_of_entries {m m' : LruMap K V} (hcap : m.capacity = m'.capacity) (hentries : m.entries = m'.entries) :
    m = m' := by
  obtain ⟨capacity, entries, _, _⟩ := m
  obtain rfl : capacity = m'.capacity := hcap
  obtain rfl : entries = m'.entries := hentries
  rfl

variable [DecidableEq K]

theorem get_eq_put {m : LruMap K V} {k : K} {v : V} (h : m.entries.get? k = some v) : (m.get k).2 = m.put k v := by
  obtain ⟨-, hcap, hentries⟩ := get_hit h
  refine eq_of_entries (hcap.trans (put_capacity m k v).symm) ?_
  rw [hentries, put_entries, kept, if_pos (.inl (Dict.contains_eq_true.mpr ⟨v, h⟩))]

/-- A put brings nothing but its key. -/
theorem get?_put {m : LruMap K V} {k q : K} {v w : V} (h : (m.put k v).entries.get? q = some w) :
    q = k ∧ w = v ∨ m.entries.get? q = some w := by
  rw [put_entries, Dict.get?_use] at h
  split at h
  · rename_i hq
    exact .inl ⟨hq, (Option.some.inj h).symm⟩
  · refine .inr (Dict.mem_entries.mp ?_)
    unfold kept at h
    split at h
    · exact Dict.mem_entries.mpr h
    · exact List.mem_of_mem_tail (Dict.mem_entries.mpr h)

theorem contains_put {m : LruMap K V} {k q : K} {v : V} (h : (m.put k v).entries.contains q = true) :
    q = k ∨ m.entries.contains q = true := by
  obtain ⟨w, hw⟩ := Dict.contains_eq_true.mp h
  exact (get?_put hw).imp And.left fun hw => Dict.contains_eq_true.mpr ⟨w, hw⟩

/-- A map with room for all keys that come has room for each. -/
theorem room_of_all {m : LruMap K V} {all : List K} (hroom : all.length ≤ m.capacity)
    (hheld : ∀ q, m.entries.contains q = true → q ∈ all) {k : K} (hk : k ∈ all) :
    m.entries.contains k = true ∨ m.entries.len < m.capacity := by
  refine or_iff_not_imp_left.mpr fun hnew => ?_
  have hle : m.entries.len ≤ (all.erase k).length := held_le fun q hq => by
    refine (List.mem_erase_of_ne ?_).mpr (hheld q hq)
    rintro rfl
    exact hnew hq
  rw [List.length_erase_of_mem hk] at hle
  have := List.length_pos_of_mem hk
  omega

theorem contains_put_of_room {m : LruMap K V} {k : K} (h : m.entries.contains k = true ∨
    m.entries.len < m.capacity) (v : V)
    (q : K) : (m.put k v).entries.contains q = true ↔ q = k ∨ m.entries.contains q = true := by
  by_cases hq : q = k <;> simp [Dict.contains, get?_put_of_room h v, hq]

/-! ## A larger map -/

/-- `m'` holds what `m` holds, in that order, and `m` has lost nothing yet unless it is full. -/
structure Below (m m' : LruMap K V) : Prop where
  capacity : m.capacity ≤ m'.capacity
  sublist : m.entries.entries.Sublist m'.entries.entries
  full : m.entries.len = m.capacity ∨ m.entries = m'.entries

variable {m m' : LruMap K V}

omit [DecidableEq K] in
theorem below_empty {n n' : Nat} (h : 0 < n) (h' : 0 < n') (hle : n ≤ n') :
    Below (.empty n h : LruMap K V) (.empty n' h') where
  capacity := hle
  sublist := List.Sublist.refl _
  full := .inr rfl

theorem Below.get? (h : Below m m') {k : K} {v : V} (hk : m.entries.get? k = some v) : m'.entries.get? k = some v :=
  Dict.mem_entries.mp (h.sublist.subset (Dict.mem_entries.mpr hk))

theorem Below.contains (h : Below m m') {k : K} (hk : m.entries.contains k = true) : m'.entries.contains k = true := by
  obtain ⟨v, hv⟩ := Dict.contains_eq_true.mp hk
  exact Dict.contains_eq_true.mpr ⟨v, h.get? hv⟩

/-- A full map that puts a new key is full. -/
theorem len_put_of_full {k : K} (hk : m.entries.contains k = false) (hfull : m.entries.len = m.capacity) (v : V) :
    (m.put k v).entries.len = m.capacity := by
  have hpos := m.pos
  rw [put_entries, kept, if_neg (by simp [hk, hfull]), Dict.len_use_of_not_mem (Dict.contains_dropOldest hk),
    Dict.len_dropOldest]
  omega

theorem len_put_of_mem {k : K} (hk : m.entries.contains k = true) (v : V) :
    (m.put k v).entries.len = m.entries.len := by
  rw [put_entries, kept, if_pos (.inl hk), Dict.len_use_of_mem hk]

/-- What is kept for a new key is kept by the larger map too. -/
theorem Below.kept (h : Below m m') (k : K) : (m.kept k).entries.Sublist (m'.kept k).entries := by
  have htail : m.entries.dropOldest.entries.Sublist m.entries.entries := List.tail_sublist _
  by_cases hroom : m.entries.contains k = true ∨ m.entries.len < m.capacity
  · have hroom' : m'.entries.contains k = true ∨ m'.entries.len < m'.capacity := by
      rcases hroom with hk | hlt
      · exact .inl (h.contains hk)
      · have heq := h.full.resolve_left (by omega)
        have hcap := h.capacity
        exact .inr (by rw [← heq]; omega)
    rw [LruMap.kept, LruMap.kept, if_pos hroom, if_pos hroom']
    exact h.sublist
  · rw [LruMap.kept, if_neg hroom, LruMap.kept]
    split
    · exact htail.trans h.sublist
    · exact h.sublist.tail

theorem Below.put (h : Below m m') (k : K) (v : V) : Below (m.put k v) (m'.put k v) where
  capacity := h.capacity
  sublist := by
    rw [put_entries, put_entries, Dict.entries_use, Dict.entries_use]
    exact ((h.kept k).filter _).append (List.Sublist.refl _)
  full := by
    rcases h.full with hfull | heq
    · refine .inl ?_
      cases hk : m.entries.contains k with
      | true => exact (len_put_of_mem hk v).trans hfull
      | false => exact len_put_of_full hk hfull v
    · by_cases hroom : m.entries.contains k = true ∨ m.entries.len < m.capacity
      · have hroom' : m'.entries.contains k = true ∨ m'.entries.len < m'.capacity := by
          have hcap := h.capacity
          exact hroom.imp h.contains fun hlt => by rw [← heq]; omega
        rw [put_entries, put_entries, LruMap.kept, LruMap.kept, if_pos hroom, if_pos hroom', heq]
        exact .inr rfl
      · have hfits := m.fits
        obtain ⟨hk, hfull⟩ := not_or.mp hroom
        exact .inl (len_put_of_full (Bool.not_eq_true _ ▸ hk) (by omega) v)

/-- Only the larger map holds the key. -/
theorem Below.get_larger (h : Below m m') {k : K} (hk : m.entries.contains k = false) : Below m (m'.get k).2 := by
  cases hv : m'.entries.get? k with
  | none =>
    rw [get_miss hv]
    exact h
  | some v =>
    obtain ⟨-, hcap, hentries⟩ := get_hit hv
    refine ⟨hcap ▸ h.capacity, ?_, .inl (h.full.resolve_right fun heq => ?_)⟩
    · have hstay : m.entries.entries.filter (fun e => e.1 ≠ k) = m.entries.entries :=
        congrArg Dict.entries (Dict.erase_eq_self hk)
      rw [hentries, Dict.entries_use, ← hstay]
      exact (h.sublist.filter _).trans (List.sublist_append_left _ _)
    · rw [heq, Dict.contains_eq_false, hv] at hk
      cases hk

theorem Below.get (h : Below m m') (k : K) : Below (m.get k).2 (m'.get k).2 := by
  cases hk : m.entries.contains k with
  | true =>
    obtain ⟨v, hv⟩ := Dict.contains_eq_true.mp hk
    rw [get_eq_put hv, get_eq_put (h.get? hv)]
    exact h.put k v
  | false =>
    rw [get_miss (Dict.contains_eq_false.mp hk)]
    exact h.get_larger hk

/-! ## In front of a function -/

variable {f : K → V}

/-- The map after requests for these keys. -/
def serve (f : K → V) (m : LruMap K V) (ks : List K) : LruMap K V := ks.foldl (fun m k => m.put k (f k)) m

/-- The keys `f` is applied to. -/
def missed (f : K → V) : LruMap K V → List K → List K
  | _, [] => []
  | m, k :: ks => (if m.entries.contains k = true then [] else [k]) ++ missed f (m.put k (f k)) ks

@[simp] theorem serve_nil : m.serve f [] = m := rfl
@[simp] theorem serve_cons (k : K) (ks : List K) : m.serve f (k :: ks) = (m.put k (f k)).serve f ks := rfl

theorem serve_append (ks ks' : List K) : m.serve f (ks ++ ks') = (m.serve f ks).serve f ks' := List.foldl_append

theorem missed_append (ks ks' : List K) : missed f m (ks ++ ks') = missed f m ks ++ missed f (m.serve f ks) ks' := by
  induction ks generalizing m with
  | nil => rfl
  | cons k ks ih => rw [List.cons_append, missed, missed, ih, serve_cons, List.append_assoc]

/-- The map holds values of `f`. -/
def Truthful (f : K → V) (m : LruMap K V) : Prop := ∀ k v, m.entries.get? k = some v → v = f k

theorem truthful_empty {n : Nat} (h : 0 < n) : Truthful f (.empty n h) := fun _ _ hv => by cases hv

theorem Truthful.put (h : Truthful f m) (k : K) : Truthful f (m.put k (f k)) := by
  intro k' v hv
  rcases get?_put hv with ⟨rfl, rfl⟩ | hv
  · rfl
  · exact h k' v hv

theorem Truthful.serve (h : Truthful f m) (ks : List K) : Truthful f (m.serve f ks) := by
  induction ks generalizing m with
  | nil => exact h
  | cons k ks ih => exact ih (h.put k)

/-- **A larger map computes less**, and what it computes a smaller one does at the same request. -/
theorem Below.missed_sublist (h : Below m m') (ks : List K) : (missed f m' ks).Sublist (missed f m ks) := by
  induction ks generalizing m m' with
  | nil => exact List.Sublist.refl _
  | cons k ks ih =>
    refine List.Sublist.append ?_ (ih (h.put k (f k)))
    split
    · exact List.nil_sublist _
    · rename_i hk
      rw [if_neg fun hm => hk (h.contains hm)]

/-! ## Against any schedule -/

open Landlord (Rising)

/-- The keys that are held, with credits. -/
def state (m : LruMap K V) (credit : K → ℚ) : Landlord.State K ℚ := ⟨m.entries.keys.toFinset, credit⟩

theorem mem_state (credit : K → ℚ) {k : K} : k ∈ (m.state credit).keys ↔ m.entries.contains k = true := by
  rw [state, List.mem_toFinset, Dict.mem_keys]

/-- What goes for a new key goes as Lib/Landlord has it. -/
theorem kept_evictions {credit : K → ℚ} (h : Rising m.entries.keys credit) (k : K) :
    ∃ credit', Rising (m.kept k).keys credit' ∧
      Landlord.Evictions m.capacity (m.state credit) ⟨(m.kept k).keys.toFinset, credit'⟩ := by
  have hfits := m.fits
  have hpos := m.pos
  by_cases hroom : m.entries.contains k = true ∨ m.entries.len < m.capacity
  · rw [LruMap.kept, if_pos hroom]
    exact ⟨credit, h, .refl⟩
  · have hfull : m.capacity = m.entries.keys.length := by
      rw [Dict.length_keys]
      have := (not_or.mp hroom).2
      omega
    rw [LruMap.kept, if_neg hroom, Dict.keys_dropOldest, state, hfull]
    cases hkeys : m.entries.keys with
    | nil =>
      rw [hkeys] at hfull
      simp at hfull
      omega
    | cons v order =>
      rw [hkeys] at h
      refine ⟨_, h.tail, .single ⟨v, by simp, ?_, fun f hf => ?_, ?_, fun f hf => rfl⟩⟩
      · rw [List.toFinset_card_of_nodup h.nodup]
      · rcases List.mem_cons.mp (List.mem_toFinset.mp hf) with rfl | hin
        · exact le_rfl
        · exact List.rel_of_pairwise_cons h.sorted hin
      · have hv := (List.nodup_cons.mp h.nodup).1
        simp [hv]

theorem put_serves {credit : K → ℚ} (h : Rising m.entries.keys credit) (k : K) (v : V) :
    ∃ credit', Rising (m.put k v).entries.keys credit' ∧
      Landlord.Serve (fun _ => 1) 1 m.capacity (m.state credit) k ((m.put k v).state credit') := by
  have hkeys : ∀ d : Dict K V, (d.use k v).keys.toFinset = insert k d.keys.toFinset := by
    intro d
    ext f
    by_cases hf : f = k <;> simp [Dict.keys_use, hf]
  cases hk : m.entries.contains k with
  | true =>
    have hkept : m.kept k = m.entries := if_pos (.inl hk)
    have hmem := (mem_state credit).mpr hk
    refine ⟨Function.update credit k 1, ?_, .hit hmem ?_ ⟨fun f _ hne => Function.update_of_ne hne .., ?_⟩ ?_⟩
    · rw [put_entries, hkept, Dict.keys_use]
      exact h.last k
    · rw [state, put_entries, hkept, hkeys]
      exact Finset.insert_eq_of_mem hmem
    · simp [state]
    · simpa [state] using (h.bounds k (Dict.mem_keys.mpr hk)).2
  | false =>
    obtain ⟨credit', hrising, hev⟩ := kept_evictions h k
    have hmiss : k ∉ (m.state credit).keys := fun hin => by
      rw [mem_state, hk] at hin
      cases hin
    refine ⟨Function.update credit' k 1, ?_, .miss hmiss hev ?_ ⟨fun f _ hne => Function.update_of_ne hne .., ?_⟩ ?_⟩
    · rw [put_entries, Dict.keys_use]
      exact hrising.last k
    · rw [state, put_entries, hkeys]
    · simp [state]
    · simp [state]

theorem serve_runs : ∀ (ks : List K) {m : LruMap K V} {credit : K → ℚ}, Rising m.entries.keys credit →
    ∃ credit', Landlord.Run (fun _ => 1) 1 m.capacity (m.state credit) ks (missed f m ks).length
      ((m.serve f ks).state credit')
  | [], m, credit, _ => ⟨credit, by simpa [missed] using Landlord.Run.nil⟩
  | k :: ks, m, credit, h => by
    obtain ⟨credit₁, h₁, hserve⟩ := put_serves h k (f k)
    obtain ⟨credit', hrun⟩ := serve_runs ks h₁
    refine ⟨credit', ?_⟩
    have hprice : ((missed f m (k :: ks)).length : ℚ) =
        Landlord.price (fun _ => 1) (m.state credit) k + (missed f (m.put k (f k)) ks).length := by
      rw [missed, List.length_append, Nat.cast_add, Landlord.price]
      cases hk : m.entries.contains k <;> simp [mem_state, hk]
    rw [hprice]
    exact .cons hserve hrun

/-- **Competitiveness**, from an empty map. -/
theorem missed_competitive {n h : Nat} (hn : 0 < n) (hh : 1 ≤ h) (hhn : h ≤ n) {ks : List K} {plan : List (Finset K)}
    (hplan : Landlord.Serves h ks plan) :
    (n + 1 - h : ℚ) * (missed f (.empty n hn) ks).length ≤ n * Landlord.loads (fun _ => 1) ∅ plan := by
  have hrising : Rising (LruMap.empty n hn : LruMap K V).entries.keys fun _ => (0 : ℚ) :=
    ⟨List.nodup_nil, .nil, by simp [Dict.keys, Dict.empty]⟩
  obtain ⟨credit', hrun⟩ := serve_runs (f := f) ks hrising
  have hempty : ((LruMap.empty n hn : LruMap K V).state fun _ => (0 : ℚ)).keys = ∅ := rfl
  simpa using hrun.competitive (fun _ => zero_le_one) zero_le_one hh hhn hempty hplan

end GptCache.LruMap
