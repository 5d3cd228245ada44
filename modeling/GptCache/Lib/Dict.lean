/-
Insertion-ordered dictionaries: writing a key that is present keeps its
place, writing a new one appends it. Keys are distinct by construction, so a
lookup needs no side condition and the length counts keys.

A dictionary is read through `get?`; `get?_set` and `get?_erase` are all a
proof needs to know of a write and a deletion. `sum_erase` splits a sum over
the values at a key.
-/
import Mathlib.Algebra.BigOperators.Group.List.Basic
import Mathlib.Data.List.Nodup
import Mathlib.Tactic.Ring

namespace GptCache

structure Dict (K V : Type) where
  entries : List (K × V)
  nodup : (entries.map Prod.fst).Nodup

namespace Dict

variable {K V W : Type}

theorem ext {d e : Dict K V} (h : d.entries = e.entries) : d = e := by
  cases d; cases e; cases h; rfl

instance [DecidableEq K] [DecidableEq V] : DecidableEq (Dict K V) := fun d e =>
  decidable_of_iff (d.entries = e.entries) ⟨ext, fun h => h ▸ rfl⟩

def empty : Dict K V := ⟨[], List.nodup_nil⟩

def keys (d : Dict K V) : List K := d.entries.map Prod.fst

def values (d : Dict K V) : List V := d.entries.map Prod.snd

def len (d : Dict K V) : Nat := d.entries.length

/-- The same keys, `f` of each value. -/
def mapValues (f : V → W) (d : Dict K V) : Dict K W :=
  ⟨d.entries.map fun e => (e.1, f e.2), by simpa [Function.comp_def] using d.nodup⟩

theorem nodup_keys (d : Dict K V) : d.keys.Nodup := d.nodup

@[simp] theorem len_empty : (empty : Dict K V).len = 0 := rfl

theorem length_keys (d : Dict K V) : d.keys.length = d.len := by simp [keys, len]

@[simp] theorem mapValues_empty (f : V → W) : (empty : Dict K V).mapValues f = empty := rfl

theorem keys_mapValues (f : V → W) (d : Dict K V) : (d.mapValues f).keys = d.keys := by
  simp [keys, mapValues]

theorem values_mapValues (f : V → W) (d : Dict K V) : (d.mapValues f).values = d.values.map f := by
  simp [values, mapValues]

@[simp] theorem len_mapValues (f : V → W) (d : Dict K V) : (d.mapValues f).len = d.len := by
  simp [len, mapValues]

variable [DecidableEq K]

def get? (d : Dict K V) (k : K) : Option V := d.entries.lookup k

def contains (d : Dict K V) (k : K) : Bool := (d.get? k).isSome

/-- `entries` with `v` under `k`: in place when `k` is there, else at the end. -/
def setEntries (k : K) (v : V) : List (K × V) → List (K × V)
  | [] => [(k, v)]
  | e :: es => if e.1 = k then (k, v) :: es else e :: setEntries k v es

theorem mem_keys_setEntries {k : K} {v : V} :
    ∀ {es : List (K × V)} {k' : K}, k' ∈ (setEntries k v es).map Prod.fst → k' = k ∨ k' ∈ es.map Prod.fst
  | [], k', h => by simpa [setEntries] using h
  | e :: es, k', h => by
    unfold setEntries at h
    split at h
    · rename_i he
      simp only [List.map_cons, List.mem_cons] at h ⊢
      rcases h with h | h
      · exact .inl h
      · exact .inr (.inr h)
    · simp only [List.map_cons, List.mem_cons] at h ⊢
      rcases h with h | h
      · exact .inr (.inl h)
      · rcases mem_keys_setEntries h with h | h
        · exact .inl h
        · exact .inr (.inr h)

theorem nodup_setEntries {k : K} {v : V} :
    ∀ {es : List (K × V)}, (es.map Prod.fst).Nodup → ((setEntries k v es).map Prod.fst).Nodup
  | [], _ => by simp [setEntries]
  | e :: es, h => by
    simp only [List.map_cons, List.nodup_cons] at h
    unfold setEntries
    split
    · rename_i he
      subst he
      simpa using h
    · rename_i he
      simp only [List.map_cons, List.nodup_cons]
      refine ⟨fun hm => ?_, nodup_setEntries h.2⟩
      rcases mem_keys_setEntries hm with hk | hk
      · exact he hk
      · exact h.1 hk

theorem setEntries_of_not_mem {k : K} {v : V} :
    ∀ {es : List (K × V)}, k ∉ es.map Prod.fst → setEntries k v es = es ++ [(k, v)]
  | [], _ => rfl
  | e :: es, h => by
    simp only [List.map_cons, List.mem_cons, not_or] at h
    rw [setEntries, if_neg fun he => h.1 he.symm, setEntries_of_not_mem h.2, List.cons_append]

/-- `d[k] = v`. -/
def set (d : Dict K V) (k : K) (v : V) : Dict K V :=
  ⟨setEntries k v d.entries, nodup_setEntries d.nodup⟩

/-- `del d[k]`, nothing when `k` is absent. -/
def erase (d : Dict K V) (k : K) : Dict K V :=
  ⟨d.entries.filter fun e => e.1 ≠ k, d.nodup.sublist (List.filter_sublist.map Prod.fst)⟩

/-- `d.pop(k, default)`. -/
def pop (d : Dict K V) (k : K) (default : V) : V × Dict K V := ((d.get? k).getD default, d.erase k)

/-! ## Lookups -/

@[simp] theorem get?_empty (k : K) : (empty : Dict K V).get? k = none := rfl

theorem lookup_setEntries (k : K) (v : V) (k' : K) :
    ∀ es : List (K × V), (setEntries k v es).lookup k' = if k' = k then some v else es.lookup k'
  | [] => by
    by_cases h : k' = k
    · simp [setEntries, h]
    · simp [setEntries, List.lookup_cons, h, beq_eq_false_iff_ne.mpr h]
  | (k₀, v₀) :: es => by
    have ih := lookup_setEntries k v k' es
    unfold setEntries
    split
    · rename_i he
      simp only at he
      subst he
      by_cases h : k' = k₀
      · simp [h]
      · simp [List.lookup_cons, h, beq_eq_false_iff_ne.mpr h]
    · rename_i he
      simp only at he
      by_cases h₀ : k' = k₀
      · subst h₀; simp [he]
      · simp only [List.lookup_cons, beq_eq_false_iff_ne.mpr h₀, ih]

theorem get?_set (d : Dict K V) (k : K) (v : V) (k' : K) :
    (d.set k v).get? k' = if k' = k then some v else d.get? k' :=
  lookup_setEntries k v k' d.entries

@[simp] theorem get?_set_self (d : Dict K V) (k : K) (v : V) : (d.set k v).get? k = some v := by
  simp [get?_set]

theorem get?_set_of_ne (d : Dict K V) {k k' : K} (v : V) (h : k' ≠ k) :
    (d.set k v).get? k' = d.get? k' := by
  simp [get?_set, h]

/-- Of the values set under one key the last is there. -/
theorem get?_foldl_set (key : V → K) (xs : List V) (d : Dict K V) (k : K) :
    (xs.foldl (fun d x => d.set (key x) x) d).get? k = ((xs.filter fun x => key x = k).getLast?).or (d.get? k) := by
  induction xs generalizing d with
  | nil => rfl
  | cons x xs ih =>
    rw [List.foldl_cons, ih, List.filter_cons]
    by_cases hx : key x = k
    · subst hx
      rw [if_pos (decide_eq_true rfl), get?_set_self, List.getLast?_cons]
      cases (xs.filter fun y => key y = key x).getLast? <;> rfl
    · rw [if_neg (by simpa using hx), get?_set_of_ne d x fun h => hx h.symm]

theorem entries_set_of_not_mem {d : Dict K V} {k : K} (h : k ∉ d.keys) (v : V) :
    (d.set k v).entries = d.entries ++ [(k, v)] := setEntries_of_not_mem h

/-- Distinct new keys are appended in their order. -/
theorem entries_foldl_set {A : Type} (key : A → K) (f : A → V) {xs : List A} {d : Dict K V}
    (h : (d.keys ++ xs.map key).Nodup) :
    (xs.foldl (fun d x => d.set (key x) (f x)) d).entries = d.entries ++ xs.map fun x => (key x, f x) := by
  induction xs generalizing d with
  | nil => simp
  | cons x xs ih =>
    have hx : key x ∉ d.keys := fun hmem => List.disjoint_of_nodup_append h hmem (by simp)
    have hset := entries_set_of_not_mem hx (f x)
    have hkeys : (d.set (key x) (f x)).keys = d.keys ++ [key x] := by
      rw [keys, hset, List.map_append]
      rfl
    rw [List.foldl_cons, ih, hset, List.append_assoc]
    · rfl
    · rw [hkeys, List.append_assoc]
      exact h

theorem lookup_filter_ne (k k' : K) :
    ∀ es : List (K × V), (es.filter fun e => e.1 ≠ k).lookup k' = if k' = k then none else es.lookup k'
  | [] => by simp
  | (k₀, v₀) :: es => by
    have ih := lookup_filter_ne k k' es
    by_cases h₀ : k₀ = k
    · subst h₀
      simp only [ne_eq, not_true_eq_false, decide_false, Bool.false_eq_true, not_false_eq_true,
        List.filter_cons_of_neg, ih]
      by_cases h : k' = k₀
      · simp [h]
      · simp [List.lookup_cons, h, beq_eq_false_iff_ne.mpr h]
    · simp only [ne_eq, h₀, not_false_eq_true, decide_true, List.filter_cons_of_pos]
      by_cases h : k' = k₀
      · subst h; simp [h₀]
      · simp only [List.lookup_cons, beq_eq_false_iff_ne.mpr h, ih]

theorem get?_erase (d : Dict K V) (k k' : K) :
    (d.erase k).get? k' = if k' = k then none else d.get? k' :=
  lookup_filter_ne k k' d.entries

@[simp] theorem get?_erase_self (d : Dict K V) (k : K) : (d.erase k).get? k = none := by
  simp [get?_erase]

theorem get?_erase_of_ne (d : Dict K V) {k k' : K} (h : k' ≠ k) : (d.erase k).get? k' = d.get? k' := by
  simp [get?_erase, h]

theorem contains_eq_true {d : Dict K V} {k : K} : d.contains k = true ↔ ∃ v, d.get? k = some v := by
  simp [contains, Option.isSome_iff_exists]

theorem contains_eq_false {d : Dict K V} {k : K} : d.contains k = false ↔ d.get? k = none := by
  simp [contains]

theorem contains_set (d : Dict K V) (k : K) (v : V) (k' : K) :
    (d.set k v).contains k' = (decide (k' = k) || d.contains k') := by
  by_cases h : k' = k <;> simp [contains, get?_set, h]

theorem contains_erase (d : Dict K V) (k k' : K) :
    (d.erase k).contains k' = (!decide (k' = k) && d.contains k') := by
  by_cases h : k' = k <;> simp [contains, get?_erase, h]

theorem mem_keys {d : Dict K V} {k : K} : k ∈ d.keys ↔ d.contains k = true := by
  obtain ⟨es, hn⟩ := d
  simp only [keys, contains, get?]
  clear hn
  induction es with
  | nil => simp
  | cons e es ih =>
    obtain ⟨k₀, v₀⟩ := e
    by_cases h : k = k₀
    · simp [h]
    · simp only [List.map_cons, List.mem_cons, h, false_or, List.lookup_cons, beq_eq_false_iff_ne.mpr h]
      exact ih

theorem mem_entries {d : Dict K V} {k : K} {v : V} : (k, v) ∈ d.entries ↔ d.get? k = some v := by
  obtain ⟨es, hn⟩ := d
  simp only [get?]
  induction es with
  | nil => simp
  | cons e es ih =>
    obtain ⟨k₀, v₀⟩ := e
    simp only [List.map_cons, List.nodup_cons] at hn
    by_cases h : k = k₀
    · subst h
      simp only [List.mem_cons, Prod.mk.injEq, true_and, List.lookup_cons_self, Option.some.injEq]
      constructor
      · rintro (h | h)
        · exact h.symm
        · exact absurd (List.mem_map_of_mem (f := Prod.fst) h) hn.1
      · rintro rfl; exact .inl rfl
    · simp only [List.mem_cons, Prod.mk.injEq, h, false_and, false_or, List.lookup_cons,
        beq_eq_false_iff_ne.mpr h]
      exact ih hn.2

/-! ## Length and sums -/

theorem len_eq_zero {d : Dict K V} : d.len = 0 ↔ ∀ k, d.get? k = none := by
  constructor
  · intro h k
    obtain ⟨es, hn⟩ := d
    simp only [len, List.length_eq_zero_iff] at h
    subst h
    rfl
  · intro h
    by_contra hne
    obtain ⟨e, he⟩ := List.exists_mem_of_length_pos (Nat.pos_of_ne_zero hne)
    have hk := h e.1
    rw [mem_entries.mp (show (e.1, e.2) ∈ d.entries from he)] at hk
    cases hk

/-- Writing a present key keeps the length. -/
theorem len_set_of_mem {d : Dict K V} {k : K} (h : d.contains k = true) (v : V) : (d.set k v).len = d.len := by
  have hk : k ∈ d.entries.map Prod.fst := mem_keys.mpr h
  simp only [len, set]
  generalize d.entries = es at hk
  induction es with
  | nil => simp at hk
  | cons e es ih =>
    unfold setEntries
    split
    · rfl
    · rename_i he
      simp only [List.map_cons, List.mem_cons] at hk
      simp [ih (hk.resolve_left fun h => he h.symm)]

/-- Writing a new key adds one. -/
theorem len_set_of_not_mem {d : Dict K V} {k : K} (h : d.contains k = false) (v : V) :
    (d.set k v).len = d.len + 1 := by
  have hk : k ∉ d.keys := fun hm => by
    have := mem_keys.mp hm
    simp [h] at this
  rw [len, entries_set_of_not_mem hk, List.length_append]
  rfl

/-- A sum over the values, split at a key. -/
theorem sum_erase {A : Type} [AddCommMonoid A] (f : V → A) {d : Dict K V} {k : K} {v : V}
    (h : d.get? k = some v) : (d.values.map f).sum = f v + ((d.erase k).values.map f).sum := by
  obtain ⟨es, hn⟩ := d
  simp only [get?] at h
  simp only [values, erase]
  induction es with
  | nil => simp at h
  | cons e es ih =>
    obtain ⟨k₀, v₀⟩ := e
    simp only [List.map_cons, List.nodup_cons] at hn
    by_cases hk : k = k₀
    · subst hk
      simp only [List.lookup_cons_self, Option.some.injEq] at h
      subst h
      have hfilter : es.filter (fun e => decide (e.1 ≠ k)) = es := by
        rw [List.filter_eq_self]
        intro e he
        simp only [ne_eq, decide_not, Bool.not_eq_true', decide_eq_false_iff_not]
        rintro rfl
        exact hn.1 (List.mem_map_of_mem he)
      simp only [List.map_cons, List.sum_cons, ne_eq, not_true_eq_false, decide_false,
        Bool.false_eq_true, not_false_eq_true, List.filter_cons_of_neg]
      simp only [ne_eq] at hfilter
      rw [hfilter]
    · have hk' : k₀ ≠ k := fun h => hk h.symm
      simp only [List.lookup_cons, beq_eq_false_iff_ne.mpr hk] at h
      simp only [List.map_cons, List.sum_cons, ne_eq, hk', not_false_eq_true, decide_true,
        List.filter_cons_of_pos]
      rw [ih hn.2 h]
      simp only [ne_eq]
      exact add_left_comm _ _ _

theorem len_erase_add_one {d : Dict K V} {k : K} (h : d.contains k = true) : (d.erase k).len + 1 = d.len := by
  obtain ⟨v, hv⟩ := contains_eq_true.mp h
  have hlen : ∀ e : Dict K V, (e.values.map fun _ => 1).sum = e.len := fun e => by
    simp [values, len, Function.comp_def]
  have := sum_erase (fun _ => 1) hv
  rw [hlen, hlen] at this
  omega

/-! ## Values -/

@[simp] theorem get?_mapValues (f : V → W) (d : Dict K V) (k : K) :
    (d.mapValues f).get? k = (d.get? k).map f := by
  obtain ⟨es, hn⟩ := d
  simp only [get?, mapValues]
  clear hn
  induction es with
  | nil => rfl
  | cons e es ih =>
    obtain ⟨k₀, v₀⟩ := e
    by_cases h : k = k₀
    · simp [h]
    · simp only [List.map_cons, List.lookup_cons, beq_eq_false_iff_ne.mpr h, ih]

@[simp] theorem contains_mapValues (f : V → W) (d : Dict K V) (k : K) :
    (d.mapValues f).contains k = d.contains k := by
  simp [contains]

theorem mapValues_set (f : V → W) (d : Dict K V) (k : K) (v : V) :
    (d.set k v).mapValues f = (d.mapValues f).set k (f v) := by
  apply ext
  simp only [mapValues, set]
  induction d.entries with
  | nil => rfl
  | cons e es ih =>
    unfold setEntries
    by_cases h : e.1 = k
    · simp [h]
    · simp only [h, if_false, List.map_cons, ih]

theorem mapValues_erase (f : V → W) (d : Dict K V) (k : K) :
    (d.erase k).mapValues f = (d.mapValues f).erase k := by
  apply ext
  simp only [mapValues, erase, List.filter_map, Function.comp_def]

/-! ## Without some keys -/

/-- The entries under other keys. -/
def without (d : Dict K V) (ks : List K) : Dict K V :=
  ⟨d.entries.filter fun e => e.1 ∉ ks, d.nodup.sublist (List.filter_sublist.map Prod.fst)⟩

theorem without_erase (d : Dict K V) {k : K} {ks : List K} (hk : k ∈ ks) : (d.erase k).without ks = d.without ks := by
  refine ext ?_
  simp only [without, erase, List.filter_filter]
  refine List.filter_congr fun e _ => ?_
  by_cases he : e.1 = k <;> simp [he, hk]

theorem filter_setEntries {k : K} {ks : List K} (hk : k ∈ ks) (v : V) : ∀ es : List (K × V),
    (setEntries k v es).filter (fun e => e.1 ∉ ks) = es.filter fun e => e.1 ∉ ks
  | [] => by simp [setEntries, hk]
  | (k₀, v₀) :: es => by
    unfold setEntries
    split
    · rename_i h
      simp [h ▸ hk, hk]
    · rw [List.filter_cons, List.filter_cons, filter_setEntries hk v es]

theorem without_set (d : Dict K V) {k : K} {ks : List K} (hk : k ∈ ks) (v : V) :
    (d.set k v).without ks = d.without ks :=
  ext (filter_setEntries hk v d.entries)

theorem contains_without {d : Dict K V} {ks : List K} {k : K} (hk : k ∈ ks) : (d.without ks).contains k = false := by
  rw [← Bool.not_eq_true, ← mem_keys]
  intro h
  obtain ⟨e, he, rfl⟩ := List.mem_map.mp h
  exact absurd hk (of_decide_eq_true (List.mem_filter.mp he).2)

theorem get?_without (d : Dict K V) {ks : List K} {k : K} (hk : k ∉ ks) : (d.without ks).get? k = d.get? k := by
  refine Option.ext fun v => ?_
  rw [← mem_entries, ← mem_entries, without, List.mem_filter]
  simp [hk]

theorem without_eq_self {d : Dict K V} {ks : List K} (h : ∀ k ∈ ks, d.contains k = false) : d.without ks = d := by
  refine ext (List.filter_eq_self.mpr fun e he => ?_)
  have hmem : d.contains e.1 = true := mem_keys.mp (List.mem_map_of_mem he)
  exact decide_eq_true fun hk => by simp [h e.1 hk] at hmem

theorem erase_eq_self {d : Dict K V} {k : K} (h : d.contains k = false) : d.erase k = d := by
  refine ext (List.filter_eq_self.mpr fun e he => ?_)
  have hmem : d.contains e.1 = true := mem_keys.mp (List.mem_map_of_mem he)
  exact decide_eq_true fun hk => by simp [hk, h] at hmem

/-- Nothing but these keys was touched: what is left is the rest of `d'` iff none of them is left. -/
theorem eq_without_iff {d d' : Dict K V} {ks : List K} (h : d.without ks = d'.without ks) :
    d = d'.without ks ↔ ∀ k ∈ ks, d.contains k = false := by
  refine ⟨fun heq k hk => heq ▸ contains_without hk, fun hnone => ?_⟩
  rw [← h, without_eq_self hnone]

end Dict

end GptCache
