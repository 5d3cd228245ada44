/-
`GDSFCache` (gptcache/manager/eviction/gdsf.py), method by method.

The heap is `heapq`'s list in the order in which it would be popped: its
entries are compared by priority and then by the counter, which no two share,
so `heappop` answers the head and `heappush` inserts. Numbers are exact.

The state is compared with `Textbook`, the policy as the docstring states it,
replayed from what happened to the cache: a key's frequency starts at 1 when
it is stored while absent and counts its hits, its age is the inflation at its
last store or hit, and an eviction lifts the inflation to the evicted key's
priority. `Inv` says that the dictionaries agree with it and that every cached
key's current priority is still in the heap; stale entries are harmless,
because an entry is live exactly when it carries its key's current priority.
-/
import Mathlib.Data.List.Sort
import Mathlib.Algebra.Order.Field.Rat
import GptCache.Cachetools

namespace GptCache

/-- A value stored in a cache, as far as `_cost_of` tells values apart: a
bool, an int or float, or anything else. -/
inductive Value (α : Type) where
  | bool (b : Bool)
  | num (q : ℚ)
  | other (a : α)
  deriving DecidableEq

/-- A heap entry `(priority, tiebreak, key)`. -/
structure HeapEntry (K : Type) where
  prio : ℚ
  tiebreak : Nat
  key : K
  deriving DecidableEq

/-- Python's order on entries whose tiebreaks differ. -/
def HeapEntry.le {K : Type} (a b : HeapEntry K) : Prop :=
  a.prio < b.prio ∨ (a.prio = b.prio ∧ a.tiebreak ≤ b.tiebreak)

instance {K : Type} : DecidableRel (HeapEntry.le (K := K)) := fun _ _ => inferInstanceAs (Decidable (_ ∨ _))

instance {K : Type} : Std.Total (HeapEntry.le (K := K)) where
  total a b := by
    rcases lt_trichotomy a.prio b.prio with h | h | h
    · exact .inl (.inl h)
    · rcases Nat.le_total a.tiebreak b.tiebreak with h' | h'
      · exact .inl (.inr ⟨h, h'⟩)
      · exact .inr (.inr ⟨h.symm, h'⟩)
    · exact .inr (.inl h)

instance {K : Type} : IsTrans (HeapEntry K) HeapEntry.le where
  trans a b c := by
    rintro (h | ⟨h, ht⟩) (h' | ⟨h', ht'⟩)
    · exact .inl (h.trans h')
    · exact .inl (h' ▸ h)
    · exact .inl (h ▸ h')
    · exact .inr ⟨h.trans h', ht.trans ht'⟩

def heappush {K : Type} (heap : List (HeapEntry K)) (e : HeapEntry K) : List (HeapEntry K) :=
  heap.orderedInsert HeapEntry.le e

theorem sorted_heappush {K : Type} {heap : List (HeapEntry K)} (h : heap.Pairwise HeapEntry.le) (e : HeapEntry K) :
    (heappush heap e).Pairwise HeapEntry.le :=
  h.orderedInsert e heap

theorem mem_heappush {K : Type} {heap : List (HeapEntry K)} {e e' : HeapEntry K} :
    e' ∈ heappush heap e ↔ e' = e ∨ e' ∈ heap :=
  List.mem_orderedInsert _

structure GDSFCache (K α : Type) where
  base : Cache K (Value α)
  heap : List (HeapEntry K)
  counter : Nat
  freq : Dict K Nat
  prio : Dict K ℚ
  inflation : ℚ

namespace GDSFCache

variable {K α : Type}

def new (maxsize : ℚ) (getsizeof : Value α → ℚ) : GDSFCache K α where
  base := .new maxsize getsizeof
  heap := []
  counter := 0
  freq := .empty
  prio := .empty
  inflation := 0

/-- `_cost_of`. -/
def costOf : Value α → ℚ
  | .bool _ => 1
  | .num q => q
  | .other _ => 1

/-- The size `_push` divides by: `getsizeof`, 1 in place of 0. -/
def sizeOf (getsizeof : Value α → ℚ) (v : Value α) : ℚ := if getsizeof v = 0 then 1 else getsizeof v

variable [DecidableEq K]

/-- `_push`; both callers have just written the key's frequency. -/
def push (s : GDSFCache K α) (k : K) (v : Value α) : GDSFCache K α :=
  let size := sizeOf s.base.getsizeof v
  let prio := s.inflation + ((s.freq.get? k).getD 0 : Nat) * costOf v / size
  { s with prio := s.prio.set k prio, heap := heappush s.heap ⟨prio, s.counter, k⟩, counter := s.counter + 1 }

/-- `__setitem__` after `Cache.__setitem__` has made room, its storing included. -/
def store (s : GDSFCache K α) (k : K) (v : Value α) : GDSFCache K α :=
  let s := { s with base := s.base.store k v }
  let s := if s.freq.contains k then s else { s with freq := s.freq.set k 1 }
  s.push k v

/-- `__getitem__`; `none` is the `KeyError` of `__missing__`. -/
def getitem (s : GDSFCache K α) (k : K) : Option (Value α) × GDSFCache K α :=
  match s.base.data.get? k with
  | none => (none, s)
  | some v =>
    let s := { s with base := s.base.read k }
    match s.freq.get? k with
    | none => (some v, s)
    | some f => (some v, { s with freq := s.freq.set k (f + 1) }.push k v)

/-- What `__delitem__` does beside `Cache.__delitem__`. -/
def forget (s : GDSFCache K α) (k : K) : GDSFCache K α :=
  { s with freq := s.freq.erase k, prio := s.prio.erase k }

/-- `__delitem__`; `none` is a `KeyError`. -/
def delitem (s : GDSFCache K α) (k : K) : Option Unit × GDSFCache K α :=
  if s.base.data.contains k then (some (), { s with base := s.base.delitem k }.forget k) else (none, s)

/-- The loop of `popitem`: pop entries until one carries its key's current
priority. Answers that entry and what is left of the heap. -/
def popLive (prio : Dict K ℚ) : List (HeapEntry K) → Option (HeapEntry K × List (HeapEntry K))
  | [] => none
  | e :: heap => if prio.get? e.key = some e.prio then some (e, heap) else popLive prio heap

/-- `popitem`; `none` is a `KeyError`. -/
def popitem (s : GDSFCache K α) : Option (K × Value α) × GDSFCache K α :=
  match popLive s.prio s.heap with
  | none => (none, { s with heap := [] })
  | some (e, heap) =>
    match s.base.data.get? e.key with
    | none => (none, { s with heap := heap })
    | some v =>
      (some (e.key, v),
        { s with heap := heap, inflation := e.prio, base := s.base.pop e.key }.forget e.key)

@[simp] theorem push_base (s : GDSFCache K α) (k : K) (v : Value α) : (s.push k v).base = s.base := rfl
@[simp] theorem push_freq (s : GDSFCache K α) (k : K) (v : Value α) : (s.push k v).freq = s.freq := rfl
@[simp] theorem push_inflation (s : GDSFCache K α) (k : K) (v : Value α) :
    (s.push k v).inflation = s.inflation := rfl

@[simp] theorem store_base (s : GDSFCache K α) (k : K) (v : Value α) :
    (s.store k v).base = s.base.store k v := by
  simp only [store, push_base]; split <;> rfl

end GDSFCache

/-! ## The policy of the textbook -/

structure Textbook (K α : Type) where
  value : Dict K (Value α)
  freq : K → Nat
  age : K → ℚ
  inflation : ℚ

namespace Textbook

variable {K α : Type}

def init : Textbook K α := ⟨.empty, fun _ => 0, fun _ => 0, 0⟩

/-- The sizes of the cached values, added up. -/
def used (getsizeof : Value α → ℚ) (t : Textbook K α) : ℚ := (t.value.values.map getsizeof).sum

variable [DecidableEq K]

/-- `H(key) = L + frequency(key) * cost(key) / size(key)`, at the key's own `L`. -/
def prio (getsizeof : Value α → ℚ) (t : Textbook K α) (k : K) : ℚ :=
  match t.value.get? k with
  | none => t.age k
  | some v => t.age k + t.freq k * GDSFCache.costOf v / GDSFCache.sizeOf getsizeof v

def step (getsizeof : Value α → ℚ) (t : Textbook K α) : Event K (Value α) → Textbook K α
  | .stored k v =>
    { t with
      value := t.value.set k v
      freq := if t.value.contains k then t.freq else Function.update t.freq k 1
      age := Function.update t.age k t.inflation }
  | .read k =>
    { t with freq := Function.update t.freq k (t.freq k + 1), age := Function.update t.age k t.inflation }
  | .deleted k => { t with value := t.value.erase k }
  | .popped k => { t with value := t.value.erase k, inflation := prio getsizeof t k }

/-- The policy's state after a history (newest event first). -/
def replay (getsizeof : Value α → ℚ) : List (Event K (Value α)) → Textbook K α
  | [] => init
  | e :: h => step getsizeof (replay getsizeof h) e

/-- `k` is cached and no cached key has a lower priority. -/
def IsLeast (getsizeof : Value α → ℚ) (t : Textbook K α) (k : K) : Prop :=
  t.value.contains k = true ∧ ∀ k', t.value.contains k' = true → t.prio getsizeof k ≤ t.prio getsizeof k'

/-- Only cached keys are read or deleted, and only a least one is evicted. -/
def Follows (getsizeof : Value α → ℚ) : List (Event K (Value α)) → Prop
  | [] => True
  | e :: h => Follows getsizeof h ∧
    match e with
    | .stored _ _ => True
    | .read k | .deleted k => (replay getsizeof h).value.contains k = true
    | .popped k => IsLeast getsizeof (replay getsizeof h) k

end Textbook

/-! ## The invariant -/

namespace GDSFCache

variable {K α : Type} [DecidableEq K]

/-- The policy's state after everything that happened to the cache. -/
def textbook (s : GDSFCache K α) : Textbook K α := .replay s.base.getsizeof s.base.history

structure Inv (s : GDSFCache K α) : Prop where
  data : s.base.data = s.textbook.value
  freq : ∀ k, s.freq.get? k = (s.textbook.value.get? k).map fun _ => s.textbook.freq k
  prio : ∀ k, s.prio.get? k = (s.textbook.value.get? k).map fun _ => s.textbook.prio s.base.getsizeof k
  inflation : s.inflation = s.textbook.inflation
  sorted : s.heap.Pairwise HeapEntry.le
  live : ∀ k p, s.prio.get? k = some p → ∃ e ∈ s.heap, e.key = k ∧ e.prio = p
  follows : Textbook.Follows s.base.getsizeof s.base.history

theorem new_inv (m : ℚ) (g : Value α → ℚ) : Inv (new m g : GDSFCache K α) where
  data := rfl
  freq _ := rfl
  prio _ := rfl
  inflation := rfl
  sorted := List.Pairwise.nil
  live k p h := by simp [new] at h
  follows := trivial

/-- `_push` leaves the invariant behind when, of the pushed key, all but the
priority and the heap entry already agree with the policy. -/
theorem push_inv {s : GDSFCache K α} {k : K} {v : Value α}
    (hdata : s.base.data = s.textbook.value)
    (hfreq : ∀ k', s.freq.get? k' = (s.textbook.value.get? k').map fun _ => s.textbook.freq k')
    (hprio : ∀ k', k' ≠ k →
      s.prio.get? k' = (s.textbook.value.get? k').map fun _ => s.textbook.prio s.base.getsizeof k')
    (hinf : s.inflation = s.textbook.inflation) (hsorted : s.heap.Pairwise HeapEntry.le)
    (hlive : ∀ k' p, k' ≠ k → s.prio.get? k' = some p → ∃ e ∈ s.heap, e.key = k' ∧ e.prio = p)
    (hfollows : Textbook.Follows s.base.getsizeof s.base.history)
    (hv : s.textbook.value.get? k = some v) (hage : s.textbook.age k = s.textbook.inflation) :
    Inv (s.push k v) := by
  have hpk : s.inflation + ((s.freq.get? k).getD 0 : Nat) * costOf v / sizeOf s.base.getsizeof v =
      s.textbook.prio s.base.getsizeof k := by
    simp only [Textbook.prio, hv, hage, hinf, hfreq, Option.map_some, Option.getD_some]
  constructor
  · exact hdata
  · exact hfreq
  · intro k'
    simp only [push, Dict.get?_set]
    split
    · rename_i he
      subst he
      rw [hpk]
      simp only [textbook] at hv ⊢
      simp [hv]
    · rename_i hne
      exact hprio k' hne
  · exact hinf
  · exact sorted_heappush hsorted _
  · intro k' p h
    simp only [push, Dict.get?_set] at h
    split at h
    · rename_i he
      cases h
      exact ⟨_, mem_heappush.mpr (.inl rfl), he.symm, rfl⟩
    · rename_i hne
      obtain ⟨e, he, hk, hp⟩ := hlive k' p hne h
      exact ⟨e, mem_heappush.mpr (.inr he), hk, hp⟩
  · exact hfollows

theorem store_inv {s : GDSFCache K α} (k : K) (v : Value α) (h : Inv s) : Inv (s.store k v) := by
  have hcontains : s.freq.contains k = s.textbook.value.contains k := by
    simp [Dict.contains, h.freq]
  -- the two branches of the frequency differ only in the dictionary written
  have key : ∀ freq : Dict K Nat,
      (∀ k', freq.get? k' = ((s.textbook.value.set k v).get? k').map fun _ =>
        (if s.textbook.value.contains k then s.textbook.freq else Function.update s.textbook.freq k 1) k') →
      Inv (({ s with base := s.base.store k v, freq := freq } : GDSFCache K α).push k v) := by
    intro freq hfreq
    have ht : ({ s with base := s.base.store k v, freq := freq } : GDSFCache K α).textbook =
        Textbook.step s.base.getsizeof s.textbook (.stored k v) := rfl
    refine push_inv ?_ ?_ ?_ ?_ h.sorted (fun k' p _ => h.live k' p) ⟨h.follows, trivial⟩ ?_ ?_
    · rw [ht, Cache.store_data, h.data, Textbook.step]
    · intro k'; rw [ht]; exact hfreq k'
    · intro k' hne
      rw [ht]
      by_cases hs : s.textbook.value.contains k = true <;>
        simp [Textbook.step, Textbook.prio, Dict.get?_set, hne, h.prio, hs]
    · exact h.inflation
    · rw [ht]; simp [Textbook.step]
    · rw [ht]; simp [Textbook.step]
  unfold store
  dsimp only
  split
  · rename_i hc
    refine key s.freq fun k' => ?_
    have hs : s.textbook.value.contains k = true := hcontains ▸ hc
    by_cases he : k' = k
    · subst he
      obtain ⟨w, hw⟩ := Dict.contains_eq_true.mp hs
      simp [h.freq, hs, hw]
    · simp [h.freq, hs, Dict.get?_set, he]
  · rename_i hc
    refine key (s.freq.set k 1) fun k' => ?_
    have hs : ¬ s.textbook.value.contains k = true := hcontains ▸ hc
    by_cases he : k' = k
    · subst he; simp [hs]
    · simp [Dict.get?_set, h.freq, hs, he]

/-- A hit: the frequency goes up and the priority is renewed. -/
theorem getitem_inv {s : GDSFCache K α} {k : K} {v : Value α} (h : Inv s) (hk : s.base.data.get? k = some v) :
    (s.getitem k).1 = some v ∧ Inv (s.getitem k).2 ∧ (s.getitem k).2.base = s.base.read k := by
  have hv : s.textbook.value.get? k = some v := h.data ▸ hk
  have hf : s.freq.get? k = some (s.textbook.freq k) := by simp [h.freq, hv]
  simp only [getitem, hk, hf]
  refine ⟨trivial, ?_, rfl⟩
  have ht : ({ s with base := s.base.read k, freq := s.freq.set k (s.textbook.freq k + 1) } :
      GDSFCache K α).textbook = Textbook.step s.base.getsizeof s.textbook (.read k) := rfl
  refine push_inv h.data ?_ ?_ ?_ h.sorted (fun k' p _ => h.live k' p)
    ⟨h.follows, Dict.contains_eq_true.mpr ⟨v, hv⟩⟩ ?_ ?_
  · intro k'
    rw [ht]
    by_cases he : k' = k
    · subst he; simp [Textbook.step, hv]
    · simp [Textbook.step, Dict.get?_set, he, h.freq]
  · intro k' hne
    rw [ht]
    simp [Textbook.step, Textbook.prio, Function.update_of_ne hne, h.prio]
  · exact h.inflation
  · rw [ht]; exact hv
  · rw [ht]; simp [Textbook.step]

theorem getitem_miss {s : GDSFCache K α} {k : K} (hk : s.base.data.get? k = none) :
    s.getitem k = (none, s) := by
  simp only [getitem, hk]

/-- Removing a key, whatever event that is for the policy, keeps the invariant
when the heap keeps every other key's live entry. -/
theorem forget_inv {s : GDSFCache K α} (h : Inv s) {k : K} {base : Cache K (Value α)}
    {heap : List (HeapEntry K)} {inflation : ℚ} {t : Textbook K α}
    (hg : base.getsizeof = s.base.getsizeof) (hdata : base.data = s.base.data.erase k)
    (ht : Textbook.replay s.base.getsizeof base.history = t)
    (hvalue : t.value = s.textbook.value.erase k)
    (hfreq : t.freq = s.textbook.freq) (hage : t.age = s.textbook.age) (hinf : inflation = t.inflation)
    (hsorted : heap.Pairwise HeapEntry.le)
    (hlive : ∀ e ∈ s.heap, e.key ≠ k → s.prio.get? e.key = some e.prio → e ∈ heap)
    (hfollows : Textbook.Follows s.base.getsizeof base.history) :
    Inv ({ s with heap := heap, inflation := inflation, base := base }.forget k) := by
  have ht' : ({ s with heap := heap, inflation := inflation, base := base }.forget k).textbook = t := by
    simp only [textbook, forget, hg, ht]
  constructor
  · rw [ht']
    simp only [forget, hdata, hvalue, h.data]
  · intro k'
    rw [ht']
    by_cases he : k' = k <;> simp [forget, hvalue, hfreq, Dict.get?_erase, he, h.freq]
  · intro k'
    rw [ht']
    by_cases he : k' = k
    · simp [forget, hvalue, he]
    · simp [forget, hvalue, Dict.get?_erase, he, h.prio, Textbook.prio, hage, hfreq, hg]
  · rw [ht']; exact hinf
  · exact hsorted
  · intro k' p hp
    simp only [forget, Dict.get?_erase] at hp
    split at hp
    · cases hp
    · rename_i hne
      obtain ⟨e, he, rfl, rfl⟩ := h.live k' p hp
      exact ⟨e, hlive e he hne hp, rfl, rfl⟩
  · exact hg ▸ hfollows

theorem delitem_inv {s : GDSFCache K α} {k : K} (h : Inv s) (hk : s.base.data.contains k = true) :
    (s.delitem k).1 = some () ∧ Inv (s.delitem k).2 ∧ (s.delitem k).2.base = s.base.delitem k := by
  simp only [delitem, hk, if_true]
  refine ⟨trivial, ?_, rfl⟩
  have hs : s.textbook.value.contains k = true := h.data ▸ hk
  exact forget_inv h rfl rfl rfl rfl rfl rfl h.inflation h.sorted (fun e he _ _ => he) ⟨h.follows, hs⟩

/-! ## popitem -/

/-- What the loop of `popitem` pops: stale entries, then a live one. -/
theorem popLive_some {prio : Dict K ℚ} {heap rest : List (HeapEntry K)} {e : HeapEntry K}
    (h : popLive prio heap = some (e, rest)) :
    ∃ stale, heap = stale ++ e :: rest ∧ prio.get? e.key = some e.prio ∧
      ∀ e' ∈ stale, prio.get? e'.key ≠ some e'.prio := by
  induction heap with
  | nil => simp [popLive] at h
  | cons e₀ heap ih =>
    unfold popLive at h
    split at h
    · rename_i hlive
      cases h
      exact ⟨[], rfl, hlive, by simp⟩
    · rename_i hstale
      obtain ⟨stale, rfl, hlive, hall⟩ := ih h
      refine ⟨e₀ :: stale, rfl, hlive, fun e' he' => ?_⟩
      rcases List.mem_cons.mp he' with rfl | hm
      · exact hstale
      · exact hall e' hm

theorem popLive_none {prio : Dict K ℚ} {heap : List (HeapEntry K)} (h : popLive prio heap = none) :
    ∀ e ∈ heap, prio.get? e.key ≠ some e.prio := by
  induction heap with
  | nil => simp
  | cons e₀ heap ih =>
    unfold popLive at h
    split at h
    · cases h
    · rename_i hstale
      intro e he
      rcases List.mem_cons.mp he with rfl | hm
      · exact hstale
      · exact ih h e hm

/-- Of an empty cache, `popitem` empties the heap and raises. -/
theorem popitem_empty {s : GDSFCache K α} (h : Inv s) (hlen : s.base.data.len = 0) :
    (s.popitem).1 = none ∧ Inv (s.popitem).2 ∧ (s.popitem).2.base = s.base := by
  have hno : ∀ k, s.prio.get? k = none := fun k => by
    simp [h.prio, ← h.data, Dict.len_eq_zero.mp hlen k]
  have hnone : popLive s.prio s.heap = none := by
    rcases hp : popLive s.prio s.heap with _ | ⟨e, rest⟩
    · rfl
    · obtain ⟨_, _, hlive, _⟩ := popLive_some hp
      simp [hno] at hlive
  simp only [popitem, hnone]
  refine ⟨trivial, ?_, trivial⟩
  exact { h with sorted := List.Pairwise.nil, live := fun k p hp => by simp [hno] at hp }

/-- Of a cache with entries, `popitem` removes one of least priority. -/
theorem popitem_some {s : GDSFCache K α} (h : Inv s) (hlen : 0 < s.base.data.len) :
    ∃ k v, s.base.data.get? k = some v ∧ (s.popitem).1 = some (k, v) ∧ Inv (s.popitem).2 ∧
      (s.popitem).2.base = s.base.pop k ∧ s.textbook.IsLeast s.base.getsizeof k ∧
      (s.popitem).2.inflation = s.textbook.prio s.base.getsizeof k := by
  rcases hp : popLive s.prio s.heap with _ | ⟨e, rest⟩
  · -- every cached key has a live entry
    exfalso
    obtain ⟨k, hk⟩ : ∃ k, s.base.data.get? k ≠ none := by
      by_contra hall
      have hzero := Dict.len_eq_zero.mpr fun k => not_not.mp fun hne => hall ⟨k, hne⟩
      omega
    obtain ⟨v, hv⟩ := Option.ne_none_iff_exists'.mp hk
    obtain ⟨e, he, rfl, hprio⟩ := h.live k (s.textbook.prio s.base.getsizeof k) (by
      simp [h.prio, ← h.data, hv])
    exact popLive_none hp e he (by simp [h.prio, ← h.data, hv, hprio])
  · obtain ⟨stale, hheap, hlive, hstale⟩ := popLive_some hp
    obtain ⟨v, hv, hprio⟩ : ∃ v, s.textbook.value.get? e.key = some v ∧
        s.textbook.prio s.base.getsizeof e.key = e.prio := by
      simpa [h.prio, Option.map_eq_some_iff] using hlive
    have hdata : s.base.data.get? e.key = some v := h.data ▸ hv
    have hsorted : (e :: rest).Pairwise HeapEntry.le :=
      h.sorted.sublist (hheap ▸ List.sublist_append_right stale (e :: rest))
    have hkept : ∀ e' ∈ s.heap, s.prio.get? e'.key = some e'.prio → e' ∈ e :: rest := by
      intro e' he' hl'
      rw [hheap] at he'
      rcases List.mem_append.mp he' with hm | hm
      · exact absurd hl' (hstale e' hm)
      · exact hm
    have hleast : s.textbook.IsLeast s.base.getsizeof e.key := by
      refine ⟨Dict.contains_eq_true.mpr ⟨v, hv⟩, fun k' hk' => ?_⟩
      obtain ⟨v', hv'⟩ := Dict.contains_eq_true.mp hk'
      obtain ⟨e', he', rfl, hp'⟩ := h.live k' (s.textbook.prio s.base.getsizeof k') (by simp [h.prio, hv'])
      rw [hprio, ← hp']
      rcases List.mem_cons.mp (hkept e' he' (by simp [h.prio, hv', hp'])) with rfl | hm
      · exact le_rfl
      · rcases List.rel_of_pairwise_cons hsorted hm with hlt | ⟨heq, -⟩
        · exact hlt.le
        · exact heq.le
    refine ⟨e.key, v, hdata, ?_, ?_, ?_, hleast, ?_⟩ <;> simp only [popitem, hp, hdata]
    · refine forget_inv h rfl rfl rfl rfl rfl rfl hprio.symm hsorted.of_cons (fun e' he' hne hl' => ?_)
        ⟨h.follows, hleast⟩
      exact (List.mem_cons.mp (hkept e' he' hl')).resolve_left fun he => hne (he ▸ rfl)
    · rfl
    · exact hprio.symm

/-- `GDSFCache` as a `cachetools` class. -/
def cacheClass (K α : Type) [DecidableEq K] : CacheClass (GDSFCache K α) K (Value α) where
  new := new
  cache := base
  store := store
  getitem := getitem
  popitem := popitem
  Inv := Inv
  new_inv := new_inv
  new_cache _ _ := rfl
  store_inv := store_inv
  store_cache := store_base
  getitem_hit := getitem_inv
  getitem_miss _ := getitem_miss
  popitem_empty := popitem_empty
  popitem_some h hlen :=
    let ⟨k, v, hv, hp, hi, hb, _⟩ := popitem_some h hlen
    ⟨k, v, hv, hp, hi, hb⟩

@[simp] theorem cacheClass_cache (s : GDSFCache K α) : (cacheClass K α).cache s = s.base := rfl
@[simp] theorem cacheClass_store (s : GDSFCache K α) (k : K) (v : Value α) :
    (cacheClass K α).store s k v = s.store k v := rfl
@[simp] theorem cacheClass_getitem (s : GDSFCache K α) (k : K) :
    (cacheClass K α).getitem s k = s.getitem k := rfl
@[simp] theorem cacheClass_popitem (s : GDSFCache K α) : (cacheClass K α).popitem s = s.popitem := rfl

end GDSFCache

end GptCache
