/-
The library's own policies: `LRUCache`, `FIFOCache`, `LFUCache`, `RRCache`, as
in the pinned version 5.5.2; which of several least used keys `LFUCache` takes
is another one in later versions.
Each keeps some bookkeeping beside the base class (an order of the keys, a
count of their uses, a stream of random draws), updates it when a key is
stored, read or removed, and lets `popitem` remove a victim it chooses by it.
-/
import Mathlib.Data.List.MinMax
import GptCache.Cachetools

namespace GptCache

structure Booked (B K V : Type) where
  base : Cache K V
  book : B

/-- A policy's bookkeeping. `Ok` relates it to the cached entries. -/
structure Bookkeeping (B K V : Type) [DecidableEq K] where
  init : B
  onStore : B → K → B
  onRead : B → K → B
  onRemove : B → K → B
  victim : B → Dict K V → Option K × B
  Ok : Dict K V → B → Prop
  ok_init : Ok .empty init
  ok_store : ∀ {d b} k v, Ok d b → Ok (d.set k v) (onStore b k)
  ok_read : ∀ {d b k}, d.contains k = true → Ok d b → Ok d (onRead b k)
  ok_remove : ∀ {d b} k, Ok d b → Ok (d.erase k) (onRemove b k)
  ok_victim : ∀ {d b}, Ok d b → Ok d (victim b d).2
  victim_none : ∀ {d b}, Ok d b → d.len = 0 → (victim b d).1 = none
  victim_some : ∀ {d b}, Ok d b → 0 < d.len → ∃ k, (victim b d).1 = some k ∧ d.contains k = true

namespace Bookkeeping

variable {B K V : Type} [DecidableEq K] (P : Bookkeeping B K V)

def store (s : Booked B K V) (k : K) (v : V) : Booked B K V := ⟨s.base.store k v, P.onStore s.book k⟩

def getitem (s : Booked B K V) (k : K) : Option V × Booked B K V :=
  match s.base.data.get? k with
  | none => (none, s)
  | some v => (some v, ⟨s.base.read k, P.onRead s.book k⟩)

/-- `popitem`: choose a victim, then `self.pop` it, which reads it and deletes it. -/
def popitem (s : Booked B K V) : Option (K × V) × Booked B K V :=
  let (victim, book) := P.victim s.book s.base.data
  match victim with
  | none => (none, ⟨s.base, book⟩)
  | some k =>
    match s.base.data.get? k with
    | none => (none, ⟨s.base, book⟩)
    | some v => (some (k, v), ⟨s.base.pop k, P.onRemove (P.onRead book k) k⟩)

def cacheClass : CacheClass (Booked B K V) K V where
  new m g := ⟨.new m g, P.init⟩
  cache := Booked.base
  store := P.store
  getitem := P.getitem
  popitem := P.popitem
  Inv s := P.Ok s.base.data s.book
  new_inv _ _ := P.ok_init
  new_cache _ _ := rfl
  store_inv k v h := P.ok_store k v h
  store_cache _ _ _ := rfl
  getitem_hit {s k v} h hk := by
    simp only [getitem, hk]
    exact ⟨trivial, P.ok_read (Dict.contains_eq_true.mpr ⟨v, hk⟩) h, trivial⟩
  getitem_miss {s k} _ hk := by simp only [getitem, hk]
  popitem_empty {s} h hlen := by
    simp only [popitem, P.victim_none h hlen]
    exact ⟨trivial, P.ok_victim h, trivial⟩
  popitem_some {s} h hlen := by
    obtain ⟨k, hk, hc⟩ := P.victim_some h hlen
    obtain ⟨v, hv⟩ := Dict.contains_eq_true.mp hc
    simp only [popitem, hk, hv]
    exact ⟨k, v, hv, rfl, P.ok_remove k (P.ok_read hc (P.ok_victim h)), rfl⟩

end Bookkeeping

variable {K V : Type} [DecidableEq K]

/-! ## Orders: LRU and FIFO -/

/-- `OrderedDict.move_to_end`, which also adds. -/
def moveToEnd (order : List K) (k : K) : List K := order.filter (fun k' => k' ≠ k) ++ [k]

theorem mem_moveToEnd {order : List K} {k k' : K} : k' ∈ moveToEnd order k ↔ k' = k ∨ k' ∈ order := by
  by_cases h : k' = k <;> simp [moveToEnd, h]

/-- Taking away the oldest key, which was just read. -/
theorem filter_moveToEnd_head {k : K} {ks : List K} (h : k ∉ ks) :
    (moveToEnd (k :: ks) k).filter (fun k' => k' ≠ k) = ks := by
  have hrest : ks.filter (fun k' => k' ≠ k) = ks := by
    refine List.filter_eq_self.mpr fun k' hk' => ?_
    simp only [ne_eq, decide_not, Bool.not_eq_true', decide_eq_false_iff_not]
    rintro rfl
    exact h hk'
  simp only [moveToEnd, List.filter_append, List.filter_cons, ne_eq, not_true_eq_false,
    decide_false, Bool.false_eq_true, if_false, List.filter_filter, Bool.and_self, List.filter_nil,
    List.append_nil]
  simpa only [ne_eq] using hrest

/-- The policies that evict the first key of an order which a store moves to
its end; whether a read does too is what tells LRU from FIFO. -/
def ordered (touch : Bool) : Bookkeeping (List K) K V where
  init := []
  onStore := moveToEnd
  onRead order k := if touch then moveToEnd order k else order
  onRemove order k := order.filter fun k' => k' ≠ k
  victim order _ := (order.head?, order)
  Ok d order := ∀ k, k ∈ order ↔ d.contains k = true
  ok_init k := by simp [Dict.contains]
  ok_store k v h k' := by simp [mem_moveToEnd, Dict.contains_set, h]
  ok_read {d order k} hc h k' := by
    split
    · rw [mem_moveToEnd, h]
      refine ⟨?_, .inr⟩
      rintro (rfl | h)
      · exact hc
      · exact h
    · exact h k'
  ok_remove k h k' := by simp [Dict.contains_erase, h, and_comm]
  ok_victim h := h
  victim_none {d order} h hlen := by
    rcases order with _ | ⟨k, order⟩
    · rfl
    · have := (h k).mp (by simp)
      simp [Dict.contains, Dict.len_eq_zero.mp hlen] at this
  victim_some {d order} h hlen := by
    rcases order with _ | ⟨k, order⟩
    · have hzero : d.len = 0 := Dict.len_eq_zero.mpr fun k => by
        have := (h k).not.mp (by simp)
        simpa [Dict.contains] using this
      exact absurd hzero hlen.ne'
    · exact ⟨k, rfl, (h k).mp (by simp)⟩

abbrev LRUCache (K V : Type) := Booked (List K) K V
abbrev FIFOCache (K V : Type) := Booked (List K) K V

def LRUCache.cacheClass (K V : Type) [DecidableEq K] : CacheClass (LRUCache K V) K V := (ordered true).cacheClass
def FIFOCache.cacheClass (K V : Type) [DecidableEq K] : CacheClass (FIFOCache K V) K V := (ordered false).cacheClass

/-! ## LFU -/

/-- `self.__counter[key] -= 1`: the library counts down, so the most common is the least used. -/
def countUse (uses : Dict K Nat) (k : K) : Dict K Nat := uses.set k ((uses.get? k).getD 0 + 1)

/-- The first of the least used keys. -/
def leastUsed (uses : Dict K Nat) : Option K := (uses.entries.argmin Prod.snd).map Prod.fst

def leastFrequent : Bookkeeping (Dict K Nat) K V where
  init := .empty
  onStore := countUse
  onRead := countUse
  onRemove := Dict.erase
  victim uses _ := (leastUsed uses, uses)
  Ok d uses := ∀ k, uses.contains k = d.contains k
  ok_init k := rfl
  ok_store k v h k' := by simp [countUse, Dict.contains_set, h]
  ok_read {d uses k} hc h k' := by
    by_cases he : k' = k
    · subst he; simp [countUse, Dict.contains_set, hc]
    · simp [countUse, Dict.contains_set, he, h]
  ok_remove k h k' := by simp [Dict.contains_erase, h]
  ok_victim h := h
  victim_none {d uses} h hlen := by
    have : uses.len = 0 := Dict.len_eq_zero.mpr fun k => by
      have := h k
      simpa [Dict.contains, Dict.len_eq_zero.mp hlen] using this
    simp [leastUsed, List.length_eq_zero_iff.mp this]
  victim_some {d uses} h hlen := by
    rcases hm : uses.entries.argmin Prod.snd with _ | e
    · have hnil := List.argmin_eq_none.mp hm
      have hzero : d.len = 0 := Dict.len_eq_zero.mpr fun k => by
        have := h k
        simpa [Dict.contains, Dict.get?, hnil] using this.symm
      exact absurd hzero hlen.ne'
    · refine ⟨e.1, by simp [leastUsed, hm], ?_⟩
      rw [← h, ← Dict.mem_keys]
      exact List.mem_map_of_mem (List.argmin_mem hm)

abbrev LFUCache (K V : Type) := Booked (Dict K Nat) K V

def LFUCache.cacheClass (K V : Type) [DecidableEq K] : CacheClass (LFUCache K V) K V := leastFrequent.cacheClass

/-! ## RR -/

/-- `random.choice(list(self))`, drawing from a stream; the book counts the draws. -/
def randomReplacement (draws : Nat → Nat) : Bookkeeping Nat K V where
  init := 0
  onStore n _ := n
  onRead n _ := n
  onRemove n _ := n
  victim n d := (d.keys[draws n % d.keys.length]?, n + 1)
  Ok _ _ := True
  ok_init := trivial
  ok_store _ _ _ := trivial
  ok_read _ _ := trivial
  ok_remove _ _ := trivial
  ok_victim _ := trivial
  victim_none {d n} _ hlen := by
    have : d.keys.length = 0 := by rw [Dict.length_keys, hlen]
    simp [List.length_eq_zero_iff.mp this]
  victim_some {d n} _ hlen := by
    have hlt : draws n % d.keys.length < d.keys.length :=
      Nat.mod_lt _ (by rw [Dict.length_keys]; exact hlen)
    refine ⟨d.keys[draws n % d.keys.length], List.getElem?_eq_getElem hlt, ?_⟩
    exact Dict.mem_keys.mp (List.getElem_mem hlt)

abbrev RRCache (K V : Type) := Booked Nat K V

def RRCache.cacheClass (draws : Nat → Nat) (K V : Type) [DecidableEq K] : CacheClass (RRCache K V) K V :=
  (randomReplacement draws).cacheClass

end GptCache
