/-
The ablation variants of GDSF (benchmarks/ablation.py): subclasses of
`GDSFCache` with another `_push`, and one with another `popitem`.

A `Variant` is what such a subclass overrides; `GDSFCache` is the variant
that overrides nothing (`gdsf_store`, `gdsf_popitem`). The state is compared
with the variant's own policy, replayed from what happened to the cache
(`Variant.replay`). `Recorded` holds of every state: the dictionaries know the
same keys, a key's recorded priority is the formula's, at the inflation of its
last store or hit, and its live entry is in the heap. So `popitem` takes a key
of least recorded priority (`popitem_least`).
-/
import GptCache.Eviction.Credits

namespace GptCache

/-- The priority `_push` computes from the inflation, the frequency, the cost
and the size, and whether `popitem` leaves the inflation it sets. -/
structure Variant where
  prio : ℚ → Nat → ℚ → ℚ → ℚ
  ages : Bool

/-- What `GDSFCache` does itself. -/
def Variant.gdsf : Variant where
  prio inflation freq cost size := inflation + freq * cost / size
  ages := true

/-- `H = L + cost / size` (frequency ignored). -/
def CostOnlyCache : Variant where
  prio inflation _ cost size := inflation + cost / size
  ages := true

/-- `H = freq * cost / size` (no inflation term). -/
def NoAgingGDSFCache : Variant where
  prio _ freq cost size := freq * cost / size
  ages := false

namespace Variant

variable {K α : Type} [DecidableEq K] (V : Variant)

/-- `_push`. -/
def push (s : GDSFCache K α) (k : K) (v : Value α) : GDSFCache K α :=
  let size := GDSFCache.sizeOf s.base.getsizeof v
  let prio := V.prio s.inflation ((s.freq.get? k).getD 0) (GDSFCache.costOf v) size
  { s with prio := s.prio.set k prio, heap := heappush s.heap ⟨prio, s.counter, k⟩, counter := s.counter + 1 }

/-- `__setitem__`, once there is room. -/
def store (s : GDSFCache K α) (k : K) (v : Value α) : GDSFCache K α :=
  let s := { s with base := s.base.store k v }
  let s := if s.freq.contains k then s else { s with freq := s.freq.set k 1 }
  V.push s k v

/-- `__getitem__`. -/
def getitem (s : GDSFCache K α) (k : K) : Option (Value α) × GDSFCache K α :=
  match s.base.data.get? k with
  | none => (none, s)
  | some v =>
    let s := { s with base := s.base.read k }
    match s.freq.get? k with
    | none => (some v, s)
    | some f => (some v, V.push { s with freq := s.freq.set k (f + 1) } k v)

/-- `popitem`: that of `GDSFCache`, and then, unless the variant ages, `self._inflation = 0.0`. -/
def popitem (s : GDSFCache K α) : Option (K × Value α) × GDSFCache K α :=
  match s.popitem with
  | (none, s) => (none, s)
  | (some item, s) => (some item, if V.ages then s else { s with inflation := 0 })

theorem gdsf_store (s : GDSFCache K α) (k : K) (v : Value α) : gdsf.store s k v = s.store k v := rfl

theorem gdsf_getitem (s : GDSFCache K α) (k : K) : gdsf.getitem s k = s.getitem k := rfl

theorem gdsf_popitem (s : GDSFCache K α) : gdsf.popitem s = s.popitem := by
  rw [popitem]
  rcases s.popitem with ⟨_ | _, _⟩ <;> rfl

/-! ## The policy of a variant -/

/-- The priority of its formula, at the key's own inflation. -/
def formula (getsizeof : Value α → ℚ) (t : Textbook K α) (k : K) : ℚ :=
  match t.value.get? k with
  | none => t.age k
  | some v => V.prio (t.age k) (t.freq k) (GDSFCache.costOf v) (GDSFCache.sizeOf getsizeof v)

/-- That of the textbook but for the inflation an eviction leaves. -/
def step (getsizeof : Value α → ℚ) (t : Textbook K α) (e : Event K (Value α)) : Textbook K α :=
  match e with
  | .popped k => { t with value := t.value.erase k, inflation := if V.ages then V.formula getsizeof t k else 0 }
  | e => t.step getsizeof e

/-- The policy's state after a history (newest event first). -/
def replay (getsizeof : Value α → ℚ) : List (Event K (Value α)) → Textbook K α
  | [] => .init
  | e :: h => V.step getsizeof (replay getsizeof h) e

/-- That of `GDSFCache` is the textbook's. -/
theorem gdsf_replay (getsizeof : Value α → ℚ) (h : List (Event K (Value α))) :
    gdsf.replay getsizeof h = Textbook.replay getsizeof h := by
  induction h with
  | nil => rfl
  | cons e h ih =>
    rw [replay, Textbook.replay, ih]
    cases e <;> rfl

/-- The policy's state after everything that happened to the cache. -/
def textbook (s : GDSFCache K α) : Textbook K α := V.replay s.base.getsizeof s.base.history

/-! ## What is recorded -/

structure Recorded (s : GDSFCache K α) : Prop where
  freq : ∀ k, s.freq.contains k = s.base.data.contains k
  used : ∀ k f, s.freq.get? k = some f → 1 ≤ f
  keys : ∀ k, s.prio.contains k = s.base.data.contains k
  data : ∀ k, s.base.data.get? k = (V.textbook s).value.get? k
  count : ∀ k f, s.freq.get? k = some f → (V.textbook s).freq k = f
  prio : ∀ k p, s.prio.get? k = some p → p = V.formula s.base.getsizeof (V.textbook s) k
  inflation : s.inflation = (V.textbook s).inflation
  sorted : s.heap.Pairwise HeapEntry.le
  live : ∀ k p, s.prio.get? k = some p → ∃ e ∈ s.heap, e.key = k ∧ e.prio = p

variable {V}

/-- What is recorded of a key, written out. -/
theorem Recorded.prio_eq {s : GDSFCache K α} (h : Recorded V s) {k : K} {v : Value α} {f : Nat}
    (hv : s.base.data.get? k = some v) (hf : s.freq.get? k = some f) :
    s.prio.get? k = some (V.prio ((V.textbook s).age k) f (GDSFCache.costOf v)
      (GDSFCache.sizeOf s.base.getsizeof v)) := by
  obtain ⟨p, hp⟩ := Dict.contains_eq_true.mp ((h.keys k).trans (Dict.contains_eq_true.mpr ⟨v, hv⟩))
  have hvalue : (V.textbook s).value.get? k = some v := (h.data k).symm.trans hv
  rw [hp, h.prio k p hp]
  simp only [formula, hvalue, h.count k f hf]

theorem new_recorded (m : ℚ) (g : Value α → ℚ) : Recorded V (GDSFCache.new m g : GDSFCache K α) where
  freq _ := rfl
  used k f h := by simp [GDSFCache.new] at h
  keys _ := rfl
  data _ := rfl
  count k f h := by simp [GDSFCache.new] at h
  prio k p h := by simp [GDSFCache.new] at h
  inflation := rfl
  sorted := List.Pairwise.nil
  live k p h := by simp [GDSFCache.new] at h

/-- A store or a hit, in the policy: the key is used, and takes up the inflation. -/
structure Used (s s' : GDSFCache K α) (k : K) (v : Value α) (f : Nat) : Prop where
  data : ∀ k', s'.base.data.get? k' = if k' = k then some v else s.base.data.get? k'
  freq : ∀ k', s'.freq.get? k' = if k' = k then some f else s.freq.get? k'
  value : ∀ k', (V.textbook s').value.get? k' = if k' = k then some v else (V.textbook s).value.get? k'
  count : (V.textbook s').freq = Function.update (V.textbook s).freq k f
  age : (V.textbook s').age = Function.update (V.textbook s).age k (V.textbook s).inflation
  level : (V.textbook s').inflation = (V.textbook s).inflation
  size : s'.base.getsizeof = s.base.getsizeof
  prio : s'.prio = s.prio
  inflation : s'.inflation = s.inflation
  heap : s'.heap = s.heap

/-- `_push` records its key: what was there before may differ at that key only. -/
theorem push_recorded {s s' : GDSFCache K α} (h : Recorded V s) {k : K} {v : Value α} {f : Nat} (hf : 1 ≤ f)
    (hused : Used (V := V) s s' k v f) : Recorded V (V.push s' k v) := by
  have hget : ∀ k', (V.push s' k v).prio.get? k' = if k' = k then
      some (V.prio s.inflation f (GDSFCache.costOf v) (GDSFCache.sizeOf s.base.getsizeof v)) else s.prio.get? k' := by
    intro k'
    simp only [push, hused.prio, hused.inflation, hused.size, hused.freq, Dict.get?_set, if_true, Option.getD_some]
  have hpush : (V.push s' k v).heap = heappush s.heap
      ⟨V.prio s.inflation f (GDSFCache.costOf v) (GDSFCache.sizeOf s.base.getsizeof v), s'.counter, k⟩ := by
    simp only [push, hused.heap, hused.inflation, hused.size, hused.freq, if_true, Option.getD_some]
  have htext : V.textbook (V.push s' k v) = V.textbook s' := rfl
  have hbase : (V.push s' k v).base = s'.base := rfl
  have hfreq : (V.push s' k v).freq = s'.freq := rfl
  refine ⟨fun k' => ?_, fun k' f' hk' => ?_, fun k' => ?_, fun k' => ?_, fun k' f' hk' => ?_, fun k' p hp => ?_, ?_, ?_,
    fun k' p hp => ?_⟩
  · have hsame := h.freq k'
    simp only [Dict.contains, hfreq, hbase, hused.freq, hused.data] at hsame ⊢
    split <;> simp_all
  · rw [hfreq, hused.freq] at hk'
    split at hk'
    · cases hk'
      exact hf
    · exact h.used k' f' hk'
  · have hsame := h.keys k'
    simp only [Dict.contains, hget, hbase, hused.data] at hsame ⊢
    split <;> simp_all
  · rw [htext, hbase, hused.data, hused.value, h.data]
  · rw [hfreq, hused.freq] at hk'
    rw [htext, hused.count]
    by_cases hkk : k' = k
    · rw [if_pos hkk] at hk'
      rw [hkk, Function.update_self, Option.some.inj hk']
    · rw [if_neg hkk] at hk'
      rw [Function.update_of_ne hkk, h.count k' f' hk']
  · rw [hget] at hp
    rw [htext, hbase, hused.size]
    simp only [formula, hused.value, hused.count, hused.age]
    by_cases hkk : k' = k
    · rw [if_pos hkk] at hp
      simp only [hkk, if_true, Function.update_self, ← h.inflation, ← Option.some.inj hp]
    · rw [if_neg hkk] at hp
      simp only [hkk, if_false, Function.update_of_ne hkk]
      exact h.prio k' p hp
  · exact hused.inflation.trans (h.inflation.trans hused.level.symm)
  · rw [hpush]
    exact sorted_heappush h.sorted _
  · rw [hget] at hp
    rw [hpush]
    by_cases hkk : k' = k
    · rw [if_pos hkk] at hp
      exact ⟨_, mem_heappush.mpr (.inl rfl), hkk.symm, Option.some.inj hp⟩
    · rw [if_neg hkk] at hp
      obtain ⟨e, he, hek, hep⟩ := h.live k' p hp
      exact ⟨e, mem_heappush.mpr (.inr he), hek, hep⟩

/-- A store counts a new key once. -/
theorem store_freq (s : GDSFCache K α) (k : K) (v : Value α) (k' : K) :
    (V.store s k v).freq.get? k' = if k' = k then some ((s.freq.get? k).getD 1) else s.freq.get? k' := by
  have hfreq : (V.store s k v).freq = if s.freq.contains k then s.freq else s.freq.set k 1 := by
    simp only [store, push]
    split <;> rfl
  rw [hfreq]
  rcases hk : s.freq.get? k with _ | f
  · rw [if_neg (by simp [Dict.contains, hk]), Dict.get?_set]
    rfl
  · rw [if_pos (by simp [Dict.contains, hk])]
    split
    · rename_i he
      rw [he, hk]
      rfl
    · rfl

@[simp] theorem store_base (s : GDSFCache K α) (k : K) (v : Value α) : (V.store s k v).base = s.base.store k v := by
  simp only [store, push]
  split <;> rfl

theorem store_recorded {s : GDSFCache K α} (k : K) (v : Value α) (h : Recorded V s) : Recorded V (V.store s k v) := by
  have hfreq := store_freq (V := V) s k v
  have hused : 1 ≤ (s.freq.get? k).getD 1 := by
    rcases hk : s.freq.get? k with _ | f
    · exact le_rfl
    · exact h.used k f hk
  have hcontains : (V.textbook s).value.contains k = s.freq.contains k := by
    rw [h.freq, Dict.contains, Dict.contains, h.data]
  have hcount : (if (V.textbook s).value.contains k then (V.textbook s).freq
      else Function.update (V.textbook s).freq k 1) =
        Function.update (V.textbook s).freq k ((s.freq.get? k).getD 1) := by
    rcases hk : s.freq.get? k with _ | f
    · rw [hcontains, if_neg (by simp [Dict.contains, hk])]
      rfl
    · rw [hcontains, if_pos (by simp [Dict.contains, hk]), ← h.count k f hk]
      exact (Function.update_eq_self k _).symm
  unfold store at hfreq ⊢
  dsimp only at hfreq ⊢
  have hstep : ∀ freq : Dict K Nat,
      (∀ k', freq.get? k' = if k' = k then some ((s.freq.get? k).getD 1) else s.freq.get? k') →
      Used (V := V) s { s with base := s.base.store k v, freq := freq } k v
        ((s.freq.get? k).getD 1) := fun freq hfreq =>
    ⟨fun k' => by simp only [Cache.store_data, Dict.get?_set], hfreq, fun k' => Dict.get?_set .., hcount,
      rfl, rfl, rfl, rfl, rfl, rfl⟩
  split at hfreq <;> rename_i hc
  · rw [if_pos hc]
    exact push_recorded h hused (hstep _ hfreq)
  · rw [if_neg hc]
    exact push_recorded h hused (hstep _ hfreq)

/-- A hit counts, and pushes again. -/
theorem getitem_recorded {s : GDSFCache K α} {k : K} {v : Value α} (h : Recorded V s)
    (hk : s.base.data.get? k = some v) :
    ∃ f, s.freq.get? k = some f ∧
      V.getitem s k = (some v, V.push { s with base := s.base.read k, freq := s.freq.set k (f + 1) } k v) ∧
      Recorded V (V.getitem s k).2 := by
  obtain ⟨f, hf⟩ := Dict.contains_eq_true.mp ((h.freq k).trans (Dict.contains_eq_true.mpr ⟨v, hk⟩))
  have heq : V.getitem s k = (some v, V.push { s with base := s.base.read k, freq := s.freq.set k (f + 1) } k v) := by
    simp only [getitem, hk, hf]
  refine ⟨f, hf, heq, ?_⟩
  rw [heq]
  have hvalue : (V.textbook s).value.get? k = some v := (h.data k).symm.trans hk
  refine push_recorded h (Nat.le_add_left 1 f) ⟨fun k' => ?_, fun k' => Dict.get?_set .., fun k' => ?_,
    ?_, rfl, rfl, rfl, rfl, rfl, rfl⟩
  · split
    · rename_i he
      rw [he]
      exact hk
    · rfl
  · split
    · rename_i he
      rw [he]
      exact hvalue
    · rfl
  · rw [← h.count k f hf]
    rfl

theorem getitem_miss {s : GDSFCache K α} {k : K} (hk : s.base.data.get? k = none) : V.getitem s k = (none, s) := by
  simp only [getitem, hk]

/-! ## popitem -/

/-- A recorded key has a live entry, so the heap runs out of them only in an empty cache. -/
theorem popLive_recorded {s : GDSFCache K α} (h : Recorded V s) (hpos : 0 < s.base.data.len) :
    ∃ e rest, GDSFCache.popLive s.prio s.heap = some (e, rest) := by
  rcases hp : GDSFCache.popLive s.prio s.heap with _ | ⟨e, rest⟩
  · exfalso
    obtain ⟨k, hk⟩ : ∃ k, s.base.data.get? k ≠ none := by
      by_contra hall
      have hzero := Dict.len_eq_zero.mpr fun k => not_not.mp fun hne => hall ⟨k, hne⟩
      omega
    obtain ⟨v, hv⟩ := Option.ne_none_iff_exists'.mp hk
    obtain ⟨p, hprio⟩ := Dict.contains_eq_true.mp ((h.keys k).trans (Dict.contains_eq_true.mpr ⟨v, hv⟩))
    obtain ⟨e, he, rfl, rfl⟩ := h.live k p hprio
    exact GDSFCache.popLive_none hp e he hprio
  · exact ⟨e, rest, rfl⟩

theorem popitem_empty {s : GDSFCache K α} (h : Recorded V s) (hlen : s.base.data.len = 0) :
    (V.popitem s).1 = none ∧ Recorded V (V.popitem s).2 ∧ (V.popitem s).2.base = s.base := by
  have hno : ∀ k, s.prio.get? k = none := fun k => by
    rw [← Dict.contains_eq_false, h.keys k, Dict.contains_eq_false]
    exact Dict.len_eq_zero.mp hlen k
  have hnone : GDSFCache.popLive s.prio s.heap = none := by
    rcases hp : GDSFCache.popLive s.prio s.heap with _ | ⟨e, rest⟩
    · rfl
    · obtain ⟨_, _, hlive, _⟩ := GDSFCache.popLive_some hp
      simp [hno] at hlive
  simp only [popitem, GDSFCache.popitem, hnone]
  exact ⟨trivial, { h with sorted := List.Pairwise.nil, live := fun k p hp => by simp [hno] at hp }, trivial⟩

/-- The first live entry of the heap is one of least priority, and no live entry is before it. -/
theorem popLive_least {s : GDSFCache K α} (h : Recorded V s) {e : HeapEntry K} {rest : List (HeapEntry K)}
    (hlivepop : GDSFCache.popLive s.prio s.heap = some (e, rest)) :
    s.prio.get? e.key = some e.prio ∧ rest.Pairwise HeapEntry.le ∧
      (∀ e' ∈ s.heap, s.prio.get? e'.key = some e'.prio → e' ∈ e :: rest) ∧
      ∀ k' p', s.prio.get? k' = some p' → e.prio ≤ p' := by
  obtain ⟨stale, hheap, hlive, hstale⟩ := GDSFCache.popLive_some hlivepop
  have hsorted : (e :: rest).Pairwise HeapEntry.le :=
    h.sorted.sublist (hheap ▸ List.sublist_append_right stale (e :: rest))
  have hkept : ∀ e' ∈ s.heap, s.prio.get? e'.key = some e'.prio → e' ∈ e :: rest := by
    intro e' he' hl'
    rw [hheap] at he'
    rcases List.mem_append.mp he' with hm | hm
    · exact absurd hl' (hstale e' hm)
    · exact hm
  refine ⟨hlive, hsorted.of_cons, hkept, fun k' p' hp' => ?_⟩
  obtain ⟨e', he', rfl, rfl⟩ := h.live k' p' hp'
  rcases List.mem_cons.mp (hkept e' he' hp') with rfl | hm
  · exact le_rfl
  · rcases List.rel_of_pairwise_cons hsorted hm with hlt | ⟨heq, -⟩
    · exact hlt.le
    · exact heq.le

/-- What `popitem` leaves when it has taken the key of the entry `e` and `rest` is behind it. -/
theorem pop_recorded {s : GDSFCache K α} (h : Recorded V s) {e : HeapEntry K} {rest : List (HeapEntry K)}
    (hlive : s.prio.get? e.key = some e.prio) (hsorted : rest.Pairwise HeapEntry.le)
    (hkept : ∀ e' ∈ s.heap, s.prio.get? e'.key = some e'.prio → e' ∈ e :: rest) :
    Recorded V { s with
      heap := rest, base := s.base.pop e.key, freq := s.freq.erase e.key, prio := s.prio.erase e.key,
      inflation := if V.ages then e.prio else 0 } := by
  have htext : V.textbook { s with
      heap := rest, base := s.base.pop e.key, freq := s.freq.erase e.key, prio := s.prio.erase e.key,
      inflation := if V.ages then e.prio else 0 } = V.step s.base.getsizeof (V.textbook s) (.popped e.key) := rfl
  refine ⟨fun k => ?_, fun k f hk => ?_, fun k => ?_, fun k => ?_, fun k f hk => ?_, fun k p hp => ?_,
    ?_, hsorted, fun k p hp => ?_⟩
  · simp only [Cache.pop_data, Dict.contains_erase, h.freq]
  · simp only [Dict.get?_erase] at hk
    split at hk
    · cases hk
    · exact h.used k f hk
  · simp only [Cache.pop_data, Dict.contains_erase, h.keys]
  · rw [htext]
    simp only [Cache.pop_data, step, Dict.get?_erase, h.data]
  · rw [htext]
    simp only [Dict.get?_erase] at hk
    split at hk
    · cases hk
    · exact h.count k f hk
  · rw [htext]
    simp only [Dict.get?_erase] at hp
    split at hp
    · cases hp
    · rename_i hne
      rw [h.prio k p hp]
      simp only [formula, step, Cache.pop_getsizeof, Dict.get?_erase, hne, if_false]
  · rw [htext]
    simp only [step, h.prio e.key e.prio hlive]
  · simp only [Dict.get?_erase] at hp
    split at hp
    · cases hp
    · rename_i hne
      obtain ⟨e', he', rfl, rfl⟩ := h.live k p hp
      refine ⟨e', ?_, rfl, rfl⟩
      exact (List.mem_cons.mp (hkept e' he' hp)).resolve_left fun he => hne (he ▸ rfl)

/-- **A key of least recorded priority leaves**, and nothing else of what is recorded changes. -/
theorem popitem_least {s : GDSFCache K α} (h : Recorded V s) (hpos : 0 < s.base.data.len) :
    ∃ k v p, s.base.data.get? k = some v ∧ s.prio.get? k = some p ∧ (∀ k' p', s.prio.get? k' = some p' → p ≤ p') ∧
      (V.popitem s).1 = some (k, v) ∧ Recorded V (V.popitem s).2 ∧ (V.popitem s).2.base = s.base.pop k ∧
      (V.popitem s).2.freq = s.freq.erase k ∧ (V.popitem s).2.prio = s.prio.erase k ∧
      (V.popitem s).2.inflation = if V.ages then p else 0 := by
  obtain ⟨e, rest, hlivepop⟩ := popLive_recorded h hpos
  obtain ⟨hlive, hsorted, hkept, hleast⟩ := popLive_least h hlivepop
  obtain ⟨v, hv⟩ := Dict.contains_eq_true.mp ((h.keys e.key).symm.trans (Dict.contains_eq_true.mpr ⟨e.prio, hlive⟩))
  have hpop : V.popitem s = (some (e.key, v),
      { s with heap := rest, base := s.base.pop e.key, freq := s.freq.erase e.key, prio := s.prio.erase e.key,
               inflation := if V.ages then e.prio else 0 }) := by
    simp only [popitem, GDSFCache.popitem, hlivepop, hv, GDSFCache.forget]
    split <;> rfl
  rw [hpop]
  exact ⟨e.key, v, e.prio, hv, hlive, hleast, rfl, pop_recorded h hlive hsorted hkept, rfl, rfl, rfl, rfl⟩

omit [DecidableEq K] in
theorem new_base (maxsize : ℚ) (getsizeof : Value α → ℚ) :
    (GDSFCache.new maxsize getsizeof : GDSFCache K α).base = .new maxsize getsizeof := rfl

variable (V) in
/-- A variant as a `cachetools` class. -/
def cacheClass (K α : Type) [DecidableEq K] : CacheClass (GDSFCache K α) K (Value α) where
  new := GDSFCache.new
  cache := GDSFCache.base
  store := V.store
  getitem := V.getitem
  popitem := V.popitem
  Inv := Recorded V
  new_inv := new_recorded
  new_cache := new_base
  store_inv := store_recorded
  store_cache := store_base
  getitem_hit h hk := by
    obtain ⟨f, -, heq, hrec⟩ := getitem_recorded h hk
    rw [heq] at hrec ⊢
    exact ⟨rfl, hrec, rfl⟩
  getitem_miss _ := getitem_miss
  popitem_empty := popitem_empty
  popitem_some h hpos := by
    obtain ⟨k, v, p, hv, -, -, hpop, hrec, hbase, -⟩ := popitem_least h hpos
    exact ⟨k, v, hv, hpop, hrec, hbase⟩

/-! ## Credits -/

/-- Unit sizes, and each tracked key stored with its cost: what its priority
is over the inflation is its credit, at most `weight` of its frequency times its cost. -/
structure Charged (weight : Nat → ℚ) (cost : K → ℚ) (s : GDSFCache K α) (credit : K → ℚ) : Prop where
  unit : ∀ v, s.base.getsizeof v = 1
  value : ∀ k, s.base.data.contains k = true → s.base.data.get? k = some (.num (cost k))
  prio : ∀ k p, s.prio.get? k = some p → credit k = p - s.inflation
  nonneg : ∀ k, s.base.data.contains k = true → 0 ≤ credit k
  le : ∀ k f, s.freq.get? k = some f → credit k ≤ weight f * cost k

variable {weight : Nat → ℚ} {cost : K → ℚ}

/-- A push at unit size charges its key anew. -/
theorem push_charged (hprio : ∀ l f c, V.prio l f c 1 = l + weight f * c) (hweight : ∀ f, 0 ≤ weight f)
    (hcost : ∀ k, 0 ≤ cost k) {s s' : GDSFCache K α} {credit : K → ℚ} (h : Charged weight cost s credit) {k : K}
    {f : Nat} (hdata : ∀ k', s'.base.data.get? k' = if k' = k then some (.num (cost k)) else s.base.data.get? k')
    (hsize : s'.base.getsizeof = s.base.getsizeof)
    (hfreq : ∀ k', s'.freq.get? k' = if k' = k then some f else s.freq.get? k') (hsame : s'.prio = s.prio)
    (hinf : s'.inflation = s.inflation) :
    Charged weight cost (V.push s' k (.num (cost k))) (Function.update credit k (weight f * cost k)) := by
  have hsizeOf : GDSFCache.sizeOf s.base.getsizeof (.num (cost k)) = 1 := by
    simp only [GDSFCache.sizeOf, h.unit, one_ne_zero, if_false]
  have hget : ∀ k', (V.push s' k (.num (cost k))).prio.get? k' =
      if k' = k then some (s.inflation + weight f * cost k) else s.prio.get? k' := by
    intro k'
    simp only [push, hsame, hinf, hsize, hsizeOf, hfreq, Dict.get?_set, if_true, Option.getD_some, hprio,
      GDSFCache.costOf]
  have hbase : (V.push s' k (.num (cost k))).base = s'.base := rfl
  refine ⟨fun v => ?_, fun k' hk' => ?_, fun k' p hp => ?_, fun k' hk' => ?_, fun k' f' hf' => ?_⟩
  · rw [hbase, hsize, h.unit]
  · simp only [hbase, Dict.contains, hdata] at hk' ⊢
    split
    · rename_i he
      rw [he]
    · rename_i hne
      rw [if_neg hne] at hk'
      exact h.value k' hk'
  · have hinf' : (V.push s' k (.num (cost k))).inflation = s.inflation := hinf
    rw [hget] at hp
    rw [hinf']
    split at hp
    · rename_i he
      subst he
      rw [Function.update_self, ← Option.some.inj hp]
      ring
    · rename_i hne
      rw [Function.update_of_ne hne]
      exact h.prio k' p hp
  · by_cases hkk : k' = k
    · subst hkk
      rw [Function.update_self]
      exact mul_nonneg (hweight f) (hcost k')
    · rw [Function.update_of_ne hkk]
      simp only [hbase, Dict.contains, hdata, hkk, if_false] at hk'
      exact h.nonneg k' hk'
  · have hfreq' : (V.push s' k (.num (cost k))).freq = s'.freq := rfl
    rw [hfreq', hfreq] at hf'
    split at hf'
    · rename_i he
      subst he
      rw [Function.update_self, Option.some.inj hf']
    · rename_i hne
      rw [Function.update_of_ne hne]
      exact h.le k' f' hf'

/-- The key that leaves had the least credit, and the others are charged it. -/
theorem popitem_charged (hages : V.ages = true) {s : GDSFCache K α} {credit : K → ℚ} {k : K} {v : Value α}
    (hinv : Recorded V s) (hrel : Charged weight cost s credit) (hpop : (V.popitem s).1 = some (k, v)) :
    (∀ f, s.base.data.contains f = true → credit k ≤ credit f) ∧
      Charged weight cost (V.popitem s).2 fun f => credit f - credit k := by
  rcases Nat.eq_zero_or_pos s.base.data.len with hlen | hpos
  · have hnone := (popitem_empty hinv hlen).1
    exact absurd (hnone.symm.trans hpop) (by simp)
  obtain ⟨k', v', p, hv, hp, hleast, hpop', -, hbase, hfreq, hprio, hinf⟩ := popitem_least hinv hpos
  obtain ⟨rfl, rfl⟩ : k' = k ∧ v' = v := by simpa using hpop'.symm.trans hpop
  rw [hages, if_pos rfl] at hinf
  have hmin : ∀ f, s.base.data.contains f = true → credit k' ≤ credit f := by
    intro f hf
    obtain ⟨q, hq⟩ := Dict.contains_eq_true.mp ((hinv.keys f).trans hf)
    have hle := hleast f q hq
    rw [hrel.prio k' p hp, hrel.prio f q hq]
    linarith
  have hkeep : ∀ f, (V.popitem s).2.base.data.contains f = true → f ≠ k' ∧ s.base.data.contains f = true := by
    intro f hf
    rw [hbase, Cache.pop_data, Dict.contains_erase] at hf
    simpa using hf
  refine ⟨hmin, ⟨fun w => ?_, fun f hf => ?_, fun f q hq => ?_, fun f hf => ?_, fun f n hn => ?_⟩⟩
  · rw [hbase, Cache.pop_getsizeof]
    exact hrel.unit w
  · obtain ⟨hne, hf'⟩ := hkeep f hf
    rw [hbase, Cache.pop_data, Dict.get?_erase_of_ne _ hne]
    exact hrel.value f hf'
  · rw [hprio, Dict.get?_erase] at hq
    split at hq
    · cases hq
    · rw [hrel.prio f q hq, hrel.prio k' p hp, hinf]
      ring
  · have hle := hmin f (hkeep f hf).2
    linarith
  · rw [hfreq, Dict.get?_erase] at hn
    split at hn
    · cases hn
    · have hpaid := hrel.nonneg k' (Dict.contains_eq_true.mpr ⟨v', hv⟩)
      have hle := hrel.le f n hn
      linarith

/-- **An ageing variant with credits**, where its priorities are the inflation
plus a multiple of the cost that grows with the frequency, as long as no
multiple is over `b`. -/
def credited (weight : Nat → ℚ) (hages : V.ages = true) (hprio : ∀ l f c, V.prio l f c 1 = l + weight f * c)
    (hone : 1 ≤ weight 1) (hmono : Monotone weight) (hnonneg : 0 ≤ weight 0) (hcost : ∀ k, 0 ≤ cost k) (b : ℚ) :
    Credited (V.cacheClass K α) (fun k v => v = .num (cost k)) cost b
      fun s => ∀ k f, s.freq.get? k = some f → weight f ≤ b where
  Rel := Charged weight cost
  new m g hg := by
    refine ⟨hg, ?_, ?_, ?_, ?_⟩ <;> simp [cacheClass, GDSFCache.new, Cache.new, Dict.contains]
  popitem hinv hrel hpop := popitem_charged hages hinv hrel hpop
  store {s credit k v} hinv hrel hk hv hfine := by
    subst hv
    have hinv : Recorded V s := hinv
    have hnew : s.freq.get? k = none := by
      rw [← Dict.contains_eq_false, hinv.freq k]
      exact hk
    have hfreq := store_freq (V := V) s k (.num (cost k))
    have hbound : weight 1 ≤ b := hfine k 1 (by
      have := hfreq k
      rw [if_pos rfl, hnew] at this
      exact this)
    refine ⟨weight 1 * cost k, le_mul_of_one_le_left (hcost k) hone, mul_le_mul_of_nonneg_right hbound (hcost k), ?_⟩
    have hstore : (V.cacheClass K α).store s k (.num (cost k)) = V.push { s with
        base := s.base.store k (.num (cost k)), freq := s.freq.set k 1 } k (.num (cost k)) := by
      have hfresh : s.freq.contains k = false := Dict.contains_eq_false.mpr hnew
      simp only [cacheClass, store, hfresh, Bool.false_eq_true, if_false]
    rw [hstore]
    exact push_charged hprio (fun f => hnonneg.trans (hmono (Nat.zero_le f))) hcost hrel
      (fun k' => by simp only [Cache.store_data, Dict.get?_set]) rfl (fun k' => Dict.get?_set ..) rfl rfl
  get {s credit k} hinv hrel hk hfine := by
    have hinv : Recorded V s := hinv
    have hk' : s.base.data.contains k = true := hk
    have hv := hrel.value k hk'
    obtain ⟨f, hf, heq, -⟩ := getitem_recorded hinv hv
    have hget : ((V.cacheClass K α).get s k).2 = V.push { s with
        base := s.base.read k, freq := s.freq.set k (f + 1) } k (.num (cost k)) := by
      rw [CacheClass.get, if_pos hk]
      exact congrArg Prod.snd heq
    rw [hget] at hfine ⊢
    have hbound : weight (f + 1) ≤ b := hfine k (f + 1) (by simp only [push, Dict.get?_set_self])
    refine ⟨weight (f + 1) * cost k, ?_, mul_le_mul_of_nonneg_right hbound (hcost k), ?_⟩
    · exact (hrel.le k f hf).trans (mul_le_mul_of_nonneg_right (hmono (Nat.le_succ f)) (hcost k))
    · refine push_charged hprio (fun f => hnonneg.trans (hmono (Nat.zero_le f))) hcost hrel (fun k' => ?_) rfl
        (fun k' => Dict.get?_set ..) rfl rfl
      split
      · rename_i he
        rw [he]
        exact hv
      · rfl

/-! ## The policies of the study -/

section

variable (α) (cost)

/-- COST_ONLY, with credits of at most the cost. -/
def costOnlyCredited (hcost : ∀ k, 0 ≤ cost k) :
    Credited (cacheClass CostOnlyCache K α) (fun k v => v = .num (cost k)) cost 1
      fun s => ∀ k f, s.freq.get? k = some f → (fun _ : Nat => (1 : ℚ)) f ≤ 1 :=
  credited (fun _ => 1) rfl (fun l f c => by simp [CostOnlyCache]) le_rfl (fun _ _ _ => le_rfl) zero_le_one hcost 1

/-- GDSF, with credits of at most `b` times the cost, as long as no frequency is over `b`. -/
def gdsfCredited (hcost : ∀ k, 0 ≤ cost k) (b : ℚ) :
    Credited (GDSFCache.cacheClass K α) (fun k v => v = .num (cost k)) cost b
      fun s => ∀ k f, s.freq.get? k = some f → (f : ℚ) ≤ b :=
  (credited (V := gdsf) (α := α) (fun f => f) rfl (fun l f c => by simp [gdsf]) (by simp) Nat.mono_cast
    (by simp) hcost b).ofMethods rfl rfl rfl rfl (funext fun s => (gdsf_popitem s).symm)

end

end Variant

/-- `VariantEviction`: what wraps such a cache. -/
def VariantEviction {K α ω : Type} [DecidableEq K] (V : Variant) (cleanSize : Nat)
    (onEvict : List K → Exec PyError ω Unit) :
    MemoryCacheEviction (GDSFCache K α) K α ω :=
  ⟨V.cacheClass K α, cleanSize, onEvict⟩

/-- **Every state a variant gets to**: what it records of a key is its own
formula's at the inflation of the key's last store or hit, and the next victim
has the least of it. -/
theorem variant_recorded {K α ω : Type} [DecidableEq K] (V : Variant) {cleanSize m : Nat}
    (hclean : 0 < cleanSize) (hm : 1 ≤ m) (f : List K → ω → ω) (w : ω) (calls : List (Call K)) :
    let e := VariantEviction (α := α) V cleanSize fun ks => Exec.modify (f ks)
    ∃ s, e.run (m + 1) (e.cls.new m fun _ => 1, w) calls = some s ∧ s.1.base.data.len ≤ m ∧ Variant.Recorded V s.1 ∧
      (0 < s.1.base.data.len → ∃ k v p, (V.popitem s.1).1 = some (k, v) ∧ s.1.prio.get? k = some p ∧
        ∀ k' p', s.1.prio.get? k' = some p' → p ≤ p') := by
  intro e
  obtain ⟨s, hrun, hs⟩ := MemoryCacheEviction.run_sized (e := e) (f := f) rfl hclean hm calls
    (MemoryCacheEviction.new_sized e m w)
  refine ⟨s, hrun, hs.le, hs.inv, fun hpos => ?_⟩
  obtain ⟨k, v, p, -, hp, hleast, hpop, -⟩ := Variant.popitem_least (V := V) hs.inv hpos
  exact ⟨k, v, p, hpop, hp, hleast⟩

theorem variant_recorded_no_age :
    let e := VariantEviction (α := Unit) NoAgingGDSFCache 1 fun (_ : List Nat) => Exec.modify fun w : Unit => w
    ∃ s, e.run 3 (e.cls.new (2 : Nat) fun _ => 1, ()) [.put [1, 2] (some [5, 1]), .get 2, .put [3] none] = some s ∧
      s.1.base.data.len ≤ 2 ∧ Variant.Recorded NoAgingGDSFCache s.1 ∧
      (0 < s.1.base.data.len → ∃ k v p, (NoAgingGDSFCache.popitem s.1).1 = some (k, v) ∧ s.1.prio.get? k = some p ∧
        ∀ k' p', s.1.prio.get? k' = some p' → p ≤ p') :=
  variant_recorded NoAgingGDSFCache (by decide) (by decide) (fun _ w => w) () _

end GptCache
