/-
Runs of a `GDSFCache`: any sequence of `cache[key] = value`, `cache[key]`,
`cache.get`, `del cache[key]` and `popitem` calls, on a new cache. A call that
raises changes nothing the next call could see, and the sequence goes on.

`gdsf_refines_textbook`: every call returns and does what the textbook policy
does (`Textbook.Run`, with `Textbook.Follows` for its evictions, those from
inside `__setitem__` included), and in every reachable state the dictionaries
are the policy's and `popitem` removes a key of least priority.
-/
import GptCache.Eviction.Gdsf

namespace GptCache.GDSFCache

inductive Op (K α : Type) where
  | setitem (k : K) (v : Value α)
  | getitem (k : K)
  | get (k : K)
  | delitem (k : K)
  | popitem

/-- What a call answers: nothing, a value, `get`'s `None`, an item, or an error. -/
inductive Outcome (K α : Type) where
  | done
  | value (v : Value α)
  | missing
  | item (k : K) (v : Value α)
  | raised (cls : ErrorClass)
  deriving DecidableEq

variable {K α : Type} [DecidableEq K]

/-- `cache[key] = value`: `Cache.__setitem__` pops with the class's own `popitem`. -/
def setitem (fuel : Nat) (k : K) (v : Value α) : Exec PyError (GDSFCache K α × Unit) Unit :=
  (cacheClass K α).setitem (cacheClass K α).popitemSelf fuel k v

def call (fuel : Nat) (s : GDSFCache K α) : Op K α → Option (Outcome K α × GDSFCache K α)
  | .setitem k v =>
    match setitem fuel k v (s, ()) with
    | none => none
    | some (.ok _, s') => some (.done, s'.1)
    | some (.error e, s') => some (.raised e.cls, s'.1)
  | .getitem k =>
    match s.getitem k with
    | (some v, s') => some (.value v, s')
    | (none, s') => some (.raised .KeyError, s')
  | .get k =>
    match (cacheClass K α).get s k with
    | (some v, s') => some (.value v, s')
    | (none, s') => some (.missing, s')
  | .delitem k =>
    match s.delitem k with
    | (some _, s') => some (.done, s')
    | (none, s') => some (.raised .KeyError, s')
  | .popitem =>
    match s.popitem with
    | (some (k, v), s') => some (.item k v, s')
    | (none, s') => some (.raised .KeyError, s')

def run (fuel : Nat) : GDSFCache K α → List (Op K α) → Option (List (Outcome K α) × GDSFCache K α)
  | s, [] => some ([], s)
  | s, op :: ops =>
    match call fuel s op with
    | none => none
    | some (o, s') =>
      match run fuel s' ops with
      | none => none
      | some (os, s'') => some (o :: os, s'')

end GptCache.GDSFCache

namespace GptCache.Textbook

open GDSFCache (Op Outcome)

variable {K α : Type} [DecidableEq K]

/-- What the evictions before a store of this size do to the history: while
the size does not fit, a key of least priority goes. -/
inductive MakesRoom (maxsize : ℚ) (getsizeof : Value α → ℚ) (size : ℚ) :
    List (Event K (Value α)) → List (Event K (Value α)) → Prop
  | fits {h} : (replay getsizeof h).used getsizeof + size ≤ maxsize → MakesRoom maxsize getsizeof size h h
  | evict {h k h'} : maxsize < (replay getsizeof h).used getsizeof + size →
      (replay getsizeof h).IsLeast getsizeof k →
      MakesRoom maxsize getsizeof size (.popped k :: h) h' → MakesRoom maxsize getsizeof size h h'

/-- What the textbook policy answers to a call after the history `h`, and the
history then. A key already cached at no smaller a size needs no room. -/
inductive Call (maxsize : ℚ) (getsizeof : Value α → ℚ) (h : List (Event K (Value α))) :
    Op K α → Outcome K α → List (Event K (Value α)) → Prop
  | stored {k v h'} : getsizeof v ≤ maxsize →
      (∀ old, (replay getsizeof h).value.get? k = some old → getsizeof old < getsizeof v) →
      MakesRoom maxsize getsizeof (getsizeof v) h h' →
      Call maxsize getsizeof h (.setitem k v) .done (.stored k v :: h')
  | restored {k v old} : getsizeof v ≤ maxsize → (replay getsizeof h).value.get? k = some old →
      getsizeof v ≤ getsizeof old → Call maxsize getsizeof h (.setitem k v) .done (.stored k v :: h)
  | tooLarge {k v} : maxsize < getsizeof v →
      Call maxsize getsizeof h (.setitem k v) (.raised .ValueError) h
  | hit {k v} : (replay getsizeof h).value.get? k = some v →
      Call maxsize getsizeof h (.getitem k) (.value v) (.read k :: h)
  | miss {k} : (replay getsizeof h).value.get? k = none →
      Call maxsize getsizeof h (.getitem k) (.raised .KeyError) h
  | getHit {k v} : (replay getsizeof h).value.get? k = some v →
      Call maxsize getsizeof h (.get k) (.value v) (.read k :: h)
  | getMiss {k} : (replay getsizeof h).value.get? k = none → Call maxsize getsizeof h (.get k) .missing h
  | deleted {k} : (replay getsizeof h).value.contains k = true →
      Call maxsize getsizeof h (.delitem k) .done (.deleted k :: h)
  | deleteMiss {k} : (replay getsizeof h).value.get? k = none →
      Call maxsize getsizeof h (.delitem k) (.raised .KeyError) h
  | popped {k v} : (replay getsizeof h).value.get? k = some v → (replay getsizeof h).IsLeast getsizeof k →
      Call maxsize getsizeof h .popitem (.item k v) (.popped k :: h)
  | popMiss : (replay getsizeof h).value.len = 0 →
      Call maxsize getsizeof h .popitem (.raised .KeyError) h

inductive Run (maxsize : ℚ) (getsizeof : Value α → ℚ) :
    List (Event K (Value α)) → List (Op K α) → List (Outcome K α) → List (Event K (Value α)) → Prop
  | nil {h} : Run maxsize getsizeof h [] [] h
  | cons {h op o h' ops os h''} : Call maxsize getsizeof h op o h' →
      Run maxsize getsizeof h' ops os h'' → Run maxsize getsizeof h (op :: ops) (o :: os) h''

end GptCache.Textbook

namespace GptCache.GDSFCache

variable {K α : Type} [DecidableEq K]

/-- A call kept the invariant and answered as the textbook policy does. -/
structure CallOk (s : GDSFCache K α) (op : Op K α) (o : Outcome K α) (s' : GDSFCache K α) : Prop where
  inv : Inv s'
  maxsize : s'.base.maxsize = s.base.maxsize
  getsizeof : s'.base.getsizeof = s.base.getsizeof
  len : s'.base.data.len ≤ s.base.data.len + 1
  call : Textbook.Call s.base.maxsize s.base.getsizeof s.base.history op o s'.base.history

theorem Inv.used {s : GDSFCache K α} (h : Inv s) :
    s.textbook.used s.base.getsizeof = s.base.currsize := by
  simp only [Textbook.used, Cache.currsize, h.data]

/-- What the evictions inside a call keep. -/
structure Evicted (s s' : GDSFCache K α) : Prop where
  inv : Inv s'
  maxsize : s'.base.maxsize = s.base.maxsize
  getsizeof : s'.base.getsizeof = s.base.getsizeof
  len : s'.base.data.len ≤ s.base.data.len

theorem Evicted.refl {s : GDSFCache K α} (h : Inv s) : Evicted s s :=
  ⟨h, rfl, rfl, Nat.le_refl _⟩

/-- An eviction takes a cached key of least priority. -/
theorem Evicted.popitem {s s' : GDSFCache K α} (h : Evicted s s') (hpos : 0 < s'.base.data.len) :
    ∃ k, s'.base.data.contains k = true ∧ s'.textbook.IsLeast s.base.getsizeof k ∧
      s'.popitem.2.base = s'.base.pop k ∧ s'.popitem.2.base.data.len < s'.base.data.len ∧
      Evicted s s'.popitem.2 := by
  obtain ⟨k, v, hk, -, hinv, hbase, hleast, -⟩ := popitem_some h.inv hpos
  have hcached : s'.base.data.contains k = true := Dict.contains_eq_true.mpr ⟨v, hk⟩
  have hlt : s'.popitem.2.base.data.len < s'.base.data.len := by
    have := Dict.len_erase_add_one hcached
    rw [hbase, Cache.pop_data]
    omega
  exact ⟨k, hcached, h.getsizeof ▸ hleast, hbase, hlt,
    ⟨hinv, hbase ▸ h.maxsize, hbase ▸ h.getsizeof, hlt.le.trans h.len⟩⟩

/-- `Cache.__setitem__` refuses a value over `maxsize` and changes nothing.
Any other it stores in a state with whatever every eviction keeps, and if the
key needs room then there is room for it there. -/
theorem setitem_cases {fuel : Nat} {s : GDSFCache K α} (h : Inv s) (hfuel : s.base.data.len < fuel)
    (k : K) (v : Value α) {P : GDSFCache K α → Prop} (hs : P s)
    (hpop : ∀ s' k', Evicted s s' → P s' → s'.base.overflows (s.base.getsizeof v) = true →
      s'.base.data.contains k' = true → s'.textbook.IsLeast s.base.getsizeof k' →
      s'.popitem.2.base = s'.base.pop k' → P s'.popitem.2) :
    (s.base.maxsize < s.base.getsizeof v ∧ call fuel s (.setitem k v) = some (.raised .ValueError, s)) ∨
    ∃ s₁, s.base.getsizeof v ≤ s.base.maxsize ∧ call fuel s (.setitem k v) = some (.done, s₁.store k v) ∧
      Evicted s s₁ ∧ P s₁ ∧
      if s.base.needsRoom k (s.base.getsizeof v) then s₁.base.overflows (s.base.getsizeof v) = false else s₁ = s := by
  let J : GDSFCache K α × Unit → Prop := fun s' => Evicted s s'.1 ∧ P s'.1
  have hevict : ∀ s', J s' → s'.1.base.overflows (s.base.getsizeof v) = true → 0 < s'.1.base.data.len →
      Exec.wp (cacheClass K α).popitemSelf
        (fun _ s'' => J s'' ∧ s''.1.base.data.len < s'.1.base.data.len)
        (fun e s'' => e.cls = .ValueError ∧ s.base.maxsize < s.base.getsizeof v ∧ s''.1 = s) s' := by
    rintro s' ⟨hs', hP⟩ hover hpos
    refine Exec.wp_mono ((cacheClass K α).wp_popitemSelf hs'.inv hpos) ?_ fun _ _ h => h
    rintro _ _ rfl
    rw [cacheClass_popitem]
    obtain ⟨k', hk', hleast, hbase, hlt, hs''⟩ := hs'.popitem hpos
    exact ⟨⟨hs'', hpop s'.1 k' hs' hP hover hk' hleast hbase⟩, hlt⟩
  have hwp := (cacheClass K α).wp_setitem (J := J) (k := k) (v := v) (s := (s, ()))
    (fun _ h => ⟨h.1.maxsize, h.1.getsizeof⟩) hevict (fun hlarge => ⟨rfl, hlarge, rfl⟩) ⟨.refl h, hs⟩ hfuel
  rcases Exec.wp_returns hwp with ⟨_, s', hrun, ⟨s₁, _⟩, hsize, ⟨hs₁, hP⟩, hroom, rfl⟩ |
    ⟨e, ⟨s', _⟩, hrun, he, hlarge, rfl⟩
  · refine .inr ⟨s₁, hsize, by simp only [call, setitem, hrun, cacheClass_store], hs₁, hP, ?_⟩
    simp only [cacheClass_cache, Prod.mk.injEq, and_true] at hroom
    exact hroom
  · exact .inl ⟨hlarge, by simp only [call, setitem, hrun, he]⟩

theorem setitem_ok {fuel : Nat} {s : GDSFCache K α} (h : Inv s) (hfuel : s.base.data.len < fuel)
    (k : K) (v : Value α) :
    ∃ o s', call fuel s (.setitem k v) = some (o, s') ∧ CallOk s (.setitem k v) o s' := by
  let m := s.base.maxsize
  let g := s.base.getsizeof
  -- what an eviction keeps: whatever makes room from here makes room from the start
  let P : GDSFCache K α → Prop := fun s' => ∀ h', Textbook.MakesRoom m g (g v) s'.base.history h' →
    Textbook.MakesRoom m g (g v) s.base.history h'
  have hpop : ∀ s' k', Evicted s s' → P s' → s'.base.overflows (g v) = true → s'.base.data.contains k' = true →
      s'.textbook.IsLeast g k' → s'.popitem.2.base = s'.base.pop k' → P s'.popitem.2 := by
    intro s' k' hs' hroom hover _ hleast hbase h' hr
    refine hroom h' ?_
    simp only [Cache.overflows, decide_eq_true_eq, ← hs'.inv.used, hs'.maxsize] at hover
    simp only [hbase, Cache.pop_history] at hr
    simp only [textbook, hs'.getsizeof] at hover hleast
    exact .evict hover hleast hr
  rcases setitem_cases h hfuel k v (P := P) (fun _ h => h) hpop with
    ⟨hlarge, hcall⟩ | ⟨s₁, hsize, hcall, hs₁, hroom, hneeds⟩
  · exact ⟨.raised .ValueError, s, hcall, h, rfl, rfl, by simp, .tooLarge hlarge⟩
  · have hfits (hover : s₁.base.overflows (s.base.getsizeof v) = false) :
        (Textbook.replay g s₁.base.history).used g + g v ≤ m := by
      simpa [Cache.overflows, ← hs₁.inv.used, hs₁.maxsize, textbook, hs₁.getsizeof] using hover
    refine ⟨.done, s₁.store k v, hcall, store_inv k v hs₁.inv, by simp [hs₁.maxsize],
      by simp [hs₁.getsizeof], ?_, ?_⟩
    · have hlen := hs₁.len
      simp only [store_base, Cache.store_data]
      rcases hc : s₁.base.data.contains k with _ | _
      · rw [Dict.len_set_of_not_mem hc]; omega
      · rw [Dict.len_set_of_mem hc]; omega
    · simp only [store_base, Cache.store_history]
      rcases hold : s.base.data.get? k with _ | old
      · simp only [Cache.needsRoom, hold, if_true] at hneeds
        refine .stored hsize (fun old ho => ?_) (hroom _ (.fits (hfits hneeds)))
        have := h.data ▸ hold
        rw [textbook, ho] at this; cases this
      · have hold' : (Textbook.replay g s.base.history).value.get? k = some old := h.data ▸ hold
        simp only [Cache.needsRoom, hold] at hneeds
        split at hneeds
        · rename_i hgrows
          refine .stored hsize (fun old' ho => ?_) (hroom _ (.fits (hfits hneeds)))
          have ho' := ho.symm.trans hold'
          cases ho'; exact of_decide_eq_true hgrows
        · rename_i hgrows
          rw [hneeds]
          exact .restored hsize hold' (not_lt.mp fun hlt => hgrows (decide_eq_true hlt))

/-! What a call answers, from what its method answers. -/

theorem call_getitem_of_some {fuel : Nat} {s : GDSFCache K α} {k : K} {v : Value α} (h : (s.getitem k).1 = some v) :
    call fuel s (.getitem k) = some (.value v, (s.getitem k).2) := by
  simp only [call]
  rcases hq : s.getitem k with ⟨_ | _, s'⟩
  · rw [hq] at h; cases h
  · rw [hq] at h; cases h; rfl

theorem call_get_of_some {fuel : Nat} {s : GDSFCache K α} {k : K} {v : Value α}
    (h : ((cacheClass K α).get s k).1 = some v) :
    call fuel s (.get k) = some (.value v, ((cacheClass K α).get s k).2) := by
  simp only [call]
  rcases hq : (cacheClass K α).get s k with ⟨_ | _, s'⟩
  · rw [hq] at h; cases h
  · rw [hq] at h; cases h; rfl

theorem call_popitem_of_none {fuel : Nat} {s : GDSFCache K α} (h : s.popitem.1 = none) :
    call fuel s .popitem = some (.raised .KeyError, s.popitem.2) := by
  simp only [call]
  rcases hq : s.popitem with ⟨_ | _, s'⟩
  · rfl
  · rw [hq] at h; cases h

theorem call_popitem_of_some {fuel : Nat} {s : GDSFCache K α} {k : K} {v : Value α} (h : s.popitem.1 = some (k, v)) :
    call fuel s .popitem = some (.item k v, s.popitem.2) := by
  simp only [call]
  rcases hq : s.popitem with ⟨_ | _, s'⟩
  · rw [hq] at h; cases h
  · rw [hq] at h; cases h; rfl

/-- **Each call** returns and answers as the textbook policy does. -/
theorem call_ok {fuel : Nat} {s : GDSFCache K α} (h : Inv s) (hfuel : s.base.data.len < fuel) (op : Op K α) :
    ∃ o s', call fuel s op = some (o, s') ∧ CallOk s op o s' := by
  cases op with
  | setitem k v => exact setitem_ok h hfuel k v
  | getitem k =>
    rcases hk : s.base.data.get? k with _ | v
    · refine ⟨.raised .KeyError, s, by simp only [call, getitem_miss hk], h, rfl, rfl, by simp, ?_⟩
      exact .miss (h.data ▸ hk)
    · obtain ⟨hv, hi, hb⟩ := getitem_inv h hk
      refine ⟨.value v, (s.getitem k).2, call_getitem_of_some hv, hi, by simp [hb], by simp [hb], by simp [hb], ?_⟩
      simp only [hb, Cache.read_history]; exact .hit (h.data ▸ hk)
  | get k =>
    rcases hk : s.base.data.get? k with _ | v
    · refine ⟨.missing, s, ?_, h, rfl, rfl, by simp, .getMiss (h.data ▸ hk)⟩
      simp only [call]; rw [(cacheClass K α).get_miss hk]
    · obtain ⟨hv, hi, hb⟩ := (cacheClass K α).get_hit h hk
      change ((cacheClass K α).get s k).2.base = s.base.read k at hb
      refine ⟨.value v, ((cacheClass K α).get s k).2, call_get_of_some hv, hi, by simp [hb], by simp [hb],
        by simp [hb], ?_⟩
      simp only [hb, Cache.read_history]; exact .getHit (h.data ▸ hk)
  | delitem k =>
    rcases hk : s.base.data.contains k with _ | _
    · refine ⟨.raised .KeyError, s, by simp [call, delitem, hk], h, rfl, rfl, by simp, ?_⟩
      exact .deleteMiss (h.data ▸ Dict.contains_eq_false.mp hk)
    · obtain ⟨-, hi, hb⟩ := delitem_inv h hk
      have hlen := Dict.len_erase_add_one hk
      refine ⟨.done, (s.delitem k).2, by simp only [call, delitem, hk, if_true], hi, by simp [hb, Cache.delitem],
        by simp [hb], ?_, ?_⟩
      · simp only [hb, Cache.delitem_data]; omega
      · simp only [hb, Cache.delitem_history]
        exact .deleted (h.data ▸ hk)
  | popitem =>
    rcases Nat.eq_zero_or_pos s.base.data.len with hlen | hlen
    · obtain ⟨hv, hi, hb⟩ := popitem_empty h hlen
      refine ⟨.raised .KeyError, (s.popitem).2, call_popitem_of_none hv, hi, by
        simp [hb], by simp [hb], by simp [hb], ?_⟩
      rw [hb]; exact .popMiss (h.data ▸ hlen)
    · obtain ⟨k, v, hk, hv, hi, hb, hleast, -⟩ := popitem_some h hlen
      have hlt := Dict.len_erase_add_one (Dict.contains_eq_true.mpr ⟨v, hk⟩)
      refine ⟨.item k v, (s.popitem).2, call_popitem_of_some hv, hi, by simp [hb], by simp [hb], ?_, ?_⟩
      · simp only [hb, Cache.pop_data]; omega
      · simp only [hb, Cache.pop_history]; exact .popped (h.data ▸ hk) hleast

/-! ## Runs -/

theorem run_ok (fuel : Nat) : ∀ (ops : List (Op K α)) {s : GDSFCache K α}, Inv s →
    s.base.data.len + ops.length < fuel + 1 →
    ∃ outs s', run fuel s ops = some (outs, s') ∧ Inv s' ∧ s'.base.maxsize = s.base.maxsize ∧
      s'.base.getsizeof = s.base.getsizeof ∧ s'.base.data.len ≤ s.base.data.len + ops.length ∧
      Textbook.Run s.base.maxsize s.base.getsizeof s.base.history ops outs s'.base.history
  | [], s, h, _ => ⟨[], s, rfl, h, rfl, rfl, by simp, .nil⟩
  | op :: ops, s, h, hfuel => by
    simp only [List.length_cons] at hfuel
    obtain ⟨o, s', hcall, hc⟩ := call_ok h (by omega : s.base.data.len < fuel) op
    have hlen := hc.len
    obtain ⟨outs, s'', hrun, hi, hm, hg, hlen', hr⟩ := run_ok fuel ops hc.inv (by omega)
    refine ⟨o :: outs, s'', by simp only [run, hcall, hrun], hi, hm.trans hc.maxsize, hg.trans hc.getsizeof,
      by simp only [List.length_cons]; omega, ?_⟩
    rw [hc.maxsize, hc.getsizeof] at hr
    exact .cons hc.call hr

/-- The dictionaries are the policy's: the keys of `_freq` and `_prio` are the
cached keys, with the policy's frequencies and priorities. -/
structure Agrees (s : GDSFCache K α) (t : Textbook K α) : Prop where
  data : s.base.data = t.value
  freq : ∀ k, s.freq.get? k = (t.value.get? k).map fun _ => t.freq k
  prio : ∀ k, s.prio.get? k = (t.value.get? k).map fun _ => t.prio s.base.getsizeof k
  inflation : s.inflation = t.inflation

/-- `popitem` raises just when nothing is cached, and else removes one key, of
least priority, answers it with its value and lifts the inflation to that priority. -/
structure PopsLeast (s : GDSFCache K α) (t : Textbook K α) : Prop where
  raises : (s.popitem).1 = none ↔ t.value.len = 0
  least : ∀ k v, (s.popitem).1 = some (k, v) → t.value.get? k = some v ∧ t.IsLeast s.base.getsizeof k ∧
    (s.popitem).2.base.data = s.base.data.erase k ∧ (s.popitem).2.freq = s.freq.erase k ∧
    (s.popitem).2.prio = s.prio.erase k ∧ (s.popitem).2.inflation = t.prio s.base.getsizeof k

theorem Inv.agrees {s : GDSFCache K α} (h : Inv s) : Agrees s s.textbook :=
  ⟨h.data, h.freq, h.prio, h.inflation⟩

/-- Whenever `popitem` answers, it has forgotten the key it answers. -/
theorem popitem_forgets {s : GDSFCache K α} {k : K} {v : Value α} (h : (s.popitem).1 = some (k, v)) :
    (s.popitem).2.freq = s.freq.erase k ∧ (s.popitem).2.prio = s.prio.erase k := by
  simp only [popitem] at h ⊢
  split at h
  · cases h
  · split at h
    · cases h
    · rename_i hd
      simp only [Option.some.injEq, Prod.mk.injEq] at h
      obtain ⟨rfl, -⟩ := h
      exact ⟨rfl, rfl⟩

theorem Inv.popsLeast {s : GDSFCache K α} (h : Inv s) : PopsLeast s s.textbook := by
  rcases Nat.eq_zero_or_pos s.base.data.len with hlen | hlen
  · obtain ⟨hv, -, -⟩ := popitem_empty h hlen
    refine ⟨⟨fun _ => h.data ▸ hlen, fun _ => hv⟩, fun k v hp => ?_⟩
    rw [hv] at hp; cases hp
  · obtain ⟨k, v, hk, hv, -, hb, hleast, hinf⟩ := popitem_some h hlen
    refine ⟨⟨fun hnone => ?_, fun hzero => ?_⟩, fun k' v' hp => ?_⟩
    · rw [hv] at hnone; cases hnone
    · rw [h.data, hzero] at hlen; omega
    · rw [hv] at hp
      cases hp
      obtain ⟨hfreq, hprio⟩ := popitem_forgets hv
      exact ⟨h.data ▸ hk, hleast, by rw [hb, Cache.pop_data], hfreq, hprio, hinf⟩

/-- **`GDSFCache` refines the textbook policy.** Any calls on a new cache all
return (an insertion's evictions end) and answer as the policy does, evicting
only keys of least priority; the state reached is the policy's, and `popitem`
there removes a key of least priority. -/
theorem gdsf_refines_textbook (maxsize : ℚ) (getsizeof : Value α → ℚ) (ops : List (Op K α)) (fuel : Nat)
    (hfuel : ops.length < fuel) :
    ∃ outs s, run fuel (new maxsize getsizeof) ops = some (outs, s) ∧
      Textbook.Run maxsize getsizeof [] ops outs s.base.history ∧
      Textbook.Follows getsizeof s.base.history ∧
      s.base.getsizeof = getsizeof ∧
      Agrees s (Textbook.replay getsizeof s.base.history) ∧
      PopsLeast s (Textbook.replay getsizeof s.base.history) := by
  obtain ⟨outs, s, hrun, hi, -, hg, -, hr⟩ := run_ok fuel ops (new_inv (K := K) maxsize getsizeof)
    (by simp only [new, Cache.new, Dict.len_empty]; omega)
  change s.base.getsizeof = getsizeof at hg
  have ht : s.textbook = Textbook.replay getsizeof s.base.history := by rw [textbook, hg]
  exact ⟨outs, s, hrun, hr, hg ▸ hi.follows, hg, ht ▸ hi.agrees, ht ▸ hi.popsLeast⟩

theorem gdsf_refines_textbook_overflow :
    ∃ outs s, run 4 (new 2 fun _ => 1 : GDSFCache Nat Unit)
        [.setitem 1 (.num 10), .setitem 2 (.num 20), .setitem 3 (.num 30)] = some (outs, s) ∧
      Textbook.Follows (fun _ => 1) s.base.history ∧ PopsLeast s (Textbook.replay (fun _ => 1) s.base.history) := by
  obtain ⟨outs, s, hrun, -, hf, -, -, hp⟩ := gdsf_refines_textbook (K := Nat) (α := Unit) 2 (fun _ => 1)
    [.setitem 1 (.num 10), .setitem 2 (.num 20), .setitem 3 (.num 30)] 4 (by decide)
  exact ⟨outs, s, hrun, hf, hp⟩

end GptCache.GDSFCache
