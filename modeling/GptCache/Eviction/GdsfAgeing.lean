/-
Ageing in a `GDSFCache`. Every history of the textbook policy is a run of
`Lib.GreedyDual`: a store and a hit raise their key to at least the inflation
plus the cost per size, since a cached key's frequency is at least 1
(`Textbook.freq_pos`); an eviction takes a least key. With unit sizes no more
than `maxsize` keys are ever cached (`Textbook.Run.within`), so the library's
bounded ageing is `bounded_ageing`: a key left alone is evicted within
`maxsize * (⌊(P - L) / c⌋ + 1)` evictions.
-/
import Mathlib.Data.Rat.Floor
import Mathlib.Tactic.NormNum
import GptCache.Lib.GreedyDual
import GptCache.Eviction.GdsfRun

namespace GptCache

/-- Up to the eviction of `k`, nothing happens to it. -/
def LeftAlone {K V : Type} (k : K) : List (Event K V) → Prop
  | [] => True
  | .popped k' :: es => k' = k ∨ LeftAlone k es
  | .stored k' _ :: es | .read k' :: es | .deleted k' :: es => k' ≠ k ∧ LeftAlone k es

def Event.label {K V : Type} : Event K V → GreedyDual.Label K
  | .stored k _ | .read k => .raise k
  | .deleted k => .drop k
  | .popped k => .evict k

theorem evicted_label {K V : Type} (es : List (Event K V)) :
    GreedyDual.evicted (es.map Event.label) = evictions es := by
  induction es with
  | nil => rfl
  | cons e es ih => cases e <;> simp [Event.label, GreedyDual.evicted, evictions, ih]

theorem LeftAlone.untouched {K V : Type} {k : K} {es : List (Event K V)} (h : LeftAlone k es) :
    GreedyDual.Untouched k (es.map Event.label) := by
  induction es with
  | nil => trivial
  | cons e es ih =>
    cases e with
    | popped k' => exact h.imp id ih
    | stored k' v | read k' | deleted k' => exact ⟨h.1, ih h.2⟩

namespace Textbook

open GDSFCache (Op Outcome costOf sizeOf)

variable {K α : Type} [DecidableEq K] {g : Value α → ℚ} {c : ℚ}

/-- A cached key has been stored or hit since its frequency was last reset. -/
theorem freq_pos {h : List (Event K (Value α))} {k : K} (hk : (replay g h).value.contains k = true) :
    1 ≤ (replay g h).freq k := by
  induction h with
  | nil => simp [replay, init, Dict.contains] at hk
  | cons e h ih =>
    cases e with
    | stored k' v =>
      simp only [replay, step, Dict.contains_set, Bool.or_eq_true, decide_eq_true_eq] at hk ⊢
      split
      · rename_i hc
        rcases hk with rfl | hk
        · exact ih hc
        · exact ih hk
      · rcases hk with rfl | hk
        · simp
        · by_cases he : k = k'
          · subst he; simp
          · simpa [Function.update_of_ne he] using ih hk
    | read k' =>
      have := ih hk
      by_cases he : k = k'
      · subst he; simp [replay, step]
      · simpa [replay, step, Function.update_of_ne he] using this
    | deleted k' | popped k' =>
      simp only [replay, step, Dict.contains_erase, Bool.and_eq_true] at hk
      exact ih hk.2

/-- A cached value is one that was stored. -/
theorem stored_of_value {h : List (Event K (Value α))} {k : K} {v : Value α}
    (hk : (replay g h).value.get? k = some v) : .stored k v ∈ h := by
  induction h with
  | nil => simp [replay, init] at hk
  | cons e h ih =>
    cases e with
    | stored k' v' =>
      simp only [replay, step, Dict.get?_set] at hk
      split at hk
      · rename_i he
        cases hk; subst he; exact List.mem_cons_self
      · exact List.mem_cons_of_mem _ (ih hk)
    | read k' => exact List.mem_cons_of_mem _ (ih hk)
    | deleted k' | popped k' =>
      simp only [replay, step, Dict.get?_erase] at hk
      split at hk
      · cases hk
      · exact List.mem_cons_of_mem _ (ih hk)

/-! ## A history is a greedy-dual run -/

def greedyDual (g : Value α → ℚ) (h : List (Event K (Value α))) : GreedyDual.State K ℚ where
  keys := (replay g h).value.keys.toFinset
  prio := (replay g h).prio g
  inflation := (replay g h).inflation

theorem mem_keys {h : List (Event K (Value α))} {k : K} :
    k ∈ (greedyDual g h).keys ↔ (replay g h).value.contains k = true := by
  simp [greedyDual, Dict.mem_keys]

theorem card_keys (h : List (Event K (Value α))) : (greedyDual g h).keys.card = (replay g h).value.len := by
  simp only [greedyDual, List.toFinset_card_of_nodup (Dict.nodup_keys _), Dict.length_keys]

/-- Every value stored costs at least `c` for its size. -/
def CostsAtLeast (g : Value α → ℚ) (c : ℚ) (h : List (Event K (Value α))) : Prop :=
  ∀ k v, .stored k v ∈ h → c ≤ costOf v / sizeOf g v

/-- Never more than `N` keys cached. -/
def Within (g : Value α → ℚ) (N : Nat) : List (Event K (Value α)) → Prop
  | [] => True
  | e :: h => Within g N h ∧ (replay g (e :: h)).value.len ≤ N

theorem Within.len_le {N : Nat} {h : List (Event K (Value α))} (hw : Within g N h) :
    (replay g h).value.len ≤ N := by
  cases h with
  | nil => exact Nat.zero_le _
  | cons e h => exact hw.2

/-- A key whose age is the inflation has risen over it by its cost per size. -/
theorem prio_ge {t : Textbook K α} {k : K} {v : Value α} (hc : 0 ≤ c) (hv : t.value.get? k = some v)
    (hf : 1 ≤ t.freq k) (hage : t.age k = t.inflation) (hcost : c ≤ costOf v / sizeOf g v) :
    t.inflation + c ≤ t.prio g k := by
  have hf' : (1 : ℚ) ≤ t.freq k := by exact_mod_cast hf
  have : c ≤ t.freq k * (costOf v / sizeOf g v) :=
    hcost.trans (le_mul_of_one_le_left (hc.trans hcost) hf')
  simp only [prio, hv, hage, mul_div_assoc]
  linarith

/-- Storing and hitting `k` leave every other key's priority. -/
theorem prio_of_ne {t t' : Textbook K α} {k : K} (hv : t'.value.get? k = t.value.get? k)
    (hf : t'.freq k = t.freq k) (ha : t'.age k = t.age k) : t'.prio g k = t.prio g k := by
  simp only [prio, hv, hf, ha]

/-- So does taking `k` out. -/
theorem prio_of_erased {t t' : Textbook K α} {k k' : K} (hv : t'.value = t.value.erase k) (hf : t'.freq = t.freq)
    (ha : t'.age = t.age) (hk' : t'.value.contains k' = true) : t'.prio g k' = t.prio g k' := by
  rw [hv, Dict.contains_erase, Bool.and_eq_true] at hk'
  refine prio_of_ne ?_ (congrFun hf k') (congrFun ha k')
  have hne : k' ≠ k := by simpa using hk'.1
  rw [hv, Dict.get?_erase, if_neg hne]

theorem greedyDual_step {N : Nat} (hc : 0 ≤ c) {e : Event K (Value α)} {h : List (Event K (Value α))}
    (hf : Follows g (e :: h)) (hcost : CostsAtLeast g c (e :: h)) (hw : Within g N (e :: h)) :
    GreedyDual.Step c N (greedyDual g h) e.label (greedyDual g (e :: h)) := by
  cases e with
  | stored k v =>
    refine .raise ?_ (by rw [card_keys]; exact hw.2) ?_ ?_ rfl
    · ext k'
      simp [mem_keys, replay, step, Dict.contains_set]
    · intro k' _ hne
      refine prio_of_ne ?_ ?_ ?_
      · simp [replay, step, Dict.get?_set, hne]
      · simp only [replay, step]
        split
        · rfl
        · exact Function.update_of_ne hne _ _
      · simp [replay, step, Function.update_of_ne hne]
    · refine prio_ge (t := replay g (.stored k v :: h)) hc (v := v) ?_ (freq_pos ?_) ?_
        (hcost k v List.mem_cons_self)
      · simp [replay, step]
      · simp [replay, step, Dict.contains_set]
      · simp [replay, step]
  | read k =>
    have hk : (replay g h).value.contains k = true := hf.2
    obtain ⟨v, hv⟩ := Dict.contains_eq_true.mp hk
    refine .raise ?_ (by rw [card_keys]; exact hw.2) ?_ ?_ rfl
    · ext k'
      simp only [Finset.mem_insert, mem_keys, replay, step]
      refine ⟨.inr, ?_⟩
      rintro (rfl | h)
      · exact hk
      · exact h
    · intro k' _ hne
      refine prio_of_ne rfl ?_ ?_ <;> simp [replay, step, Function.update_of_ne hne]
    · refine prio_ge (t := replay g (.read k :: h)) hc hv (freq_pos hk) ?_
        (hcost k v (List.mem_cons_of_mem _ (stored_of_value hv)))
      simp [replay, step]
  | deleted k =>
    refine .drop ?_ ?_ rfl
    · ext k'
      simp [mem_keys, replay, step, Dict.contains_erase]
    · exact fun k' hk' => prio_of_erased rfl rfl rfl (mem_keys.mp hk')
  | popped k =>
    have hleast : (replay g h).IsLeast g k := hf.2
    refine .evict (mem_keys.mpr hleast.1) (fun k' hk' => hleast.2 k' (mem_keys.mp hk')) ?_ ?_ rfl
    · ext k'
      simp [mem_keys, replay, step, Dict.contains_erase]
    · exact fun k' hk' => prio_of_erased rfl rfl rfl (mem_keys.mp hk')

omit [DecidableEq K] in
theorem CostsAtLeast.tail {e : Event K (Value α)} {h : List (Event K (Value α))}
    (hcost : CostsAtLeast g c (e :: h)) : CostsAtLeast g c h :=
  fun k v hm => hcost k v (List.mem_cons_of_mem _ hm)

theorem greedyDual_run {N : Nat} (hc : 0 ≤ c) {h : List (Event K (Value α))} :
    ∀ evs : List (Event K (Value α)), Follows g (evs ++ h) → CostsAtLeast g c (evs ++ h) →
      Within g N (evs ++ h) →
      GreedyDual.Run c N (greedyDual g h) (evs.reverse.map Event.label) (greedyDual g (evs ++ h))
  | [], _, _, _ => .nil
  | e :: evs, hf, hcost, hw => by
    rw [List.reverse_cons, List.map_append]
    exact (greedyDual_run hc evs hf.1 hcost.tail hw.1).append
      (.cons (greedyDual_step hc hf hcost hw) .nil)

theorem greedyDual_bounded (hc : 0 ≤ c) {h : List (Event K (Value α))} (hf : Follows g h)
    (hcost : CostsAtLeast g c h) {N : Nat} (hw : Within g N h) : GreedyDual.Bounded (greedyDual g h) := by
  have hr := greedyDual_run (h := []) hc h (by simpa using hf) (by simpa using hcost)
    (by simpa using hw)
  rw [List.append_nil] at hr
  refine hr.bounded hc fun k hk => ?_
  simp [mem_keys, replay, init, Dict.contains] at hk

/-! ## Runs -/

theorem MakesRoom.extends {m size : ℚ} {h h' : List (Event K (Value α))} (hr : MakesRoom m g size h h') :
    ∃ ks : List K, h' = ks.map .popped ++ h := by
  induction hr with
  | fits _ => exact ⟨[], rfl⟩
  | @evict h k h' _ _ _ ih =>
    obtain ⟨ks, rfl⟩ := ih
    exact ⟨ks ++ [k], by simp⟩

/-- A call adds to the history, and stores what it was called to store. -/
theorem Call.extends {m : ℚ} {h h' : List (Event K (Value α))} {op : Op K α} {o : Outcome K α}
    (hcall : Call m g h op o h') :
    ∃ evs, h' = evs ++ h ∧ ∀ k v, .stored k v ∈ evs → op = .setitem k v := by
  cases hcall with
  | @stored k v h' _ _ hr =>
    obtain ⟨ks, rfl⟩ := hr.extends
    refine ⟨.stored k v :: ks.map .popped, by simp, fun k' v' hm => ?_⟩
    simp only [List.mem_cons, Event.stored.injEq, List.mem_map, reduceCtorEq, and_false,
      exists_false, or_false] at hm
    rw [hm.1, hm.2]
  | @restored k v =>
    refine ⟨[.stored k v], rfl, fun k' v' hm => ?_⟩
    simp only [List.mem_singleton, Event.stored.injEq] at hm
    rw [hm.1, hm.2]
  | @hit k v | @getHit k v => exact ⟨[.read k], rfl, by simp⟩
  | @deleted k => exact ⟨[.deleted k], rfl, by simp⟩
  | @popped k v => exact ⟨[.popped k], rfl, by simp⟩
  | tooLarge | miss | getMiss | deleteMiss | popMiss => exact ⟨[], rfl, by simp⟩

theorem Run.extends {m : ℚ} {h h' : List (Event K (Value α))} {ops : List (Op K α)} {os : List (Outcome K α)}
    (hr : Run m g h ops os h') :
    ∃ evs, h' = evs ++ h ∧ ∀ k v, .stored k v ∈ evs → .setitem k v ∈ ops := by
  induction hr with
  | nil => exact ⟨[], rfl, by simp⟩
  | @cons h op o h₁ ops os h₂ hcall _ ih =>
    obtain ⟨evs, rfl, hops⟩ := ih
    obtain ⟨evs₁, rfl, hop⟩ := hcall.extends
    refine ⟨evs ++ evs₁, by simp, fun k v hm => ?_⟩
    rcases List.mem_append.mp hm with hm | hm
    · exact List.mem_cons_of_mem _ (hops k v hm)
    · rw [hop k v hm]; exact List.mem_cons_self

theorem len_erase_le (d : Dict K (Value α)) (k : K) : (d.erase k).len ≤ d.len :=
  (List.length_filter_le _ _)

omit [DecidableEq K] in
theorem used_unit (t : Textbook K α) : t.used (fun _ => 1) = t.value.len := by
  simp [used, Dict.values, Dict.len, Function.comp_def]

/-- With unit sizes, making room for one leaves a place free. -/
theorem MakesRoom.within {N : Nat} {h h' : List (Event K (Value α))}
    (hr : MakesRoom N (fun _ => 1) 1 h h') (hw : Within (fun _ => 1) N h) :
    Within (fun _ => 1) N h' ∧ (replay (fun _ => 1) h').value.len + 1 ≤ N := by
  induction hr with
  | fits hroom =>
    rw [used_unit] at hroom
    exact ⟨hw, by exact_mod_cast hroom⟩
  | evict _ _ _ ih => exact ih ⟨hw, (len_erase_le _ _).trans hw.len_le⟩

theorem Call.within {N : Nat} {h h' : List (Event K (Value α))} {op : Op K α} {o : Outcome K α}
    (hcall : Call N (fun _ => 1) h op o h') (hw : Within (fun _ => 1) N h) : Within (fun _ => 1) N h' := by
  cases hcall with
  | @stored k v h' _ _ hr =>
    obtain ⟨hw', hlen⟩ := hr.within hw
    refine ⟨hw', ?_⟩
    simp only [replay, step]
    rcases hk : (replay (fun _ => 1) h').value.contains k with _ | _
    · rw [Dict.len_set_of_not_mem hk]; exact hlen
    · rw [Dict.len_set_of_mem hk]; omega
  | restored _ hold _ =>
    refine ⟨hw, ?_⟩
    simp only [replay, step, Dict.len_set_of_mem (Dict.contains_eq_true.mpr ⟨_, hold⟩)]
    exact hw.len_le
  | hit | getHit => exact ⟨hw, hw.len_le⟩
  | deleted | popped => exact ⟨hw, (len_erase_le _ _).trans hw.len_le⟩
  | tooLarge | miss | getMiss | deleteMiss | popMiss => exact hw

theorem Run.within {N : Nat} {h h' : List (Event K (Value α))} {ops : List (Op K α)} {os : List (Outcome K α)}
    (hr : Run N (fun _ => 1) h ops os h') (hw : Within (fun _ => 1) N h) : Within (fun _ => 1) N h' := by
  induction hr with
  | nil => exact hw
  | cons hcall _ ih => exact ih (hcall.within hw)

end Textbook

namespace GDSFCache

variable {K α : Type} [DecidableEq K]

theorem sizeOf_unit (v : Value α) : sizeOf (fun _ => 1) v = 1 := by simp [sizeOf]

/-- **Bounded ageing.** Unit sizes, every cost stored at least `c`: from the
state any calls lead to, with inflation `L`, and in any continuation, a key
cached at priority `P` that nothing happens to up to its eviction is among the
first `maxsize * (⌊(P - L) / c⌋ + 1)` keys evicted. -/
theorem bounded_ageing {c : ℚ} (hc : 0 < c) (maxsize : Nat) (ops₁ ops₂ : List (Op K α)) (fuel : Nat)
    (hfuel : ops₁.length + ops₂.length < fuel)
    (hcost : ∀ k v, .setitem k v ∈ ops₁ ++ ops₂ → c ≤ costOf v) :
    ∃ outs₁ s₁ outs₂ s₂ evs, run fuel (new maxsize fun _ => 1) ops₁ = some (outs₁, s₁) ∧
      run fuel s₁ ops₂ = some (outs₂, s₂) ∧ s₂.base.history = evs ++ s₁.base.history ∧
      ∀ k P, s₁.prio.get? k = some P → LeftAlone k evs.reverse →
        maxsize * (⌊(P - s₁.inflation) / c⌋₊ + 1) ≤ (evictions evs.reverse).length →
        k ∈ (evictions evs.reverse).take (maxsize * (⌊(P - s₁.inflation) / c⌋₊ + 1)) := by
  obtain ⟨outs₁, s₁, hrun₁, hi₁, hm₁, hg₁, hlen₁, hr₁⟩ :=
    run_ok fuel ops₁ (new_inv (K := K) (α := α) maxsize fun _ => 1)
      (by simp only [new, Cache.new, Dict.len_empty]; omega)
  simp only [new, Cache.new, Dict.len_empty] at hm₁ hg₁ hlen₁ hr₁
  obtain ⟨outs₂, s₂, hrun₂, hi₂, hm₂, hg₂, -, hr₂⟩ := run_ok fuel ops₂ hi₁ (by omega)
  rw [hm₁, hg₁] at hr₂
  obtain ⟨evs₁, hevs₁, hops₁⟩ := hr₁.extends
  obtain ⟨evs, hevs, hops⟩ := hr₂.extends
  refine ⟨outs₁, s₁, outs₂, s₂, evs, hrun₁, hrun₂, hevs, fun k P hk hleft hlong => ?_⟩
  -- the continuation is a greedy-dual run
  have hw₁ := hr₁.within (N := maxsize) trivial
  have hw₂ := hr₂.within hw₁
  have hf₁ := hi₁.follows
  have hf₂ := hi₂.follows
  rw [hg₁] at hf₁
  rw [hg₂, hg₁] at hf₂
  have hcosts : Textbook.CostsAtLeast (fun _ => 1) c s₂.base.history := by
    intro k v hm
    rw [sizeOf_unit, div_one]
    rw [hevs, hevs₁, List.append_nil, List.mem_append] at hm
    exact hcost k v (List.mem_append.mpr (hm.symm.imp (hops₁ k v) (hops k v)))
  have hcosts₁ : Textbook.CostsAtLeast (fun _ => 1) c s₁.base.history := fun k v hm =>
    hcosts k v (hevs ▸ List.mem_append_right _ hm)
  rw [hevs] at hf₂ hcosts hw₂
  have hgd := Textbook.greedyDual_run hc.le _ hf₂ hcosts hw₂
  -- the key is live there, at its priority
  have hprio := hi₁.prio k
  rw [hk] at hprio
  obtain ⟨v, hv, hP⟩ := Option.map_eq_some_iff.mp hprio.symm
  rw [textbook, hg₁] at hv hP
  have hL : s₁.inflation = (Textbook.replay (fun _ => 1) s₁.base.history).inflation := by
    rw [hi₁.inflation, textbook, hg₁]
  rw [hL, ← hP] at hlong ⊢
  rw [← evicted_label] at hlong ⊢
  exact hgd.mem_take_evicted hc (Textbook.greedyDual_bounded hc.le hf₁ hcosts₁ hw₁)
    (by rw [Textbook.card_keys]; exact hw₁.len_le)
    (Textbook.mem_keys.mpr (Dict.contains_eq_true.mpr ⟨v, hv⟩)) hleft.untouched hlong

/-- Four evictions reach the bound of a key of priority 1. -/
theorem bounded_ageing_two :
    ∃ outs₁ s₁ outs₂ s₂ evs, run 7 (new (2 : Nat) fun _ => 1 : GDSFCache Nat Unit)
        [.setitem 1 (.num 1), .setitem 2 (.num 2)] = some (outs₁, s₁) ∧
      run 7 s₁ [.setitem 3 (.num 1), .setitem 4 (.num 1), .setitem 5 (.num 1), .setitem 6 (.num 1)] = some (outs₂, s₂) ∧
      s₂.base.history = evs ++ s₁.base.history ∧ 1 ∈ (evictions evs.reverse).take 4 := by
  obtain ⟨outs₁, s₁, outs₂, s₂, evs, hrun₁, hrun₂, hevs, hbound⟩ :=
    bounded_ageing (K := Nat) (α := Unit) (c := 1) (by decide) 2 [.setitem 1 (.num 1), .setitem 2 (.num 2)]
      [.setitem 3 (.num 1), .setitem 4 (.num 1), .setitem 5 (.num 1), .setitem 6 (.num 1)] 7 (by decide) (by
        intro k v hm
        simp only [List.cons_append, List.nil_append, List.mem_cons, Op.setitem.injEq, List.not_mem_nil,
          or_false] at hm
        rcases hm with ⟨-, rfl⟩ | ⟨-, rfl⟩ | ⟨-, rfl⟩ | ⟨-, rfl⟩ | ⟨-, rfl⟩ | ⟨-, rfl⟩ <;> norm_num [costOf])
  have hstate : (run 7 (new (2 : Nat) fun _ => 1 : GDSFCache Nat Unit)
      [.setitem 1 (.num 1), .setitem 2 (.num 2)]).map (fun p => (p.2.prio.get? 1, p.2.inflation)) =
        some (some 1, 0) := by
    decide +kernel
  rw [hrun₁, Option.map_some, Option.some.injEq, Prod.mk.injEq] at hstate
  have hhistory : ((run 7 (new (2 : Nat) fun _ => 1 : GDSFCache Nat Unit)
      [.setitem 1 (.num 1), .setitem 2 (.num 2)]).bind
      fun p => (run 7 p.2 [.setitem 3 (.num 1), .setitem 4 (.num 1), .setitem 5 (.num 1), .setitem 6 (.num 1)]).map
        fun q => (q.2.base.history, p.2.base.history)) =
      some ([.stored 6 (.num 1), .popped 4, .stored 5 (.num 1), .popped 3, .stored 4 (.num 1), .popped 2,
        .stored 3 (.num 1), .popped 1] ++ [.stored 2 (.num 2), .stored 1 (.num 1)],
        [.stored 2 (.num 2), .stored 1 (.num 1)]) := by
    decide +kernel
  rw [hrun₁, Option.bind_some, hrun₂, Option.map_some, Option.some.injEq, Prod.mk.injEq] at hhistory
  obtain ⟨hhistory₂, hhistory₁⟩ := hhistory
  rw [hhistory₂, hhistory₁] at hevs
  obtain rfl := List.append_cancel_right hevs
  refine ⟨outs₁, s₁, outs₂, s₂, _, hrun₁, hrun₂, by rw [hhistory₂, hhistory₁], ?_⟩
  have hfloor : 2 * (⌊((1 : ℚ) - s₁.inflation) / 1⌋₊ + 1) = 4 := by rw [hstate.2]; norm_num
  have h := hbound 1 1 hstate.1 (by simp [LeftAlone])
  rw [hfloor] at h
  exact h (by decide)

end GDSFCache

end GptCache
