/-
What frequencies do to the ablation variants when popularity drifts.

Without ageing a priority is what the prompt's uses cost, so a prompt used `n`
times is never evicted again while no other prompt's requests times its cost
reach `n` times its own (`no_aging_keeps`). With ageing it is, but only after
as many misses: what GDSF generates is over any multiple of what an offline
schedule does (`gdsf_pays`), so the factor of `gdsf_competitive` cannot be left
out.
-/
import Mathlib.Algebra.Order.Archimedean.Basic
import GptCache.Benchmarks.Competitive

namespace GptCache

namespace RunBench

open Variant

variable {K α : Type} [DecidableEq K] {V : Variant} {clean fuel m n : Nat} {latency : LatencyModel} {cost : K → ℚ}
  {uses : K → Nat} {found : List (K × ℚ)} {r : K × ℚ}

/-! ## No ageing -/

/-- Without ageing a priority is what the prompt's uses cost. -/
theorem no_aging_prio {s : GDSFCache K α} (h : Counted NoAgingGDSFCache cost uses s) {k : K} {f : Nat}
    (hf : s.freq.get? k = some f) : s.prio.get? k = some (f * cost k) := by
  have hk : s.base.data.contains k = true := by
    rw [← h.recorded.freq]
    exact Dict.contains_eq_true.mpr ⟨f, hf⟩
  rw [h.recorded.prio_eq (h.value k hk) hf]
  simp [NoAgingGDSFCache, GDSFCache.costOf, GDSFCache.sizeOf, h.unit]

/-- Of two cached keys `popitem` does not take the one whose uses cost more. -/
theorem no_aging_popitem {s : GDSFCache K α} (h : Counted NoAgingGDSFCache cost uses s)
    (hnonneg : ∀ k, 0 ≤ cost k) {k : K}
    {f n : Nat} (hf : s.freq.get? k = some f) (hn : n ≤ f) (hothers : ∀ k', k' ≠ k → uses k' * cost k' < n * cost k)
    (hlen : 2 ≤ s.base.data.len) : (NoAgingGDSFCache.popitem s).2.freq.get? k = some f := by
  obtain ⟨victim, v, p, hv, hp, hleast, -, -, -, hfreq, -, -⟩ := popitem_least h.recorded (by omega)
  rw [hfreq, Dict.get?_erase_of_ne]
  · exact hf
  · rintro rfl
    -- another key is cached, and its priority is lower
    have hlen' := Dict.len_erase_add_one (Dict.contains_eq_true.mpr ⟨v, hv⟩)
    obtain ⟨k', hk'⟩ : ∃ k', (s.base.data.erase k).get? k' ≠ none := by
      by_contra hall
      have := Dict.len_eq_zero.mpr fun k' => not_not.mp fun hne => hall ⟨k', hne⟩
      omega
    have hne : k' ≠ k := fun he => hk' (by rw [he, Dict.get?_erase_self])
    rw [Dict.get?_erase_of_ne _ hne] at hk'
    obtain ⟨v', hv'⟩ := Option.ne_none_iff_exists'.mp hk'
    obtain ⟨f', hf'⟩ := Dict.contains_eq_true.mp ((h.recorded.freq k').trans (Dict.contains_eq_true.mpr ⟨v', hv'⟩))
    have hlow := hleast k' _ (no_aging_prio h hf')
    rw [no_aging_prio h hf] at hp
    have hused : (f' : ℚ) ≤ uses k' := by exact_mod_cast h.uses k' f' hf'
    have hfew := (mul_le_mul_of_nonneg_right hused (hnonneg k')).trans_lt (hothers k' hne)
    have hmany : (n : ℚ) * cost k ≤ f * cost k := mul_le_mul_of_nonneg_right (by exact_mod_cast hn) (hnonneg k)
    rw [← Option.some.inj hp] at hlow
    linarith

/-- **Without ageing** a prompt used `n` times is never evicted again, while
all requests for each other prompt cost less than its `n` uses did. -/
theorem no_aging_keeps (α : Type) (latency : LatencyModel) (cost : K → ℚ) (hclean : 0 < clean)
    (hlt : clean < m) (hfuel : m < fuel)
    {before after : List (K × ℚ)} (hcost : ∀ r ∈ before ++ after, r.2 = cost r.1) (hnonneg : ∀ k, 0 ≤ cost k) {k : K}
    {n : Nat} {s : State (GDSFCache K α) K}
    (hbefore : replay (variantBench α NoAgingGDSFCache clean) fuel latency before
      (start (variantBench α NoAgingGDSFCache clean) m) = some (.ok (), s))
    (hk : s.1.freq.get? k = some n)
    (hothers : ∀ k', k' ≠ k → requested (before ++ after) k' * cost k' < n * cost k) :
    ∃ s' f, replay (variantBench α NoAgingGDSFCache clean) fuel latency after s = some (.ok (), s') ∧
      s'.1.freq.get? k = some f ∧ n ≤ f := by
  obtain ⟨s₀, n₀, found₀, hrun, h₀, hcounted₀, -⟩ :=
    replay_counted (V := NoAgingGDSFCache) (α := α) (J := fun _ => True)
    latency hclean hlt.le hfuel hcost (fun _ _ _ _ _ => trivial) (fun _ _ _ _ _ _ => trivial) (fun _ _ _ _ _ => trivial)
    before [] (by simp) (start_balanced _ m) (new_counted m) trivial
  cases hbefore.symm.trans hrun
  obtain ⟨s', -, -, hrest, -, -, f, hf, hle⟩ := replay_counted (V := NoAgingGDSFCache) (α := α)
    (J := fun s => ∃ f, s.freq.get? k = some f ∧ n ≤ f) latency hclean hlt.le hfuel hcost
    (fun s hs hJ hlen _ => by
      obtain ⟨f, hf, hle⟩ := hJ
      exact ⟨f, no_aging_popitem hs hnonneg hf hle hothers (by omega), hle⟩)
    (fun s k' v hs hJ hnew => by
      obtain ⟨f, hf, hle⟩ := hJ
      refine ⟨f, ?_, hle⟩
      rw [store_freq, if_neg]
      · exact hf
      · rintro rfl
        rw [← hs.recorded.freq, Dict.contains_eq_false] at hnew
        rw [hnew] at hf
        cases hf)
    (fun s k' hs hJ hk' => by
      obtain ⟨f, hf, hle⟩ := hJ
      obtain ⟨f', hf', hpush, -⟩ := hs.get hk'
      rw [hpush, push, Dict.get?_set]
      split
      · rename_i he
        subst he
        rw [hf] at hf'
        cases hf'
        exact ⟨_, rfl, hle.trans (Nat.le_succ f)⟩
      · exact ⟨f, hf, hle⟩)
    after before (by simp) h₀ hcounted₀ ⟨n, hk, le_rfl⟩
  exact ⟨s', f, hrest, hf, hle⟩

/-- A state there is. -/
theorem exists_state {σ : Type} (result : Option (Except PyError Unit × σ)) (P : σ → Prop) [DecidablePred P]
    (h : (match result with | some (.ok _, s) => decide (P s) | _ => false) = true) :
    ∃ s, result = some (.ok (), s) ∧ P s := by
  rcases result with _ | ⟨_ | _, s⟩
  · cases h
  · cases h
  · exact ⟨s, rfl, of_decide_eq_true h⟩

theorem no_aging_keeps_three :
    ∃ s s' f, replay (variantBench Unit NoAgingGDSFCache 1) 3 hosted [(1, 1), (1, 1), (1, 1)]
        (start (variantBench Unit NoAgingGDSFCache 1) 2) = some (.ok (), s) ∧
      replay (variantBench Unit NoAgingGDSFCache 1) 3 hosted [(2, 1), (3, 1), (2, 1)] s = some (.ok (), s') ∧
      s'.1.freq.get? (1 : Nat) = some f ∧ 3 ≤ f := by
  obtain ⟨s, hbefore, hk⟩ := exists_state (replay (variantBench Unit NoAgingGDSFCache 1) 3 hosted
    [((1 : Nat), 1), (1, 1), (1, 1)] (start (variantBench Unit NoAgingGDSFCache 1) 2))
    (fun s => s.1.freq.get? 1 = some 3) (by decide +kernel)
  have hothers : ∀ k', k' ≠ 1 → requested ([(1, 1), (1, 1), (1, 1)] ++ [(2, 1), (3, 1), (2, 1)]) k' *
      (1 : ℚ) < (3 : Nat) * 1 := by
    intro k' hne
    have hfew : requested ([(1, 1), (1, 1), (1, 1)] ++ [(2, 1), (3, 1), (2, 1)]) k' < 3 := by
      simp only [requested, List.cons_append, List.nil_append, List.map_cons, List.map_nil,
        List.count_cons, List.count_nil, beq_iff_eq]
      split_ifs <;> omega
    rw [mul_one, mul_one]
    exact_mod_cast hfew
  obtain ⟨s', f, hrun, hf, hle⟩ := no_aging_keeps Unit hosted (fun _ => 1) (by decide) (by decide) (by decide)
    (by decide +kernel) (fun _ => zero_le_one) hbefore hk hothers
  exact ⟨s, s', f, hbefore, hrun, hf, hle⟩

/-! ## Ageing -/

/-- A cache of capacity `M` under GDSF, prompts costing 1 each: its priorities,
its inflation, how many keys it has, and what was generated so far. -/
structure Profile (α : Type) (M : Nat) (prio : Nat → Option ℚ) (inflation : ℚ) (len : Nat) (missed : ℚ)
    (s : State (GDSFCache Nat α) Nat) : Prop where
  balanced : ∃ n found, Balanced (variantBench α gdsf 1) M n found s
  counted : ∃ uses, Counted gdsf (fun _ => 1) uses s.1
  prio : ∀ k, s.1.prio.get? k = prio k
  inflation : s.1.inflation = inflation
  len : s.1.base.data.len = len
  missed : s.2.1.totalTokens - s.2.1.savedTokens = missed

section

variable {M len : Nat} {prio : Nat → Option ℚ} {inflation missed : ℚ} {s : State (GDSFCache Nat α) Nat} {k : Nat}

theorem Profile.contains (h : Profile α M prio inflation len missed s) (k : Nat) :
    s.1.base.data.contains k = (prio k).isSome := by
  obtain ⟨uses, hcounted⟩ := h.counted
  rw [← hcounted.recorded.keys, Dict.contains, h.prio]

/-- What a push at unit size and cost leaves. -/
theorem push_unit (s : GDSFCache Nat α) (k k' : Nat) (hunit : ∀ v, s.base.getsizeof v = 1) :
    (gdsf.push s k (.num 1)).prio.get? k' =
      if k' = k then some (s.inflation + ((s.freq.get? k).getD 0 : Nat)) else s.prio.get? k' := by
  have hsize : GDSFCache.sizeOf s.base.getsizeof (.num 1) = 1 := by
    simp only [GDSFCache.sizeOf, hunit, one_ne_zero, if_false]
  simp only [push, gdsf, hsize, Dict.get?_set, GDSFCache.costOf, mul_one, div_one]

/-- Storing a new key. -/
theorem store_unit {s : GDSFCache Nat α} {uses : Nat → Nat} (h : Counted gdsf (fun _ => 1) uses s)
    (hk : s.base.data.contains k = false) (k' : Nat) :
    (gdsf.store s k (.num 1)).prio.get? k' = if k' = k then some (s.inflation + 1) else s.prio.get? k' := by
  have hfreq : s.freq.contains k = false := (h.recorded.freq k).trans hk
  have hstore : gdsf.store s k (.num 1) =
      gdsf.push { s with base := s.base.store k (.num 1), freq := s.freq.set k 1 } k (.num 1) := by
    simp only [store, hfreq, Bool.false_eq_true, if_false]
  rw [hstore, push_unit]
  · simp
  · exact h.unit

/-- A request for a cached prompt. -/
theorem Profile.hit (fuel : Nat) (latency : LatencyModel) (h : Profile α M prio inflation len missed s) {f : Nat}
    (hf : s.1.freq.get? k = some f) :
    ∃ s', request (variantBench α gdsf 1) fuel latency (k, 1) s = some (.ok (), s') ∧
      Profile α M (Function.update prio k (some (inflation + (f + 1)))) inflation len missed s' ∧
      s'.1.freq.get? k = some (f + 1) := by
  obtain ⟨n, found, hb⟩ := h.balanced
  obtain ⟨uses, hcounted⟩ := h.counted
  have hk : s.1.base.data.contains k = true := by
    rw [← hcounted.recorded.freq]
    exact Dict.contains_eq_true.mpr ⟨f, hf⟩
  obtain ⟨s', hrun, hb', -⟩ := request_hit fuel latency hb (r := (k, 1)) hk
  have hmem : k ∈ s.2.1.inCache := by
    rw [hb.mirror, mem_tracked]
    exact hk
  have hs' := hit_cache (r := (k, 1)) hmem hrun
  obtain ⟨f', hf', hpush, hcounted'⟩ := hcounted.get hk
  obtain rfl : f' = f := Option.some.inj (hf'.symm.trans hf)
  have hnext : s'.1 = gdsf.push { s.1 with base := s.1.base.read k, freq := s.1.freq.set k (f' + 1) } k (.num 1) :=
    hs'.trans hpush
  obtain ⟨kept, -, htally⟩ := request_tally (r := (k, 1)) rfl hrun
  rw [if_pos hmem] at htally
  refine ⟨s', hrun, ⟨⟨_, _, hb'⟩, ⟨_, by rw [hs']; exact hcounted'⟩, fun k' => ?_, ?_, ?_, ?_⟩, ?_⟩
  · rw [hnext, push_unit]
    · simp only [Dict.get?_set_self, Option.getD_some, h.inflation, Function.update_apply, h.prio]
      push_cast
      rfl
    · exact hcounted.unit
  · rw [hnext]
    exact h.inflation
  · rw [hnext]
    exact h.len
  · rw [htally, ← h.missed]
    ring
  · rw [hnext]
    exact Dict.get?_set_self ..

/-- What is not there is generated, and stored where evictions leave room. -/
theorem Profile.stored (s₁ : State (GDSFCache Nat α) Nat) {s' : State (GDSFCache Nat α) Nat}
    {P : Nat → Option ℚ} {L : ℚ} {ℓ : Nat} (h : Profile α M prio inflation len missed s) (hk : prio k = none)
    (hrun : request (variantBench α gdsf 1) fuel latency (k, 1) s = some (.ok (), s'))
    (hb : ∃ n found, Balanced (variantBench α gdsf 1) M n found s')
    (hs' : s'.1 = gdsf.store s₁.1 k (.num 1)) (hcounted : ∃ uses, Counted gdsf (fun _ => 1) uses s₁.1)
    (hP : ∀ k, s₁.1.prio.get? k = P k) (hPk : P k = none) (hL : s₁.1.inflation = L) (hlen : s₁.1.base.data.len = ℓ) :
    Profile α M (Function.update P k (some (L + 1))) L (ℓ + 1) (missed + 1) s' ∧ s'.1.freq.get? k = some 1 := by
  obtain ⟨n, found, hbalanced⟩ := h.balanced
  obtain ⟨uses, hcounted⟩ := hcounted
  have hnew : s₁.1.base.data.contains k = false := by
    rw [← hcounted.recorded.keys, Dict.contains, hP, hPk]
    rfl
  have hfreq : s₁.1.freq.get? k = none := by
    rw [← Dict.contains_eq_false, hcounted.recorded.freq, hnew]
  have hmem : k ∉ s.2.1.inCache := hbalanced.not_mem (by
    refine (h.contains k).trans ?_
    rw [hk]
    rfl)
  obtain ⟨kept, -, htally⟩ := request_tally (r := (k, 1)) rfl hrun
  rw [if_neg hmem] at htally
  refine ⟨⟨hb, ⟨_, hs' ▸ hcounted.store hnew⟩, fun k' => ?_, ?_, ?_, ?_⟩, ?_⟩
  · rw [hs', store_unit hcounted hnew, hL, Function.update_apply, hP]
  · rw [hs', ← hL]
    simp only [store]
    split <;> rfl
  · rw [hs', store_base, Cache.store_data, Dict.len_set_of_not_mem hnew, hlen]
  · rw [htally, ← h.missed]
    ring
  · rw [hs', store_freq, if_pos rfl, hfreq]
    rfl

/-- A new prompt, with room for it. -/
theorem Profile.room (latency : LatencyModel) (hfuel : M < fuel) (h : Profile α M prio inflation len missed s)
    (hk : prio k = none) (hlen : len < M) :
    ∃ s', request (variantBench α gdsf 1) fuel latency (k, 1) s = some (.ok (), s') ∧
      Profile α M (Function.update prio k (some (inflation + 1))) inflation (len + 1) (missed + 1) s' ∧
      s'.1.freq.get? k = some 1 := by
  obtain ⟨n, found, hb⟩ := h.balanced
  obtain ⟨fuel, rfl⟩ : ∃ fuel', fuel = fuel' + 1 := ⟨fuel - 1, by omega⟩
  have hnew : s.1.base.data.contains k = false := by
    rw [h.contains, hk]
    rfl
  have hroom : s.1.base.data.len < M := h.len ▸ hlen
  obtain ⟨hset, -⟩ := MemoryCacheEviction.setitem_fits fuel (hb.counted (k, 1)).sized (k := k) hnew hroom (.num 1)
  obtain ⟨s', hrun, hb', -⟩ := request_room latency hb (r := (k, 1)) hnew hroom hfuel
  obtain ⟨s₁, hset', hs'⟩ := miss_cache (r := (k, 1)) (hb.not_mem (k := k) hnew) hrun
  cases hset.symm.trans hset'
  exact ⟨s', hrun, Profile.stored s h hk hrun ⟨_, _, hb'⟩ hs' h.counted h.prio hk h.inflation h.len⟩

/-- A new prompt, in a full cache with one key of least priority. -/
theorem Profile.full (latency : LatencyModel) (hM : 1 ≤ M) (hfuel : M < fuel)
    (h : Profile α M prio inflation M missed s)
    (hk : prio k = none) {x : Nat} {p : ℚ} (hx : prio x = some p) (hleast : ∀ y q, prio y = some q → q ≤ p → y = x) :
    ∃ s', request (variantBench α gdsf 1) fuel latency (k, 1) s = some (.ok (), s') ∧
      Profile α M (Function.update (Function.update prio x none) k (some (p + 1))) p M (missed + 1) s' ∧
      s'.1.freq.get? k = some 1 := by
  obtain ⟨n, found, hb⟩ := h.balanced
  obtain ⟨uses, hcounted⟩ := h.counted
  have hnew : s.1.base.data.contains k = false := by
    rw [h.contains, hk]
    rfl
  have hpos : 0 < s.1.base.data.len := by rw [h.len]; omega
  obtain ⟨y, v, q, hv, hq, hmin, -, -, hbase, -, hprio, hinf⟩ := popitem_least hcounted.recorded hpos
  obtain rfl : y = x := hleast y q (h.prio y ▸ hq) (hmin x p ((h.prio x).trans hx))
  obtain rfl : q = p := Option.some.inj (hq.symm.trans ((h.prio y).trans hx))
  have hlen := Dict.len_erase_add_one (Dict.contains_eq_true.mpr ⟨v, hv⟩)
  rw [← Cache.pop_data, ← hbase, h.len] at hlen
  obtain ⟨s', hrun, hb', -⟩ := request_balanced latency rfl Nat.one_pos hM hfuel hb (k, 1) (.inl hM)
  obtain ⟨s₁, hset, hs'⟩ := miss_cache (r := (k, 1)) (hb.not_mem (k := k) hnew) hrun
  -- the first eviction makes room, so there is no second
  obtain ⟨s₂, hstored, -, hs₂⟩ := MemoryCacheEviction.setitem_induction (m := M) (f := recording onEvict)
    (J := fun s₂ => s₂ = s.1 ∨ s₂ = (gdsf.popitem s.1).2) rfl Nat.one_pos hM hfuel (hb.counted (k, 1)).sized
    (fun s₂ _ hJ _ hn => by
      rcases hJ with rfl | rfl
      · exact .inr rfl
      · have hn' : M ≤ (gdsf.popitem s.1).2.base.data.len := hn
        omega) (.inl rfl) hset
  have hpopped : s₂.1 = (gdsf.popitem s.1).2 := by
    refine hs₂.resolve_left fun hsame => ?_
    have hle : (gdsf.store s₂.1 k (.num 1)).base.data.len ≤ M := by
      have := hb'.sized.le
      rw [hs', hstored] at this
      exact this
    rw [hsame, store_base, Cache.store_data, Dict.len_set_of_not_mem hnew, h.len] at hle
    omega
  rw [hstored] at hs'
  have hsame : ∀ k', (gdsf.popitem s.1).2.prio.get? k' = Function.update prio y none k' := by
    intro k'
    rw [hprio, Dict.get?_erase, Function.update_apply, h.prio]
  have hky : k ≠ y := by
    rintro rfl
    rw [hk] at hx
    cases hx
  obtain ⟨hprofile, hfreq⟩ := Profile.stored s₂ (P := Function.update prio y none) (L := q) (ℓ := M - 1) h hk hrun
    ⟨_, _, hb'⟩ hs' ⟨uses, by rw [hpopped]; exact hcounted.popitem hpos⟩ (fun k' => by rw [hpopped]; exact hsame k')
    (by rw [Function.update_of_ne hky, hk]) (by rw [hpopped]; exact hinf) (by rw [hpopped]; omega)
  rw [Nat.sub_add_cancel hM] at hprofile
  exact ⟨s', hrun, hprofile, hfreq⟩

/-! ### A drift of popularity -/

/-- Each of the first `M - 1` prompts `N + 1` times, then two others in turn, `N + 1` requests. -/
def drifting (M N : Nat) : List (Nat × ℚ) :=
  ((List.range (M - 1)).flatMap fun k => List.replicate (N + 1) (k, 1)) ++
    (List.range (N + 1)).map fun i => (M - 1 + i % 2, 1)

/-- A schedule for them with two places. -/
def driftPlan (M N : Nat) : List (Finset Nat) :=
  ((List.range (M - 1)).flatMap fun k => List.replicate (N + 1) {k}) ++
    (List.range (N + 1)).map fun _ => {M - 1, M}

/-- The priorities once `j` prompts are hot. -/
def hot (j N : Nat) : Nat → Option ℚ := fun k => if k < j then some (N + 1) else none

/-- And with one of the others. -/
def hotAnd (M N x : Nat) (p : ℚ) : Nat → Option ℚ := Function.update (hot (M - 1) N) x (some p)

theorem hits_hot (fuel : Nat) (latency : LatencyModel) (j : Nat) : ∀ (i f : Nat) {prio : Nat → Option ℚ}
    {s : State (GDSFCache Nat α) Nat}, Profile α M (Function.update prio j (some f)) 0 len missed s →
      s.1.freq.get? j = some f →
      ∃ s', replay (variantBench α gdsf 1) fuel latency (List.replicate i (j, 1)) s = some (.ok (), s') ∧
        Profile α M (Function.update prio j (some (f + i : Nat))) 0 len missed s'
  | 0, f, prio, s, h, _ => ⟨s, rfl, h⟩
  | i + 1, f, prio, s, h, hf => by
    obtain ⟨s₁, hrun, h₁, hf₁⟩ := h.hit fuel latency hf
    rw [Function.update_idem, zero_add] at h₁
    have hcast : ((f : ℚ) + 1) = (f + 1 : Nat) := by push_cast; ring
    rw [hcast] at h₁
    obtain ⟨s', hruns, h'⟩ := hits_hot fuel latency j i (f + 1) h₁ hf₁
    refine ⟨s', (replay_cons hrun _).trans hruns, ?_⟩
    rwa [Nat.add_right_comm, Nat.add_assoc] at h'

/-- The first `j` prompts get hot. -/
theorem replay_hot (latency : LatencyModel) (hfuel : M < fuel) (N : Nat) : ∀ (j : Nat), j ≤ M →
    ∃ s, replay (variantBench α gdsf 1) fuel latency ((List.range j).flatMap fun k => List.replicate (N + 1) (k, 1))
        (start (variantBench α gdsf 1) M) = some (.ok (), s) ∧ Profile α M (hot j N) 0 j j s
  | 0, _ => by
    refine ⟨_, rfl, ⟨0, [], start_balanced _ M⟩, ⟨fun _ => 0, new_counted M⟩, fun k => ?_, rfl, rfl, ?_⟩
    · simp [start, VariantEviction, cacheClass, GDSFCache.new, hot]
    · simp [start]
  | j + 1, hj => by
    obtain ⟨s₁, hrun₁, h₁⟩ := replay_hot latency hfuel N j (by omega)
    have hnew : hot j N j = none := if_neg (Nat.lt_irrefl j)
    obtain ⟨s₂, hrun₂, h₂, hf₂⟩ := h₁.room latency hfuel hnew hj
    rw [zero_add] at h₂
    have hone : (1 : ℚ) = (1 : Nat) := by norm_num
    rw [hone] at h₂
    obtain ⟨s₃, hrun₃, h₃⟩ := hits_hot fuel latency j N 1 h₂ hf₂
    refine ⟨s₃, ?_, ?_⟩
    · rw [List.range_succ, List.flatMap_append, List.flatMap_singleton, replay_append hrun₁, List.replicate_succ,
        replay_cons hrun₂]
      exact hrun₃
    · have hprio : Function.update (hot j N) j (some ((1 + N : Nat) : ℚ)) = hot (j + 1) N := by
        funext k
        rw [Function.update_apply, hot, hot]
        by_cases hk : k = j
        · subst hk
          rw [if_pos rfl, if_pos (Nat.lt_succ_self k)]
          push_cast
          rw [add_comm]
        · rw [if_neg hk]
          by_cases hlt : k < j
          · rw [if_pos hlt, if_pos (by omega)]
          · rw [if_neg hlt, if_neg (by omega)]
      rw [hprio] at h₃
      push_cast
      exact h₃

/-- Then the others take turns, and each request is a miss. -/
theorem replay_turns (latency : LatencyModel) (hM : 2 ≤ M) (hfuel : M < fuel) {N : Nat}
    {s : State (GDSFCache Nat α) Nat} (h : Profile α M (hot (M - 1) N) 0 (M - 1) (M - 1 : Nat) s) : ∀ (i : Nat), i ≤ N →
    ∃ s', replay (variantBench α gdsf 1) fuel latency ((List.range (i + 1)).map fun i => (M - 1 + i % 2, 1)) s =
        some (.ok (), s') ∧ Profile α M (hotAnd M N (M - 1 + i % 2) (i + 1)) i M (M + i : Nat) s'
  | 0, _ => by
    have hnew : hot (M - 1) N (M - 1) = none := if_neg (Nat.lt_irrefl _)
    obtain ⟨s', hrun, h', -⟩ := h.room latency hfuel hnew (by omega)
    refine ⟨s', replay_cons hrun [], ?_⟩
    have hcount : (((M - 1 : Nat) : ℚ) + 1) = (M + 0 : Nat) := by
      rw [← Nat.cast_succ]
      congr 1
      omega
    rw [hcount, Nat.sub_add_cancel (by omega)] at h'
    simpa [hotAnd] using h'
  | i + 1, hi => by
    obtain ⟨s₁, hruns, h₁⟩ := replay_turns latency hM hfuel h i (by omega)
    have hother : M - 1 + (i + 1) % 2 ≠ M - 1 + i % 2 := by omega
    have hcold : ∀ y, hot (M - 1) N (M - 1 + y) = none := fun y => if_neg (by omega)
    have hnew : hotAnd M N (M - 1 + i % 2) (i + 1) (M - 1 + (i + 1) % 2) = none := by
      rw [hotAnd, Function.update_of_ne hother, hcold]
    have hleast : ∀ y q, hotAnd M N (M - 1 + i % 2) (i + 1) y = some q → q ≤ (i : ℚ) + 1 → y = M - 1 + i % 2 := by
      intro y q hy hq
      by_contra hne
      rw [hotAnd, Function.update_of_ne hne, hot] at hy
      split at hy
      · have hlt : (i : ℚ) < N := by exact_mod_cast hi
        cases hy
        linarith
      · cases hy
    obtain ⟨s', hrun, h', -⟩ := h₁.full latency (by omega) hfuel hnew (Function.update_self ..) hleast
    refine ⟨s', ?_, ?_⟩
    · rw [List.range_succ, List.map_append, replay_append hruns]
      exact replay_cons hrun []
    · have hprio : Function.update (Function.update (hotAnd M N (M - 1 + i % 2) (i + 1)) (M - 1 + i % 2) none)
          (M - 1 + (i + 1) % 2) (some ((i : ℚ) + 1 + 1)) = hotAnd M N (M - 1 + (i + 1) % 2) ((i + 1 : Nat) + 1) := by
        rw [hotAnd, hotAnd, Function.update_idem, ← hcold (i % 2), Function.update_eq_self]
        push_cast
        rfl
      have hcount : ((M + i : Nat) : ℚ) + 1 = (M + (i + 1) : Nat) := by push_cast; ring
      rw [hprio, hcount] at h'
      push_cast at h' ⊢
      exact h'

/-! ### What the schedule loads -/

theorem loads_driftPlan (hM : 1 ≤ M) (N : Nat) :
    Landlord.loads (fun _ => (1 : ℚ)) ∅ (driftPlan M N) ≤ M + 1 := by
  have hhot : ∀ j, Landlord.loads (fun _ => (1 : ℚ)) ∅
      ((List.range j).flatMap fun k => List.replicate (N + 1) {k}) ≤ j := by
    intro j
    induction j with
    | zero => simp [Landlord.loads]
    | succ j ih =>
      rw [List.range_succ, List.flatMap_append, List.flatMap_singleton, Landlord.loads_append]
      have hnext := Landlord.loads_replicate_le (w := fun _ => (1 : ℚ)) (fun _ => zero_le_one) {j}
        (((List.range j).flatMap fun k => List.replicate (N + 1) ({k} : Finset Nat)).getLastD ∅) (N + 1)
      rw [Finset.sum_singleton] at hnext
      push_cast at hnext ⊢
      linarith
  have hlast := Landlord.loads_replicate_le (w := fun _ => (1 : ℚ)) (fun _ => zero_le_one) {M - 1, M}
    (((List.range (M - 1)).flatMap fun k => List.replicate (N + 1) ({k} : Finset Nat)).getLastD ∅) (N + 1)
  rw [Finset.sum_const, nsmul_eq_mul, mul_one] at hlast
  have hpair : ((({M - 1, M} : Finset Nat).card : Nat) : ℚ) ≤ 2 := by exact_mod_cast Finset.card_le_two
  have hfirst := hhot (M - 1)
  rw [driftPlan, Landlord.loads_append, List.map_const', List.length_range]
  rw [Nat.cast_sub hM] at hfirst
  push_cast at hfirst
  linarith

theorem serves_driftPlan (hM : 1 ≤ M) (N : Nat) : Landlord.Serves 2 ((drifting M N).map Prod.fst) (driftPlan M N) := by
  rw [Landlord.Serves, drifting, driftPlan, List.map_append]
  refine List.rel_append ?_ ?_
  · rw [List.map_flatMap]
    induction M - 1 with
    | zero => simp
    | succ j ih =>
      rw [List.range_succ, List.flatMap_append, List.flatMap_append, List.flatMap_singleton, List.flatMap_singleton]
      refine List.rel_append ih ?_
      rw [List.map_replicate]
      exact List.forall₂_iff_get.mpr ⟨by simp, fun i h₁ h₂ => by simp⟩
  · rw [List.map_map, List.forall₂_map_left_iff, List.forall₂_map_right_iff, List.forall₂_same]
    intro i _
    refine ⟨?_, Finset.card_le_two⟩
    simp only [Function.comp_apply, Finset.mem_insert, Finset.mem_singleton]
    omega

end

/-! ### What GDSF generates -/

/-- **The factor of GDSF** is no artefact: for every capacity there are
workloads of unit costs on which it generates any number of times what two
places would have. -/
theorem gdsf_pays (α : Type) (draws : Nat → Nat) (latency : LatencyModel) {M : Nat} (hM : 2 ≤ M)
    (hfuel : M < fuel) (ratio : ℚ) :
    ∃ (requests : List (Nat × ℚ)) (plan : List (Finset Nat)), (∀ r ∈ requests, r.2 = 1) ∧
      Landlord.Serves 2 (requests.map Prod.fst) plan ∧
      ∃ s, replay (bench (α := α) draws .GDSF 1) fuel latency requests
        (start (bench draws .GDSF 1) M) = some (.ok (), s) ∧
        ratio * Landlord.loads (fun _ => 1) ∅ plan < s.2.1.totalTokens - s.2.1.savedTokens := by
  obtain ⟨N, hN⟩ := exists_nat_gt (|ratio| * (M + 1))
  obtain ⟨s₁, hrun₁, h₁⟩ := replay_hot (α := α) latency hfuel N (M - 1) (by omega)
  obtain ⟨s, hrun, h⟩ := replay_turns latency hM hfuel h₁ N le_rfl
  refine ⟨drifting M N, driftPlan M N, ?_, serves_driftPlan (by omega) N, s, ?_, ?_⟩
  · intro r hr
    simp only [drifting, List.mem_append, List.mem_flatMap, List.mem_replicate, List.mem_map] at hr
    rcases hr with ⟨k, -, -, rfl⟩ | ⟨i, -, rfl⟩ <;> rfl
  · have hvariant : replay (variantBench α gdsf 1) fuel latency (drifting M N) (start (variantBench α gdsf 1) M) =
        some (.ok (), s) := (replay_append hrun₁).trans hrun
    exact (replay_gdsf draws (drifting M N) (start (variantBench α gdsf 1) M)).trans hvariant
  · rw [h.missed]
    have hloads := loads_driftPlan (M := M) (by omega) N
    have hnonneg := Landlord.loads_nonneg (w := fun _ => (1 : ℚ)) (fun _ => zero_le_one) ∅ (driftPlan M N)
    calc ratio * Landlord.loads (fun _ => 1) ∅ (driftPlan M N)
        ≤ |ratio| * Landlord.loads (fun _ => 1) ∅ (driftPlan M N) :=
          mul_le_mul_of_nonneg_right (le_abs_self ratio) hnonneg
      _ ≤ |ratio| * (M + 1) := mul_le_mul_of_nonneg_left hloads (abs_nonneg ratio)
      _ < N := hN
      _ ≤ (M + N : Nat) := by push_cast; linarith [(Nat.cast_nonneg M : (0 : ℚ) ≤ M)]

theorem gdsf_pays_hundred :
    ∃ (requests : List (Nat × ℚ)) (plan : List (Finset Nat)), (∀ r ∈ requests, r.2 = 1) ∧
      Landlord.Serves 2 (requests.map Prod.fst) plan ∧
      ∃ s, replay (bench (α := Unit) id .GDSF 1) 6 hosted requests (start (bench id .GDSF 1) 5) = some (.ok (), s) ∧
        100 * Landlord.loads (fun _ => 1) ∅ plan < s.2.1.totalTokens - s.2.1.savedTokens :=
  gdsf_pays Unit id hosted (by decide) (by decide) 100

end RunBench

end GptCache
