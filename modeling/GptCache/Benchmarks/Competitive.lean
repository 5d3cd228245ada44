/-
What a replayed workload costs, against any offline schedule.

A policy with credits (Eviction/Credits) serves the requests of `run_one` as
Lib/Landlord has it (`request_serve`, `replay_run`), with at least
`maxsize + 1 - clean_size` keys at every eviction. So what its misses cost is
at most a fixed multiple of what any schedule with fewer places loads:
GDSF's is `F` times as much when no prompt is ever recorded more than `F`
times, COST_ONLY's and, for the number of misses, LRU's and FIFO's are not.
Costs, priorities and sums are exact, where the code rounds them to doubles.
-/
import GptCache.Benchmarks.Frequencies

namespace GptCache

namespace RunBench

variable {K σ α : Type} [DecidableEq K] {e : MemoryCacheEviction σ K α (Tally K × List (List K))} {fuel : Nat}
  {latency : LatencyModel} {Stores : K → Value α → Prop} {cost w : K → ℚ} {b : ℚ} {Fine : σ → Prop} {m n : Nat}
    {found : List (K × ℚ)} {s s' : State σ K}
  {r : K × ℚ}

/-- A request, as the policy's credits see it. -/
theorem request_serve (cr : Credited e.cls Stores w b Fine)
    (hf : e.onEvict = fun ks => Exec.modify (recording onEvict ks)) (hclean : 0 < e.cleanSize) (hle : e.cleanSize ≤ m)
    (hfuel : m < fuel) (h : Balanced e m n found s) {credit : K → ℚ} (hrel : cr.Rel s.1 credit)
    (hr : Stores r.1 (.num r.2)) (hrun : request e fuel latency r s = some (.ok (), s')) (hfine : Fine s'.1) :
    ∃ credit', cr.Rel s'.1 credit' ∧ Landlord.Serve w b (m + 1 - e.cleanSize) (Credited.state e.cls s.1 credit) r.1
      (Credited.state e.cls s'.1 credit') := by
  rcases hk : (e.cls.cache s.1).data.contains r.1 with _ | _
  · obtain ⟨s₁, hset, hs'⟩ := miss_cache (h.not_mem hk) hrun
    obtain ⟨s₂, credit₂, hstored, hinv, hrel₂, hev⟩ :=
      cr.setitem_evictions hf hclean hle hfuel (h.counted r).sized hrel hset
    have hmiss : r.1 ∉ (Credited.state e.cls s.1 credit).keys := by
      rw [Credited.mem_state, hk]
      exact Bool.false_ne_true
    have hgone : (e.cls.cache s₂.1).data.contains r.1 = false := by
      rw [← Bool.not_eq_true]
      exact fun hin => hmiss (hev.keys_subset (Credited.mem_state.mpr hin))
    rw [hstored] at hs'
    rw [hs'] at hfine ⊢
    obtain ⟨c, hc, hcb, hrel'⟩ := cr.store hinv hrel₂ hgone hr hfine
    refine ⟨_, hrel', .miss hmiss hev ?_ ⟨fun f _ hne => Function.update_of_ne hne .., ?_⟩ ?_⟩
    · ext f
      simp [Credited.mem_state, Dict.contains_set]
    · rwa [Credited.state_credit, Function.update_self]
    · rwa [Credited.state_credit, Function.update_self]
  · have hmem : r.1 ∈ s.2.1.inCache := by rw [h.mirror, mem_tracked, hk]
    have hs' := hit_cache hmem hrun
    rw [hs'] at hfine ⊢
    obtain ⟨c, hc, hcb, hrel'⟩ := cr.get h.sized.inv hrel hk hfine
    obtain ⟨v, hv⟩ := Dict.contains_eq_true.mp hk
    have hsame : (e.cls.cache (e.cls.get s.1 r.1).2).data = (e.cls.cache s.1).data := by
      rw [(e.cls.get_hit h.sized.inv hv).2.2, Cache.read_data]
    refine ⟨_, hrel', .hit (Credited.mem_state.mpr hk) ?_ ⟨fun f _ hne => Function.update_of_ne hne .., ?_⟩ ?_⟩
    · rw [Credited.state, Credited.state, hsame]
    · rwa [Credited.state_credit, Function.update_self]
    · rwa [Credited.state_credit, Credited.state_credit, Function.update_self]

/-- What the requests are worth that were not found. -/
def missed (w : K → ℚ) (requests found : List (K × ℚ)) : ℚ :=
  (requests.map fun r => w r.1).sum - (found.map fun r => w r.1).sum

/-- The requests, one after the other. -/
theorem replay_run (cr : Credited e.cls Stores w b Fine)
    (hf : e.onEvict = fun ks => Exec.modify (recording onEvict ks)) (hclean : 0 < e.cleanSize) (hle : e.cleanSize ≤ m)
    (hm : 1 ≤ m) (hfuel : m < fuel) : ∀ (rs : List (K × ℚ)) {n : Nat} {found : List (K × ℚ)}
    {s : State σ K} {credit : K → ℚ},
      Balanced e m n found s → cr.Rel s.1 credit → (∀ r ∈ rs, Stores r.1 (.num r.2)) →
      (∀ before s', before <+: rs → replay e fuel latency before s = some (.ok (), s') → Fine s'.1) →
      ∃ s' credit', replay e fuel latency rs s = some (.ok (), s') ∧
        Landlord.Run w b (m + 1 - e.cleanSize) (Credited.state e.cls s.1 credit) (rs.map Prod.fst)
          (missed w rs (trackedRequests e fuel latency rs s)) (Credited.state e.cls s'.1 credit')
  | [], n, found, s, credit, _, _, _, _ => ⟨s, credit, rfl, by simpa [missed, trackedRequests] using Landlord.Run.nil⟩
  | r :: rs, n, found, s, credit, h, hrel, hstores, hfine => by
    obtain ⟨s₁, hrun, h₁, -⟩ := request_balanced latency hf hclean hm hfuel h r (.inl hle)
    have hfirst : replay e fuel latency [r] s = some (.ok (), s₁) := replay_cons hrun []
    obtain ⟨credit₁, hrel₁, hserve⟩ := request_serve cr hf hclean hle hfuel h hrel (hstores r List.mem_cons_self) hrun
      (hfine [r] s₁ ⟨rs, rfl⟩ hfirst)
    obtain ⟨s', credit', hrest, hruns⟩ := replay_run cr hf hclean hle hm hfuel rs h₁ hrel₁
      (fun r' hr' => hstores r' (List.mem_cons_of_mem r hr')) fun before s' hbefore hb =>
        hfine (r :: before) s' (List.prefix_cons_inj r |>.mpr hbefore) ((replay_cons hrun before).trans hb)
    refine ⟨s', credit', (replay_cons hrun rs).trans hrest, ?_⟩
    have hprice : missed w (r :: rs) (trackedRequests e fuel latency (r :: rs) s) =
        Landlord.price w (Credited.state e.cls s.1 credit) r.1 + missed w rs
          (trackedRequests e fuel latency rs s₁) := by
      simp only [missed, trackedRequests, hrun, Landlord.price, Credited.mem_state, List.map_append, List.sum_append,
        List.map_cons, List.sum_cons]
      split
      · simp only [List.map_cons, List.map_nil, List.sum_cons, List.sum_nil]
        ring
      · simp only [List.map_nil, List.sum_nil]
        ring
    rw [hprice]
    exact .cons hserve hruns

omit [DecidableEq K] in
theorem missed_one (requests found : List (K × ℚ)) :
    missed (fun _ => 1) requests found = (requests.length : ℚ) - found.length := by
  simp [missed]

omit [DecidableEq K] in
/-- Where requests cost what their prompts cost. -/
theorem missed_cost {requests found : List (K × ℚ)} (hcost : ∀ r ∈ requests, r.2 = cost r.1) (hsub : found ⊆ requests) :
    missed cost requests found = (requests.map Prod.snd).sum - (found.map Prod.snd).sum := by
  have hsame : ∀ rs : List (K × ℚ), rs ⊆ requests → rs.map (fun r => cost r.1) = rs.map Prod.snd :=
    fun rs hrs => List.map_congr_left fun r hr => (hcost r (hrs hr)).symm
  rw [missed, hsame requests (List.Subset.refl _), hsame found hsub]

theorem trackedRequests_subset : ∀ (rs : List (K × ℚ)) (s : State σ K), trackedRequests e fuel latency rs s ⊆ rs
  | [], _ => by simp [trackedRequests]
  | r :: rs, s => by
    intro r' hr'
    rw [trackedRequests, List.mem_append] at hr'
    rcases hr' with hr' | hr'
    · split at hr'
      · exact List.mem_singleton.mp hr' ▸ List.mem_cons_self
      · cases hr'
    · split at hr'
      · exact List.mem_cons_of_mem r (trackedRequests_subset rs _ hr')
      · cases hr'
      · cases hr'

/-- **A replayed workload** under a policy with credits, from an empty cache. -/
theorem replay_competitive (latency : LatencyModel) (cost : K → ℚ) (cr : Credited e.cls Stores w b Fine)
    (hf : e.onEvict = fun ks => Exec.modify (recording onEvict ks)) (hclean : 0 < e.cleanSize) (hle : e.cleanSize ≤ m)
    (hfuel : m < fuel) (hw : ∀ k, 0 ≤ w k) (hb : 0 ≤ b) {requests : List (K × ℚ)}
    (hstores : ∀ r ∈ requests, Stores r.1 (.num r.2))
    (hfine : ∀ before s', before <+: requests → replay e fuel latency before (start e m) = some (.ok (), s') →
      Fine s'.1)
    {h : Nat} (hh : 1 ≤ h) (hplaces : h + e.cleanSize ≤ m + 1) {plan : List (Finset K)}
    (hplan : Landlord.Serves h (requests.map Prod.fst) plan) :
    ∃ s, replay e fuel latency requests (start e m) = some (.ok (), s) ∧
      (m + 2 - e.cleanSize - h) * missed w requests (trackedRequests e fuel latency requests (start e m)) ≤
        (m + 1 - e.cleanSize) * b * Landlord.loads w ∅ plan ∧
      s.2.1.hits = (trackedRequests e fuel latency requests (start e m)).length ∧
      ((∀ r ∈ requests, r.2 = cost r.1) →
        s.2.1.totalTokens - s.2.1.savedTokens = missed cost requests
          (trackedRequests e fuel latency requests (start e m))) := by
  have hm : 1 ≤ m := by omega
  have hrel : cr.Rel (start e m).1 fun _ => 0 := cr.new m fun _ => rfl
  obtain ⟨s', credit', hreplay, hrun⟩ :=
    replay_run cr hf hclean hle hm hfuel requests (start_balanced e m) hrel hstores hfine
  obtain ⟨s, hreplay', hs⟩ := replay_balanced latency hf hclean hm hfuel requests (start_balanced e m) (.inl hle)
  obtain rfl : s' = s := by
    cases hreplay.symm.trans hreplay'
    rfl
  refine ⟨s', hreplay, ?_, hs.hits, fun hcost => ?_⟩
  · have hempty : (Credited.state e.cls (start e m).1 fun _ => 0).keys = ∅ := by
      simp [Credited.state, start, Cache.new, Dict.keys, Dict.empty]
    have hbound := hrun.competitive hw hb hh (by omega) hempty hplan
    rw [Nat.cast_sub (by omega), Nat.cast_add, Nat.cast_one] at hbound
    linarith
  · have ht := replay_tallied hf requests (start_tallied e m latency) hreplay
    rw [missed_cost hcost (trackedRequests_subset requests _), ht.total, List.nil_append, hs.saved, List.nil_append]

section

variable {maxsize clean h : Nat} {cleanRatio : ℚ} {requests : List (K × ℚ)} {plan : List (Finset K)}

/-- **GDSF**: where requests cost what their prompts cost and no cached prompt
is ever recorded more than `F` times, the tokens generated are at most
`F * (maxsize + 1 - clean) / (maxsize + 2 - clean - h)` times those of any
schedule of `h` places. -/
theorem gdsf_competitive (α : Type) (draws : Nat → Nat) (latency : LatencyModel)
    (hclean : cleanSize maxsize cleanRatio = .ok clean) (hle : clean ≤ maxsize) (hfuel : maxsize < fuel)
    (hnonneg : ∀ k, 0 ≤ cost k) (hcost : ∀ r ∈ requests, r.2 = cost r.1) {F : Nat}
    (hfreq : ∀ before s, before <+: requests →
      replay (bench (α := α) draws .GDSF clean) fuel latency before (start (bench draws .GDSF clean) maxsize) =
        some (.ok (), s) →
      ∀ k f, (s.1 : GDSFCache K α).freq.get? k = some f → f ≤ F)
    (hh : 1 ≤ h) (hplaces : h + clean ≤ maxsize + 1) (hplan : Landlord.Serves h (requests.map Prod.fst) plan) :
    ∃ s, replay (bench (α := α) draws .GDSF clean) fuel latency requests (start (bench draws .GDSF clean) maxsize) =
        some (.ok (), s) ∧
      (maxsize + 2 - clean - h) * (s.2.1.totalTokens - s.2.1.savedTokens) ≤
        (maxsize + 1 - clean) * F * Landlord.loads cost ∅ plan := by
  obtain ⟨s, hrun, hbound, -, htokens⟩ := replay_competitive (e := bench (α := α) draws .GDSF clean) latency cost
    (Variant.gdsfCredited α cost hnonneg F) rfl (clean_pos hclean) hle hfuel hnonneg (Nat.cast_nonneg F)
    (fun r hr => congrArg Value.num (hcost r hr))
    (fun before s hbefore hrun k f hkf => by exact_mod_cast hfreq before s hbefore hrun k f hkf) hh hplaces hplan
  rw [← htokens hcost] at hbound
  exact ⟨s, hrun, hbound⟩

def threeCost (k : Nat) : ℚ := if k = 1 then 40 else if k = 2 then 1500 else 25

def threePlan : List (Finset Nat) := [{1}, {1, 2}, {1, 2}, {2, 3}, {2, 3}]

theorem threeCost_nonneg (k : Nat) : 0 ≤ threeCost k := by
  unfold threeCost
  split_ifs <;> norm_num

theorem serves_threePlan : Landlord.Serves 2 (threePrompts.requests.map Prod.fst) threePlan := by
  refine .cons ?_ (.cons ?_ (.cons ?_ (.cons ?_ (.cons ?_ .nil)))) <;> decide

theorem requested_three (k : Nat) : requested threePrompts.requests k ≤ 2 := by
  simp only [requested, threePrompts, List.map_cons, List.map_nil, List.count_cons, List.count_nil, beq_iff_eq]
  split_ifs <;> omega

theorem gdsf_competitive_three :
    ∃ s, replay (bench (α := Unit) id .GDSF 1) 3 hosted threePrompts.requests
      (start (bench id .GDSF 1) 2) = some (.ok (), s) ∧
      (((2 : Nat) : ℚ) + 2 - (1 : Nat) - (2 : Nat)) * (s.2.1.totalTokens - s.2.1.savedTokens) ≤
        (((2 : Nat) : ℚ) + 1 - (1 : Nat)) * (2 : Nat) * Landlord.loads threeCost ∅ threePlan := by
  refine gdsf_competitive Unit id hosted (show cleanSize 2 (1 / 5) = .ok 1 by decide +kernel) (by decide)
    (by decide) threeCost_nonneg
    (by decide +kernel) (fun before s hbefore hrun k f hf => ?_) (by decide) (by decide) serves_threePlan
  have hcost : ∀ r ∈ before, r.2 = threeCost r.1 := fun r hr =>
    (by decide +kernel : ∀ r ∈ threePrompts.requests, r.2 = threeCost r.1) r (hbefore.subset hr)
  exact (frequency_le_requested id hosted (by decide) (by decide) (by decide) hcost hrun hf).trans
    ((requested_le hbefore k).trans (requested_three k))

/-- **COST_ONLY**: its credits are never over the cost, so no frequency matters. -/
theorem cost_only_competitive (α : Type) (latency : LatencyModel) (hclean : cleanSize maxsize cleanRatio = .ok clean)
    (hle : clean ≤ maxsize) (hfuel : maxsize < fuel) (hnonneg : ∀ k, 0 ≤ cost k)
    (hcost : ∀ r ∈ requests, r.2 = cost r.1)
    (hh : 1 ≤ h) (hplaces : h + clean ≤ maxsize + 1) (hplan : Landlord.Serves h (requests.map Prod.fst) plan) :
    let e := VariantEviction (K := K) (α := α) CostOnlyCache clean fun ks => Exec.modify (recording onEvict ks)
    ∃ s, replay e fuel latency requests (start e maxsize) = some (.ok (), s) ∧
      (maxsize + 2 - clean - h) * (s.2.1.totalTokens - s.2.1.savedTokens) ≤
        (maxsize + 1 - clean) * Landlord.loads cost ∅ plan := by
  intro e
  obtain ⟨s, hrun, hbound, -, htokens⟩ := replay_competitive (e := e) latency cost
    (Variant.costOnlyCredited α cost hnonneg) rfl (clean_pos hclean) hle hfuel hnonneg zero_le_one
    (fun r hr => congrArg Value.num (hcost r hr))
    (fun _ _ _ _ _ _ _ => le_rfl) hh hplaces hplan
  rw [← htokens hcost, mul_one] at hbound
  exact ⟨s, hrun, hbound⟩

theorem cost_only_competitive_three :
    let e := VariantEviction (K := Nat) (α := Unit) CostOnlyCache 1 fun ks => Exec.modify (recording onEvict ks)
    ∃ s, replay e 3 hosted threePrompts.requests (start e 2) = some (.ok (), s) ∧
      (((2 : Nat) : ℚ) + 2 - (1 : Nat) - (2 : Nat)) * (s.2.1.totalTokens - s.2.1.savedTokens) ≤
        (((2 : Nat) : ℚ) + 1 - (1 : Nat)) * Landlord.loads threeCost ∅ threePlan :=
  cost_only_competitive Unit hosted (show cleanSize 2 (1 / 5) = .ok 1 by decide +kernel) (by decide)
    (by decide) threeCost_nonneg (by decide +kernel) (by decide) (by decide) serves_threePlan

/-- **LRU and FIFO**: the number of misses, whatever the costs. -/
theorem ordered_competitive (α : Type) (draws : Nat → Nat) (latency : LatencyModel) {policy : Policy}
    (hpolicy : policy = .LRU ∨ policy = .FIFO) (hclean : cleanSize maxsize cleanRatio = .ok clean)
    (hle : clean ≤ maxsize) (hfuel : maxsize < fuel) (hh : 1 ≤ h) (hplaces : h + clean ≤ maxsize + 1)
    (hplan : Landlord.Serves h (requests.map Prod.fst) plan) :
    ∃ s, replay (bench (α := α) draws policy clean) fuel latency requests (start (bench draws policy clean) maxsize) =
        some (.ok (), s) ∧
      (maxsize + 2 - clean - h) * (requests.length - s.2.1.hits : ℚ) ≤
        (maxsize + 1 - clean) * Landlord.loads (fun _ => 1) ∅ plan := by
  have hcredited : Nonempty (Credited (bench (K := K) (α := α) draws policy clean).cls (fun _ _ => True) (fun _ => 1) 1
      fun _ => True) := by
    rcases hpolicy with rfl | rfl
    · exact ⟨orderedCredited K (Value α) true⟩
    · exact ⟨orderedCredited K (Value α) false⟩
  obtain ⟨cr⟩ := hcredited
  obtain ⟨s, hrun, hbound, hhits, -⟩ :=
    replay_competitive (e := bench (α := α) draws policy clean) latency (fun _ => 0) cr
    rfl (clean_pos hclean) hle hfuel (fun _ => zero_le_one) zero_le_one (fun _ _ => trivial)
    (fun _ _ _ _ => trivial) hh hplaces hplan
  rw [missed_one, ← hhits, mul_one] at hbound
  exact ⟨s, hrun, hbound⟩

theorem ordered_competitive_three :
    ∃ s, replay (bench (α := Unit) id .LRU 1) 3 hosted threePrompts.requests
      (start (bench id .LRU 1) 2) = some (.ok (), s) ∧
      (((2 : Nat) : ℚ) + 2 - (1 : Nat) - (2 : Nat)) * (threePrompts.requests.length - s.2.1.hits : ℚ) ≤
        (((2 : Nat) : ℚ) + 1 - (1 : Nat)) * Landlord.loads (fun _ => 1) ∅ threePlan :=
  ordered_competitive Unit id hosted (.inl rfl) (show cleanSize 2 (1 / 5) = .ok 1 by decide +kernel) (by decide)
    (by decide) (by decide) (by decide) serves_threePlan

end

end RunBench

end GptCache
