/-
What the rows of `run_one` are tied to, whatever the policy.

`request_tally` is what one turn of the loop does to the loop's variables. So
after any requests, under any eviction object and also where the accounts of
RunBench are wrong, the latencies add up to what hits, misses and generated
tokens take, and at most the requests for a prompt that came before are hits
(`Tallied`). `row_identities`: the mean latency of a row is determined by its
two hit rates, exactly, as the sums are exact here and doubles in the code.
-/
import GptCache.Benchmarks.Ablation
import GptCache.Benchmarks.RunBench

namespace GptCache

namespace RunBench

variable {K σ α : Type} [DecidableEq K] {e : MemoryCacheEviction σ K α (Tally K × List (List K))} {fuel : Nat}
  {latency : LatencyModel} {s s' : State σ K} {r : K × ℚ}

/-! ## One turn of the loop -/

/-- `on_evict` takes from the set and leaves the rest. -/
def Kept (w w' : Tally K × List (List K)) : Prop :=
  w'.1.inCache ⊆ w.1.inCache ∧ w'.1 = { w.1 with inCache := w'.1.inCache }

instance : Std.Refl (Kept (K := K)) := ⟨fun _ => ⟨Finset.Subset.refl _, rfl⟩⟩

instance : IsTrans (Tally K × List (List K)) Kept where
  trans w w' w'' := by
    rintro ⟨hsub, hrest⟩ ⟨hsub', hrest'⟩
    exact ⟨hsub'.trans hsub, hrest'.trans (by rw [hrest])⟩

theorem kept_onEvict (keys : List K) (w : Tally K × List (List K)) : Kept w (recording onEvict keys w) := by
  refine ⟨?_, rfl⟩
  simp only [recording, onEvict, foldl_erase]
  exact Finset.sdiff_subset

/-- A request for what is in the set gets it. -/
theorem hit_cache (hr : r.1 ∈ s.2.1.inCache) (hrun : request e fuel latency r s = some (.ok (), s')) :
    s'.1 = (e.cls.get s.1 r.1).2 := by
  simp only [request, setTally, MemoryCacheEviction.get, Exec.total, Exec.modify, Exec.read, bind, Exec.andThen, hr,
    if_true] at hrun
  cases hrun
  rfl

/-- Another is put. -/
theorem miss_cache (hr : r.1 ∉ s.2.1.inCache) (hrun : request e fuel latency r s = some (.ok (), s')) :
    ∃ s₁, e.setitem fuel r.1 (.num r.2) (counted r s) = some (.ok (), s₁) ∧ s'.1 = s₁.1 := by
  simp only [request, setTally, Exec.modify, Exec.read, bind, Exec.andThen, hr, if_false, e.put_one] at hrun
  rcases hset : e.setitem fuel r.1 (.num r.2) (counted r s) with _ | ⟨_ | _, s₁⟩ <;>
    simp only [counted] at hset <;> simp only [hset] at hrun
  · cases hrun
  · cases hrun
  · cases hrun
    exact ⟨s₁, rfl, rfl⟩

/-- What one request does to the loop's variables. -/
theorem request_tally (hf : e.onEvict = fun ks => Exec.modify (recording onEvict ks))
    (hrun : request e fuel latency r s = some (.ok (), s')) :
    ∃ kept ⊆ s.2.1.inCache, s'.2.1 =
      if r.1 ∈ s.2.1.inCache then { s.2.1 with
        totalTokens := s.2.1.totalTokens + r.2, hits := s.2.1.hits + 1, savedTokens := s.2.1.savedTokens + r.2
        latencies := s.2.1.latencies ++ [latency.hitMs] }
      else { s.2.1 with
        totalTokens := s.2.1.totalTokens + r.2, inCache := insert r.1 kept
        latencies := s.2.1.latencies ++ [latency.baseMs + latency.msPerToken * r.2] } := by
  by_cases hr : r.1 ∈ s.2.1.inCache
  · refine ⟨s.2.1.inCache, Finset.Subset.refl _, ?_⟩
    simp only [request, setTally, MemoryCacheEviction.get, Exec.total, Exec.modify, Exec.read, bind, Exec.andThen, hr,
      if_true] at hrun ⊢
    cases hrun
    rfl
  · simp only [request, setTally, Exec.modify, Exec.read, bind, Exec.andThen, hr, if_false] at hrun ⊢
    rcases hput : e.put fuel [r.1] (some [r.2]) (counted r s) with _ | ⟨_ | _, s₁⟩ <;>
      simp only [counted] at hput <;> simp only [hput] at hrun
    · cases hrun
    · cases hrun
    · have hkept : Kept (counted r s).2 s₁.2 := by
        refine e.within_put_snd (T := Kept) fuel [r.1] (some [r.2]) (fun ks => ?_) _ _ _ hput
        rw [hf]
        exact .modify (kept_onEvict ks)
      cases hrun
      refine ⟨s₁.2.1.inCache, hkept.1, ?_⟩
      dsimp only
      rw [hkept.2]
      rfl

/-! ## The loop -/

/-- The loop's variables after `requests`. -/
structure Tallied (latency : LatencyModel) (requests : List (K × ℚ)) (t : Tally K) : Prop where
  total : t.totalTokens = (requests.map Prod.snd).sum
  latency : t.latencies.sum = t.hits * latency.hitMs + (requests.length - t.hits) * latency.baseMs +
    latency.msPerToken * (t.totalTokens - t.savedTokens)
  seen : t.inCache ⊆ prompts requests
  hits : t.hits + (prompts requests).card ≤ requests.length

theorem prompts_append (rs rs' : List (K × ℚ)) : prompts (rs ++ rs') = prompts rs ∪ prompts rs' := by
  simp [prompts, List.toFinset_append]

theorem request_tallied (hf : e.onEvict = fun ks => Exec.modify (recording onEvict ks)) {done : List (K × ℚ)}
    (h : Tallied latency done s.2.1) (hrun : request e fuel latency r s = some (.ok (), s')) :
    Tallied latency (done ++ [r]) s'.2.1 := by
  obtain ⟨kept, hkept, hs'⟩ := request_tally hf hrun
  have hprompts : prompts (done ++ [r]) = insert r.1 (prompts done) := by
    rw [prompts_append, Finset.union_comm]
    simp [prompts]
  by_cases hr : r.1 ∈ s.2.1.inCache
  · rw [if_pos hr] at hs'
    have hsame : prompts (done ++ [r]) = prompts done := by rw [hprompts, Finset.insert_eq_of_mem (h.seen hr)]
    rw [hs']
    refine ⟨by simp [h.total], ?_, ?_, ?_⟩
    · simp only [List.sum_append, List.sum_cons, List.sum_nil, List.length_append, List.length_singleton, h.latency]
      push_cast
      ring
    · rw [hsame]
      exact h.seen
    · have := h.hits
      simp only [hsame, List.length_append, List.length_singleton]
      omega
  · rw [if_neg hr] at hs'
    rw [hs']
    refine ⟨by simp [h.total], ?_, ?_, ?_⟩
    · simp only [List.sum_append, List.sum_cons, List.sum_nil, List.length_append, List.length_singleton, h.latency]
      push_cast
      ring
    · rw [hprompts]
      exact Finset.insert_subset_insert _ (hkept.trans h.seen)
    · have := h.hits
      have := Finset.card_insert_le r.1 (prompts done)
      simp only [hprompts, List.length_append, List.length_singleton]
      omega

theorem replay_tallied (hf : e.onEvict = fun ks => Exec.modify (recording onEvict ks)) : ∀ (rs : List (K × ℚ))
    {done : List (K × ℚ)} {s s' : State σ K}, Tallied latency done s.2.1 →
      replay e fuel latency rs s = some (.ok (), s') → Tallied latency (done ++ rs) s'.2.1
  | [], done, s, s', h, hrun => by
    cases hrun
    rwa [List.append_nil]
  | r :: rs, done, s, s', h, hrun => by
    rw [replay, Exec.forEach_cons] at hrun
    obtain ⟨_, s₁, hfirst, hrest⟩ := Exec.bind_ok.mp hrun
    have := replay_tallied hf rs (request_tallied hf h hfirst) hrest
    rwa [List.append_assoc] at this

theorem replay_append {σ : Type} {e : MemoryCacheEviction σ K α (Tally K × List (List K))} :
    ∀ {rs rs' : List (K × ℚ)} {s s' : State σ K}, replay e fuel latency rs s = some (.ok (), s') →
      replay e fuel latency (rs ++ rs') s = replay e fuel latency rs' s'
  | [], rs', s, s', h => by
    cases h
    rfl
  | r :: rs, rs', s, s', h => by
    rw [replay, Exec.forEach_cons] at h
    obtain ⟨_, s₁, hrun, hrest⟩ := Exec.bind_ok.mp h
    rw [List.cons_append, replay_cons hrun]
    exact replay_append hrest

theorem start_tallied (e : MemoryCacheEviction σ K α (Tally K × List (List K))) (m : Nat) (latency : LatencyModel) :
    Tallied latency [] (start e m).2.1 := by
  refine ⟨rfl, ?_, ?_, ?_⟩ <;> simp [start, prompts]

/-! ## The rows -/

/-- `run_one` with the `eviction_factory` of a variant. -/
def runVariant (α : Type) (fuel : Nat) (latency : LatencyModel) (memory : Nat) (V : Variant)
    (policy : String) (maxsize : Nat)
    (workload : Workload K) (cleanRatio : ℚ) (returnLatencies : Bool) : Option (Except PyError BenchResult) :=
  match cleanSize maxsize cleanRatio with
  | .error err => some (.error err)
  | .ok clean =>
    if LatenciesFit memory workload then
      finish (VariantEviction (α := α) V clean fun ks => Exec.modify (recording onEvict ks)) fuel latency policy maxsize
        workload returnLatencies
    else some (.error ⟨.MemoryError, ""⟩)

/-- A row is made of the state its loop ends in. -/
theorem finish_row {policy : String} {maxsize : Nat} {workload : Workload K} {row : BenchRow}
    (h : finish e fuel latency policy maxsize workload false = some (.ok (.row row))) :
    workload.requests ≠ [] ∧ ∃ s, replay e fuel latency workload.requests (start e maxsize) = some (.ok (), s) ∧
      s.2.1.totalTokens ≠ 0 ∧ row = {
        policy, maxsize, workload := workload.name, nRequests := workload.requests.length, nUnique := workload.nUnique
        hitRate := s.2.1.hits / workload.requests.length, costWeightedHitRate := s.2.1.savedTokens / s.2.1.totalTokens
        savedTokens := s.2.1.savedTokens, totalTokens := s.2.1.totalTokens
        latencyMeanMs := s.2.1.latencies.sum / workload.requests.length
        evictions := workload.requests.length - s.2.1.hits - s.2.1.inCache.card } := by
  unfold finish at h
  split at h
  · cases h
  · cases h
  · rename_i s hrun
    simp only [report, Bool.false_eq_true, if_false, Option.some.injEq] at h
    split at h
    · cases h
    rename_i hn
    split at h
    · cases h
    rename_i htotal
    cases h
    exact ⟨fun hnil => hn (by rw [hnil]; rfl), s, hrun, htotal, rfl⟩

/-- **The rows**, whatever the policy and the batch: the mean latency is what
the hit rate and the cost-weighted hit rate make it, the tokens are those of
the workload, and each prompt is missed at least once. -/
theorem row_identities (hf : e.onEvict = fun ks => Exec.modify (recording onEvict ks)) {policy : String} {maxsize : Nat}
    {workload : Workload K} {row : BenchRow}
    (h : finish e fuel latency policy maxsize workload false = some (.ok (.row row))) :
    row.latencyMeanMs = row.hitRate * latency.hitMs + (1 - row.hitRate) * latency.baseMs +
        latency.msPerToken * (1 - row.costWeightedHitRate) * (row.totalTokens / row.nRequests) ∧
      row.totalTokens = (workload.requests.map Prod.snd).sum ∧
      row.hitRate ≤ 1 - (prompts workload.requests).card / row.nRequests := by
  obtain ⟨hne, s, hrun, htotal, rfl⟩ := finish_row h
  have ht := replay_tallied hf workload.requests (start_tallied e maxsize latency) hrun
  rw [List.nil_append] at ht
  have hn : (workload.requests.length : ℚ) ≠ 0 := by
    exact_mod_cast fun hzero => hne (List.length_eq_zero_iff.mp hzero)
  have hpos : (0 : ℚ) < workload.requests.length := lt_of_le_of_ne (Nat.cast_nonneg _) hn.symm
  refine ⟨?_, ht.total, ?_⟩
  · dsimp only
    rw [ht.latency]
    field_simp
  · have hhits : (s.2.1.hits : ℚ) + (prompts workload.requests).card ≤ workload.requests.length := by
      exact_mod_cast ht.hits
    rw [le_sub_iff_add_le, ← add_div, div_le_one hpos]
    exact hhits

/-- A row there is. -/
theorem exists_row (result : Option (Except PyError BenchResult))
    (h : (match result with | some (.ok (.row _)) => true | _ => false) = true) :
    ∃ row, result = some (.ok (.row row)) := by
  rcases result with _ | (_ | _ | row)
  · cases h
  · cases h
  · cases h
  · exact ⟨row, rfl⟩

def threePrompts : Workload Nat := ⟨"three", [(1, 40), (2, 1500), (1, 40), (3, 25), (2, 1500)], 3⟩

theorem row_identities_three :
    ∃ row, finish (bench (α := Unit) id .GDSF 1) 3 hosted "GDSF" 2 threePrompts false = some (.ok (.row row)) ∧
      row.latencyMeanMs = row.hitRate * hosted.hitMs + (1 - row.hitRate) * hosted.baseMs +
        hosted.msPerToken * (1 - row.costWeightedHitRate) * (row.totalTokens / row.nRequests) ∧
      row.totalTokens = (threePrompts.requests.map Prod.snd).sum ∧
      row.hitRate ≤ 1 - (prompts threePrompts.requests).card / row.nRequests := by
  obtain ⟨row, hrow⟩ := exists_row (finish (bench (α := Unit) id .GDSF 1) 3 hosted "GDSF" 2 threePrompts false)
    (by decide +kernel)
  exact ⟨row, hrow, row_identities rfl hrow⟩

/-! ## Workloads that fit -/

variable {m n : Nat} {found : List (K × ℚ)}

/-- A request that there is room for. -/
theorem request_fits (latency : LatencyModel) (hf : e.onEvict = fun ks => Exec.modify (recording onEvict ks))
    (hfuel : m < fuel) (h : Balanced e m n found s) (hroom : (insert r.1 s.2.1.inCache).card ≤ m) :
    ∃ s' found', request e fuel latency r s = some (.ok (), s') ∧ Balanced e m (n + 1) found' s' ∧
      s'.2.1.inCache = insert r.1 s.2.1.inCache ∧
      s'.2.1.hits + s'.2.1.inCache.card = s.2.1.hits + s.2.1.inCache.card + 1 := by
  rcases hr : (e.cls.cache s.1).data.contains r.1 with _ | _
  · have hmem : r.1 ∉ s.2.1.inCache := h.not_mem hr
    have hcard : s.2.1.inCache.card = (e.cls.cache s.1).data.len := by rw [h.mirror, card_tracked]
    rw [Finset.card_insert_of_notMem hmem] at hroom
    obtain ⟨s', hrun, h', hset⟩ := request_room latency h hr (by omega) hfuel
    obtain ⟨kept, -, hs'⟩ := request_tally hf hrun
    rw [if_neg hmem] at hs'
    have hhits : s'.2.1.hits = s.2.1.hits := by rw [hs']
    refine ⟨s', found, hrun, h', hset, ?_⟩
    rw [hhits, hset, Finset.card_insert_of_notMem hmem, Nat.add_assoc]
  · have hmem : r.1 ∈ s.2.1.inCache := by rw [h.mirror, mem_tracked, hr]
    obtain ⟨s', hrun, h', hset⟩ := request_hit fuel latency h hr
    obtain ⟨kept, -, hs'⟩ := request_tally hf hrun
    rw [if_pos hmem] at hs'
    have hhits : s'.2.1.hits = s.2.1.hits + 1 := by rw [hs']
    refine ⟨s', _, hrun, h', hset.trans (Finset.insert_eq_of_mem hmem).symm, ?_⟩
    rw [hhits, hset]
    omega

/-- While there is room for every prompt nothing leaves. -/
theorem replay_fits (latency : LatencyModel) (hf : e.onEvict = fun ks => Exec.modify (recording onEvict ks))
    (hfuel : m < fuel) : ∀ (rs : List (K × ℚ)) {n : Nat} {found : List (K × ℚ)} {s : State σ K},
      Balanced e m n found s → (s.2.1.inCache ∪ prompts rs).card ≤ m →
      ∃ s', replay e fuel latency rs s = some (.ok (), s') ∧ s'.2.1.inCache = s.2.1.inCache ∪ prompts rs ∧
        s'.2.1.hits + s'.2.1.inCache.card = s.2.1.hits + s.2.1.inCache.card + rs.length
  | [], _, _, s, _, _ => ⟨s, rfl, by simp [prompts], rfl⟩
  | r :: rs, n, found, s, h, hroom => by
    rw [prompts_cons, Finset.union_insert, ← Finset.insert_union] at hroom ⊢
    obtain ⟨s₁, found₁, hrun, h₁, hset, hhits⟩ := request_fits latency hf hfuel h
      ((Finset.card_le_card Finset.subset_union_left).trans hroom)
    obtain ⟨s', hruns, hset', hhits'⟩ := replay_fits latency hf hfuel rs h₁ (hset ▸ hroom)
    refine ⟨s', (replay_cons hrun rs).trans hruns, hset'.trans (by rw [hset]), ?_⟩
    rw [List.length_cons]
    omega

/-- **A workload that fits**: every policy misses each prompt once and evicts nothing. -/
theorem row_fits (hf : e.onEvict = fun ks => Exec.modify (recording onEvict ks)) {policy : String} {maxsize : Nat}
    {workload : Workload K} (hfuel : maxsize < fuel) (hfits : (prompts workload.requests).card ≤ maxsize)
    {row : BenchRow} (h : finish e fuel latency policy maxsize workload false = some (.ok (.row row))) :
    row.hitRate = 1 - (prompts workload.requests).card / row.nRequests ∧ row.evictions = 0 := by
  obtain ⟨hne, s, hrun, -, rfl⟩ := finish_row h
  obtain ⟨s', hrun', hset, hhits⟩ := replay_fits latency hf hfuel workload.requests (start_balanced e maxsize)
    (by rwa [start, Finset.empty_union])
  cases hrun.symm.trans hrun'
  simp only [start, Finset.empty_union, Finset.card_empty, Nat.zero_add] at hset hhits
  have hn : (workload.requests.length : ℚ) ≠ 0 := by
    exact_mod_cast fun hzero => hne (List.length_eq_zero_iff.mp hzero)
  refine ⟨?_, ?_⟩
  · dsimp only
    rw [eq_sub_iff_add_eq, ← add_div, div_eq_one_iff_eq hn, ← hset]
    exact_mod_cast hhits
  · dsimp only
    omega

theorem row_fits_three :
    ∃ row, finish (bench (α := Unit) id .RR 1) 4 hosted "RR" 3 threePrompts false = some (.ok (.row row)) ∧
      row.hitRate = 1 - (prompts threePrompts.requests).card / row.nRequests ∧ row.evictions = 0 := by
  obtain ⟨row, hrow⟩ := exists_row (finish (bench (α := Unit) id .RR 1) 4 hosted "RR" 3 threePrompts false)
    (by decide +kernel)
  exact ⟨row, hrow, row_fits rfl (by decide) (by decide +kernel) hrow⟩

end RunBench

end GptCache
