/-
How often a prompt is recorded, in the ablation variants and in GDSF itself.

`Counted` goes through `popitem`, stores and hits: what is recorded of a prompt
is at most how often it was requested. `replay_counted` is the rule for a whole
workload, for whatever evictions, stores and hits keep besides; `replay_gdsf`
takes it to the built-in policy (`frequency_le_requested`).
-/
import GptCache.Benchmarks.Rows

namespace GptCache

namespace Variant

variable {K α : Type} [DecidableEq K] {V : Variant} {cost : K → ℚ} {uses : K → Nat}

/-- Unit sizes, each key stored with its cost, and recorded at most as often as `uses` says. -/
structure Counted (V : Variant) (cost : K → ℚ) (uses : K → Nat) (s : GDSFCache K α) : Prop where
  recorded : Recorded V s
  unit : ∀ v, s.base.getsizeof v = 1
  value : ∀ k, s.base.data.contains k = true → s.base.data.get? k = some (.num (cost k))
  uses : ∀ k f, s.freq.get? k = some f → f ≤ uses k

theorem Counted.mono {uses' : K → Nat} {s : GDSFCache K α} (h : Counted V cost uses s) (hle : ∀ k, uses k ≤ uses' k) :
    Counted V cost uses' s :=
  ⟨h.recorded, h.unit, h.value, fun k f hf => (h.uses k f hf).trans (hle k)⟩

theorem new_counted (m : ℚ) : Counted V cost uses (GDSFCache.new m fun _ => 1 : GDSFCache K α) where
  recorded := new_recorded m _
  unit _ := rfl
  value k hk := by simp [GDSFCache.new, Cache.new, Dict.contains] at hk
  uses k f hf := by simp [GDSFCache.new] at hf

theorem Counted.popitem {s : GDSFCache K α} (h : Counted V cost uses s) (hpos : 0 < s.base.data.len) :
    Counted V cost uses (V.popitem s).2 := by
  obtain ⟨k, v, p, -, -, -, -, hrec, hbase, hfreq, -, -⟩ := popitem_least h.recorded hpos
  refine ⟨hrec, fun v => ?_, fun k' hk' => ?_, fun k' f hf => ?_⟩
  · rw [hbase, Cache.pop_getsizeof, h.unit]
  · rw [hbase, Cache.pop_data, Dict.contains_erase, Bool.and_eq_true, Bool.not_eq_true', decide_eq_false_iff_not] at hk'
    rw [hbase, Cache.pop_data, Dict.get?_erase_of_ne _ hk'.1]
    exact h.value k' hk'.2
  · rw [hfreq, Dict.get?_erase] at hf
    split at hf
    · cases hf
    · exact h.uses k' f hf

/-- A request for a new key is one use. -/
theorem Counted.store {s : GDSFCache K α} (h : Counted V cost uses s) {k : K} (hk : s.base.data.contains k = false) :
    Counted V cost (Function.update uses k (uses k + 1)) (V.store s k (.num (cost k))) := by
  have hnew : s.freq.get? k = none := by
    rw [← Dict.contains_eq_false, h.recorded.freq, hk]
  refine ⟨store_recorded k _ h.recorded, fun v => ?_, fun k' hk' => ?_, fun k' f hf => ?_⟩
  · rw [store_base, Cache.store_getsizeof, h.unit]
  · rw [store_base, Cache.store_data] at hk' ⊢
    by_cases hkk : k' = k
    · subst hkk
      exact Dict.get?_set_self ..
    · rw [Dict.contains_set, decide_eq_false hkk, Bool.false_or] at hk'
      rw [Dict.get?_set_of_ne _ _ hkk]
      exact h.value k' hk'
  · rw [store_freq, hnew] at hf
    split at hf
    · rename_i he
      subst he
      cases hf
      rw [Function.update_self, Option.getD_none]
      omega
    · rename_i hne
      rw [Function.update_of_ne hne]
      exact h.uses k' f hf

/-- A hit is one use. -/
theorem Counted.get {s : GDSFCache K α} (h : Counted V cost uses s) {k : K} (hk : s.base.data.contains k = true) :
    ∃ f, s.freq.get? k = some f ∧ ((V.cacheClass K α).get s k).2 =
        V.push { s with base := s.base.read k, freq := s.freq.set k (f + 1) } k (.num (cost k)) ∧
      Counted V cost (Function.update uses k (uses k + 1)) ((V.cacheClass K α).get s k).2 := by
  have hv := h.value k hk
  obtain ⟨f, hf, heq, hrec⟩ := getitem_recorded h.recorded hv
  have hget : (V.cacheClass K α).get s k = V.getitem s k := if_pos hk
  rw [hget]
  rw [heq] at hrec ⊢
  refine ⟨f, hf, rfl, hrec, h.unit, h.value, fun k' f' hf' => ?_⟩
  simp only [push, Dict.get?_set] at hf'
  split at hf'
  · rename_i he
    subst he
    cases hf'
    rw [Function.update_self]
    have := h.uses k' f hf
    omega
  · rename_i hne
    rw [Function.update_of_ne hne]
    exact h.uses k' f' hf'

end Variant

namespace RunBench

open Variant

variable {K α : Type} [DecidableEq K] {V : Variant} {clean fuel m n : Nat} {latency : LatencyModel} {cost : K → ℚ}
  {uses : K → Nat} {found : List (K × ℚ)} {r : K × ℚ}

/-- The eviction object of `run_one` for a variant. -/
abbrev variantBench (α : Type) (V : Variant) (clean : Nat) :
    MemoryCacheEviction (GDSFCache K α) K α (Tally K × List (List K)) :=
  VariantEviction V clean fun ks => Exec.modify (recording onEvict ks)

/-- What evictions keep of a cache that is `Counted`, a request keeps. -/
theorem request_counted {J J' : GDSFCache K α → Prop} {s s' : State (GDSFCache K α) K}
    (hclean : 0 < clean) (hle : clean ≤ m)
    (hfuel : m < fuel) (h : Balanced (variantBench α V clean) m n found s) (hcounted : Counted V cost uses s.1)
    (hr : r.2 = cost r.1)
    (hpop : ∀ s, Counted V cost uses s → J s → m + 1 - clean ≤ s.base.data.len →
      0 < s.base.data.len → J (V.popitem s).2)
    (hstore : ∀ s, Counted V cost uses s → J s → s.base.data.contains r.1 = false → J' (V.store s r.1 (.num r.2)))
    (hget : Counted V cost uses s.1 → J s.1 → s.1.base.data.contains r.1 = true →
      J' ((V.cacheClass K α).get s.1 r.1).2)
    (hJ : J s.1) (hrun : request (variantBench α V clean) fuel latency r s = some (.ok (), s')) :
    Counted V cost (Function.update uses r.1 (uses r.1 + 1)) s'.1 ∧ J' s'.1 := by
  rcases hk : s.1.base.data.contains r.1 with _ | _
  · obtain ⟨s₁, hset, hs'⟩ := miss_cache (h.not_mem hk) hrun
    obtain ⟨s₂, hstored, -, ⟨hcounted₂, hgone, hJ₂⟩⟩ := MemoryCacheEviction.setitem_induction
      (J := fun s₂ => Counted V cost uses s₂ ∧ s₂.base.data.contains r.1 = false ∧ J s₂) (m := m)
      (f := recording onEvict) rfl hclean hle hfuel (h.counted r).sized
      (fun s₂ _ hs₂ hpos hn => by
        obtain ⟨k, v, p, -, -, -, -, -, hbase, -⟩ := popitem_least hs₂.1.recorded hpos
        refine ⟨hs₂.1.popitem hpos, ?_, hpop s₂ hs₂.1 hs₂.2.2 hn hpos⟩
        have hleft : ((variantBench α V clean).cls.popitem s₂).2.base = s₂.base.pop k := hbase
        rw [hleft, Cache.pop_data, Dict.contains_erase, hs₂.2.1, Bool.and_false])
      ⟨hcounted, hk, hJ⟩ hset
    rw [hs', hstored]
    refine ⟨?_, hstore s₂.1 hcounted₂ hJ₂ hgone⟩
    rw [hr]
    exact hcounted₂.store hgone
  · have hmem : r.1 ∈ s.2.1.inCache := by
      rw [h.mirror, mem_tracked]
      exact hk
    rw [hit_cache hmem hrun]
    obtain ⟨f, -, -, hcounted'⟩ := hcounted.get hk
    exact ⟨hcounted', hget hcounted hJ hk⟩

/-- How often each prompt is requested. -/
def requested (requests : List (K × ℚ)) (k : K) : Nat := (requests.map Prod.fst).count k

theorem requested_append (rs : List (K × ℚ)) (r : K × ℚ) :
    requested (rs ++ [r]) = Function.update (requested rs) r.1 (requested rs r.1 + 1) := by
  funext k
  by_cases hk : k = r.1
  · subst hk
    simp [requested]
  · rw [Function.update_of_ne hk]
    simp [requested, Ne.symm hk]

theorem requested_le {before requests : List (K × ℚ)} (h : before <+: requests) (k : K) :
    requested before k ≤ requested requests k :=
  (h.map Prod.fst).sublist.count_le k

/-- A run that keeps what evictions, stores and hits keep. -/
theorem replay_counted {J : GDSFCache K α → Prop} {requests : List (K × ℚ)} (latency : LatencyModel)
    (hclean : 0 < clean) (hle : clean ≤ m) (hfuel : m < fuel) (hcost : ∀ r ∈ requests, r.2 = cost r.1)
    (hpop : ∀ s, Counted V cost (requested requests) s → J s → m + 1 - clean ≤ s.base.data.len → 0 < s.base.data.len →
      J (V.popitem s).2)
    (hstore : ∀ s k v, Counted V cost (requested requests) s → J s → s.base.data.contains k = false → J (V.store s k v))
    (hget : ∀ s k, Counted V cost (requested requests) s → J s → s.base.data.contains k = true →
      J ((V.cacheClass K α).get s k).2) :
    ∀ (rs done : List (K × ℚ)) {n : Nat} {found : List (K × ℚ)} {s : State (GDSFCache K α) K},
      done ++ rs <+: requests → Balanced (variantBench α V clean) m n found s → Counted V cost (requested done) s.1 →
      J s.1 → ∃ s' n' found', replay (variantBench α V clean) fuel latency rs s = some (.ok (), s') ∧
        Balanced (variantBench α V clean) m n' found' s' ∧ Counted V cost (requested (done ++ rs)) s'.1 ∧ J s'.1
  | [], done, n, found, s, _, h, hcounted, hJ => ⟨s, n, found, rfl, h, by rwa [List.append_nil], hJ⟩
  | r :: rs, done, n, found, s, hprefix, h, hcounted, hJ => by
    have hmono : ∀ {s₁ : GDSFCache K α}, Counted V cost (requested done) s₁ → Counted V cost (requested requests) s₁ :=
      fun hs₁ => hs₁.mono (requested_le ((List.prefix_append done (r :: rs)).trans hprefix))
    have hmem : r ∈ requests := hprefix.subset (by simp)
    obtain ⟨s₁, hrun, h₁, -⟩ := request_balanced latency rfl hclean (hclean.trans_le hle) hfuel h r (.inl hle)
    obtain ⟨hcounted₁, hJ₁⟩ := request_counted hclean hle hfuel h hcounted (hcost r hmem)
      (fun s₁ hs₁ => hpop s₁ (hmono hs₁)) (fun s₁ hs₁ hJ₁ => hstore s₁ r.1 _ (hmono hs₁) hJ₁)
      (fun hs₁ => hget s.1 r.1 (hmono hs₁)) hJ hrun
    rw [← requested_append] at hcounted₁
    rw [List.append_cons] at hprefix ⊢
    obtain ⟨s', n', found', hrest, h', hcounted', hJ'⟩ :=
      replay_counted latency hclean hle hfuel hcost hpop hstore hget rs
      (done ++ [r]) hprefix h₁ hcounted₁ hJ₁
    exact ⟨s', n', found', (replay_cons hrun rs).trans hrest, h', hcounted', hJ'⟩

/-! ## The built-in policy -/

theorem popKeys_gdsf : ∀ (n : Nat) (s : GDSFCache K α),
    popKeys (GDSFCache.cacheClass K α) n s = popKeys (gdsf.cacheClass K α) n s
  | 0, _ => rfl
  | n + 1, s => by
    have hpop : (gdsf.cacheClass K α).popitem s = (GDSFCache.cacheClass K α).popitem s := gdsf_popitem s
    simp only [popKeys, hpop, popKeys_gdsf n]

theorem setitem_gdsf (draws : Nat → Nat) (fuel : Nat) (k : K) (v : Value α) :
    (bench (α := α) draws .GDSF clean).setitem fuel k v = (variantBench α gdsf clean).setitem fuel k v := by
  have hpop : popitemWrapper (bench (K := K) (α := α) draws .GDSF clean).cls
      (bench (α := α) draws .GDSF clean).onEvict clean =
      popitemWrapper (variantBench α gdsf clean).cls (variantBench α gdsf clean).onEvict clean := by
    funext s
    have hkeys : popKeys (bench (K := K) (α := α) draws .GDSF clean).cls clean s.1 =
        popKeys (variantBench α gdsf clean).cls clean s.1 := popKeys_gdsf clean s.1
    simp only [popitemWrapper, hkeys]
    rfl
  rw [MemoryCacheEviction.setitem, MemoryCacheEviction.setitem]
  exact congrArg (fun pop => (gdsf.cacheClass K α).setitem pop fuel k v) hpop

/-- The object of the built-in policy and that of its variant do the same. -/
theorem replay_gdsf (draws : Nat → Nat) (requests : List (K × ℚ)) (s : State (GDSFCache K α) K) :
    replay (bench (α := α) draws .GDSF clean) fuel latency requests s =
      replay (variantBench α gdsf clean) fuel latency requests s := by
  have hrequest : request (bench (K := K) (α := α) draws .GDSF clean) fuel latency =
      request (variantBench α gdsf clean) fuel latency := by
    funext r
    simp only [request, MemoryCacheEviction.put_one, setitem_gdsf]
    rfl
  exact congrFun (congrArg (fun turn => Exec.forEach turn requests) hrequest) s

/-- **A recorded frequency** of GDSF is at most the number of requests. -/
theorem frequency_le_requested (draws : Nat → Nat) (latency : LatencyModel) (hclean : 0 < clean) (hle : clean ≤ m)
    (hfuel : m < fuel) {requests : List (K × ℚ)} (hcost : ∀ r ∈ requests, r.2 = cost r.1)
    {s : State (GDSFCache K α) K}
    (hrun : replay (bench (α := α) draws .GDSF clean) fuel latency requests (start (variantBench α gdsf clean) m) =
      some (.ok (), s)) {k : K} {f : Nat} (hf : s.1.freq.get? k = some f) : f ≤ requested requests k := by
  obtain ⟨s', -, -, hrun', -, hcounted, -⟩ :=
    replay_counted (V := gdsf) (α := α) (J := fun _ => True) latency hclean hle
    hfuel hcost (fun _ _ _ _ _ => trivial) (fun _ _ _ _ _ _ => trivial) (fun _ _ _ _ _ => trivial) requests []
    (by simp) (start_balanced _ m) (new_counted m) trivial
  cases ((replay_gdsf draws requests _).symm.trans hrun).symm.trans hrun'
  exact hcounted.uses k f hf

end RunBench

end GptCache
