/-
`run_one` (benchmarks/run_bench.py): a workload is replayed against the
eviction layer, and hits, saved tokens and evictions are counted on the way.

What is cached is known from a set beside the eviction object, which the
callback takes keys out of and the loop puts them into. `accounts_exact`: the
two agree at every step, and the reported counts are what they say. A batch of
more keys than there are would be popped and not reported, so its keys would
stay in the set (`accounting_exact`); no workload gets there.
-/
import Mathlib.Data.Finset.Card
import GptCache.Eviction.Manager

namespace GptCache

structure Workload (K : Type) where
  name : String
  /-- Prompts, and what generating their answers costs. -/
  requests : List (K × ℚ)
  nUnique : Nat

/-- What a hit and a miss take. -/
structure LatencyModel where
  baseMs : ℚ
  msPerToken : ℚ
  hitMs : ℚ

/-- The variables of the loop. -/
structure Tally (K : Type) where
  inCache : Finset K
  hits : Nat
  savedTokens : ℚ
  totalTokens : ℚ
  latencies : List ℚ

/-- A row of the results, without the wall clock and the percentiles. -/
structure BenchRow where
  policy : String
  maxsize : Nat
  workload : String
  nRequests : Nat
  nUnique : Nat
  hitRate : ℚ
  costWeightedHitRate : ℚ
  savedTokens : ℚ
  totalTokens : ℚ
  latencyMeanMs : ℚ
  evictions : Int

/-- What `run_one` answers, with `return_latencies` or without. -/
inductive BenchResult where
  | latencies (latencies : List ℚ) (policy : String)
  | row (row : BenchRow)

namespace RunBench

variable {K σ α : Type} [DecidableEq K]

/-- `max(1, int(maxsize * clean_ratio))`. -/
def cleanSize (maxsize : Nat) (cleanRatio : ℚ) : Except PyError Nat :=
  if 2 ^ 1024 ≤ Binary64.round maxsize then .error ⟨.OverflowError, "int too large to convert to float"⟩
  else .ok (max 1 ⌊Binary64.round (Binary64.round maxsize * cleanRatio)⌋₊)

/-- `on_evict`. -/
def onEvict (keys : List K) (t : Tally K) : Tally K :=
  { t with inCache := keys.foldl Finset.erase t.inCache }

theorem foldl_erase (keys : List K) (inCache : Finset K) :
    keys.foldl Finset.erase inCache = inCache \ keys.toFinset := by
  induction keys generalizing inCache with
  | nil => simp
  | cons k keys ih => rw [List.foldl_cons, ih, List.toFinset_cons, Finset.sdiff_insert, Finset.erase_sdiff_comm]

/-- The eviction object, the loop's variables and the batches `on_evict` was called with. -/
abbrev State (σ K : Type) := σ × Tally K × List (List K)

def setTally (f : Tally K → Tally K) : Exec PyError (State σ K) Unit := Exec.modify fun s => (s.1, f s.2.1, s.2.2)

variable (e : MemoryCacheEviction σ K α (Tally K × List (List K))) (fuel : Nat) (latency : LatencyModel)

/-- One turn of the loop; `MemoryCacheEviction.put` takes costs. -/
def request (r : K × ℚ) : Exec PyError (State σ K) Unit :=
  setTally (fun t => { t with totalTokens := t.totalTokens + r.2 }) >>= fun _ =>
  Exec.read >>= fun s =>
  if r.1 ∈ s.2.1.inCache then
    e.get r.1 >>= fun _ =>
    setTally fun t => { t with
      hits := t.hits + 1, savedTokens := t.savedTokens + r.2, latencies := t.latencies ++ [latency.hitMs] }
  else
    e.put fuel [r.1] (some [r.2]) >>= fun _ =>
    setTally fun t => { t with
      inCache := insert r.1 t.inCache, latencies := t.latencies ++ [latency.baseMs + latency.msPerToken * r.2] }

def replay (requests : List (K × ℚ)) : Exec PyError (State σ K) Unit := Exec.forEach (request e fuel latency) requests

def report (policy : String) (maxsize : Nat) (workload : Workload K) (returnLatencies : Bool) (t : Tally K) :
    Except PyError BenchResult :=
  let n := workload.requests.length
  if returnLatencies then .ok (.latencies t.latencies policy)
  else if n = 0 then .error ⟨.ZeroDivisionError, "division by zero"⟩
  else if t.totalTokens = 0 then .error ⟨.ZeroDivisionError, "float division by zero"⟩
  else .ok (.row {
    policy, maxsize, workload := workload.name, nRequests := n, nUnique := workload.nUnique
    hitRate := t.hits / n, costWeightedHitRate := t.savedTokens / t.totalTokens
    savedTokens := t.savedTokens, totalTokens := t.totalTokens, latencyMeanMs := t.latencies.sum / n
    evictions := n - t.hits - t.inCache.card })

/-- Whether `np.empty` gets its doubles, eight bytes each, where arrays can take `memory` bytes. -/
def LatenciesFit (memory : Nat) (workload : Workload K) : Prop := 8 * workload.requests.length ≤ memory

instance (memory : Nat) (workload : Workload K) : Decidable (LatenciesFit memory workload) :=
  inferInstanceAs (Decidable (_ ≤ _))

/-- The state the loop starts from. -/
def start (e : MemoryCacheEviction σ K α (Tally K × List (List K))) (maxsize : Nat) : State σ K :=
  (e.cls.new maxsize fun _ => 1, ⟨∅, 0, 0, 0, []⟩, [])

/-- `run_one` from its loop on, with the eviction object of a policy or that of an `eviction_factory`. -/
def finish (policy : String) (maxsize : Nat) (workload : Workload K) (returnLatencies : Bool) :
    Option (Except PyError BenchResult) :=
  match replay e fuel latency workload.requests (start e maxsize) with
  | none => none
  | some (.error err, _) => some (.error err)
  | some (.ok _, s) => some (report policy maxsize workload returnLatencies s.2.1)

/-- `run_one` with a policy built into GPTCache. -/
def runOne (memory : Nat) (draws : Nat → Nat) (policy : String) (maxsize : Nat) (workload : Workload K) (cleanRatio : ℚ)
    (returnLatencies : Bool) : Option (Except PyError BenchResult) :=
  match cleanSize maxsize cleanRatio with
  | .error err => some (.error err)
  | .ok cleanSize =>
    match MemoryCacheEviction.init (α := α) draws policy maxsize cleanSize
      (fun ks => Exec.modify (recording onEvict ks))
        fun _ => 1 with
    | .error err => some (.error err)
    | .ok ⟨_, e, _⟩ =>
      if LatenciesFit memory workload then finish e fuel latency policy maxsize workload returnLatencies
      else some (.error ⟨.MemoryError, ""⟩)

/-- The callback, batch by batch. -/
theorem foldl_onEvict (batches : List (List K)) (w : Tally K × List (List K)) :
    batches.foldl (fun w ks => recording onEvict ks w) w =
      ({ w.1 with inCache := w.1.inCache \ batches.flatten.toFinset }, w.2 ++ batches) := by
  induction batches generalizing w with
  | nil => simp
  | cons ks batches ih =>
    rw [List.foldl_cons, ih]
    simp [recording, onEvict, foldl_erase, sdiff_sdiff_left]

/-! ## One request -/

def tracked (s : State σ K) : Finset K := (e.cls.cache s.1).data.keys.toFinset

theorem mem_tracked {s : State σ K} {k : K} : k ∈ tracked e s ↔ (e.cls.cache s.1).data.contains k = true := by
  rw [tracked, List.mem_toFinset, Dict.mem_keys]

theorem card_tracked (s : State σ K) : (tracked e s).card = (e.cls.cache s.1).data.len := by
  rw [tracked, List.toFinset_card_of_nodup (Dict.nodup_keys _), Dict.length_keys]

/-- The requests whose prompt is tracked when they come. -/
def trackedRequests : List (K × ℚ) → State σ K → List (K × ℚ)
  | [], _ => []
  | r :: rs, s => (if (e.cls.cache s.1).data.contains r.1 then [r] else []) ++
      match request e fuel latency r s with
      | some (.ok _, s') => trackedRequests rs s'
      | some (.error _, _) => []
      | none => []

/-- After `n` requests, of which those in `found` were tracked, the accounts
of a cache of capacity `m` are right. -/
structure Balanced (m n : Nat) (found : List (K × ℚ)) (s : State σ K) : Prop where
  sized : MemoryCacheEviction.Sized e m s
  mirror : s.2.1.inCache = tracked e s
  hits : s.2.1.hits = found.length
  saved : s.2.1.savedTokens = (found.map Prod.snd).sum
  total : s.2.2.flatten.length + s.2.1.hits + s.2.1.inCache.card = n

variable {e fuel latency} {m n : Nat} {found : List (K × ℚ)} {s : State σ K}

/-- A request for a tracked prompt is a hit, and takes nothing out. -/
theorem request_hit (fuel : Nat) (latency : LatencyModel) (h : Balanced e m n found s) {r : K × ℚ}
    (hr : (e.cls.cache s.1).data.contains r.1 = true) :
    ∃ s', request e fuel latency r s = some (.ok (), s') ∧ Balanced e m (n + 1) (found ++ [r]) s' ∧
      s'.2.1.inCache = s.2.1.inCache := by
  have hmem : r.1 ∈ s.2.1.inCache := by rw [h.mirror, mem_tracked, hr]
  obtain ⟨v, hv⟩ := Dict.contains_eq_true.mp hr
  obtain ⟨hval, hinv, hcache⟩ := e.cls.get_hit h.sized.inv hv
  refine ⟨((e.cls.get s.1 r.1).2, { s.2.1 with
    totalTokens := s.2.1.totalTokens + r.2, hits := s.2.1.hits + 1, savedTokens := s.2.1.savedTokens + r.2
    latencies := s.2.1.latencies ++ [latency.hitMs] }, s.2.2), ?_, ⟨⟨hinv, fun v => ?_, ?_, ?_⟩, ?_, ?_, ?_, ?_⟩, rfl⟩
  · simp only [request, setTally, MemoryCacheEviction.get, Exec.total, Exec.modify, Exec.read, bind, Exec.andThen,
      hmem, if_true, hval]
  · simp [hcache, h.sized.unit]
  · simp [hcache, h.sized.maxsize]
  · simpa [hcache] using h.sized.le
  · simp [tracked, hcache, h.mirror]
  · simp [h.hits]
  · simp [h.saved]
  · have := h.total
    dsimp only
    omega

/-- The cost of a request is counted before anything else. -/
def counted (r : K × ℚ) (s : State σ K) : State σ K :=
  (s.1, { s.2.1 with totalTokens := s.2.1.totalTokens + r.2 }, s.2.2)

theorem Balanced.counted (h : Balanced e m n found s) (r : K × ℚ) : Balanced e m n found (counted r s) :=
  ⟨⟨h.sized.inv, h.sized.unit, h.sized.maxsize, h.sized.le⟩, h.mirror, h.hits, h.saved, h.total⟩

theorem request_miss {r : K × ℚ} (hr : r.1 ∉ s.2.1.inCache) {s₁ : State σ K}
    (hset : e.setitem fuel r.1 (.num r.2) (counted r s) = some (.ok (), s₁)) :
    request e fuel latency r s = some (.ok (), (s₁.1, { s₁.2.1 with
      inCache := insert r.1 s₁.2.1.inCache
      latencies := s₁.2.1.latencies ++ [latency.baseMs + latency.msPerToken * r.2] }, s₁.2.2)) := by
  simp only [RunBench.counted] at hset
  simp only [request, setTally, Exec.modify, Exec.read, bind, Exec.andThen, hr, if_false, e.put_one, hset]

theorem Balanced.not_mem (h : Balanced e m n found s) {k : K} (hk : (e.cls.cache s.1).data.contains k = false) :
    k ∉ s.2.1.inCache := by
  rw [h.mirror, mem_tracked, hk]
  exact Bool.false_ne_true

/-- Where there is room another prompt is put beside the others. -/
theorem request_room (latency : LatencyModel) (h : Balanced e m n found s) {r : K × ℚ}
    (hr : (e.cls.cache s.1).data.contains r.1 = false) (hlt : (e.cls.cache s.1).data.len < m) (hfuel : m < fuel) :
    ∃ s', request e fuel latency r s = some (.ok (), s') ∧ Balanced e m (n + 1) found s' ∧
      s'.2.1.inCache = insert r.1 s.2.1.inCache := by
  obtain ⟨fuel, rfl⟩ : ∃ fuel', fuel = fuel' + 1 := ⟨fuel - 1, by omega⟩
  obtain ⟨hset, hsized⟩ := MemoryCacheEviction.setitem_fits fuel (h.counted r).sized hr hlt (.num r.2)
  refine ⟨_, request_miss (h.not_mem hr) hset,
    ⟨⟨hsized.inv, hsized.unit, hsized.maxsize, hsized.le⟩, ?_, h.hits, h.saved, ?_⟩, rfl⟩
  · ext k
    simp [mem_tracked, RunBench.counted, h.mirror, Dict.contains_set]
  · have := h.total
    simp only [RunBench.counted, Finset.card_insert_of_notMem (h.not_mem hr)]
    omega

/-- What is tracked once `popped` left and `k` was stored. -/
theorem tracked_store {f : List K → Tally K × List (List K) → Tally K × List (List K)}
    {s₁ : State σ K} {popped : List K}
    {reported : List (List K)} (hev : e.Evicted f s s₁ popped reported) (k : K) (v : Value α)
    (w : Tally K × List (List K)) :
    tracked e (e.cls.store s₁.1 k v, w) = insert k (tracked e s \ popped.toFinset) := by
  ext k'
  simp [mem_tracked, hev.cache, Dict.contains_set, Cache.contains_popAll, and_comm]

/-- What left was tracked, each key once. -/
theorem card_tracked_sdiff {f : List K → Tally K × List (List K) → Tally K × List (List K)}
    {s₁ : State σ K} {popped : List K} {reported : List (List K)} (hev : e.Evicted f s s₁ popped reported) :
    (tracked e s \ popped.toFinset).card + popped.length = (tracked e s).card := by
  rw [← List.toFinset_card_of_nodup hev.nodup]
  refine Finset.card_sdiff_add_card_eq_card fun k hk => ?_
  rw [mem_tracked]
  exact hev.tracked k (List.mem_toFinset.mp hk)

/-- In a full cache a batch is taken out first. The set follows just where
the batch is no more than there are. -/
theorem request_full (latency : LatencyModel) (hf : e.onEvict = fun ks => Exec.modify (recording onEvict ks))
    (hclean : 0 < e.cleanSize) (hm : 1 ≤ m) (hfuel : m < fuel) (h : Balanced e m n found s) {r : K × ℚ}
    (hr : (e.cls.cache s.1).data.contains r.1 = false) (hlen : (e.cls.cache s.1).data.len = m) :
    ∃ s', request e fuel latency r s = some (.ok (), s') ∧ s'.2.1.inCache ⊆ insert r.1 s.2.1.inCache ∧
      (e.cleanSize ≤ m → Balanced e m (n + 1) found s') ∧ (m < e.cleanSize → s'.2.1.inCache ≠ tracked e s') := by
  have hc : Balanced e m n found (counted r s) := h.counted r
  have hmem : r.1 ∉ s.2.1.inCache := h.not_mem hr
  obtain ⟨fuel, rfl⟩ : ∃ fuel', fuel = fuel' + 1 := ⟨fuel - 1, by omega⟩
  have hitem : e.ItemFull (fuel + 1) s.1 r.1 (.num r.2) ↔ e.cleanSize ≤ m :=
    h.sized.itemFull_iff hclean hm hlen hr fuel (.num r.2)
  obtain ⟨s₁, popped, reported, hset, hev, hsized, hle, hiff, heq⟩ :=
    MemoryCacheEviction.setitem_stores hf hclean hm hfuel hc.sized r.1 (.num r.2)
  have hfresh : r.1 ∉ tracked e s \ popped.toFinset := fun hin => hmem (h.mirror ▸ (Finset.mem_sdiff.mp hin).1)
  have hset₁ : s₁.2.1.inCache = s.2.1.inCache \ reported.flatten.toFinset := by
    rw [hev.env, foldl_onEvict]
    rfl
  have hpopped : (tracked e s \ popped.toFinset).card + popped.length = s.2.1.inCache.card :=
    (card_tracked_sdiff hev).trans (congrArg Finset.card h.mirror.symm)
  have htracked : tracked e (e.cls.store s₁.1 r.1 (.num r.2), s₁.2) = insert r.1 (tracked e s \ popped.toFinset) :=
    tracked_store hev r.1 (.num r.2) s₁.2
  refine ⟨_, request_miss hmem hset, ?_, fun hclean' => ?_, fun hlost => ?_⟩
  · dsimp only
    rw [hset₁]
    exact Finset.insert_subset_insert _ Finset.sdiff_subset
  · have hall : reported.flatten = popped := heq (hitem.mpr hclean')
    refine ⟨⟨hsized.inv, hsized.unit, hsized.maxsize, hsized.le⟩, ?_, ?_, ?_, ?_⟩
    · exact (congrArg (insert r.1) (by rw [hset₁, hall, h.mirror])).trans htracked.symm
    · rw [hev.env, foldl_onEvict]
      exact h.hits
    · rw [hev.env, foldl_onEvict]
      exact h.saved
    · have := h.total
      have hcard := Finset.card_insert_of_notMem hfresh
      dsimp only
      rw [hset₁, hall, h.mirror, hcard, hev.env, foldl_onEvict, List.flatten_append, hall, List.length_append]
      simp only [RunBench.counted]
      omega
  · intro hmirror
    have hshort : reported.flatten.length < popped.length :=
      hle.lt_of_ne fun hsame => absurd (hitem.mp (hiff.mpr hsame)) (not_le.mpr hlost)
    have hmore := Finset.le_card_sdiff reported.flatten.toFinset s.2.1.inCache
    have hfew := List.toFinset_card_le reported.flatten
    have hcards := congrArg Finset.card (hmirror.trans htracked)
    dsimp only at hcards
    rw [hset₁, Finset.card_insert_of_notMem fun hin => hmem (Finset.mem_sdiff.mp hin).1,
      Finset.card_insert_of_notMem hfresh] at hcards
    omega

/-! ## A run -/

theorem request_balanced (latency : LatencyModel) (hf : e.onEvict = fun ks => Exec.modify (recording onEvict ks))
    (hclean : 0 < e.cleanSize) (hm : 1 ≤ m) (hfuel : m < fuel) (h : Balanced e m n found s) (r : K × ℚ)
    (hroom : e.cleanSize ≤ m ∨ (insert r.1 s.2.1.inCache).card ≤ m) :
    ∃ s', request e fuel latency r s = some (.ok (), s') ∧
      Balanced e m (n + 1) (found ++ if (e.cls.cache s.1).data.contains r.1 then [r] else []) s' ∧
      s'.2.1.inCache ⊆ insert r.1 s.2.1.inCache := by
  have hcard : s.2.1.inCache.card = (e.cls.cache s.1).data.len := by rw [h.mirror, card_tracked]
  have hle := h.sized.le
  rcases hr : (e.cls.cache s.1).data.contains r.1 with _ | _
  · rw [if_neg Bool.false_ne_true, List.append_nil]
    by_cases hlen : (e.cls.cache s.1).data.len = m
    · obtain ⟨s', hrun, hsub, hfull, -⟩ := request_full latency hf hclean hm hfuel h hr hlen
      have hcleanSize : e.cleanSize ≤ m := by
        rw [Finset.card_insert_of_notMem (h.not_mem hr)] at hroom
        omega
      exact ⟨s', hrun, hfull hcleanSize, hsub⟩
    · obtain ⟨s', hrun, h', hset⟩ := request_room latency h hr (by omega) hfuel
      exact ⟨s', hrun, h', hset.subset⟩
  · obtain ⟨s', hrun, h', hset⟩ := request_hit fuel latency h hr
    exact ⟨s', hrun, h', hset.trans_subset (Finset.subset_insert _ _)⟩

def prompts (requests : List (K × ℚ)) : Finset K := (requests.map Prod.fst).toFinset

theorem prompts_cons (r : K × ℚ) (rs : List (K × ℚ)) : prompts (r :: rs) = insert r.1 (prompts rs) := by
  simp [prompts]

theorem replay_cons {r : K × ℚ} {s₁ : State σ K} (hrun : request e fuel latency r s = some (.ok (), s₁))
    (rs : List (K × ℚ)) : replay e fuel latency (r :: rs) s = replay e fuel latency rs s₁ := by
  rw [replay, Exec.forEach_cons, Exec.bind_of_ok _ hrun]
  rfl

/-- The accounts stay right while no batch asks for too many, or no batch is taken. -/
theorem replay_balanced (latency : LatencyModel) (hf : e.onEvict = fun ks => Exec.modify (recording onEvict ks))
    (hclean : 0 < e.cleanSize) (hm : 1 ≤ m) (hfuel : m < fuel) :
    ∀ (rs : List (K × ℚ)) {n : Nat} {found : List (K × ℚ)} {s : State σ K},
      Balanced e m n found s → (e.cleanSize ≤ m ∨ (s.2.1.inCache ∪ prompts rs).card ≤ m) →
      ∃ s', replay e fuel latency rs s = some (.ok (), s') ∧
        Balanced e m (n + rs.length) (found ++ trackedRequests e fuel latency rs s) s'
  | [], n, found, s, h, _ => ⟨s, rfl, by simpa [trackedRequests] using h⟩
  | r :: rs, n, found, s, h, hroom => by
    rw [prompts_cons, Finset.union_insert, ← Finset.insert_union] at hroom
    have hfirst : e.cleanSize ≤ m ∨ (insert r.1 s.2.1.inCache).card ≤ m :=
      hroom.imp_right fun hle => (Finset.card_le_card Finset.subset_union_left).trans hle
    obtain ⟨s₁, hrun, h₁, hsub⟩ := request_balanced latency hf hclean hm hfuel h r hfirst
    have hrest : e.cleanSize ≤ m ∨ (s₁.2.1.inCache ∪ prompts rs).card ≤ m :=
      hroom.imp_right fun hle => (Finset.card_le_card (Finset.union_subset_union_left hsub)).trans hle
    obtain ⟨s₂, hruns, h₂⟩ := replay_balanced latency hf hclean hm hfuel rs h₁ hrest
    refine ⟨s₂, (replay_cons hrun rs).trans hruns, ?_⟩
    rw [List.append_assoc] at h₂
    simpa only [trackedRequests, hrun, List.length_cons, Nat.add_comm, Nat.add_left_comm] using h₂

/-- With batches that ask for too many, the set is wrong once more prompts
were requested than there is room for. -/
theorem replay_breaks (latency : LatencyModel) (hf : e.onEvict = fun ks => Exec.modify (recording onEvict ks))
    (hclean : m < e.cleanSize) (hm : 1 ≤ m) (hfuel : m < fuel) :
    ∀ (rs : List (K × ℚ)) {n : Nat} {found : List (K × ℚ)} {s : State σ K},
      Balanced e m n found s → m < (s.2.1.inCache ∪ prompts rs).card →
      ∃ before s', before <+: rs ∧ replay e fuel latency before s = some (.ok (), s') ∧ s'.2.1.inCache ≠ tracked e s'
  | [], n, found, s, h, hmore => by
    rw [prompts, List.map_nil, List.toFinset_nil, Finset.union_empty, h.mirror, card_tracked] at hmore
    exact absurd h.sized.le (not_le.mpr hmore)
  | r :: rs, n, found, s, h, hmore => by
    rw [prompts_cons, Finset.union_insert, ← Finset.insert_union] at hmore
    have hle := h.sized.le
    have hnext : ∀ {found' s₁}, request e fuel latency r s = some (.ok (), s₁) → Balanced e m (n + 1) found' s₁ →
        s₁.2.1.inCache = insert r.1 s.2.1.inCache → ∃ before s', before <+: r :: rs ∧
          replay e fuel latency before s = some (.ok (), s') ∧ s'.2.1.inCache ≠ tracked e s' := by
      intro found' s₁ hrun h₁ hset
      obtain ⟨before, s', hprefix, hruns, hne⟩ := replay_breaks latency hf hclean hm hfuel rs h₁ (hset ▸ hmore)
      exact ⟨r :: before, s', List.prefix_cons_inj r |>.mpr hprefix, (replay_cons hrun before).trans hruns, hne⟩
    rcases hr : (e.cls.cache s.1).data.contains r.1 with _ | _
    · by_cases hlen : (e.cls.cache s.1).data.len = m
      · obtain ⟨s', hrun, -, -, hlost⟩ := request_full latency hf (by omega) hm hfuel h hr hlen
        exact ⟨[r], s', ⟨rs, rfl⟩, replay_cons hrun [], hlost hclean⟩
      · obtain ⟨s₁, hrun, h₁, hset⟩ := request_room latency h hr (by omega) hfuel
        exact hnext hrun h₁ hset
    · obtain ⟨s₁, hrun, h₁, hset⟩ := request_hit fuel latency h hr
      have hmem : r.1 ∈ s.2.1.inCache := by rw [h.mirror, mem_tracked, hr]
      exact hnext hrun h₁ (hset.trans (Finset.insert_eq_of_mem hmem).symm)

/-! ## The accounts of a run -/

/-- The eviction object `run_one` makes. -/
def bench (draws : Nat → Nat) (policy : Policy) (clean : Nat) :
    MemoryCacheEviction (policy.State K α) K α (Tally K × List (List K)) :=
  .ofPolicy draws policy clean fun ks => Exec.modify (recording onEvict ks)

theorem start_balanced (e : MemoryCacheEviction σ K α (Tally K × List (List K))) (m : Nat) :
    Balanced e m 0 [] (start e m) :=
  ⟨MemoryCacheEviction.new_sized e m _, by simp [start, tracked, Cache.new, Dict.empty, Dict.keys], rfl, rfl, rfl⟩

/-- Once `requests` are replayed from `s₀`: the set is what is tracked, hits
and saved tokens are those of the requests that were tracked when they came,
and what is reported as evicted is what `on_evict` was called with. -/
structure Exact (e : MemoryCacheEviction σ K α (Tally K × List (List K))) (fuel : Nat) (latency : LatencyModel)
    (s₀ : State σ K) (requests : List (K × ℚ)) (s : State σ K) : Prop where
  mirror : s.2.1.inCache = tracked e s
  hits : s.2.1.hits = (trackedRequests e fuel latency requests s₀).length
  saved : s.2.1.savedTokens = ((trackedRequests e fuel latency requests s₀).map Prod.snd).sum
  evictions : (requests.length - s.2.1.hits - s.2.1.inCache.card : Int) = s.2.2.flatten.length

theorem Balanced.exact {s₀ : State σ K} {requests : List (K × ℚ)}
    (h : Balanced e m requests.length (trackedRequests e fuel latency requests s₀) s) :
    Exact e fuel latency s₀ requests s := by
  refine ⟨h.mirror, h.hits, h.saved, ?_⟩
  have := h.total
  omega

/-- The accounts are exact at every step, and so is the row that is made of them. -/
structure AccountsExact (α : Type) (fuel : Nat) (latency : LatencyModel) (memory : Nat) (draws : Nat → Nat)
    (policyName : String) (policy : Policy) (maxsize : Nat) (cleanRatio : ℚ) (clean : Nat) (workload : Workload K) :
    Prop where
  steps : ∀ before, before <+: workload.requests →
    ∃ s, replay (bench draws policy clean) fuel latency before (start (bench (α := α) draws policy clean) maxsize) =
        some (.ok (), s) ∧
      Exact (bench draws policy clean) fuel latency (start (bench draws policy clean) maxsize) before s
  row : ∀ row, runOne (α := α) fuel latency memory draws policyName maxsize workload cleanRatio false =
      some (.ok (.row row)) →
    ∃ s, replay (bench draws policy clean) fuel latency workload.requests
        (start (bench (α := α) draws policy clean) maxsize) = some (.ok (), s) ∧
      row.evictions = s.2.2.flatten.length ∧
      row.savedTokens = ((trackedRequests (bench draws policy clean) fuel latency workload.requests
        (start (bench (α := α) draws policy clean) maxsize)).map Prod.snd).sum

/-- A row that is reported is made of the state the loop ends in. -/
theorem row_of_runOne {memory : Nat} {draws : Nat → Nat} {policyName : String} {policy : Policy}
    {maxsize clean : Nat} {cleanRatio : ℚ} {workload : Workload K} (hpolicy : Policy.ofString policyName = .ok policy)
    (hclean : cleanSize maxsize cleanRatio = .ok clean) {row : BenchRow}
    (h : runOne (α := α) fuel latency memory draws policyName maxsize workload cleanRatio false =
      some (.ok (.row row))) :
    ∃ s, replay (bench draws policy clean) fuel latency workload.requests
        (start (bench (α := α) draws policy clean) maxsize) = some (.ok (), s) ∧
      row.evictions = workload.requests.length - s.2.1.hits - s.2.1.inCache.card ∧
      row.savedTokens = s.2.1.savedTokens := by
  rw [runOne, hclean] at h
  simp only [MemoryCacheEviction.init, hpolicy] at h
  split at h
  swap
  · cases h
  rw [finish] at h
  split at h
  · cases h
  · cases h
  · rename_i s hrun
    refine ⟨s, hrun, ?_⟩
    simp only [report, Bool.false_eq_true, if_false, Option.some.injEq] at h
    split at h
    · cases h
    split at h
    · cases h
    cases h
    exact ⟨rfl, rfl⟩

theorem clean_pos {maxsize clean : Nat} {cleanRatio : ℚ} (h : cleanSize maxsize cleanRatio = .ok clean) :
    0 < clean := by
  unfold cleanSize at h
  split at h
  · cases h
  · cases h
    exact Nat.lt_of_lt_of_le Nat.zero_lt_one (Nat.le_max_left 1 _)

/-- Up to `2 ^ 53` entries no batch asks for more than there are. -/
theorem clean_le {maxsize clean : Nat} {cleanRatio : ℚ} (h : cleanSize maxsize cleanRatio = .ok clean)
    (hm : 1 ≤ maxsize) (hmax : maxsize ≤ 2 ^ 53) (hnonneg : 0 ≤ cleanRatio) (hle : cleanRatio ≤ 1) :
    clean ≤ maxsize := by
  unfold cleanSize at h
  split at h
  · cases h
  · cases h
    have hproduct : (maxsize : ℚ) * cleanRatio ≤ maxsize := mul_le_of_le_one_right (Nat.cast_nonneg _) hle
    have hround : Binary64.round (Binary64.round maxsize * cleanRatio) ≤ maxsize := by
      rw [Binary64.round_natCast hmax]
      exact (Binary64.round_mono (mul_nonneg (Nat.cast_nonneg _) hnonneg) hproduct).trans_eq
        (Binary64.round_natCast hmax)
    exact Nat.max_le.mpr ⟨hm, Nat.floor_le_of_le hround⟩

section

variable {policyName : String} {policy : Policy} {maxsize clean : Nat} {cleanRatio : ℚ} {workload : Workload K}

theorem accounts_of_room (memory : Nat) (draws : Nat → Nat) (hpolicy : Policy.ofString policyName = .ok policy)
    (hm : 1 ≤ maxsize) (hclean : cleanSize maxsize cleanRatio = .ok clean) (hfuel : maxsize < fuel)
    (hroom : clean ≤ maxsize ∨ (prompts workload.requests).card ≤ maxsize) :
    AccountsExact α fuel latency memory draws policyName policy maxsize cleanRatio clean workload := by
  have hsteps : ∀ before, before <+: workload.requests → ∃ s, replay (bench draws policy clean) fuel latency before
      (start (bench (α := α) draws policy clean) maxsize) = some (.ok (), s) ∧
      Exact (bench draws policy clean) fuel latency (start (bench draws policy clean) maxsize) before s := by
    intro before hbefore
    have hsub : prompts before ⊆ prompts workload.requests :=
      fun k hk => List.mem_toFinset.mpr ((hbefore.map Prod.fst).subset (List.mem_toFinset.mp hk))
    obtain ⟨s, hrun, hs⟩ := replay_balanced latency rfl (clean_pos hclean) hm hfuel before
      (start_balanced (bench (α := α) draws policy clean) maxsize)
      (hroom.imp_right fun hle => by
        rw [start, Finset.empty_union]
        exact (Finset.card_le_card hsub).trans hle)
    rw [Nat.zero_add] at hs
    exact ⟨s, hrun, hs.exact⟩
  refine ⟨hsteps, fun row hrow => ?_⟩
  obtain ⟨s, hrun, hevictions, hsaved⟩ := row_of_runOne hpolicy hclean hrow
  obtain ⟨s', hrun', hexact⟩ := hsteps workload.requests List.prefix_rfl
  cases hrun.symm.trans hrun'
  exact ⟨s, hrun, hevictions.trans hexact.evictions, hsaved.trans hexact.saved⟩

theorem not_accounts (memory : Nat) (draws : Nat → Nat) (policyName : String) (policy : Policy) (cleanRatio : ℚ)
    (hm : 1 ≤ maxsize) (hclean : maxsize < clean) (hfuel : maxsize < fuel)
    (hmore : maxsize < (prompts workload.requests).card) :
    ¬ AccountsExact α fuel latency memory draws policyName policy maxsize cleanRatio clean workload := by
  intro h
  obtain ⟨before, s, hbefore, hrun, hne⟩ := replay_breaks latency rfl hclean hm hfuel workload.requests
    (start_balanced (bench (α := α) draws policy clean) maxsize) (by rwa [start, Finset.empty_union])
  obtain ⟨s', hrun', hexact⟩ := h.steps before hbefore
  cases hrun.symm.trans hrun'
  exact hne hexact.mirror

/-- Where the batch size is known, the accounts are exact just where a batch is
no larger than the capacity or no batch is ever taken. -/
theorem accounting_exact (memory : Nat) (draws : Nat → Nat) (hpolicy : Policy.ofString policyName = .ok policy)
    (hm : 1 ≤ maxsize) (hclean : cleanSize maxsize cleanRatio = .ok clean) (hfuel : maxsize < fuel) :
    AccountsExact α fuel latency memory draws policyName policy maxsize cleanRatio clean workload ↔
      clean ≤ maxsize ∨ (prompts workload.requests).card ≤ maxsize := by
  refine ⟨fun h => ?_, accounts_of_room memory draws hpolicy hm hclean hfuel⟩
  by_contra hboth
  rw [not_or, not_le, not_le] at hboth
  exact not_accounts memory draws policyName policy cleanRatio hm hboth.1 hfuel hboth.2 h

/-- There are no more prompts than requests. -/
theorem card_prompts_le (requests : List (K × ℚ)) : (prompts requests).card ≤ requests.length :=
  (List.toFinset_card_le _).trans_eq (List.length_map _)

end

def hosted : LatencyModel := ⟨300, 20, 5⟩

end RunBench

end GptCache
