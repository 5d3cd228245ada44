/-
`KReciprocalEvaluation` (gptcache/similarity_evaluation/kreciprocal.py): a
candidate is similar to the query when the query is among the nearest
neighbours of the candidate.

Equal questions have a score of their own, 1, whatever the range is
(`same_question_best_iff`). Of other questions the distance is replaced by
the greatest there is when the query is not a neighbour, which is a low score
for one orientation of the scores and a high one for the other
(`reciprocal_iff`).
-/
import Mathlib.Data.List.Sort
import GptCache.Adapter.Adapt
import GptCache.Evaluation.Distance
import GptCache.Lib.Nearest

namespace GptCache.Evaluation

/-- `search` is the vector store's: distances and ids, nothing where the store is empty. -/
structure KReciprocalEvaluation (n : Nat) (F : Type) where
  search : Vec n F → Int → Option (List (F × Nat))
  topK : Int := 3
  maxDistance : F
  positive : Bool := false
  /-- numpy's square root. -/
  sqrt : F → F

namespace KReciprocalEvaluation

section

variable {n : Nat} {F Q : Type} [Field F] [LinearOrder F] [DecidableEq Q] (e : KReciprocalEvaluation n F)

def range : F × F := distanceRange e.maxDistance

/-- `evaluation`, of two questions and their embeddings. -/
def evaluation (srcQuestion cacheQuestion : Q) (srcEmbedding cacheEmbedding : Vec n F) : Except PyError F :=
  if srcQuestion = cacheQuestion then .ok 1
  else
    let queryEmb := normalize e.sqrt srcEmbedding
    match e.search cacheEmbedding (e.topK + 1) with
    | none => .error ⟨.TypeError, ""⟩
    | some candidates =>
      let eucDist := euclideanDistanceCalculate queryEmb cacheEmbedding
      match candidates.getLast? with
      | none => .error ⟨.IndexError, "list index out of range"⟩
      | some last =>
        let eucDist := if eucDist > last.1 then e.range.2 else eucDist
        .ok (searchDistance e.maxDistance e.positive eucDist)

end

/-! ## Equal questions -/

section

variable {n : Nat} {Q : Type} [DecidableEq Q]

/-- The score is in the range, but for equal questions, which have 1. -/
theorem evaluation_mem {e : KReciprocalEvaluation n ℚ} (hmax : 0 ≤ e.maxDistance) {q q' : Q} {u v : Vec n ℚ} {score : ℚ}
    (h : e.evaluation q q' u v = .ok score) : score = 1 ∨ e.range.1 ≤ score ∧ score ≤ e.range.2 := by
  unfold evaluation at h
  split at h
  · cases h
    exact .inl rfl
  · split at h
    · cases h
    · dsimp only at h
      split at h
      · cases h
      · cases h
        exact .inr (searchDistance_mem hmax _ _)

theorem evaluation_self (e : KReciprocalEvaluation n ℚ) (q : Q) (u v : Vec n ℚ) : e.evaluation q q u v = .ok 1 := by
  rw [evaluation, if_pos rfl]

/-- `adapt` asks for no more than the greatest score. -/
theorem rankThreshold_le {maxDistance : ℚ} (hmax : 0 ≤ maxDistance) (threshold : ℚ) :
    rankThreshold (distanceRange maxDistance) threshold 1 ≤ maxDistance := by
  unfold rankThreshold
  dsimp only [distanceRange]
  split
  · exact le_refl maxDistance
  · rename_i hover
    split
    · exact hmax
    · exact not_lt.mp hover

/-- **Equal questions.** Their score is the greatest of the range, no other
pair has more, and `adapt` accepts it at every threshold, just when the
greatest score is the 1 they are given. -/
theorem same_question_best_iff (e : KReciprocalEvaluation n ℚ) (hmax : 0 < e.maxDistance) (q : Q) (u v : Vec n ℚ) :
    (∃ best, e.evaluation q q u v = .ok best ∧ best = e.range.2 ∧
      (∀ (q₁ q₂ : Q) (u₁ v₁ : Vec n ℚ) (score : ℚ), e.evaluation q₁ q₂ u₁ v₁ = .ok score → score ≤ best) ∧
      ∀ threshold, 0 ≤ threshold → threshold ≤ 1 → rankThreshold e.range threshold 1 ≤ best) ↔
    e.maxDistance = 1 := by
  constructor
  · intro hgreatest
    obtain ⟨best, hscore, hbest, -⟩ := hgreatest
    rw [evaluation_self] at hscore
    exact hbest.symm.trans (Except.ok.inj hscore).symm
  · intro hone
    refine ⟨1, evaluation_self e q u v, hone.symm, fun q₁ q₂ u₁ v₁ score h => ?_, fun threshold _ _ => ?_⟩
    · rcases evaluation_mem hmax.le h with rfl | ⟨-, hle⟩
      · exact le_refl 1
      · exact hle.trans hone.le
    · exact (rankThreshold_le hmax.le threshold).trans hone.le

theorem same_question_best_iff_one :
    let e : KReciprocalEvaluation 1 ℚ := { search := fun _ _ => some [(0, 1)], maxDistance := 1, sqrt := id }
    ∃ best, e.evaluation "q" "q" (fun _ => 1) (fun _ => 1) = .ok best ∧ best = e.range.2 := by
  intro e
  obtain ⟨best, hscore, hbest, -⟩ := (same_question_best_iff e one_pos "q" (fun _ => 1) fun _ => 1).mpr rfl
  exact ⟨best, hscore, hbest⟩

/-- The default range: an identical question has a quarter of the greatest
score, and is not accepted at the default threshold. -/
theorem same_question_refused :
    let e : KReciprocalEvaluation 1 ℚ := { search := fun _ _ => some [(0, 1)], maxDistance := 4, sqrt := id }
    e.evaluation "q" "q" (fun _ => 1) (fun _ => 1) = .ok 1 ∧ e.range = (0, 4) ∧
      ¬ rankThreshold e.range (4 / 5) 1 ≤ 1 := by
  refine ⟨rfl, rfl, ?_⟩
  decide +kernel

end

/-! ## Neighbours -/

section

variable {n : Nat} {F Q : Type} [Field F] [LinearOrder F] [DecidableEq Q]
  {e : KReciprocalEvaluation n F} {stored : List (Vec n F × Nat)} {c q : Vec n F}

/-- The search answers with the nearest of what is stored. -/
def Searches (e : KReciprocalEvaluation n F) (stored : List (Vec n F × Nat)) : Prop :=
  ∀ x k, 1 ≤ k → ∃ found, Nearest (fun p => euclideanDistanceCalculate x p.1) stored k.toNat found ∧
    e.search x k = some (found.map fun p => (euclideanDistanceCalculate x p.1, p.2))

/-- How many others are strictly closer to `c` than `q` is. -/
def closer (stored : List (Vec n F × Nat)) (c q : Vec n F) : Nat :=
  stored.countP fun p => p.1 ≠ c ∧ euclideanDistanceCalculate c p.1 < euclideanDistanceCalculate c q

/-- Not the others only: `c` itself is closer, unless it is `q`. -/
theorem countP_closer (hdistinct : (stored.map Prod.fst).Nodup) (hc : c ∈ stored.map Prod.fst) :
    (stored.countP fun p => euclideanDistanceCalculate c p.1 < euclideanDistanceCalculate c q) =
      closer stored c q + if 0 < euclideanDistanceCalculate c q then 1 else 0 := by
  unfold closer
  induction stored with
  | nil => cases hc
  | cons p stored ih =>
    rw [List.map_cons, List.nodup_cons] at hdistinct
    by_cases hp : p.1 = c
    · have hrest : (stored.countP fun p => p.1 ≠ c ∧
          euclideanDistanceCalculate c p.1 < euclideanDistanceCalculate c q) =
          stored.countP fun p => euclideanDistanceCalculate c p.1 < euclideanDistanceCalculate c q := by
        refine List.countP_congr fun p' hp' => ?_
        have hne : p'.1 ≠ c := fun heq => hdistinct.1 (hp ▸ heq ▸ List.mem_map_of_mem hp')
        simp [hne]
      rw [List.countP_cons, List.countP_cons, hrest]
      simp [hp]
    · have hc : c ∈ stored.map Prod.fst := (List.mem_cons.mp hc).resolve_left fun heq => hp heq.symm
      rw [List.countP_cons, List.countP_cons, ih hdistinct.2 hc]
      simp only [hp, ne_eq, not_false_eq_true, true_and]
      omega

/-- `c` is not one of the others. -/
theorem closer_lt_length (hc : c ∈ stored.map Prod.fst) : closer stored c q < stored.length := by
  obtain ⟨p, hp, rfl⟩ := List.mem_map.mp hc
  refine lt_of_le_of_ne List.countP_le_length fun heq => ?_
  have := List.countP_eq_length.mp heq p hp
  simp at this

/-- The query counts as far off when all that the search finds is closer to
the candidate. -/
theorem evaluation_other (hsearch : Searches e stored) (hc : c ∈ stored.map Prod.fst) (hq : UnitLength q)
    (hsqrt : e.sqrt 1 = 1) {srcQuestion cacheQuestion : Q} (hne : srcQuestion ≠ cacheQuestion)
    {k : Nat} (hk : e.topK = k) :
    e.evaluation srcQuestion cacheQuestion q c = .ok (searchDistance e.maxDistance e.positive
      (if min (k + 1) stored.length ≤
          stored.countP fun p => euclideanDistanceCalculate c p.1 < euclideanDistanceCalculate c q
        then e.maxDistance else euclideanDistanceCalculate c q)) := by
  obtain ⟨found, hnearest, hfound⟩ := hsearch c (e.topK + 1) (by omega)
  have hpos : 0 < stored.length := by
    obtain ⟨p, hp, -⟩ := List.mem_map.mp hc
    exact List.length_pos_of_mem hp
  have hlen := hnearest.length
  have hne' : found ≠ [] := List.ne_nil_of_length_pos (by omega)
  obtain ⟨last, hlast⟩ : ∃ last, found.getLast? = some last := ⟨_, List.getLast?_eq_some_getLast hne'⟩
  have hfar := hnearest.getLast_lt_iff hlast (d := euclideanDistanceCalculate c q)
  have htop : (e.topK + 1).toNat = k + 1 := by omega
  rw [htop] at hfar
  rw [evaluation, if_neg hne, hfound]
  simp only [List.getLast?_map, hlast, Option.map_some, normalize_unitLength hsqrt hq,
    distance_comm q c, gt_iff_lt, hfar]
  rfl

/-- With no more than `k`, when all of them are. -/
theorem far_iff_all {k : Nat} (hfew : stored.length ≤ k) :
    min (k + 1) stored.length ≤
        (stored.countP fun p => euclideanDistanceCalculate c p.1 < euclideanDistanceCalculate c q) ↔
      ¬ ∃ p ∈ stored, euclideanDistanceCalculate c q ≤ euclideanDistanceCalculate c p.1 := by
  have hmin : min (k + 1) stored.length = stored.length := by omega
  have hle : (stored.countP fun p => euclideanDistanceCalculate c p.1 < euclideanDistanceCalculate c q) ≤
      stored.length :=
    List.countP_le_length
  rw [hmin]
  push Not
  constructor
  · intro h p hp
    exact of_decide_eq_true (List.countP_eq_length.mp (le_antisymm hle h) p hp)
  · intro h
    exact (List.countP_eq_length.mpr fun p hp => decide_eq_true (h p hp)).ge

variable [IsStrictOrderedRing F]

/-- With more than `k` vectors stored, the query is far off when `k` others are closer. -/
theorem far_iff_closer (hdistinct : (stored.map Prod.fst).Nodup) (hc : c ∈ stored.map Prod.fst) {k : Nat} (hpos : 1 ≤ k)
    (hmany : k < stored.length) :
    min (k + 1) stored.length ≤
        (stored.countP fun p => euclideanDistanceCalculate c p.1 < euclideanDistanceCalculate c q) ↔
        k ≤ closer stored c q := by
  have hcount := countP_closer (q := q) hdistinct hc
  have hmin : min (k + 1) stored.length = k + 1 := by omega
  rw [hcount, hmin]
  split
  · omega
  · rename_i hzero
    refine ⟨fun h => by omega, fun h => absurd ?_ hzero⟩
    obtain ⟨p, -, hp⟩ := List.countP_pos_iff.mp (show 0 < closer stored c q by omega)
    exact (distance_nonneg c p.1).trans_lt (of_decide_eq_true hp).2

/-- **Neighbours.** Where fewer vectors than `k` others are closer to the
candidate than the query is, the score should be that of the distance, else
the least there is. It is, just when more than `k` vectors are stored and the
scores fall with the distance or the query is a neighbour; or, with fewer
stored, when one of them is no closer than the query, or the query is as far
off as the range goes. -/
theorem reciprocal_iff (hsearch : Searches e stored) (hdistinct : (stored.map Prod.fst).Nodup)
    (hunit : ∀ p ∈ stored, UnitLength p.1) (hc : c ∈ stored.map Prod.fst) (hq : UnitLength q) (hsqrt : e.sqrt 1 = 1)
    {srcQuestion cacheQuestion : Q} (hne : srcQuestion ≠ cacheQuestion) {k : Nat} (hk : e.topK = k) (hpos : 1 ≤ k)
    (hmax : 4 ≤ e.maxDistance) :
    ((k ≤ closer stored c q → e.evaluation srcQuestion cacheQuestion q c = .ok e.range.1) ∧
      (closer stored c q < k → e.evaluation srcQuestion cacheQuestion q c =
        .ok (searchDistance e.maxDistance e.positive (euclideanDistanceCalculate q c)))) ↔
    (k < stored.length ∧ (e.positive = false ∨ closer stored c q < k)) ∨
      (stored.length ≤ k ∧ ((∃ p ∈ stored, euclideanDistanceCalculate c q ≤ euclideanDistanceCalculate c p.1) ∨
        euclideanDistanceCalculate c q = e.maxDistance)) := by
  have hcunit : UnitLength c := by
    obtain ⟨p, hp, rfl⟩ := List.mem_map.mp hc
    exact hunit p hp
  have hd4 : euclideanDistanceCalculate c q ≤ 4 := distance_le_four hcunit hq
  have hd0 : 0 ≤ euclideanDistanceCalculate c q := distance_nonneg c q
  have hless := closer_lt_length (q := q) hc
  have hgreatest : searchDistance e.maxDistance e.positive e.maxDistance = if e.positive then e.maxDistance else 0 := by
    rw [searchDistance_of_mem _ (by linarith) (le_refl _), sub_self]
  have hscore : searchDistance e.maxDistance e.positive (euclideanDistanceCalculate c q) =
      if e.positive then euclideanDistanceCalculate c q else e.maxDistance - euclideanDistanceCalculate c q :=
    searchDistance_of_mem _ hd0 (by linarith)
  have hleast : e.range.1 = 0 := rfl
  rw [evaluation_other hsearch hc hq hsqrt hne hk, distance_comm q c, hleast]
  by_cases hmany : k < stored.length
  · have hfew : ¬ stored.length ≤ k := by omega
    rw [if_congr (far_iff_closer hdistinct hc hpos hmany) rfl rfl]
    by_cases hfar : k ≤ closer stored c q
    · simp only [hfar, if_true, hgreatest, not_lt.mpr hfar, hmany, hfew]
      cases e.positive with
      | false => simp
      | true =>
        have hne : e.maxDistance ≠ 0 := by linarith
        simp [hne]
    · simp [hfar, not_le.mp hfar, hmany]
  · have hfew : stored.length ≤ k := by omega
    have hnear : ¬ k ≤ closer stored c q := by omega
    rw [if_congr (far_iff_all hfew) rfl rfl]
    by_cases hfar : ∃ p ∈ stored, euclideanDistanceCalculate c q ≤ euclideanDistanceCalculate c p.1
    · simp [hfar, hfew, hnear]
    · simp only [hfar, hnear, hfew, hmany, not_le.mp hnear, not_false_eq_true, if_true, hgreatest, hscore]
      cases e.positive with
      | true => simp [eq_comm]
      | false =>
        have hequal : 0 = e.maxDistance - euclideanDistanceCalculate c q ↔
            euclideanDistanceCalculate c q = e.maxDistance :=
          ⟨fun h => by linarith, fun h => by linarith⟩
        simp [hequal]

end

/-! ## A store that searches exactly -/

section

variable {n : Nat} {F : Type} [Field F] [LinearOrder F]

def exactSearch (stored : List (Vec n F × Nat)) (x : Vec n F) (k : Int) : Option (List (F × Nat)) :=
  some (((stored.insertionSort fun a b => euclideanDistanceCalculate x a.1 ≤ euclideanDistanceCalculate x b.1).take
    k.toNat).map fun p => (euclideanDistanceCalculate x p.1, p.2))

theorem searches_exactSearch {e : KReciprocalEvaluation n F} {stored : List (Vec n F × Nat)}
    (h : e.search = exactSearch stored) : Searches e stored := by
  intro x k _
  refine ⟨_, ⟨_, List.perm_insertionSort _ stored, List.pairwise_insertionSort
    (fun a b => euclideanDistanceCalculate x a.1 ≤ euclideanDistanceCalculate x b.1) stored, rfl⟩, ?_⟩
  rw [h]
  rfl

end

def stored : List (Vec 2 ℚ × Nat) := [(![1, 0], 1), (![3 / 5, 4 / 5], 2)]

/-- One neighbour, of two stored vectors. -/
def oneNeighbour (positive : Bool) : KReciprocalEvaluation 2 ℚ :=
  { search := exactSearch stored, topK := 1, maxDistance := 4, positive := positive, sqrt := id }

theorem reciprocal_iff_neighbour :
    (oneNeighbour false).evaluation "p" "q" ![4 / 5, 3 / 5] ![1, 0] = .ok (18 / 5) := by
  have hsearch : Searches (oneNeighbour false) stored := searches_exactSearch rfl
  have hc : (![1, 0] : Vec 2 ℚ) ∈ stored.map Prod.fst := by decide +kernel
  have hq : UnitLength (![4 / 5, 3 / 5] : Vec 2 ℚ) := by decide +kernel
  have hne : "p" ≠ "q" := by decide
  have htop : (oneNeighbour false).topK = (1 : Nat) := rfl
  have hiff := reciprocal_iff hsearch (by decide +kernel) (by decide +kernel) hc hq rfl hne htop
      (le_refl 1) (by decide +kernel)
  exact ((hiff.mpr (by decide +kernel)).2 (by decide +kernel)).trans (by decide +kernel)

/-- A query that is no neighbour has the greatest score where the scores grow
with the distance; and with fewer vectors stored than neighbours asked for, a
query farther off than all of them has the least, though nothing is closer. -/
theorem neighbours_misjudged :
    ((oneNeighbour true).evaluation "p" "q" ![0, 1] ![1, 0] = .ok 4 ∧ 1 ≤ closer stored ![1, 0] ![0, 1] ∧
      (oneNeighbour true).range.1 = 0) ∧
    let e : KReciprocalEvaluation 2 ℚ := { search := exactSearch stored, maxDistance := 4, sqrt := id }
    e.evaluation "p" "q" ![0, 1] ![1, 0] = .ok 0 ∧ closer stored ![1, 0] ![0, 1] < 3 ∧
      searchDistance e.maxDistance e.positive (euclideanDistanceCalculate ![0, 1] ![1, 0]) = 2 := by
  decide +kernel

end KReciprocalEvaluation

end GptCache.Evaluation
