/-
Hit decisions in other units.

An evaluator can give its scores and their range in other units, `a * x + b`
for `x`. `adapt` compares a score with a part of the width of the range, cut
off at the ends of the range, and leaves out where the range starts
(`rankThreshold`). In other units that is another score: the part is another
as it is rounded, and stands for a score `b / a` below, cut off at the same ends
(`rankThreshold_rescale`). So the decision about a candidate changes just when
its score is between the two (`units_iff`).
-/
import Mathlib.Tactic.FieldSimp
import Mathlib.Tactic.Linarith
import GptCache.Adapter.Adapt

namespace GptCache

open Caches (onData onOutside onReport timeCal)

variable {B E R H D X : Type}

/-! ## Units -/

/-- The evaluator in other units. -/
def SimilarityEvaluation.rescale (a b : ℚ) (e : SimilarityEvaluation B E R D) : SimilarityEvaluation B E R D where
  evaluation := fun query cached extra => e.evaluation query cached extra >>= fun score => pure (a * score + b)
  range := (a * e.range.1 + b, a * e.range.2 + b)

def Core.Cache.rescale (a b : ℚ) (c : Core.Cache B E R H D) : Core.Cache B E R H D :=
  { c with similarityEvaluation := c.similarityEvaluation.rescale a b }

/-- `x`, or the end of the range it is beyond. -/
def clamp (range : ℚ × ℚ) (x : ℚ) : ℚ := if x > range.2 then range.2 else if x < range.1 then range.1 else x

/-- What `adapt` takes of the width of the range. -/
def widthPart (range : ℚ × ℚ) (similarityThreshold cacheFactor : ℚ) : ℚ :=
  Binary64.round (Binary64.round (Binary64.round (range.2 - range.1) * similarityThreshold) * cacheFactor)

theorem rankThreshold_eq (range : ℚ × ℚ) (similarityThreshold cacheFactor : ℚ) :
    rankThreshold range similarityThreshold cacheFactor =
      clamp range (widthPart range similarityThreshold cacheFactor) := rfl

theorem clamp_rescale {a : ℚ} (ha : 0 < a) (b : ℚ) (range : ℚ × ℚ) (x : ℚ) :
    clamp (a * range.1 + b, a * range.2 + b) (a * x + b) = a * clamp range x + b := by
  have hlt : ∀ y z : ℚ, a * y + b < a * z + b ↔ y < z := fun y z => by
    rw [add_lt_add_iff_right, mul_lt_mul_iff_right₀ ha]
  simp only [clamp, gt_iff_lt, hlt]
  split_ifs <;> rfl

theorem rescale_le_iff {a : ℚ} (ha : 0 < a) {b x y : ℚ} : a * x + b ≤ a * y + b ↔ x ≤ y := by
  rw [add_le_add_iff_right]
  exact ⟨fun h => le_of_mul_le_mul_left h ha, fun h => mul_le_mul_of_nonneg_left h ha.le⟩

/-- The score that the part of the width stands for in other units. -/
def rescaledPart (a b : ℚ) (range : ℚ × ℚ) (similarityThreshold cacheFactor : ℚ) : ℚ :=
  (widthPart (a * range.1 + b, a * range.2 + b) similarityThreshold cacheFactor - b) / a

/-- In other units the threshold is that score, cut off. -/
theorem rankThreshold_rescale {a : ℚ} (ha : 0 < a) (b : ℚ) (range : ℚ × ℚ) (similarityThreshold cacheFactor : ℚ) :
    rankThreshold (a * range.1 + b, a * range.2 + b) similarityThreshold cacheFactor =
      a * clamp range (rescaledPart a b range similarityThreshold cacheFactor) + b := by
  rw [rankThreshold_eq, ← clamp_rescale ha]
  congr 1
  rw [rescaledPart, mul_div_cancel₀ _ ha.ne', sub_add_cancel]

/-- From the lower of two thresholds on and below the higher. -/
def Between (t t' score : ℚ) : Prop := min t t' ≤ score ∧ score < max t t'

instance (t t' score : ℚ) : Decidable (Between t t' score) := inferInstanceAs (Decidable (_ ∧ _))

theorem not_between_iff {t t' score : ℚ} : ¬ Between t t' score ↔ (t ≤ score ↔ t' ≤ score) := by
  unfold Between
  rcases le_total t t' with h | h
  · rw [min_eq_left h, max_eq_right h, not_and, not_lt]
    exact ⟨fun hb => ⟨hb, h.trans⟩, fun hb => hb.mp⟩
  · rw [min_eq_right h, max_eq_left h, not_and, not_lt]
    exact ⟨fun hb => ⟨h.trans, hb⟩, fun hb => hb.mpr⟩

/-! ## Verdicts -/

/-- What the loop finds out about a candidate: its score, where it gets one,
and the answer, where it is accepted. -/
structure Verdict (B E R : Type) where
  score : Option ℚ
  answer : Option (CacheAnswer B E R)

def CacheAnswer.rescale (a b : ℚ) (answer : CacheAnswer B E R) : CacheAnswer B E R :=
  { answer with rank := a * answer.rank + b }

def Verdict.rescale (a b : ℚ) (v : Verdict B E R) : Verdict B E R :=
  ⟨v.score.map fun score => a * score + b, v.answer.map (CacheAnswer.rescale a b)⟩

section

variable [DecidableEq E] (place : Nat) (c : Core.Cache B E R H D) (r : Request B) (k : Embedded B E)

/-- `rankOne` up to the comparison: the score, the answer and the entry. -/
def scoreOne (searchData : R) : Exec PyError (Caches D X) (Option (ℚ × Content B × Entry B E)) := do
  let found ← timeCal place .data (onData place
    (c.dataManager.getScalarData searchData (r.context.extra.get? "get_scalar_data") r.session))
  match found with
  | none => pure none
  | some entry => do
    let healthy ← if c.config.dataCheck then onData place (cacheHealthCheck c entry.embeddingData searchData)
      else pure true
    if healthy then do
      let (query, cached) ← Exec.ofExcept (evalData r k searchData entry)
      let rank ← timeCal place .evaluation (onData place
        (c.similarityEvaluation.evaluation query cached (r.context.extra.get? "evaluation_func")))
      pure (some (rank, cached.answer, entry))
    else pure none

/-- The rest of `rankOne`. -/
def acceptOne (threshold : ℚ) (searchData : R) :
    Option (ℚ × Content B × Entry B E) → Exec PyError (Caches D X) (Verdict B E R)
  | none => pure ⟨none, none⟩
  | some (rank, answer, entry) =>
    if threshold ≤ rank then
      onData place (c.dataManager.hitCacheCallback searchData) >>= fun _ =>
      pure ⟨some rank, some ⟨rank, answer, searchData, entry⟩⟩
    else pure ⟨some rank, none⟩

def judgeOne (threshold : ℚ) (searchData : R) : Exec PyError (Caches D X) (Verdict B E R) :=
  scoreOne place c r k searchData >>= acceptOne place c threshold searchData

/-- The loop of `adapt` over the candidates. -/
def judge (cacheFactor : ℚ) (found : List R) : Exec PyError (Caches D X) (List (Verdict B E R)) :=
  Exec.collect (judgeOne place c r k
    (rankThreshold c.similarityEvaluation.range c.config.similarityThreshold cacheFactor)) found

theorem rankOne_eq (threshold : ℚ) (searchData : R) :
    (rankOne place c r k threshold searchData : Exec PyError (Caches D X) _) =
      judgeOne place c r k threshold searchData >>= fun v => pure v.answer := by
  simp only [rankOne, judgeOne, scoreOne, Exec.bind_assoc]
  congr 1
  funext found
  cases found with
  | none => rfl
  | some entry =>
    dsimp only
    split
    all_goals
      rw [Exec.bind_assoc]
      refine congrArg _ (funext fun healthy => ?_)
      cases healthy with
      | false => rfl
      | true =>
        simp only [if_true, Exec.bind_assoc]
        refine congrArg _ (funext fun data => congrArg _ (funext fun rank => ?_))
        rw [Exec.pure_bind, acceptOne]
        split
        · rw [Exec.bind_assoc]
          rfl
        · rfl

/-- The answers of the search are those of the loop, sorted. -/
theorem filterMap_rankOne (cacheFactor : ℚ) (found : List R) :
    Exec.filterMap (rankOne place c r k
      (rankThreshold c.similarityEvaluation.range c.config.similarityThreshold cacheFactor)) found =
      judge place c r k cacheFactor found >>= fun vs =>
        (pure (vs.filterMap Verdict.answer) : Exec PyError (Caches D X) _) := by
  rw [judge, ← Exec.collect_filterMap]
  congr 1
  funext searchData
  exact rankOne_eq place c r k _ searchData

/-! ## One candidate in both units -/

variable {place c r k} {a b : ℚ}

theorem timeCal_map {α β : Type} (report : Report → Report) (m : Exec PyError D α) (f : α → β) :
    (timeCal place report (onData place (m >>= fun x => pure (f x))) : Exec PyError (Caches D X) β) =
      timeCal place report (onData place m) >>= fun x => pure (f x) := by
  funext s
  simp only [timeCal, onData, Exec.zoom, bind, Exec.andThen]
  rcases m (s.levels place).data with _ | ⟨_ | _, _⟩ <;> rfl

/-- The score in other units. -/
def rescaleScored (a b : ℚ) : Option (ℚ × Content B × Entry B E) → Option (ℚ × Content B × Entry B E) :=
  Option.map fun scored => (a * scored.1 + b, scored.2)

theorem scoreOne_rescale (searchData : R) :
    (scoreOne place (c.rescale a b) r k searchData : Exec PyError (Caches D X) _) =
      scoreOne place c r k searchData >>= fun scored => pure (rescaleScored a b scored) := by
  simp only [scoreOne, Exec.bind_assoc]
  refine congrArg _ (funext fun found => ?_)
  cases found with
  | none => rfl
  | some entry =>
    have hrest : ∀ healthy : Exec PyError (Caches D X) Bool,
        (healthy >>= fun healthy =>
          if healthy = true then do
            let (query, cached) ← Exec.ofExcept (evalData r k searchData entry)
            let rank ← timeCal place .evaluation (onData place
              ((c.similarityEvaluation.rescale a b).evaluation query cached (r.context.extra.get? "evaluation_func")))
            pure (some (rank, cached.answer, entry))
          else pure none) =
        (healthy >>= fun healthy =>
          if healthy = true then do
            let (query, cached) ← Exec.ofExcept (evalData r k searchData entry)
            let rank ← timeCal place .evaluation (onData place
              (c.similarityEvaluation.evaluation query cached (r.context.extra.get? "evaluation_func")))
            pure (some (rank, cached.answer, entry))
          else pure none) >>= fun scored => pure (rescaleScored a b scored) := by
      intro healthy
      rw [Exec.bind_assoc]
      refine congrArg _ (funext fun healthy => ?_)
      cases healthy with
      | false => rfl
      | true =>
        simp only [if_true, Exec.bind_assoc]
        refine congrArg _ (funext fun data => ?_)
        rw [SimilarityEvaluation.rescale, timeCal_map, Exec.bind_assoc]
        rfl
    by_cases hcheck : c.config.dataCheck = true
    · simp only [Core.Cache.rescale, hcheck, if_true]
      exact hrest (onData place (cacheHealthCheck c _ searchData))
    · simp only [Core.Cache.rescale, hcheck]
      exact hrest (pure true)

/-- A score not between the thresholds: the same is done, the verdict the same in other units. -/
theorem judgeOne_agrees (ha : 0 < a) {t t' : ℚ} {searchData : R} {s s₁ : Caches D X} {v : Verdict B E R}
    (h : judgeOne place c r k t searchData s = some (.ok v, s₁)) (hv : ∀ score ∈ v.score, ¬ Between t t' score) :
    judgeOne place (c.rescale a b) r k (a * t' + b) searchData s = some (.ok (v.rescale a b), s₁) := by
  obtain ⟨scored, s', hscore, haccept⟩ := Exec.bind_ok.mp h
  rw [judgeOne, scoreOne_rescale, Exec.bind_assoc, Exec.bind_of_ok _ hscore, Exec.pure_bind]
  cases scored with
  | none =>
    obtain ⟨rfl, rfl⟩ := Exec.pure_ok.mp haccept
    rfl
  | some scored =>
    obtain ⟨rank, answer, entry⟩ := scored
    simp only [acceptOne] at haccept
    by_cases hrank : t ≤ rank
    · rw [if_pos hrank] at haccept
      obtain ⟨u, s₂, hhit, haccept⟩ := Exec.bind_ok.mp haccept
      obtain ⟨rfl, rfl⟩ := Exec.pure_ok.mp haccept
      have hrank' := (not_between_iff.mp (hv rank rfl)).mp hrank
      simp only [rescaleScored, Option.map_some, acceptOne, if_pos ((rescale_le_iff ha).mpr hrank')]
      exact Exec.bind_of_ok _ hhit
    · rw [if_neg hrank] at haccept
      obtain ⟨rfl, rfl⟩ := Exec.pure_ok.mp haccept
      have hrank' := (not_between_iff.mp (hv rank rfl)).not.mp hrank
      simp only [rescaleScored, Option.map_some, acceptOne, if_neg ((rescale_le_iff ha).not.mpr hrank')]
      rfl

omit [DecidableEq E] in
theorem acceptOne_ok {t rank : ℚ} {searchData : R} {answer : Content B} {entry : Entry B E} {s s₁ : Caches D X}
    {v : Verdict B E R} (h : acceptOne place c t searchData (some (rank, answer, entry)) s = some (.ok v, s₁)) :
    v.score = some rank ∧ (v.answer.isSome = true ↔ t ≤ rank) := by
  simp only [acceptOne] at h
  by_cases hrank : t ≤ rank
  · rw [if_pos hrank] at h
    obtain ⟨u, s₂, -, h⟩ := Exec.bind_ok.mp h
    obtain ⟨rfl, -⟩ := Exec.pure_ok.mp h
    exact ⟨rfl, by simp [hrank]⟩
  · rw [if_neg hrank] at h
    obtain ⟨rfl, -⟩ := Exec.pure_ok.mp h
    exact ⟨rfl, by simp [hrank]⟩

/-- A score between them: one of the two accepts the candidate, and the other refuses it. -/
theorem judgeOne_differs (ha : 0 < a) {t t' : ℚ} {searchData : R} {s s₁ s₁' : Caches D X} {v v' : Verdict B E R}
    (h : judgeOne place c r k t searchData s = some (.ok v, s₁))
    (h' : judgeOne place (c.rescale a b) r k (a * t' + b) searchData s = some (.ok v', s₁')) {score : ℚ}
    (hscore : score ∈ v.score) (hbetween : Between t t' score) : v'.answer.isSome ≠ v.answer.isSome := by
  obtain ⟨scored, s', hscored, haccept⟩ := Exec.bind_ok.mp h
  rw [judgeOne, scoreOne_rescale, Exec.bind_assoc, Exec.bind_of_ok _ hscored, Exec.pure_bind] at h'
  cases scored with
  | none =>
    obtain ⟨rfl, rfl⟩ := Exec.pure_ok.mp haccept
    cases hscore
  | some scored =>
    obtain ⟨rank, answer, entry⟩ := scored
    obtain ⟨hrank, hsome⟩ := acceptOne_ok haccept
    obtain ⟨-, hsome'⟩ := acceptOne_ok h'
    obtain rfl : rank = score := Option.some.inj (hrank.symm.trans hscore)
    intro heq
    refine not_between_iff.not.mp (not_not.mpr hbetween) ?_
    rw [← hsome, ← rescale_le_iff ha (b := b), ← hsome', heq]

/-! ## All candidates in both units -/

theorem collect_agrees (ha : 0 < a) {t t' : ℚ} : ∀ (found : List R) {s s₁ : Caches D X} {vs : List (Verdict B E R)},
    Exec.collect (judgeOne place c r k t) found s = some (.ok vs, s₁) →
      (∀ v ∈ vs, ∀ score ∈ v.score, ¬ Between t t' score) →
      Exec.collect (judgeOne place (c.rescale a b) r k (a * t' + b)) found s =
        some (.ok (vs.map (Verdict.rescale a b)), s₁)
  | [], s, s₁, vs, h, _ => by
    obtain ⟨rfl, rfl⟩ := Exec.pure_ok.mp h
    rfl
  | searchData :: found, s, s₁, vs, h, hvs => by
    obtain ⟨v, s₂, hone, h⟩ := Exec.bind_ok.mp h
    obtain ⟨vs, s₃, hrest, h⟩ := Exec.bind_ok.mp h
    obtain ⟨rfl, rfl⟩ := Exec.pure_ok.mp h
    obtain ⟨hv, hvs⟩ := List.forall_mem_cons.mp hvs
    rw [Exec.collect, Exec.bind_of_ok _ (judgeOne_agrees ha hone hv),
      Exec.bind_of_ok _ (collect_agrees ha found hrest hvs)]
    rfl

theorem collect_differs (ha : 0 < a) {t t' : ℚ} : ∀ (found : List R) {s s₁ s₁' : Caches D X}
    {vs vs' : List (Verdict B E R)}, Exec.collect (judgeOne place c r k t) found s = some (.ok vs, s₁) →
      Exec.collect (judgeOne place (c.rescale a b) r k (a * t' + b)) found s = some (.ok vs', s₁') →
      vs'.map (fun v => v.answer.isSome) = vs.map (fun v => v.answer.isSome) →
      ∀ v ∈ vs, ∀ score ∈ v.score, ¬ Between t t' score
  | [], s, s₁, s₁', vs, vs', h, _, _ => by
    obtain ⟨rfl, -⟩ := Exec.pure_ok.mp h
    simp
  | searchData :: found, s, s₁, s₁', vs, vs', h, h', hsame => by
    obtain ⟨v, s₂, hone, h⟩ := Exec.bind_ok.mp h
    obtain ⟨vs, s₃, hrest, h⟩ := Exec.bind_ok.mp h
    obtain ⟨rfl, rfl⟩ := Exec.pure_ok.mp h
    obtain ⟨v', s₂', hone', h'⟩ := Exec.bind_ok.mp h'
    obtain ⟨vs', s₃', hrest', h'⟩ := Exec.bind_ok.mp h'
    obtain ⟨rfl, rfl⟩ := Exec.pure_ok.mp h'
    obtain ⟨hhead, htail⟩ := List.cons.inj hsame
    have hv : ∀ score ∈ v.score, ¬ Between t t' score := fun score hscore hbetween =>
      judgeOne_differs ha hone hone' hscore hbetween hhead
    -- So far the same was done in both units.
    have hagrees := judgeOne_agrees (b := b) ha hone hv
    rw [hone'] at hagrees
    cases hagrees
    exact List.forall_mem_cons.mpr ⟨hv, collect_differs ha found hrest hrest' htail⟩

end

/-! ## Who is accepted -/

/-- The accepted answers with their places among the candidates, sorted as `adapt` sorts them. -/
def ranking (vs : List (Verdict B E R)) : List (CacheAnswer B E R × Nat) :=
  (vs.zipIdx.filterMap fun v => v.1.answer.map fun answer => (answer, v.2)).insertionSort
    fun p q => q.1.rank ≤ p.1.rank

/-- The places of the accepted candidates, the best first. -/
def acceptedPlaces (vs : List (Verdict B E R)) : List Nat := (ranking vs).map Prod.snd

theorem map_fst_zipIdx_filterMap (vs : List (Verdict B E R)) (n : Nat) :
    ((vs.zipIdx n).filterMap fun v => v.1.answer.map fun answer => (answer, v.2)).map Prod.fst =
      vs.filterMap Verdict.answer := by
  induction vs generalizing n with
  | nil => rfl
  | cons v vs ih => cases hv : v.answer <;> simp [hv, ih]

/-- The answers of the ranking are the list `adapt` goes on with. -/
theorem ranking_answers (vs : List (Verdict B E R)) :
    (ranking vs).map Prod.fst = sortAnswers (vs.filterMap Verdict.answer) := by
  rw [ranking, sortAnswers, ← map_fst_zipIdx_filterMap vs 0]
  exact List.map_insertionSort _ _ Prod.fst _ fun _ _ _ _ => Iff.rfl

theorem mem_acceptedPlaces {vs : List (Verdict B E R)} {i : Nat} :
    i ∈ acceptedPlaces vs ↔ ∃ v, vs[i]? = some v ∧ v.answer.isSome = true := by
  simp only [acceptedPlaces, ranking, List.mem_map, List.mem_insertionSort, List.mem_filterMap, Option.map_eq_some_iff]
  constructor
  · rintro ⟨_, ⟨⟨v, j⟩, hmem, answer, hanswer, rfl⟩, rfl⟩
    exact ⟨v, List.mem_zipIdx_iff_getElem?.mp hmem, by rw [hanswer]; rfl⟩
  · rintro ⟨v, hv, hsome⟩
    obtain ⟨answer, hanswer⟩ := Option.isSome_iff_exists.mp hsome
    exact ⟨(answer, i), ⟨(v, i), List.mem_zipIdx_iff_getElem?.mpr hv, answer, hanswer, rfl⟩, rfl⟩

theorem ranking_rescale {a : ℚ} (ha : 0 < a) (b : ℚ) (vs : List (Verdict B E R)) :
    ranking (vs.map (Verdict.rescale a b)) = (ranking vs).map fun p => (p.1.rescale a b, p.2) := by
  have hkept : ((vs.map (Verdict.rescale a b)).zipIdx.filterMap fun v => v.1.answer.map fun answer => (answer, v.2)) =
      (vs.zipIdx.filterMap fun v => v.1.answer.map fun answer => (answer, v.2)).map
        fun p => (p.1.rescale a b, p.2) := by
    rw [List.zipIdx_map, List.filterMap_map, List.map_filterMap]
    congr 1
    funext v
    simp only [Function.comp, Prod.map, Verdict.rescale, Option.map_map, id]
    rfl
  rw [ranking, hkept, ranking]
  refine (List.map_insertionSort _ _ _ _ fun p _ q _ => ?_).symm
  exact (rescale_le_iff ha).symm

theorem acceptedPlaces_rescale {a : ℚ} (ha : 0 < a) (b : ℚ) (vs : List (Verdict B E R)) :
    acceptedPlaces (vs.map (Verdict.rescale a b)) = acceptedPlaces vs := by
  rw [acceptedPlaces, ranking_rescale ha, List.map_map]
  rfl

theorem isSome_eq_of_acceptedPlaces {vs vs' : List (Verdict B E R)} (hlen : vs'.length = vs.length)
    (h : acceptedPlaces vs' = acceptedPlaces vs) :
    vs'.map (fun v => v.answer.isSome) = vs.map fun v => v.answer.isSome := by
  have hplace : ∀ (us : List (Verdict B E R)) (i : Nat) (hi : i < us.length),
      us[i].answer.isSome = true ↔ i ∈ acceptedPlaces us := by
    intro us i hi
    rw [mem_acceptedPlaces]
    exact ⟨fun hsome => ⟨us[i], List.getElem?_eq_getElem hi, hsome⟩, fun ⟨v, hv, hsome⟩ => by
      rw [List.getElem?_eq_getElem hi] at hv
      exact Option.some.inj hv ▸ hsome⟩
  refine List.ext_getElem (by simp [hlen]) fun i hi hi' => ?_
  simp only [List.length_map] at hi hi'
  rw [List.getElem_map, List.getElem_map, Bool.eq_iff_iff, hplace vs' i hi, hplace vs i hi', h]

/-! ## Decisions -/

section

variable [DecidableEq E] (place : Nat) (c : Core.Cache B E R H D) (r : Request B) (k : Embedded B E)

/-- The candidates `adapt` accepts of those found, where its loop returns. -/
def accepted (cacheFactor : ℚ) (found : List R) (s : Caches D X) : Option (List Nat) :=
  match judge place c r k cacheFactor found s with
  | some (.ok vs, _) => some (acceptedPlaces vs)
  | _ => none

/-- What the loop answers is the ranking of the accepted candidates. -/
theorem searchAnswers_eq (rt : Runtime B X) {embedding : E} (hk : k.embeddingData = some embedding)
    (hskip : r.cacheSkip.truthy rt = false) :
    (searchAnswers rt place c r k : Exec PyError (Caches D X) _) = (do
      let (topK, kwargs) := r.kwargs.pop "top_k" (.num (if r.userTemperature && !r.userTopK then 5 else -1))
      let found ← timeCal place .search (onData place
        (c.dataManager.search embedding (r.context.extra.get? "search_func") topK))
      let factor ← Exec.ofExcept r.cacheFactor.asNumber
      let vs ← judge place c r k factor (found.getD [])
      pure ((ranking vs).map Prod.fst, kwargs)) := by
  simp only [searchAnswers, hk, hskip, Bool.false_eq_true, if_false, filterMap_rankOne, Exec.bind_assoc,
    Exec.pure_bind, ranking_answers]

variable {place c r k}

/-- Where a search for answers returned, its loop did; and if no score was
between the two thresholds, in other units the same are found, with their
ranks in these units. -/
theorem searchAnswers_rescale {a : ℚ} (ha : 0 < a) (b : ℚ) (rt : Runtime B X) {embedding : E}
    (hk : k.embeddingData = some embedding)
    (hskip : r.cacheSkip.truthy rt = false) {s s₁ : Caches D X} {answers : List (CacheAnswer B E R)} {kwargs : Kwargs B}
    (h : searchAnswers rt place c r k s = some (.ok (answers, kwargs), s₁)) :
    ∃ factor found s' vs, judge place c r k factor found s' = some (.ok vs, s₁) ∧ answers = (ranking vs).map Prod.fst ∧
      ((∀ v ∈ vs, ∀ score ∈ v.score, ¬ Between
          (clamp c.similarityEvaluation.range
            (widthPart c.similarityEvaluation.range c.config.similarityThreshold factor))
          (clamp c.similarityEvaluation.range
            (rescaledPart a b c.similarityEvaluation.range c.config.similarityThreshold factor))
          score) →
        searchAnswers rt place (c.rescale a b) r k s =
          some (.ok (answers.map (CacheAnswer.rescale a b), kwargs), s₁)) := by
  rw [searchAnswers_eq place c r k rt hk hskip] at h
  obtain ⟨found, s₂, hfound, h⟩ := Exec.bind_ok.mp h
  obtain ⟨factor, s₃, hfactor, h⟩ := Exec.bind_ok.mp h
  obtain ⟨vs, s₄, hjudge, h⟩ := Exec.bind_ok.mp h
  obtain ⟨hanswers, rfl⟩ := Exec.pure_ok.mp h
  obtain ⟨rfl, rfl⟩ := Prod.mk.inj hanswers
  refine ⟨factor, found.getD [], s₃, vs, hjudge, rfl, fun hvs => ?_⟩
  have hloop : judge place (c.rescale a b) r k factor (found.getD []) s₃ =
      some (.ok (vs.map (Verdict.rescale a b)), s₄) := by
    rw [judge]
    exact (congrArg (fun t => Exec.collect (judgeOne place (c.rescale a b) r k t) (found.getD []) s₃)
      (rankThreshold_rescale ha b _ _ _)).trans (collect_agrees ha _ hjudge hvs)
  rw [searchAnswers_eq place (c.rescale a b) r k rt hk hskip]
  refine (Exec.bind_of_ok _ hfound).trans ((Exec.bind_of_ok _ hfactor).trans ((Exec.bind_of_ok _ hloop).trans ?_))
  rw [ranking_rescale ha, List.map_map, List.map_map]
  rfl

/-- **Units.** The loop over the candidates returned. With the evaluator in
other units it accepts the same ones, in the same order, just when no score is
between the part of the range's width it asks for and the score that the part
stands for in the other units, both cut off at the ends of the range. -/
theorem units_iff {a : ℚ} (ha : 0 < a) (b cacheFactor : ℚ) {found : List R} {s s₁ : Caches D X}
    {vs : List (Verdict B E R)} (h : judge place c r k cacheFactor found s = some (.ok vs, s₁)) :
    accepted place (c.rescale a b) r k cacheFactor found s = accepted place c r k cacheFactor found s ↔
      ∀ v ∈ vs, ∀ score ∈ v.score, ¬ Between
        (clamp c.similarityEvaluation.range
          (widthPart c.similarityEvaluation.range c.config.similarityThreshold cacheFactor))
        (clamp c.similarityEvaluation.range
          (rescaledPart a b c.similarityEvaluation.range c.config.similarityThreshold cacheFactor)) score := by
  set t := clamp c.similarityEvaluation.range
    (widthPart c.similarityEvaluation.range c.config.similarityThreshold cacheFactor) with ht
  set t' := clamp c.similarityEvaluation.range
    (rescaledPart a b c.similarityEvaluation.range c.config.similarityThreshold cacheFactor) with ht'
  have hloop : judge place (c.rescale a b) r k cacheFactor found s =
      Exec.collect (judgeOne place (c.rescale a b) r k (a * t' + b)) found s := by
    rw [judge]
    congr 2
    exact rankThreshold_rescale ha b _ _ _
  have haccepted : accepted place c r k cacheFactor found s = some (acceptedPlaces vs) := by
    simp only [accepted, h]
  rw [haccepted, accepted, hloop]
  constructor
  · intro heq
    split at heq
    · rename_i vs' s₁' h'
      have hlen : vs'.length = vs.length := by rw [Exec.length_of_collect h', Exec.length_of_collect h]
      exact collect_differs ha found h h' (isSome_eq_of_acceptedPlaces hlen (Option.some.inj heq))
    · cases heq
  · intro hvs
    rw [collect_agrees ha found h hvs]
    exact congrArg some (acceptedPlaces_rescale ha b vs)

end

/-- A cache whose candidates are their own scores, from 0 to 1. -/
def scoresCache : Core.Cache Unit Unit ℚ Unit Unit where
  cacheEnableFunc := fun _ => true
  preEmbeddingFunc := fun _ _ _ => pure (.single (.str "q"))
  embeddingFunc := fun _ _ => pure ()
  dataManager :=
    { search := fun _ _ _ => pure (some [1 / 2])
      getScalarData := fun _ _ _ => pure (some ⟨.plain (.str "q"), [⟨.str "a", .STR⟩], some ()⟩)
      hitCacheCallback := fun _ => pure ()
      save := fun _ _ _ _ _ => pure ()
      addSession := fun _ _ _ => pure ()
      reportCache := fun _ _ _ _ _ => pure ()
      flush := pure ()
      o := .ok false
      v := .error ⟨.AttributeError, ""⟩ }
  similarityEvaluation := ⟨fun _ cached _ => pure cached.searchResult, (0, 1)⟩
  postProcess := .temperatureSoftmax
  config := {}

/-- A request for nothing in particular. -/
def plainRequest : Request Unit :=
  { searchOnly := .bool false, userTemperature := false, userTopK := false, temperature := 0, session := none
    cacheEnable := true, context := {}, cacheSkip := .bool false, cacheFactor := .num 1, kwargs := .empty }

def emptyCaches : Caches Unit Unit := ⟨fun _ => ⟨(), {}⟩, ()⟩

/-- Three candidates at the default threshold, on the range from 0 to 1 and on that from 1 to 3. -/
theorem units_iff_three :
    accepted 0 (scoresCache.rescale 2 1) plainRequest ⟨.str "q", .str "q", some ()⟩ 1 [9 / 10, 1 / 5, 1] emptyCaches =
      accepted 0 scoresCache plainRequest ⟨.str "q", .str "q", some ()⟩ 1 [9 / 10, 1 / 5, 1] emptyCaches := by
  have hscores : ((judge 0 scoresCache plainRequest ⟨.str "q", .str "q", some ()⟩ 1 [9 / 10, 1 / 5, 1] emptyCaches).bind
      fun o => o.1.toOption).any (fun vs => decide (∀ v ∈ vs, ∀ score ∈ v.score,
        ¬ Between (clamp (0, 1) (widthPart (0, 1) (Binary64.round (4 / 5)) 1))
          (clamp (0, 1) (rescaledPart 2 1 (0, 1) (Binary64.round (4 / 5)) 1)) score)) =
      true := by decide +kernel
  rcases h : judge 0 scoresCache plainRequest ⟨.str "q", .str "q", some ()⟩ 1 [9 / 10, 1 / 5, 1] emptyCaches with
    _ | ⟨_ | vs, s₁⟩
  · rw [h] at hscores
    cases hscores
  · rw [h] at hscores
    cases hscores
  · rw [h] at hscores
    exact (units_iff (by norm_num) 1 1 h).mpr (of_decide_eq_true hscores)

/-- At the default threshold a candidate with the score 1/2 is refused on the
range from 0 to 1, and accepted on the range from 1 to 2. -/
theorem units_change :
    accepted 0 scoresCache plainRequest ⟨.str "q", .str "q", some ()⟩ 1 [1 / 2] emptyCaches = some [] ∧
      accepted 0 (scoresCache.rescale 1 1) plainRequest ⟨.str "q", .str "q", some ()⟩ 1 [1 / 2] emptyCaches =
        some [0] := by
  decide +kernel

-- Of a score on the threshold that is rounded another way when it is tenfold.
example : Between (clamp (0, 10) (widthPart (0, 10) (Binary64.round (55 / 100)) 1))
    (clamp (0, 10) (rescaledPart 10 0 (0, 10) (Binary64.round (55 / 100)) 1)) (55 / 10) := by
  decide +kernel

end GptCache
