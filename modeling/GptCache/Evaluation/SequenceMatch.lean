/-
`SequenceMatchEvaluation` (gptcache/similarity_evaluation/sequence_match.py):
two conversations are compared part by part, the last with the last, each
pair with a weight of its own.

With fewer pairs than weights the weights that are left over are made up for
by multiplying the others by one over their sum, in doubles. The score is an
average of numbers between 0 and 4 where the weights that are used add up to 1
as they are rounded (`Averages`), and may be out of range, or not there at all,
where they do not (`score_iff`).
-/
import GptCache.Evaluation.Distance
import GptCache.Lib.Floating
import GptCache.Python

namespace GptCache.Evaluation

open Floating (sum ofRat total)

/-- `str.split`: `skip` characters of a separator are still to be passed over,
`current` is what the part under way has so far. -/
def splitFrom (sep : List Char) : Nat → List Char → List Char → List (List Char)
  | _, current, [] => [current]
  | skip + 1, current, _ :: s => splitFrom sep skip current s
  | 0, current, c :: s =>
    if sep.isPrefixOf (c :: s) then current :: splitFrom sep (sep.length - 1) [] s
    else splitFrom sep 0 (current ++ [c]) s

def split (s sep : List Char) : List (List Char) := splitFrom sep 0 [] s

/-- The parts of a question that are not empty. -/
def contents (question : List Char) : List (List Char) :=
  (split question "USER: ".toList).filter fun content => content.length > 0

/-- The first `length` weights, divided by their sum. -/
def reweight (weights : List Double) (length : Nat) : Except PyError (List Double) :=
  if length ≥ weights.length then .ok weights
  else
    let sumWs := sum (weights.take length)
    (weights.take length).mapM fun w => if sumWs = 0 then .error ⟨.ZeroDivisionError, ""⟩ else .ok (w * sumWs⁻¹)

/-- Scores are computed in the format of the embeddings. -/
structure SequenceMatchEvaluation (n : Nat) (F : Type) (f : Format) where
  weights : List Double
  toEmbeddings : List Char → Vec n F
  /-- numpy's square root. -/
  sqrt : F → F
  /-- The number numpy has for a squared distance. -/
  float : F → Floating f

/-- `range`. -/
def sequenceRange : ℚ × ℚ := (0, 4)

namespace SequenceMatchEvaluation

section

variable {n : Nat} {F : Type} [Field F] {f : Format} (e : SequenceMatchEvaluation n F f)

/-- The normalized embeddings of the parts, the last first. -/
def embeddings (question : List Char) : List (Vec n F) :=
  ((contents question).map fun content => normalize e.sqrt (e.toEmbeddings content)).reverse

/-- How many parts are compared. -/
def length (srcQuestion cacheQuestion : List Char) : Nat :=
  min (min (contents srcQuestion).length (contents cacheQuestion).length) e.weights.length

/-- `4 - euclidean_distance_calculate(src, cached)`. -/
def closeness (src cached : Vec n F) : Floating f := ofRat 4 - e.float (euclideanDistanceCalculate src cached)

/-- `evaluation`, of two questions. -/
def evaluation (srcQuestion cacheQuestion : List Char) : Except PyError (Floating f) :=
  let length := e.length srcQuestion cacheQuestion
  if length = 0 then .error ⟨.AssertionError, ""⟩
  else
    match reweight e.weights.reverse length with
    | .error err => .error err
    | .ok ws =>
      let scores := List.zipWith e.closeness (e.embeddings srcQuestion) (e.embeddings cacheQuestion)
      .ok (sum (List.zipWith (· * ·) (scores.take length) (ws.map Floating.cast)))

end

end SequenceMatchEvaluation

/-! ## Weights -/

/-- The last `length` weights, as `reweight` leaves them, add up to 1. -/
def Averages (f : Format) (weights : List Double) (length : Nat) : Prop :=
  let last := weights.reverse.take length
  if length < weights.length then
    sum last ≠ 0 ∧ (sum (last.map fun w => (w * (sum last)⁻¹).cast) : Floating f).value = some 1
  else (sum (last.map Floating.cast) : Floating f).value = some 1

instance (f : Format) (weights : List Double) (length : Nat) : Decidable (Averages f weights length) := by
  unfold Averages
  infer_instance

theorem reweight_eq {weights : List Double} {length : Nat} (hpos : 0 < length) : reweight weights length =
    if length ≥ weights.length then .ok weights
    else if sum (weights.take length) = 0 then .error ⟨.ZeroDivisionError, ""⟩
    else .ok ((weights.take length).map (· * (sum (weights.take length))⁻¹)) := by
  unfold reweight
  by_cases hall : length ≥ weights.length
  · rw [if_pos hall, if_pos hall]
  rw [if_neg hall, if_neg hall]
  by_cases hzero : sum (weights.take length) = 0
  · obtain ⟨w, ws, hws⟩ := List.exists_cons_of_length_pos (l := weights.take length) (by rw [List.length_take]; omega)
    rw [hws] at hzero ⊢
    simp only [hzero, if_true, List.mapM_cons]
    rfl
  · simp only [if_neg hzero]
    exact List.mapM_pure

/-- What is used is an average's weights. -/
theorem averages_iff {f : Format} {weights : List Double} {length : Nat} (hpos : 0 < length)
    (hle : length ≤ weights.length) :
    Averages f weights length ↔ ∃ ws, reweight weights.reverse length = .ok ws ∧
      (sum (ws.map Floating.cast) : Floating f).value = some 1 := by
  rw [reweight_eq hpos, List.length_reverse, Averages]
  by_cases hlt : length < weights.length
  · rw [if_pos hlt, if_neg (Nat.not_le_of_lt hlt)]
    by_cases hzero : sum (weights.reverse.take length) = 0
    · simp [hzero]
    · simp [hzero, Function.comp_def]
  · rw [if_neg hlt, if_pos (Nat.le_of_not_lt hlt), List.take_of_length_le (by rw [List.length_reverse]; omega)]
    simp

/-- Numbers, none of them negative. -/
def NonNegative {f : Format} (w : Floating f) : Prop := ∃ x, w.value = some x ∧ 0 ≤ x

/-- What is left of weights that are not negative is not. -/
theorem reweight_nonneg {f : Format} {weights ws : List Double} {length : Nat} (hpos : 0 < length)
    (hnonneg : ∀ w ∈ weights, NonNegative w) (h : reweight weights length = .ok ws) :
    ∀ w ∈ ws.map (Floating.cast : Double → Floating f), ∀ x, w.value = some x → 0 ≤ x := by
  have hcast : ∀ (w : Double), (∀ x, w.value = some x → 0 ≤ x) → ∀ x, (w.cast : Floating f).value = some x → 0 ≤ x := by
    intro w hw x hx
    cases w with
    | finite y hy =>
      rw [Floating.value_ofRat_eq_some hx]
      exact Format.round_nonneg (hw y rfl)
    | inf | nan => cases hx
  have hvalue : ∀ w ∈ weights, ∀ x, w.value = some x → 0 ≤ x := fun w hw x hx => by
    obtain ⟨y, hy, hnonneg⟩ := hnonneg w hw
    cases hy.symm.trans hx
    exact hnonneg
  refine List.forall_mem_map.mpr fun w hw => hcast w ?_
  rw [reweight_eq hpos] at h
  split at h
  · cases h
    exact hvalue w hw
  split at h
  · cases h
  cases h
  obtain ⟨w', hw', rfl⟩ := List.mem_map.mp hw
  intro x hx
  obtain ⟨y, z, hy, hz, rfl⟩ := Floating.value_mul hx
  refine Format.round_nonneg (mul_nonneg (hvalue w' (List.mem_of_mem_take hw') y hy) (Floating.value_inv_nonneg ?_ hz))
  intro s hs
  obtain ⟨xs, hxs, rfl⟩ := Floating.value_sum hs
  refine Floating.total_nonneg le_rfl fun x hx => ?_
  obtain ⟨v, hv, hvx⟩ := List.mem_map.mp
    (hxs ▸ List.mem_map_of_mem hx : some x ∈ (weights.take length).map Floating.value)
  exact hvalue v (List.mem_of_mem_take hv) x hvx

theorem reweight_length {weights ws : List Double} {length : Nat} (hpos : 0 < length) (hle : length ≤ weights.length)
    (h : reweight weights length = .ok ws) : ws.length = length := by
  rw [reweight_eq hpos] at h
  split at h
  · cases h
    omega
  split at h
  · cases h
  cases h
  simp [hle]

/-! ## Averages -/

section

variable {f : Format}

theorem round_four : f.round 4 = 4 := by
  have h := Format.round_of_mantissa (f := f) (m := 1) (k := 2) (by rw [abs_one]; exact one_le_pow₀ (by norm_num))
    (f.minExponent_le.trans (by norm_num))
  norm_num at h
  exact h

theorem four_lt_bound : (4 : ℚ) < 2 ^ f.bound :=
  calc (4 : ℚ) < 2 ^ 3 := by norm_num
    _ ≤ 2 ^ f.bound := pow_le_pow_right₀ (by norm_num) f.le_bound

theorem value_four : (ofRat 4 : Floating f).value = some 4 := by
  rw [Floating.value_ofRat (by rw [round_four, abs_of_nonneg (by norm_num)]; exact four_lt_bound), round_four]

/-- A number between 0 and 4, by its weight. -/
theorem value_mul_weight {s w : Floating f} {y x : ℚ} (hs : s.value = some y) (hy : 0 ≤ y ∧ y ≤ 4)
    (hw : w.value = some x) (hx : 0 ≤ x) (hlt : 4 * x < 2 ^ f.bound) :
    (s * w).value = some (f.round (y * x)) ∧ 0 ≤ f.round (y * x) ∧ f.round (y * x) ≤ 4 * x := by
  have hnonneg : 0 ≤ y * x := mul_nonneg hy.1 hx
  have hle : f.round (y * x) ≤ 4 * x :=
    calc f.round (y * x) ≤ f.round (4 * x) := Format.round_mono hnonneg (mul_le_mul_of_nonneg_right hy.2 hx)
      _ = 4 * x := by rw [Format.round_four_mul (Floating.onGrid_of_value hw), Floating.round_of_value hw]
  refine ⟨?_, Format.round_nonneg hnonneg, hle⟩
  rw [Floating.mul_of_value hs hw, Floating.value_ofRat]
  rw [abs_of_nonneg (Format.round_nonneg hnonneg)]
  exact hle.trans_lt hlt

theorem value_zipWith : ∀ {scores ws : List (Floating f)} {xs : List ℚ}, scores.length = ws.length →
    ws.map Floating.value = xs.map some → (∀ s ∈ scores, ∃ y, s.value = some y ∧ 0 ≤ y ∧ y ≤ 4) →
    (∀ x ∈ xs, 0 ≤ x ∧ 4 * x < 2 ^ f.bound) →
    ∃ zs, (List.zipWith (· * ·) scores ws).map Floating.value = zs.map some ∧
      List.Forall₂ (fun z x => 0 ≤ z ∧ z ≤ x) zs (xs.map (4 * ·)) ∧
      ((∀ s ∈ scores, s.value = some 4) → zs = xs.map (4 * ·))
  | [], [], xs, _, hxs, _, _ => by
    obtain rfl : xs = [] := by simpa using hxs.symm
    exact ⟨[], rfl, .nil, fun _ => rfl⟩
  | s :: scores, w :: ws, [], _, hxs, _, _ => by simp at hxs
  | s :: scores, w :: ws, x :: xs, hlen, hxs, hscores, hbounds => by
    rw [List.map_cons, List.map_cons, List.cons.injEq] at hxs
    obtain ⟨⟨y, hs, hy⟩, hscores⟩ := List.forall_mem_cons.mp hscores
    obtain ⟨⟨hx, hlt⟩, hbounds⟩ := List.forall_mem_cons.mp hbounds
    obtain ⟨zs, hzs, hle, hfour⟩ := value_zipWith (Nat.succ.inj hlen) hxs.2 hscores hbounds
    obtain ⟨hz, hz0, hz4⟩ := value_mul_weight hs hy hxs.1 hx hlt
    refine ⟨f.round (y * x) :: zs, ?_, .cons ⟨hz0, hz4⟩ hle, fun hall => ?_⟩
    · rw [List.zipWith_cons_cons, List.map_cons, List.map_cons, hz, hzs]
    · obtain ⟨hs4, hall⟩ := List.forall_mem_cons.mp hall
      cases hs.symm.trans hs4
      rw [List.map_cons, hfour hall, Format.round_four_mul (Floating.onGrid_of_value hxs.1),
        Floating.round_of_value hxs.1]

theorem onGrid_of_values {ws : List (Floating f)} {xs : List ℚ} (h : ws.map Floating.value = xs.map some) :
    ∀ x ∈ xs, f.OnGrid x := fun x hx => by
  obtain ⟨w, -, hw⟩ := List.mem_map.mp (h ▸ List.mem_map_of_mem hx : some x ∈ ws.map Floating.value)
  exact Floating.onGrid_of_value hw

theorem total_four {xs : List ℚ} (h : ∀ x ∈ xs, f.OnGrid x) : total f 0 (xs.map (4 * ·)) = 4 * total f 0 xs := by
  have hzero : f.OnGrid 0 := ⟨0, by simp⟩
  simpa using Floating.total_four_mul hzero h

/-- An average of scores between 0 and 4 is one, and 4 of scores that are 4. -/
theorem average_mem {scores ws : List (Floating f)} (hlen : scores.length = ws.length)
    (hscores : ∀ s ∈ scores, ∃ y, s.value = some y ∧ 0 ≤ y ∧ y ≤ 4) (hnonneg : ∀ w ∈ ws, ∀ x, w.value = some x → 0 ≤ x)
    (hone : (sum ws).value = some 1) : ∃ z, (sum (List.zipWith (· * ·) scores ws)).value = some z ∧ 0 ≤ z ∧ z ≤ 4 ∧
      ((∀ s ∈ scores, s.value = some 4) → z = 4) := by
  obtain ⟨xs, hxs, hsum⟩ := Floating.value_sum hone
  have hvalues : ∀ x ∈ xs, ∃ w ∈ ws, w.value = some x := fun x hx =>
    List.mem_map.mp (hxs ▸ List.mem_map_of_mem hx : some x ∈ ws.map Floating.value)
  have hxs0 : ∀ x ∈ xs, 0 ≤ x := fun x hx => by
    obtain ⟨w, hw, hvalue⟩ := hvalues x hx
    exact hnonneg w hw x hvalue
  have hbounds : ∀ x ∈ xs, 0 ≤ x ∧ 4 * x < 2 ^ f.bound := fun x hx => by
    obtain ⟨w, -, hvalue⟩ := hvalues x hx
    have hle : x ≤ total f 0 xs := Floating.le_total_of_mem le_rfl hxs0 x hx (Floating.round_of_value hvalue)
    refine ⟨hxs0 x hx, lt_of_le_of_lt ?_ four_lt_bound⟩
    linarith
  obtain ⟨zs, hzs, hle, hfour⟩ := value_zipWith hlen hxs hscores hbounds
  have htotal : total f 0 (xs.map (4 * ·)) = 4 := by rw [total_four (onGrid_of_values hxs), ← hsum, mul_one]
  have hmost : total f 0 zs ≤ 4 := (Floating.total_mono le_rfl le_rfl hle).trans_eq htotal
  have hzs0 : ∀ z ∈ zs, 0 ≤ z := ((List.forall₂_and_left _ _).mp hle).1
  refine ⟨_, Floating.sum_value hzs hzs0 (hmost.trans_lt four_lt_bound), Floating.total_nonneg le_rfl hzs0, hmost,
    fun hall => ?_⟩
  rw [hfour hall, htotal]

/-- Products with 4 that are finite are those of numbers. -/
theorem values_of_zipWith : ∀ {scores ws : List (Floating f)} {zs : List ℚ}, scores.length = ws.length →
    (∀ s ∈ scores, s.value = some 4) → (List.zipWith (· * ·) scores ws).map Floating.value = zs.map some →
    ∃ xs : List ℚ, ws.map Floating.value = xs.map some ∧ zs = xs.map (4 * ·)
  | [], [], zs, _, _, hzs => by
    obtain rfl : zs = [] := by simpa using hzs.symm
    exact ⟨[], rfl, rfl⟩
  | s :: scores, w :: ws, [], _, _, hzs => by simp at hzs
  | s :: scores, w :: ws, z :: zs, hlen, hscores, hzs => by
    rw [List.zipWith_cons_cons, List.map_cons, List.map_cons, List.cons.injEq] at hzs
    obtain ⟨hs, hscores⟩ := List.forall_mem_cons.mp hscores
    obtain ⟨xs, hxs, rfl⟩ := values_of_zipWith (Nat.succ.inj hlen) hscores hzs.2
    obtain ⟨y, x, hy, hx, rfl⟩ := Floating.value_mul hzs.1
    cases hs.symm.trans hy
    refine ⟨x :: xs, by rw [List.map_cons, hx, hxs, List.map_cons], ?_⟩
    rw [List.map_cons, Format.round_four_mul (Floating.onGrid_of_value hx), Floating.round_of_value hx]

/-- With scores that are 4 an average of 4 is one of weights that add up to 1. -/
theorem sum_of_average {scores ws : List (Floating f)} (hlen : scores.length = ws.length)
    (hscores : ∀ s ∈ scores, s.value = some 4) (hnonneg : ∀ w ∈ ws, ∀ x, w.value = some x → 0 ≤ x)
    (hfour : (sum (List.zipWith (· * ·) scores ws)).value = some 4) : (sum ws).value = some 1 := by
  obtain ⟨zs, hzs, hsum⟩ := Floating.value_sum hfour
  obtain ⟨xs, hxs, rfl⟩ := values_of_zipWith hlen hscores hzs
  rw [total_four (onGrid_of_values hxs)] at hsum
  have hone : total f 0 xs = 1 := by linarith
  have hxs0 : ∀ x ∈ xs, 0 ≤ x := fun x hx => by
    obtain ⟨w, hw, hvalue⟩ := List.mem_map.mp (hxs ▸ List.mem_map_of_mem hx : some x ∈ ws.map Floating.value)
    exact hnonneg w hw x hvalue
  rw [Floating.sum_value hxs hxs0 (by rw [hone]; exact lt_trans (by norm_num) four_lt_bound), hone]

end

/-! ## The score -/

/-- The numbers numpy has for squared distances between 0 and 4 are between
these, which are numbers of the format. -/
structure Floats {F : Type} [Field F] [LinearOrder F] {f : Format} (float : F → Floating f) : Prop where
  zero : (float 0).value = some 0
  mem : ∀ d, 0 ≤ d → d ≤ 4 → ∃ x, (float d).value = some x ∧ 0 ≤ x ∧ x ≤ 4

/-- Those next to them are. -/
theorem floats_ofRat {f : Format} : Floats (ofRat : ℚ → Floating f) where
  zero := Floating.value_zero
  mem d hzero hfour := by
    have hle : f.round d ≤ 4 := (Format.round_mono hzero hfour).trans_eq round_four
    have hnonneg : 0 ≤ f.round d := Format.round_nonneg hzero
    refine ⟨_, Floating.value_ofRat ?_, hnonneg, hle⟩
    rw [abs_of_nonneg hnonneg]
    exact hle.trans_lt four_lt_bound

namespace SequenceMatchEvaluation

section

variable {n : Nat} {F : Type} [Field F] {f : Format} {e : SequenceMatchEvaluation n F f}

/-- The embeddings of the parts that are compared. -/
def aligned (e : SequenceMatchEvaluation n F f) (srcQuestion cacheQuestion : List Char) : List (Vec n F × Vec n F) :=
  ((e.embeddings srcQuestion).zip (e.embeddings cacheQuestion)).take e.weights.length

theorem length_aligned (src cached : List Char) : (e.aligned src cached).length = e.length src cached := by
  simp only [aligned, embeddings, length, List.length_take, List.length_zip, List.length_reverse, List.length_map]
  omega

/-- What the evaluation adds up, without its weights. -/
theorem scores_eq (src cached : List Char) :
    (List.zipWith e.closeness (e.embeddings src) (e.embeddings cached)).take (e.length src cached) =
      (e.aligned src cached).map fun p => e.closeness p.1 p.2 := by
  have hzip : List.zipWith e.closeness (e.embeddings src) (e.embeddings cached) =
      ((e.embeddings src).zip (e.embeddings cached)).map fun p => e.closeness p.1 p.2 := by
    rw [List.map_zip_eq_zipWith]
    rfl
  rw [hzip, ← List.map_take, aligned]
  congr 1
  rw [List.take_eq_take_iff, ← length_aligned, aligned, List.length_take]
  omega

/-- The evaluation is the sum of the scores by the weights. -/
theorem evaluation_eq {src cached : List Char} (hpos : 0 < e.length src cached) :
    e.evaluation src cached = (reweight e.weights.reverse (e.length src cached)).map fun ws =>
      sum (List.zipWith (· * ·) ((e.aligned src cached).map fun p => e.closeness p.1 p.2) (ws.map Floating.cast)) := by
  unfold evaluation
  simp only [Nat.ne_of_gt hpos, if_false, scores_eq]
  cases reweight e.weights.reverse (e.length src cached) <;> rfl

theorem unitLength_of_mem (hunit : ∀ content, UnitLength (e.toEmbeddings content)) (hsqrt : e.sqrt 1 = 1)
    {question : List Char} {vec : Vec n F} (h : vec ∈ e.embeddings question) : UnitLength vec := by
  obtain ⟨content, -, rfl⟩ := List.mem_map.mp (List.mem_reverse.mp h)
  rw [normalize_unitLength hsqrt (hunit content)]
  exact hunit content

variable [LinearOrder F]

theorem closeness_self (hfloat : Floats e.float) (vec : Vec n F) : (e.closeness vec vec).value = some 4 := by
  rw [closeness, distance_self, Floating.sub_of_value value_four hfloat.zero, sub_zero]
  exact value_four

/-- The evaluation returns, with a score in its range and the greatest for
parts with the same embeddings. -/
def InRange (e : SequenceMatchEvaluation n F f) (src cached : List Char) : Prop :=
  ∃ score x, e.evaluation src cached = .ok score ∧ score.value = some x ∧ sequenceRange.1 ≤ x ∧ x ≤ sequenceRange.2 ∧
    ((∀ p ∈ e.aligned src cached, p.1 = p.2) → x = 4)

/-- Where all parts have the same embedding there is no other way. -/
theorem averages_of_inRange (hnonneg : ∀ w ∈ e.weights, NonNegative w) (hfloat : Floats e.float) {vec : Vec n F}
    (hsame : ∀ content, e.toEmbeddings content = vec) {src cached : List Char} (h : InRange e src cached) :
    Averages f e.weights (e.length src cached) := by
  obtain ⟨score, x, hscore, hx, -, -, hfour⟩ := h
  have hpos : 0 < e.length src cached := by
    rcases Nat.eq_zero_or_pos (e.length src cached) with hzero | hpos
    · rw [evaluation, if_pos hzero] at hscore
      cases hscore
    · exact hpos
  have hle : e.length src cached ≤ e.weights.length := min_le_right _ _
  have hreversed : ∀ w ∈ e.weights.reverse, NonNegative w := fun w hw => hnonneg w (List.mem_reverse.mp hw)
  have hembedding : ∀ question, ∀ v ∈ e.embeddings question, v = normalize e.sqrt vec := by
    intro question v hv
    obtain ⟨content, -, rfl⟩ := List.mem_map.mp (List.mem_reverse.mp hv)
    rw [hsame content]
  have hequal : ∀ p ∈ e.aligned src cached, p.1 = p.2 := fun p hp => by
    obtain ⟨hp1, hp2⟩ := List.of_mem_zip (List.mem_of_mem_take hp)
    rw [hembedding src _ hp1, hembedding cached _ hp2]
  rw [hfour hequal] at hx
  rw [evaluation_eq hpos] at hscore
  cases hws : reweight e.weights.reverse (e.length src cached) with
  | error err =>
    rw [hws] at hscore
    cases hscore
  | ok ws =>
    rw [hws] at hscore
    cases hscore
    refine (averages_iff hpos hle).mpr ⟨ws, hws, ?_⟩
    have hlen : ((e.aligned src cached).map fun p => e.closeness p.1 p.2).length =
        (ws.map (Floating.cast : Double → Floating f)).length := by
      rw [List.length_map, List.length_map, length_aligned, reweight_length hpos (by rwa [List.length_reverse]) hws]
    refine sum_of_average hlen (List.forall_mem_map.mpr fun p hp => ?_) (reweight_nonneg hpos hreversed hws) hx
    rw [hequal p hp]
    exact closeness_self hfloat p.2

variable [IsStrictOrderedRing F]

theorem closeness_mem (hfloat : Floats e.float) {l r : Vec n F} (hl : UnitLength l) (hr : UnitLength r) :
    ∃ y, (e.closeness l r).value = some y ∧ 0 ≤ y ∧ y ≤ 4 := by
  obtain ⟨x, hx, hx0, hx4⟩ := hfloat.mem _ (distance_nonneg l r) (distance_le_four hl hr)
  have hnonneg : 0 ≤ 4 - x := by linarith
  have hle : f.round (4 - x) ≤ 4 := (Format.round_mono hnonneg (by linarith)).trans_eq round_four
  have hround : 0 ≤ f.round (4 - x) := Format.round_nonneg hnonneg
  refine ⟨_, ?_, hround, hle⟩
  rw [closeness, Floating.sub_of_value value_four hx, Floating.value_ofRat]
  rw [abs_of_nonneg hround]
  exact hle.trans_lt four_lt_bound

theorem inRange_of_averages (hnonneg : ∀ w ∈ e.weights, NonNegative w) (hfloat : Floats e.float) (hsqrt : e.sqrt 1 = 1)
    (hunit : ∀ content, UnitLength (e.toEmbeddings content)) {src cached : List Char} (hpos : 0 < e.length src cached)
    (h : Averages f e.weights (e.length src cached)) : InRange e src cached := by
  have hle : e.length src cached ≤ e.weights.length := min_le_right _ _
  have hreversed : ∀ w ∈ e.weights.reverse, NonNegative w := fun w hw => hnonneg w (List.mem_reverse.mp hw)
  obtain ⟨ws, hws, hone⟩ := (averages_iff hpos hle).mp h
  have hlen : ((e.aligned src cached).map fun p => e.closeness p.1 p.2).length =
      (ws.map (Floating.cast : Double → Floating f)).length := by
    rw [List.length_map, List.length_map, length_aligned, reweight_length hpos (by rwa [List.length_reverse]) hws]
  have hscores : ∀ s ∈ (e.aligned src cached).map fun p => e.closeness p.1 p.2, ∃ y, s.value = some y ∧ 0 ≤ y ∧
      y ≤ 4 := by
    refine List.forall_mem_map.mpr fun p hp => ?_
    obtain ⟨hp1, hp2⟩ := List.of_mem_zip (List.mem_of_mem_take hp)
    exact closeness_mem hfloat (unitLength_of_mem hunit hsqrt hp1) (unitLength_of_mem hunit hsqrt hp2)
  obtain ⟨z, hz, hleast, hmost, hfour⟩ := average_mem hlen hscores (reweight_nonneg hpos hreversed hws) hone
  refine ⟨_, z, by rw [evaluation_eq hpos, hws]; rfl, hz, hleast, hmost, fun hequal => hfour ?_⟩
  refine List.forall_mem_map.mpr fun p hp => ?_
  rw [hequal p hp]
  exact closeness_self hfloat p.2

/-- **The score.** Weights that are not negative and questions with a part on
either side. With all embeddings of length 1 the evaluation returns a score in
its range, the greatest for parts with the same embeddings, just when the
weights that are used for the parts that are compared add up to 1. -/
theorem score_iff [NeZero n] (hnonneg : ∀ w ∈ e.weights, NonNegative w) (hfloat : Floats e.float) (hsqrt : e.sqrt 1 = 1)
    {src cached : List Char} (hsrc : contents src ≠ []) (hcached : contents cached ≠ []) :
    (∀ toEmbeddings : List Char → Vec n F, (∀ content, UnitLength (toEmbeddings content)) →
      InRange { e with toEmbeddings := toEmbeddings } src cached) ↔
    Averages f e.weights (e.length src cached) := by
  constructor
  · intro h
    have hunit : UnitLength (Pi.single 0 1 : Vec n F) := by
      rw [UnitLength, Finset.sum_eq_single 0 (fun i _ hi => by rw [Pi.single_eq_of_ne hi, zero_pow two_ne_zero])
        fun hi => absurd (Finset.mem_univ 0) hi, Pi.single_eq_same, one_pow]
    exact averages_of_inRange (e := { e with toEmbeddings := fun _ => Pi.single 0 1 }) hnonneg hfloat (fun _ => rfl)
      (h _ fun _ => hunit)
  · intro haverages toEmbeddings hunit
    have hweights : e.weights ≠ [] := by
      intro hnil
      have hzero : (sum ((e.weights.reverse.take (e.length src cached)).map Floating.cast) : Floating f).value =
          some 1 := by
        rwa [Averages, if_neg (by simp [hnil])] at haverages
      rw [hnil, List.reverse_nil, List.take_nil, List.map_nil] at hzero
      exact absurd (Floating.value_zero.symm.trans hzero) (by simp)
    have hpos : 0 < e.length src cached :=
      lt_min (lt_min (List.length_pos_of_ne_nil hsrc) (List.length_pos_of_ne_nil hcached))
        (List.length_pos_of_ne_nil hweights)
    exact inRange_of_averages (e := { e with toEmbeddings := toEmbeddings }) hnonneg hfloat hsqrt hunit hpos haverages

end

/-- Two parts, `a` and anything else, in the plane. -/
def plane (weights : List Double) : SequenceMatchEvaluation 2 ℚ .binary64 where
  weights := weights
  toEmbeddings content := if content = ['a'] then ![1, 0] else ![3 / 5, 4 / 5]
  sqrt := id
  float := ofRat

/-- Two parts out of three. -/
theorem score_iff_parts : InRange (plane [ofRat (1 / 2), ofRat (1 / 8), ofRat (3 / 8)]) "USER: aUSER: b".toList
    "USER: bUSER: aUSER: b".toList := by
  have hunit : ∀ content, UnitLength ((plane [ofRat (1 / 2), ofRat (1 / 8), ofRat (3 / 8)]).toEmbeddings content) :=
      fun content => by
    show UnitLength (if content = ['a'] then _ else _)
    split <;> decide +kernel
  have hsrc : contents "USER: aUSER: b".toList ≠ [] := by decide
  have hcached : contents "USER: bUSER: aUSER: b".toList ≠ [] := by decide
  have hnonneg : ∀ w ∈ (plane [ofRat (1 / 2), ofRat (1 / 8), ofRat (3 / 8)]).weights, NonNegative w := by
    intro w hw
    obtain ⟨x, rfl, hx⟩ : ∃ x : ℚ, w = ofRat x ∧ 0 ≤ x ∧ x ≤ 4 := by
      simp only [plane, List.mem_cons, List.not_mem_nil, or_false] at hw
      rcases hw with rfl | rfl | rfl <;> exact ⟨_, rfl, by norm_num, by norm_num⟩
    obtain ⟨y, hy, hy0, -⟩ := floats_ofRat.mem x hx.1 hx.2
    exact ⟨y, hy, hy0⟩
  exact (score_iff hnonneg floats_ofRat rfl hsrc hcached).mpr (by decide +kernel) _ hunit

/-- The one part that is compared has the weight 0, which divides it. -/
theorem weight_zero_raises : sum [ofRat 1, ofRat 0] = (ofRat 1 : Double) ∧ contents "USER: a".toList = [['a']] ∧
    (plane [ofRat 1, ofRat 0]).evaluation "USER: a".toList "USER: a".toList = .error ⟨.ZeroDivisionError, ""⟩ := by
  decide +kernel

-- Weights that are divided are rounded, here to less than an average's.
example : ¬ Averages .binary64 [ofRat (15 / 64), ofRat (49 / 64)] 1 := by decide +kernel

-- In single precision also weights that are not divided may miss it.
example : Averages .binary64 [ofRat (1 / 5), ofRat (7 / 20), ofRat (9 / 20)] 3 ∧
    ¬ Averages .binary32 [ofRat (1 / 5), ofRat (7 / 20), ofRat (9 / 20)] 3 := by decide +kernel

end SequenceMatchEvaluation

end GptCache.Evaluation
