/-
The segments of one round of `summarize_to_length` and the lengths its calls
ask for.

A segment is one token longer than the stride, so from the second on each
begins with the last token of the one before it, and the summary of less than
four tokens is to have at least one token and at most none. `segmentation_iff`:
the segments are the text, and every call can be met, just where there is one
segment, of four tokens at least, or nothing.
-/
import GptCache.Processor.SummarizeTermination

namespace GptCache

variable {T : Type}

/-- `min_length` and `max_length` of the call for a segment. -/
def minLength (segment : List T) : Nat := max (segment.length / 4 - 10) 1

def maxLength (segment : List T) : Nat := segment.length / 4

/-- The summarizer is called for this segment with these lengths, whatever it does. -/
def CalledWith (segment : List T) (least greatest : Nat) : Prop :=
  ∀ s : Summarizer T, summarizeSegment s segment = s.summarize (s.decode segment) least greatest

theorem calledWith_iff (segment : List T) (least greatest : Nat) :
    CalledWith segment least greatest ↔ least = minLength segment ∧ greatest = maxLength segment := by
  constructor
  · intro h
    let told : Summarizer T := ⟨fun _ => [], fun _ => "", fun _ a b =>
      if a = minLength segment ∧ b = maxLength segment then .ok "" else .error ⟨.ValueError, ""⟩⟩
    have htold : Except.ok "" = told.summarize (told.decode segment) least greatest := by
      rw [← h told]
      exact (if_pos ⟨rfl, rfl⟩).symm
    simp only [told] at htold
    split at htold
    · assumption
    · cases htold
  · intro h s
    rw [h.1, h.2]
    rfl

theorem one_le_minLength (segment : List T) : 1 ≤ minLength segment := Nat.le_max_right _ 1

theorem minLength_le_maxLength_iff (segment : List T) : minLength segment ≤ maxLength segment ↔ 4 ≤ segment.length := by
  unfold minLength maxLength
  omega

/-- The lengths that are asked for can be met. -/
theorem called_well_iff (segment : List T) :
    (∃ least greatest, CalledWith segment least greatest ∧ 1 ≤ least ∧ least ≤ greatest) ↔ 4 ≤ segment.length := by
  rw [← minLength_le_maxLength_iff]
  constructor
  · intro h
    obtain ⟨least, greatest, hcalled, -, hle⟩ := h
    obtain ⟨rfl, rfl⟩ := (calledWith_iff segment least greatest).mp hcalled
    exact hle
  · intro hle
    exact ⟨_, _, (calledWith_iff segment _ _).mpr ⟨rfl, rfl⟩, one_le_minLength segment, hle⟩

/-- Where a second segment begins, more is passed on than there is. -/
theorem length_windows {tokens : List T} {step : Nat} (hlt : step < tokens.length) (n : Nat) :
    min tokens.length ((n + 1) * step) + 1 ≤
      ((((List.range (n + 1)).map (· * step)).map fun i => (tokens.drop i).take (step + 1)).flatten).length := by
  induction n with
  | zero =>
    simp
    omega
  | succ n ih =>
    rw [List.range_succ, List.map_append, List.map_append, List.flatten_append, List.length_append]
    simp only [List.map_cons, List.map_nil, List.flatten_cons, List.flatten_nil, List.append_nil, List.length_take,
      List.length_drop]
    rw [Nat.succ_mul (n + 1) step]
    omega

/-- Two segments overlap. -/
theorem flatten_segments_ne {tokens : List T} {segmentLen : Int} {step : Nat} (hstep : segmentLen - 1 = step)
    (hpos : 0 < step) (hlt : step < tokens.length) {segs : List (List T)} (h : segments tokens segmentLen = .ok segs) :
    segs.flatten ≠ tokens := by
  intro hsame
  have hsegs := h.symm.trans (segments_eq hstep hpos)
  obtain ⟨n, hn⟩ : ∃ n, (tokens.length + step - 1) / step = n + 1 :=
    Nat.exists_eq_succ_of_ne_zero (Nat.div_ne_zero_iff.mpr ⟨by omega, by omega⟩)
  have hcover : tokens.length ≤ (n + 1) * step := by
    have hdiv := Nat.div_add_mod (tokens.length + step - 1) step
    have hmod := Nat.mod_lt (tokens.length + step - 1) hpos
    rw [hn, Nat.mul_comm] at hdiv
    omega
  have hmore := length_windows hlt n
  rw [← hn, ← Except.ok.inj hsegs, hsame, hn] at hmore
  omega

/-- The segments are the tokens, each once, and a summary can have the length
that is asked for. -/
def SegmentsWell (tokens : List T) (maxLen : Int) : Prop :=
  ∃ segs, segments tokens (maxLen - 100) = .ok segs ∧ segs.flatten = tokens ∧
    ∀ segment ∈ segs, ∃ least greatest, CalledWith segment least greatest ∧ 1 ≤ least ∧ least ≤ greatest

/-- **Segmentation** for a model of more than 101 tokens: nothing is repeated
and every call can be met just where there are no tokens, or at least four and
they fit into one segment with a token to spare. -/
theorem segmentation_iff (tokens : List T) {maxLen : Int} (hmax : 101 < maxLen) :
    SegmentsWell tokens maxLen ↔ tokens = [] ∨ (4 ≤ tokens.length ∧ (tokens.length : Int) ≤ maxLen - 101) := by
  obtain ⟨step, hstep⟩ : ∃ step : Nat, maxLen - 100 - 1 = step := ⟨(maxLen - 101).toNat, by omega⟩
  have hpos : 0 < step := by omega
  rcases Nat.eq_zero_or_pos tokens.length with hnil | hne
  · obtain rfl := List.length_eq_zero_iff.mp hnil
    have hnone : segments ([] : List T) (maxLen - 100) = .ok [] := by
      rw [segments_eq hstep hpos]
      simp [Nat.div_eq_of_lt (show step - 1 < step by omega)]
    exact iff_of_true ⟨[], hnone, rfl, by simp⟩ (.inl rfl)
  · have hne' : tokens ≠ [] := List.ne_nil_of_length_pos hne
    rcases Nat.lt_or_ge step tokens.length with hlt | hle
    · refine iff_of_false (fun h => ?_) fun hcond => ?_
      · obtain ⟨segs, hsegs, hflat, -⟩ := h
        exact flatten_segments_ne hstep hpos hlt hsegs hflat
      · have := hcond.resolve_left hne'
        omega
    · have hone := segments_one step hstep hne hle
      constructor
      · intro h
        obtain ⟨segs, hsegs, -, hcalls⟩ := h
        cases hone.symm.trans hsegs
        exact .inr ⟨(called_well_iff tokens).mp (hcalls tokens List.mem_cons_self), by omega⟩
      · intro hcond
        refine ⟨[tokens], hone, by simp, fun segment hsegment => ?_⟩
        rw [List.mem_singleton.mp hsegment]
        exact (called_well_iff tokens).mpr (hcond.resolve_left hne').1

/-- A hundred tokens for a model of 1024. -/
theorem segmentation_hundred : SegmentsWell (List.range 100) 1024 :=
  (segmentation_iff (List.range 100) (by decide)).mpr (.inr (by decide +kernel))

/-- For the same model the last of 924 tokens is passed on twice, the second
time alone, with a least length of 1 and a greatest of 0. -/
theorem token_repeated :
    segments (List.range 924) (1024 - 100) = .ok [List.range 924, [923]] ∧ CalledWith [923] 1 0 ∧
      ¬ SegmentsWell (List.range 924) 1024 := by
  have hsegs : segments (List.range 924) (1024 - 100) = .ok [List.range 924, [923]] := by decide +kernel
  refine ⟨hsegs, (calledWith_iff _ _ _).mpr ⟨rfl, rfl⟩, fun h => ?_⟩
  obtain ⟨segs, hsegs', hflat, -⟩ := h
  cases hsegs.symm.trans hsegs'
  exact absurd (congrArg List.length hflat) (by decide +kernel)

end GptCache
