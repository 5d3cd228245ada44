/-
A counter that several parties take numbers from with two commands: one adds
to it, one reads it. Between the two a party is pending.

The numbers read are told apart just when no party adds while another is
pending (`nodup_iff`): then each read sees a number of its own (`Run.fresh`),
and once two are pending the numbers that are left are too few for the reads
to come (`Run.too_large`).
-/
import Mathlib.Data.List.Nodup
import Mathlib.Data.List.Perm.Subperm

namespace GptCache

structure SharedCounter where
  value : Nat
  pending : Nat
  /-- What the reads answered, in order. -/
  read : List Nat

namespace SharedCounter

/-- Commands on a counter that starts at `start`; whether one added while another was pending. -/
inductive Run (start : Nat) : Bool → SharedCounter → Prop
  | start : Run start false ⟨start, 0, []⟩
  | incr {overlapped : Bool} {c : SharedCounter} (h : Run start overlapped c) :
      Run start (overlapped || decide (c.pending ≠ 0)) ⟨c.value + 1, c.pending + 1, c.read⟩
  | get {overlapped : Bool} {value pending : Nat} {read : List Nat}
      (h : Run start overlapped ⟨value, pending + 1, read⟩) :
      Run start overlapped ⟨value, pending, read ++ [value]⟩

variable {start : Nat} {overlapped : Bool} {c : SharedCounter}

/-- Who added has read or is pending. -/
theorem Run.value_eq (h : Run start overlapped c) : c.value = start + c.read.length + c.pending := by
  induction h with
  | start => rfl
  | incr _ ih =>
    dsimp only
    omega
  | get _ ih =>
    rw [List.length_append, List.length_singleton]
    dsimp only at ih ⊢
    omega

theorem Run.read_le (h : Run start overlapped c) : ∀ n ∈ c.read, n ≤ c.value := by
  induction h with
  | start => simp
  | incr _ ih => exact fun n hn => Nat.le_succ_of_le (ih n hn)
  | get _ ih =>
    intro n hn
    rcases List.mem_append.mp hn with hn | hn
    · exact ih n hn
    · exact Nat.le_of_eq (List.mem_singleton.mp hn)

/-- Where no two were pending, the next number read is new. -/
theorem Run.fresh (h : Run start overlapped c) (hone : overlapped = false) :
    c.read.Nodup ∧ c.pending ≤ 1 ∧ ∀ n ∈ c.read, n + c.pending ≤ c.value := by
  induction h with
  | start => exact ⟨List.nodup_nil, Nat.zero_le 1, by simp⟩
  | @incr overlapped c _ ih =>
    obtain ⟨hbefore, hzero⟩ := Bool.or_eq_false_iff.mp hone
    obtain ⟨hnodup, -, hle⟩ := ih hbefore
    have hpending : c.pending = 0 := by simpa using hzero
    refine ⟨hnodup, by dsimp only; omega, fun n hn => ?_⟩
    have := hle n hn
    dsimp only
    omega
  | @get overlapped value pending read _ ih =>
    obtain ⟨hnodup, hpending, hle⟩ := ih hone
    dsimp only at hpending hle
    refine ⟨?_, by dsimp only; omega, fun n hn => ?_⟩
    · refine List.nodup_append.mpr ⟨hnodup, List.nodup_singleton _, fun n hn m hm => ?_⟩
      rw [List.mem_singleton.mp hm]
      have := hle n hn
      omega
    · rcases List.mem_append.mp hn with hn | hn
      · have := hle n hn
        dsimp only
        omega
      · rw [List.mem_singleton.mp hn]
        dsimp only
        omega

/-- Once two are pending, all reads to come see numbers past one that is too large. -/
theorem Run.too_large (h : Run start overlapped c) (htwo : overlapped = true) :
    ∃ earlier later m, c.read = earlier ++ later ∧ start + earlier.length + 2 ≤ m ∧ m ≤ c.value ∧
      ∀ n ∈ later, m ≤ n := by
  induction h with
  | start => cases htwo
  | @incr overlapped c hrun ih =>
    rcases Bool.or_eq_true_iff.mp htwo with hbefore | hpending
    · obtain ⟨earlier, later, m, hread, hm, hle, hlater⟩ := ih hbefore
      exact ⟨earlier, later, m, hread, hm, Nat.le_succ_of_le hle, hlater⟩
    · have hvalue := hrun.value_eq
      have hpending : c.pending ≠ 0 := of_decide_eq_true hpending
      exact ⟨c.read, [], c.value + 1, (List.append_nil _).symm, by omega, Nat.le_refl _, by simp⟩
  | @get overlapped value pending read _ ih =>
    obtain ⟨earlier, later, m, hread, hm, hle, hlater⟩ := ih htwo
    refine ⟨earlier, later ++ [value], m, ?_, hm, hle, fun n hn => ?_⟩
    · show read ++ [value] = _
      rw [← List.append_assoc, ← hread]
    · rcases List.mem_append.mp hn with hn | hn
      · exact hlater n hn
      · rw [List.mem_singleton.mp hn]
        exact hle

/-- **When all have read**, the numbers are distinct just if no two were pending at a time. -/
theorem nodup_iff (h : Run start overlapped c) (hdone : c.pending = 0) : c.read.Nodup ↔ overlapped = false := by
  refine ⟨fun hnodup => ?_, fun hone => (h.fresh hone).1⟩
  cases htwo : overlapped with
  | false => rfl
  | true =>
    obtain ⟨earlier, later, m, hread, hm, hle, hlater⟩ := h.too_large htwo
    have hvalue := h.value_eq
    rw [hread, List.length_append, hdone] at hvalue
    -- the later reads are different numbers from `m` to the value
    have hsub : later ⊆ List.range' m (c.value + 1 - m) := by
      intro n hn
      have hn' := h.read_le n (hread ▸ List.mem_append_right _ hn)
      have hmn := hlater n hn
      rw [List.mem_range'_1]
      omega
    have hlength := (List.subperm_of_subset (List.nodup_append.mp (hread ▸ hnodup)).2.1 hsub).length_le
    rw [List.length_range'] at hlength
    omega

end SharedCounter

end GptCache
