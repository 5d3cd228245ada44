/-
Computations whose calls to something outside are numbered, some of which
fail. `count` reads from the state how many calls were made.

`Stops count fails m`: `m` counts up, and a call that fails ends it with an
exception. So a computation that returned made no failing call (`returned`), and
one that raised can have made one only as its last (`before`).
-/
import GptCache.Lib.Exec

namespace GptCache

variable {ε σ τ α β : Type}

structure Stops (count : σ → Nat) (fails : Nat → Bool) (m : Exec ε σ α) : Prop where
  le : ∀ s r s', m s = some (r, s') → count s ≤ count s'
  before : ∀ s r s' n, m s = some (r, s') → count s ≤ n → n + 1 < count s' → fails n = false
  returned : ∀ s a s' n, m s = some (.ok a, s') → count s ≤ n → n < count s' → fails n = false

namespace Stops

variable {count : σ → Nat} {fails : Nat → Bool}

/-- A computation that makes no call. -/
theorem quiet {m : Exec ε σ α} (h : ∀ s r s', m s = some (r, s') → count s' = count s) : Stops count fails m := by
  refine ⟨fun s r s' hm => Nat.le_of_eq (h s r s' hm).symm, fun s r s' n hm hle hlt =>
    ?_, fun s a s' n hm hle hlt => ?_⟩
  · have := h s r s' hm
    omega
  · have := h s (.ok a) s' hm
    omega

theorem pure (a : α) : Stops count fails (Pure.pure a : Exec ε σ α) := by
  refine quiet fun s r s' h => ?_
  cases h
  rfl

theorem raise (e : ε) : Stops count fails (Exec.raise e : Exec ε σ α) := by
  refine quiet fun s r s' h => ?_
  cases h
  rfl

theorem read : Stops count fails (Exec.read : Exec ε σ σ) := by
  refine quiet fun s r s' h => ?_
  cases h
  rfl

theorem modify {f : σ → σ} (hf : ∀ s, count (f s) = count s) : Stops count fails (Exec.modify f : Exec ε σ Unit) := by
  refine quiet fun s r s' h => ?_
  cases h
  exact hf s

/-- One call: the next number decides whether it raises. -/
theorem call {f : σ → Except ε α × σ} (hcount : ∀ s, count (f s).2 = count s + 1)
    (hfails : ∀ s a, (f s).1 = .ok a → fails (count s) = false) : Stops count fails (Exec.total f) := by
  have hcount' : ∀ s r s', Exec.total f s = some (r, s') → f s = (r, s') ∧ count s' = count s + 1 := by
    intro s r s' h
    have hs : f s = (r, s') := Option.some.inj h
    exact ⟨hs, by rw [← hcount s, hs]⟩
  refine ⟨fun s r s' h => ?_, fun s r s' n h hle hlt => ?_, fun s a s' n h hle hlt => ?_⟩
  · have := (hcount' s r s' h).2
    omega
  · have := (hcount' s r s' h).2
    omega
  · obtain ⟨hs, hn⟩ := hcount' s _ s' h
    obtain rfl : n = count s := by omega
    exact hfails s a (by rw [hs])

theorem bind {m : Exec ε σ α} {f : α → Exec ε σ β} (hm : Stops count fails m) (hf : ∀ a, Stops count fails (f a)) :
    Stops count fails (m >>= f) := by
  refine ⟨fun s r s' h => ?_, fun s r s' n h hle hlt => ?_, fun s b s' n h hle hlt => ?_⟩
  · rcases Exec.bind_eq_some h with ⟨err, -, hraise⟩ | ⟨a, s₁, hret, hrest⟩
    · exact hm.le s _ s' hraise
    · exact Nat.le_trans (hm.le s _ s₁ hret) ((hf a).le s₁ r s' hrest)
  · rcases Exec.bind_eq_some h with ⟨err, -, hraise⟩ | ⟨a, s₁, hret, hrest⟩
    · exact hm.before s _ s' n hraise hle hlt
    · by_cases hn : n < count s₁
      · exact hm.returned s a s₁ n hret hle hn
      · exact (hf a).before s₁ r s' n hrest (Nat.le_of_not_lt hn) hlt
  · rcases Exec.bind_eq_some h with ⟨err, herr, -⟩ | ⟨a, s₁, hret, hrest⟩
    · cases herr
    · by_cases hn : n < count s₁
      · exact hm.returned s a s₁ n hret hle hn
      · exact (hf a).returned s₁ b s' n hrest (Nat.le_of_not_lt hn) hlt

theorem ite {c : Prop} [Decidable c] {m m' : Exec ε σ α} (h : Stops count fails m) (h' : Stops count fails m') :
    Stops count fails (if c then m else m') := by
  split
  · exact h
  · exact h'

theorem forEach {body : α → Exec ε σ Unit} (h : ∀ x, Stops count fails (body x)) :
    ∀ xs, Stops count fails (Exec.forEach body xs)
  | [] => .pure ()
  | x :: xs => (h x).bind fun _ => forEach h xs

theorem loop {cond : σ → Bool} {body : Exec ε σ Unit} (h : Stops count fails body) :
    ∀ n, Stops count fails (Exec.loop cond body n)
  | 0 => .quiet fun _ _ _ h => by cases h
  | n + 1 => by
    have hrest : Stops count fails (body >>= fun _ => Exec.loop cond body n) := h.bind fun _ => loop h n
    have hcases : ∀ s r s', Exec.loop cond body (n + 1) s = some (r, s') →
        (body >>= fun _ => Exec.loop cond body n) s = some (r, s') ∨ (r = .ok () ∧ s' = s) := by
      intro s r s' hrun
      simp only [Exec.loop] at hrun
      split at hrun
      · exact .inl hrun
      · cases hrun
        exact .inr ⟨rfl, rfl⟩
    refine ⟨fun s r s' hrun => ?_, fun s r s' k hrun hle hlt => ?_, fun s a s' k hrun hle hlt => ?_⟩
    · rcases hcases s r s' hrun with hrun | ⟨-, rfl⟩
      · exact hrest.le s r s' hrun
      · exact Nat.le_refl _
    · rcases hcases s r s' hrun with hrun | ⟨-, rfl⟩
      · exact hrest.before s r s' k hrun hle hlt
      · omega
    · rcases hcases s _ s' hrun with hrun | ⟨-, rfl⟩
      · exact hrest.returned s a s' k hrun hle hlt
      · omega

theorem onSnd {m : Exec ε σ α} (h : Stops count fails m) :
    Stops (fun s : τ × σ => count s.2) fails (Exec.onSnd m) := by
  refine ⟨fun s r s' hr => ?_, fun s r s' n hr => ?_, fun s a s' n hr => ?_⟩
  · exact h.le _ _ _ (Exec.onSnd_eq_some.mp hr).1
  · exact h.before _ _ _ n (Exec.onSnd_eq_some.mp hr).1
  · exact h.returned _ _ _ n (Exec.onSnd_eq_some.mp hr).1

end Stops

end GptCache
