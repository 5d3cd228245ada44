/-
Calls that are in progress at the same time, over a state they share.

A call is made, and goes on whenever it is its turn; the turns come in any
order. `Pool.run_keeps` is the rule for what holds of all such runs: a step of
one call has to keep the invariant of the shared state and of the call
itself, and what is said of the other calls must not be lost by it. What a
call is said to be may refer to all calls, so long as it stays true while
these go on (`Grows`).
-/
import Mathlib.Data.List.Basic

namespace GptCache

/-- The shared state, and the calls in the order they were made. -/
structure Pool (σ κ : Type) where
  shared : σ
  calls : List κ

namespace Pool

/-- What calls do: how one begins that is made with an `α`, and how it goes on. -/
structure Program (σ κ α : Type) where
  start : α → σ → κ × σ
  next : κ → σ → κ × σ

/-- A call is made, or the `i`-th goes on. -/
inductive Move (α : Type) where
  | call (a : α)
  | go (i : Nat)

variable {σ κ α : Type}

def step (P : Program σ κ α) (pool : Pool σ κ) : Move α → Pool σ κ
  | .call a => ⟨(P.start a pool.shared).2, pool.calls ++ [(P.start a pool.shared).1]⟩
  | .go i =>
    match pool.calls[i]? with
    | none => pool
    | some k => ⟨(P.next k pool.shared).2, pool.calls.set i (P.next k pool.shared).1⟩

def run (P : Program σ κ α) (pool : Pool σ κ) (moves : List (Move α)) : Pool σ κ := moves.foldl (step P) pool

variable {P : Program σ κ α} {le : κ → κ → Prop}

theorem run_append (pool : Pool σ κ) (before after : List (Move α)) :
    run P pool (before ++ after) = run P (run P pool before) after := List.foldl_append

/-! ## Calls go on -/

/-- The calls there were are there, each as it was or further. -/
def Grows (le : κ → κ → Prop) (calls calls' : List κ) : Prop :=
  ∀ (i : Nat) (k : κ), calls[i]? = some k → ∃ k', calls'[i]? = some k' ∧ le k k'

theorem Grows.mem {calls calls' : List κ} (h : Grows le calls calls') {k : κ} (hk : k ∈ calls) :
    ∃ k' ∈ calls', le k k' := by
  obtain ⟨i, hi⟩ := List.mem_iff_getElem?.mp hk
  obtain ⟨k', hk', hle⟩ := h i k hi
  exact ⟨k', List.mem_of_getElem? hk', hle⟩

theorem grows_append (hrefl : ∀ k, le k k) (calls : List κ) (k : κ) : Grows le calls (calls ++ [k]) := by
  intro i k' hk'
  obtain ⟨hi, -⟩ := List.getElem?_eq_some_iff.mp hk'
  exact ⟨k', by rwa [List.getElem?_append_left hi], hrefl k'⟩

theorem grows_set (hrefl : ∀ k, le k k) {calls : List κ} {i : Nat} {k k' : κ} (hi : calls[i]? = some k) (h : le k k') :
    Grows le calls (calls.set i k') := by
  intro j a ha
  by_cases hj : i = j
  · subst hj
    rw [ha] at hi
    cases hi
    obtain ⟨hlt, -⟩ := List.getElem?_eq_some_iff.mp ha
    exact ⟨k', List.getElem?_set_self hlt, h⟩
  · exact ⟨a, by rw [List.getElem?_set_ne hj, ha], hrefl a⟩

/-- How often the `i`-th call goes on. -/
def turns (i : Nat) (moves : List (Move α)) : Nat :=
  moves.countP fun
    | .go j => j = i
    | .call _ => false

/-! ## Invariants -/

/-- The invariant of the shared state, and of each call, which has some number of turns to go. -/
structure Keeps (I : σ → List κ → Prop) (J : Nat → List κ → κ → Prop) (pool : Pool σ κ) : Prop where
  shared : I pool.shared pool.calls
  calls : ∀ k ∈ pool.calls, ∃ m, J m pool.calls k

/-- What the steps of one call have to keep; each turn it gets is one less to go. -/
structure Rule (P : Program σ κ α) (le : κ → κ → Prop) (A : α → Prop) (I : σ → List κ → Prop)
    (J : Nat → List κ → κ → Prop) : Prop where
  refl : ∀ k, le k k
  stable : ∀ m calls calls' k, Grows le calls calls' → J m calls k → J m calls' k
  start : ∀ a s calls, A a → I s calls →
    I (P.start a s).2 (calls ++ [(P.start a s).1]) ∧ ∃ m, J m (calls ++ [(P.start a s).1]) (P.start a s).1
  next : ∀ i m k s calls, calls[i]? = some k → I s calls → J m calls k →
    le k (P.next k s).1 ∧ I (P.next k s).2 (calls.set i (P.next k s).1) ∧
      J (m - 1) (calls.set i (P.next k s).1) (P.next k s).1

variable {A : α → Prop} {I : σ → List κ → Prop} {J : Nat → List κ → κ → Prop} {pool : Pool σ κ}

theorem step_grows (rule : Rule P le A I J) (h : Keeps I J pool) (move : Move α) :
    Grows le pool.calls (step P pool move).calls := by
  cases move with
  | call a => exact grows_append rule.refl _ _
  | go i =>
    simp only [step]
    split
    · exact fun j k hk => ⟨k, hk, rule.refl k⟩
    · rename_i k hi
      obtain ⟨m, hk⟩ := h.calls k (List.mem_of_getElem? hi)
      exact grows_set rule.refl hi (rule.next i m k pool.shared pool.calls hi h.shared hk).1

theorem step_keeps (rule : Rule P le A I J) {move : Move α} (hmove : ∀ a, move = .call a → A a) (h : Keeps I J pool) :
    Keeps I J (step P pool move) := by
  have hgrows := step_grows rule h move
  cases move with
  | call a =>
    obtain ⟨hshared, hnew⟩ := rule.start a pool.shared pool.calls (hmove a rfl) h.shared
    refine ⟨hshared, fun k hk => ?_⟩
    rcases List.mem_append.mp hk with hk | hk
    · exact (h.calls k hk).imp fun m => rule.stable m _ _ k hgrows
    · obtain rfl := List.mem_singleton.mp hk
      exact hnew
  | go i =>
    simp only [step] at hgrows ⊢
    split
    · exact h
    · rename_i k hi
      rw [hi] at hgrows
      obtain ⟨m, hk⟩ := h.calls k (List.mem_of_getElem? hi)
      obtain ⟨-, hshared, hnew⟩ := rule.next i m k pool.shared pool.calls hi h.shared hk
      refine ⟨hshared, fun k' hk' => ?_⟩
      rcases List.mem_or_eq_of_mem_set hk' with hk' | rfl
      · exact (h.calls k' hk').imp fun m => rule.stable m _ _ k' hgrows
      · exact ⟨m - 1, hnew⟩

/-- **Whatever the order of the turns**, the invariants are kept. -/
theorem run_keeps (rule : Rule P le A I J) : ∀ (moves : List (Move α)) {pool : Pool σ κ},
    (∀ a, Move.call a ∈ moves → A a) → Keeps I J pool → Keeps I J (run P pool moves)
  | [], _, _, h => h
  | _ :: moves, _, hmoves, h => run_keeps rule moves (fun a ha => hmoves a (List.mem_cons_of_mem _ ha))
      (step_keeps rule (fun a ha => hmoves a (ha ▸ List.mem_cons_self)) h)

/-- The turns of a call count, and those of the others do not. -/
theorem step_turns (rule : Rule P le A I J) (h : Keeps I J pool) (move : Move α) {i m : Nat} {k : κ}
    (hi : pool.calls[i]? = some k) (hk : J m pool.calls k) : ∃ k', (step P pool move).calls[i]? = some k' ∧
      J (m - turns i [move]) (step P pool move).calls k' := by
  have hgrows := step_grows rule h move
  cases move with
  | call a =>
    obtain ⟨hlt, -⟩ := List.getElem?_eq_some_iff.mp hi
    exact ⟨k, by rwa [step, List.getElem?_append_left hlt], rule.stable m _ _ k hgrows hk⟩
  | go j =>
    by_cases hj : j = i
    · subst hj
      obtain ⟨hlt, -⟩ := List.getElem?_eq_some_iff.mp hi
      have hnext := (rule.next j m k pool.shared pool.calls hi h.shared hk).2.2
      simp only [step, hi]
      exact ⟨_, List.getElem?_set_self hlt, by simpa [turns] using hnext⟩
    · have hturns : turns i [(.go j : Move α)] = 0 := by simp [turns, hj]
      rw [hturns, Nat.sub_zero]
      refine ⟨k, ?_, rule.stable m _ _ k hgrows hk⟩
      simp only [step]
      split
      · exact hi
      · rwa [List.getElem?_set_ne hj]

/-- **A call with `m` turns to go** has fewer left by each turn it gets, whatever the others do. -/
theorem run_turns (rule : Rule P le A I J) : ∀ (moves : List (Move α)) {pool : Pool σ κ} {i m : Nat} {k : κ},
    (∀ a, Move.call a ∈ moves → A a) → Keeps I J pool → pool.calls[i]? = some k → J m pool.calls k →
      ∃ k', (run P pool moves).calls[i]? = some k' ∧ J (m - turns i moves) (run P pool moves).calls k'
  | [], _, _, _, k, _, _, hi, hk => ⟨k, hi, hk⟩
  | move :: moves, pool, i, m, k, hmoves, h, hi, hk => by
    obtain ⟨k', hi', hk'⟩ := step_turns rule h move hi hk
    have hstep := step_keeps rule (fun a ha => hmoves a (ha ▸ List.mem_cons_self)) h
    have hsum : m - turns i (move :: moves) = m - turns i [move] - turns i moves := by
      have : turns i (move :: moves) = turns i [move] + turns i moves := by
        rw [← List.singleton_append, turns, List.countP_append]
        rfl
      omega
    rw [hsum]
    exact run_turns rule moves (fun a ha => hmoves a (List.mem_cons_of_mem _ ha)) hstep hi' hk'

end Pool

end GptCache
