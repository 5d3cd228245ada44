/-
Python's generators over a list of items: an iterator that yields them, and a
generator that passes on what another yields, accumulates as it goes and has
something to do when the other is exhausted.

    def hook(it):
        acc = ...
        for item in it:
            acc = step(acc, item)
            yield item
        finish(acc)

Nothing of it runs before `next` is called. `Yields it items fin` says what a
generator does call by call: it yields `items`, one a call and with no effect,
and the call after them does `fin` and ends it. `Raises it items` says that it
raises before it got through `items`. A hook keeps either shape, whatever it
is put on (`Yields.hook`, `Raises.hook`), so that hooks can be put on hooks.
-/
import GptCache.Lib.Exec

namespace GptCache

/-- `ι` are the items, `γ` what a hook accumulates. -/
inductive Generator (ε σ ι γ : Type) where
  | iter (items : List ι)
  | hook (it : Generator ε σ ι γ) (acc : γ) (step : γ → ι → Except ε γ) (finish : γ → Exec ε σ Unit)
  | done

namespace Generator

variable {ε σ ι γ : Type}

/-- The items there are still to come. -/
def remaining : Generator ε σ ι γ → List ι
  | iter items => items
  | hook it _ _ _ => it.remaining
  | done => []

/-- `next(it)`: an item, or the end, and the generator after the call. -/
def next : Generator ε σ ι γ → Exec ε σ (Option ι × Generator ε σ ι γ)
  | iter [] => pure (none, iter [])
  | iter (item :: items) => pure (some item, iter items)
  | hook it acc step finish => it.next >>= fun p =>
    match p.1 with
    | some item => Exec.ofExcept (step acc item) >>= fun acc => pure (some item, hook p.2 acc step finish)
    | none => finish acc >>= fun _ => pure (none, done)
  | done => pure (none, done)

/-- What `n` calls of `next` answer. -/
def pulls : Nat → Generator ε σ ι γ → Exec ε σ (List (Option ι) × Generator ε σ ι γ)
  | 0, it => pure ([], it)
  | n + 1, it => it.next >>= fun p => pulls n p.2 >>= fun q => pure (p.1 :: q.1, q.2)

/-- What a caller receives who calls `next` to the end, at most `n` times, and
the exception that ended it, where one did. -/
def drain : Nat → Generator ε σ ι γ → Exec ε σ (List ι × Option ε)
  | 0, _ => fun _ => none
  | n + 1, it => fun s =>
    match it.next s with
    | none => none
    | some (.error e, s') => some (.ok ([], some e), s')
    | some (.ok (none, _), s') => some (.ok ([], none), s')
    | some (.ok (some item, it'), s') => (drain n it' >>= fun q => pure (item :: q.1, q.2)) s'

/-! ## What a generator does -/

inductive Yields : Generator ε σ ι γ → List ι → Exec ε σ Unit → Prop where
  | nil {it it' : Generator ε σ ι γ} {fin : Exec ε σ Unit} (hnext : it.next = fin >>= fun _ => pure (none, it'))
      (hend : it'.next = pure (none, it')) : Yields it [] fin
  | cons {it it' : Generator ε σ ι γ} {item : ι} {items : List ι} {fin : Exec ε σ Unit}
      (hnext : it.next = pure (some item, it')) (hrest : Yields it' items fin) : Yields it (item :: items) fin

inductive Raises : Generator ε σ ι γ → List ι → Prop where
  | here {it : Generator ε σ ι γ} {item : ι} {items : List ι} (e : ε) (hnext : it.next = Exec.raise e) :
      Raises it (item :: items)
  | later {it it' : Generator ε σ ι γ} {item : ι} {items : List ι} (hnext : it.next = pure (some item, it'))
      (hrest : Raises it' items) : Raises it (item :: items)

theorem yields_iter : ∀ items : List ι, Yields (iter items : Generator ε σ ι γ) items (pure ())
  | [] => by
    have hend : (iter [] : Generator ε σ ι γ).next = pure (none, iter []) := by rw [next]
    exact .nil hend hend
  | _ :: items => .cons (by rw [next]) (yields_iter items)

variable {it it' : Generator ε σ ι γ} {items : List ι} {fin : Exec ε σ Unit} {step : γ → ι → Except ε γ}
  {finish : γ → Exec ε σ Unit}

theorem next_hook_item {item : ι} (h : it.next = pure (some item, it')) (acc : γ) :
    (hook it acc step finish).next =
      Exec.ofExcept (step acc item) >>= fun acc => pure (some item, hook it' acc step finish) := by
  rw [next, h, Exec.pure_bind]

/-- A hook that accumulates all items passes them on and finishes after the other. -/
theorem Yields.hook (h : Yields it items fin) : ∀ {acc total : γ}, items.foldlM step acc = .ok total →
    Yields (hook it acc step finish) items (fin >>= fun _ => finish total) := by
  induction h with
  | nil hnext hend =>
    intro acc total htotal
    cases htotal
    refine .nil ?_ (show (done : Generator ε σ ι γ).next = pure (none, done) by rw [next])
    rw [next, hnext, Exec.bind_assoc, Exec.bind_assoc]
    rfl
  | @cons it it' item items fin hnext hrest ih =>
    intro acc total htotal
    rw [List.foldlM_cons] at htotal
    cases hstep : step acc item with
    | error e =>
      rw [hstep] at htotal
      cases htotal
    | ok acc' =>
      rw [hstep] at htotal
      refine .cons ?_ (ih htotal)
      rw [next_hook_item hnext, hstep]
      rfl

/-- A hook that fails to accumulate an item does not pass it on. -/
theorem Yields.hook_raises (h : Yields it items fin) : ∀ {acc : γ} {e : ε}, items.foldlM step acc = .error e →
    Raises (Generator.hook it acc step finish) items := by
  induction h with
  | nil hnext hend =>
    intro acc e herror
    cases herror
  | @cons it it' item items fin hnext hrest ih =>
    intro acc e herror
    rw [List.foldlM_cons] at herror
    cases hstep : step acc item with
    | error e' =>
      refine .here e' ?_
      rw [next_hook_item hnext, hstep]
      rfl
    | ok acc' =>
      rw [hstep] at herror
      refine .later ?_ (ih herror)
      rw [next_hook_item hnext, hstep]
      rfl

theorem Raises.hook (h : Raises it items) : ∀ acc : γ, Raises (Generator.hook it acc step finish) items := by
  induction h with
  | here e hnext =>
    intro acc
    refine .here e ?_
    rw [next, hnext]
    rfl
  | @later it it' item items hnext hrest ih =>
    intro acc
    cases hstep : step acc item with
    | error e =>
      refine .here e ?_
      rw [next_hook_item hnext, hstep]
      rfl
    | ok acc' =>
      refine .later ?_ (ih acc')
      rw [next_hook_item hnext, hstep]
      rfl

/-! ## What a caller receives -/

theorem Yields.pulls_take (h : Yields it items fin) : ∀ {n : Nat}, n ≤ items.length →
    ∃ it', it.pulls n = pure ((items.take n).map some, it') := by
  induction h with
  | nil hnext hend =>
    intro n hn
    obtain rfl : n = 0 := by simpa using hn
    exact ⟨_, rfl⟩
  | @cons it it' item items fin hnext hrest ih =>
    intro n hn
    cases n with
    | zero => exact ⟨_, rfl⟩
    | succ n =>
      obtain ⟨it'', hpulls⟩ := ih (Nat.le_of_succ_le_succ hn)
      refine ⟨it'', ?_⟩
      rw [pulls, hnext, Exec.pure_bind, hpulls]
      rfl

theorem pulls_ended (hend : it.next = pure (none, it)) : ∀ n, it.pulls n = pure (List.replicate n none, it)
  | 0 => rfl
  | n + 1 => by
    rw [pulls, hend, Exec.pure_bind, pulls_ended hend n]
    rfl

/-- The call after the last item finishes, and it is the only one that does. -/
theorem Yields.pulls_all (h : Yields it items fin) (n : Nat) :
    ∃ it', it.pulls (items.length + 1 + n) = fin >>= fun _ =>
      pure (items.map some ++ List.replicate (n + 1) none, it') := by
  induction h with
  | @nil it it' fin hnext hend =>
    refine ⟨it', ?_⟩
    rw [show ([] : List ι).length + 1 + n = n + 1 by simp; omega, pulls, hnext, Exec.bind_assoc]
    congr 1
    funext _
    rw [Exec.pure_bind, pulls_ended hend]
    rfl
  | @cons it it' item items fin hnext hrest ih =>
    obtain ⟨it'', hpulls⟩ := ih
    refine ⟨it'', ?_⟩
    rw [show (item :: items).length + 1 + n = items.length + 1 + n + 1 by simp; omega, pulls, hnext, Exec.pure_bind,
      hpulls, Exec.bind_assoc]
    rfl

theorem Raises.pulls (h : Raises it items) : ∃ n e, n ≤ items.length ∧ it.pulls n = Exec.raise e := by
  induction h with
  | @here it item items e hnext =>
    refine ⟨1, e, by simp, ?_⟩
    rw [Generator.pulls, hnext]
    rfl
  | @later it it' item items hnext hrest ih =>
    obtain ⟨n, e, hn, hpulls⟩ := ih
    refine ⟨n + 1, e, by simpa using hn, ?_⟩
    rw [Generator.pulls, hnext, Exec.pure_bind, hpulls]
    rfl

/-- A caller who reads to the end receives all items, and what finishing raises. -/
theorem Yields.drain (h : Yields it items fin) : ∀ {n : Nat} {s : σ}, items.length < n →
    it.drain n s = (fin s).map fun p =>
      (.ok (items, match p.1 with | .ok _ => none | .error e => some e), p.2) := by
  induction h with
  | @nil it it' fin hnext hend =>
    intro n s hn
    obtain ⟨n, rfl⟩ := Nat.exists_eq_add_of_lt hn
    simp only [List.length_nil, Nat.zero_add, Generator.drain, hnext, Bind.bind, Exec.andThen]
    rcases fin s with _ | ⟨e | a, s'⟩ <;> rfl
  | @cons it it' item items fin hnext hrest ih =>
    intro n s hn
    obtain ⟨n, rfl⟩ : ∃ m, n = m + 1 := ⟨n - 1, by omega⟩
    have hlt : items.length < n := by simpa using hn
    have hitem : it.next s = some (.ok (some item, it'), s) := by rw [hnext]; rfl
    simp only [Generator.drain, hitem, Bind.bind, Exec.andThen, ih hlt]
    rcases fin s with _ | ⟨e | a, s'⟩ <;> rfl

theorem Raises.drain (h : Raises it items) : ∀ {n : Nat} {s : σ}, items.length < n →
    ∃ got e, it.drain n s = some (.ok (got, some e), s) := by
  induction h with
  | @here it item items e hnext =>
    intro n s hn
    obtain ⟨n, rfl⟩ : ∃ m, n = m + 1 := ⟨n - 1, by omega⟩
    refine ⟨[], e, ?_⟩
    simp only [Generator.drain, hnext]
    rfl
  | @later it it' item items hnext hrest ih =>
    intro n s hn
    obtain ⟨n, rfl⟩ : ∃ m, n = m + 1 := ⟨n - 1, by omega⟩
    obtain ⟨got, e, hdrain⟩ := ih (n := n) (s := s) (by simpa using hn)
    refine ⟨item :: got, e, ?_⟩
    have hitem : it.next s = some (.ok (some item, it'), s) := by rw [hnext]; rfl
    simp only [Generator.drain, hitem, Bind.bind, Exec.andThen, hdrain]
    rfl

end Generator

end GptCache
