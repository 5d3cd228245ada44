/-
Computations on a state that may raise, keeping the state they reached, and
that may fail to return: a loop takes fuel, and `none` says the fuel did not
suffice.

`Exec.wp m Q E s`: run from `s`, `m` returns, with `Q` of its value and the
final state, or raises, with `E` of the error and the final state. A
computation that does not return has no weakest precondition but `False`, so
every `wp` is a total-correctness statement. `wp_loop` is the rule for a loop
(an invariant and a measure its body decreases), `loop_none` its converse: a
loop whose body keeps the condition true returns for no fuel.
-/
import Mathlib.Order.Defs.Unbundled

namespace GptCache

/-- `σ → Option (Except ε α × σ)`: `none` when the fuel given did not suffice. -/
def Exec (ε : Type) (σ α : Type) : Type := σ → Option (Except ε α × σ)

namespace Exec

variable {ε σ τ α β : Type}

/-- The computation that returns `a` and changes nothing. -/
def ret (a : α) : Exec ε σ α := fun s => some (.ok a, s)

/-- Sequencing: an error, like a loop that did not return, skips the rest. -/
def andThen (m : Exec ε σ α) (f : α → Exec ε σ β) : Exec ε σ β := fun s =>
  match m s with
  | none => none
  | some (.error e, s') => some (.error e, s')
  | some (.ok a, s') => f a s'

instance : Monad (Exec ε σ) where
  pure := ret
  bind := andThen

def raise (e : ε) : Exec ε σ α := fun s => some (.error e, s)

def read : Exec ε σ σ := fun s => some (.ok s, s)

def modify (f : σ → σ) : Exec ε σ Unit := fun s => some (.ok (), f s)

/-- The result of something that does not touch the state, if it returns. -/
def ofResult : Option (Except ε α) → Exec ε σ α
  | none => fun _ => none
  | some (.ok a) => pure a
  | some (.error e) => raise e

def ofExcept (r : Except ε α) : Exec ε σ α := ofResult (some r)

/-- A computation that always returns, on the whole state. -/
def total (f : σ → Except ε α × σ) : Exec ε σ α := fun s => some (f s)

/-- Python's `try: m except e: h e`. -/
def catching (m : Exec ε σ α) (h : ε → Exec ε σ α) : Exec ε σ α := fun s =>
  match m s with
  | none => none
  | some (.error e, s') => h e s'
  | some (.ok a, s') => some (.ok a, s')

/-- A computation on the second component of a pair. -/
def onSnd (m : Exec ε σ α) : Exec ε (τ × σ) α := fun s =>
  match m s.2 with
  | none => none
  | some (r, w) => some (r, (s.1, w))

/-- A computation on a part of the state. -/
def zoom (get : τ → σ) (set : τ → σ → τ) (m : Exec ε σ α) : Exec ε τ α := fun t =>
  match m (get t) with
  | none => none
  | some (r, w) => some (r, set t w)

/-- `while cond: body`, at most `n` tests of the condition. -/
def loop (cond : σ → Bool) (body : Exec ε σ Unit) : Nat → Exec ε σ Unit
  | 0 => fun _ => none
  | n + 1 => fun s => if cond s then (body >>= fun _ => loop cond body n) s else some (.ok (), s)

/-- `for x in xs: body x`. -/
def forEach (body : α → Exec ε σ Unit) : List α → Exec ε σ Unit
  | [] => pure ()
  | x :: xs => body x >>= fun _ => forEach body xs

/-- The elements `f` yields for `xs`, in order: `for x in xs: ... continue ... ys.append(y)`. -/
def filterMap (f : α → Exec ε σ (Option β)) : List α → Exec ε σ (List β)
  | [] => pure []
  | x :: xs => f x >>= fun y => filterMap f xs >>= fun ys => pure (y.toList ++ ys)

/-- What `f` yields for each of `xs`. -/
def collect (f : α → Exec ε σ β) : List α → Exec ε σ (List β)
  | [] => pure []
  | x :: xs => f x >>= fun y => collect f xs >>= fun ys => pure (y :: ys)

/-- The state `m` leaves, returning or raising; where it does neither, the one it started in. -/
def after (m : Exec ε σ α) (s : σ) : σ :=
  match m s with
  | none => s
  | some (_, s') => s'

theorem bind_assoc {γ : Type} (m : Exec ε σ α) (f : α → Exec ε σ β) (g : β → Exec ε σ γ) :
    m >>= f >>= g = m >>= fun a => f a >>= g := by
  funext s
  simp only [bind, andThen]
  rcases m s with _ | ⟨_ | _, _⟩ <;> rfl

theorem pure_bind (a : α) (f : α → Exec ε σ β) : (pure a >>= f) = f a := rfl

theorem read_bind (f : σ → Exec ε σ α) (s : σ) : (read >>= f) s = f s s := rfl

theorem bind_pure_unit (m : Exec ε σ Unit) : (m >>= fun _ => pure ()) = m := by
  funext s
  simp only [bind, andThen]
  rcases m s with _ | ⟨_ | _, _⟩ <;> rfl

theorem catching_pure (a : α) (h : ε → Exec ε σ α) : catching (pure a) h = pure a := rfl

/-- Keeping some of what is yielded for each. -/
theorem collect_filterMap (f : α → Exec ε σ β) {γ : Type} (g : β → Option γ) : ∀ xs : List α,
    filterMap (fun x => f x >>= fun y => pure (g y)) xs = collect f xs >>= fun ys => pure (ys.filterMap g)
  | [] => rfl
  | x :: xs => by
    have hkeep : ∀ (y : β) (ys : List β), (y :: ys).filterMap g = (g y).toList ++ ys.filterMap g := fun y ys => by
      cases hy : g y <;> simp [hy]
    simp only [filterMap, collect, collect_filterMap f g xs, bind_assoc, pure_bind, hkeep]

/-- A handler that yields what the computation would have yielded. -/
theorem catching_bind_pure (m : Exec ε σ α) (b : β) :
    catching (m >>= fun _ => pure b) (fun _ => pure b) =
      catching (m >>= fun _ => pure ()) (fun _ => pure ()) >>= fun _ => pure b := by
  funext s
  simp only [catching, bind, andThen]
  rcases m s with _ | ⟨_ | _, _⟩ <;> rfl

@[simp] theorem ofExcept_ok (a : α) : (ofExcept (.ok a) : Exec ε σ α) = pure a := rfl
@[simp] theorem ofExcept_error (e : ε) : (ofExcept (.error e) : Exec ε σ α) = raise e := rfl

/-! ## What a computation returned -/

theorem bind_ok {m : Exec ε σ α} {f : α → Exec ε σ β} {s s'' : σ} {b : β} :
    (m >>= f) s = some (.ok b, s'') ↔ ∃ a s', m s = some (.ok a, s') ∧ f a s' = some (.ok b, s'') := by
  simp only [bind, andThen]
  rcases m s with _ | ⟨e | a, s'⟩
  · simp
  · simp
  · refine ⟨fun h => ⟨a, s', rfl, h⟩, fun ⟨_, _, hm, h⟩ => ?_⟩
    cases hm
    exact h

/-- A sequence raised in its first part or came to its second. -/
theorem bind_eq_some {m : Exec ε σ α} {f : α → Exec ε σ β} {s s'' : σ} {r : Except ε β}
    (h : (m >>= f) s = some (r, s'')) :
    (∃ e, r = .error e ∧ m s = some (.error e, s'')) ∨ ∃ a s', m s = some (.ok a, s') ∧ f a s' = some (r, s'') := by
  simp only [bind, andThen] at h
  rcases hr : m s with _ | ⟨e | a, s'⟩ <;> simp only [hr] at h
  · cases h
  · cases h
    exact .inl ⟨e, rfl, rfl⟩
  · exact .inr ⟨a, s', rfl, h⟩

theorem onSnd_eq_some {m : Exec ε σ α} {s s' : τ × σ} {r : Except ε α} :
    onSnd m s = some (r, s') ↔ m s.2 = some (r, s'.2) ∧ s'.1 = s.1 := by
  obtain ⟨t', w'⟩ := s'
  simp only [onSnd]
  rcases m s.2 with _ | ⟨r₁, w⟩
  · simp
  · simp only [Option.some.injEq, Prod.mk.injEq, eq_comm (a := t')]
    exact ⟨fun ⟨hr, ht, hw⟩ => ⟨⟨hr, hw⟩, ht⟩, fun ⟨⟨hr, hw⟩, ht⟩ => ⟨hr, ht, hw⟩⟩

theorem bind_of_ok {m : Exec ε σ α} (f : α → Exec ε σ β) {s s' : σ} {a : α} (h : m s = some (.ok a, s')) :
    (m >>= f) s = f a s' := by
  simp only [bind, andThen, h]

theorem bind_of_error {m : Exec ε σ α} (f : α → Exec ε σ β) {s s' : σ} {e : ε} (h : m s = some (.error e, s')) :
    (m >>= f) s = some (.error e, s') := by
  simp only [bind, andThen, h]

theorem pure_ok {a b : α} {s s' : σ} : (pure a : Exec ε σ α) s = some (.ok b, s') ↔ a = b ∧ s = s' := by
  simp [pure, ret]

@[simp] theorem raise_ok {e : ε} {b : α} {s s' : σ} : ¬ (raise e : Exec ε σ α) s = some (.ok b, s') := by
  simp [raise]

theorem length_of_collect {f : α → Exec ε σ β} : ∀ {xs : List α} {s s' : σ} {ys : List β},
    collect f xs s = some (.ok ys, s') → ys.length = xs.length
  | [], _, _, _, h => by
    rw [← (pure_ok.mp h).1]
    rfl
  | _ :: _, _, _, _, h => by
    obtain ⟨y, s₁, -, h⟩ := bind_ok.mp h
    obtain ⟨ys, s₂, hrest, h⟩ := bind_ok.mp h
    rw [← (pure_ok.mp h).1, List.length_cons, List.length_cons, length_of_collect hrest]

theorem ofExcept_eq_ok {r : Except ε α} {b : α} {s s' : σ} :
    (ofExcept r : Exec ε σ α) s = some (.ok b, s') ↔ r = .ok b ∧ s = s' := by
  cases r with
  | error e => simp [ofExcept, ofResult, raise]
  | ok a => simp [ofExcept, ofResult, pure, ret]

theorem ofResult_ok {r : Option (Except ε α)} {a : α} {s s' : σ} (h : (ofResult r : Exec ε σ α) s = some (.ok a, s')) :
    r = some (.ok a) := by
  rcases r with _ | e | b
  · cases h
  · cases h
  · rw [(pure_ok.mp h).1]

/-- Sequencing sees of its parts only what they do from the states reached. -/
theorem bind_congr {m m' : Exec ε σ α} {f f' : α → Exec ε σ β} {s : σ} (hm : m s = m' s)
    (hf : ∀ a s', m s = some (.ok a, s') → f a s' = f' a s') : (m >>= f) s = (m' >>= f') s := by
  simp only [bind, andThen, ← hm]
  rcases h : m s with _ | ⟨e | a, s'⟩
  · rfl
  · rfl
  · exact hf a s' h

/-! ## From state to state -/

/-- Whether it returns or raises, `m` comes to a state related to the one it started in. -/
def Within (R : σ → σ → Prop) (m : Exec ε σ α) : Prop :=
  ∀ s r s', m s = some (r, s') → R s s'

instance {R : σ → σ → Prop} [Std.Refl R] (f : τ → σ) : Std.Refl (InvImage R f) := ⟨fun t => Std.Refl.refl (f t)⟩

namespace Within

variable {R : σ → σ → Prop}

theorem mono {R' : σ → σ → Prop} {m : Exec ε σ α} (h : Within R m) (hR : ∀ s s', R s s' → R' s s') : Within R' m :=
  fun s r s' hr => hR s s' (h s r s' hr)

theorem total {f : σ → Except ε α × σ} (hf : ∀ s, R s (f s).2) : Within R (Exec.total f) := by
  intro s r s' h
  obtain rfl : s' = (f s).2 := by rw [Option.some.inj h]
  exact hf s

theorem modify {f : σ → σ} (hf : ∀ s, R s (f s)) : Within R (Exec.modify f : Exec ε σ Unit) := by
  intro s r s' h
  cases h
  exact hf s

theorem ite {c : Prop} [Decidable c] {m m' : Exec ε σ α} (h : Within R m) (h' : Within R m') :
    Within R (if c then m else m') := by
  split
  · exact h
  · exact h'

theorem onSnd {m : Exec ε σ α} (h : Within R m) : Within (InvImage R Prod.snd) (Exec.onSnd m : Exec ε (τ × σ) α) := by
  intro s r s' hr
  exact h _ _ _ (onSnd_eq_some.mp hr).1

theorem zoom {T : τ → τ → Prop} {get : τ → σ} {set : τ → σ → τ} (h : ∀ t w, T t (set t w)) (m : Exec ε σ α) :
    Within T (zoom get set m) := by
  intro t r t' hr
  simp only [Exec.zoom] at hr
  rcases hm : m (get t) with _ | ⟨r₁, w⟩ <;> simp only [hm] at hr
  · cases hr
  · cases hr
    exact h t w

section
variable [Std.Refl R]

theorem pure (a : α) : Within R (Pure.pure a : Exec ε σ α) := by
  intro s r s' h
  cases h
  exact Std.Refl.refl s

theorem raise (e : ε) : Within R (Exec.raise e : Exec ε σ α) := by
  intro s r s' h
  cases h
  exact Std.Refl.refl s

theorem read : Within R (Exec.read : Exec ε σ σ) := by
  intro s r s' h
  cases h
  exact Std.Refl.refl s

theorem ofExcept (r : Except ε α) : Within R (Exec.ofExcept r : Exec ε σ α) := by
  cases r with
  | error e => exact .raise e
  | ok a => exact .pure a

theorem after {m : Exec ε σ α} (h : Within R m) (s : σ) : R s (m.after s) := by
  unfold Exec.after
  split
  · exact Std.Refl.refl s
  · rename_i r s' hr
    exact h s r s' hr

end

variable [IsTrans σ R]

theorem bind {m : Exec ε σ α} {f : α → Exec ε σ β} (hm : Within R m) (hf : ∀ a, Within R (f a)) :
    Within R (m >>= f) := by
  intro s r s' h
  rcases bind_eq_some h with ⟨e, -, hraise⟩ | ⟨a, s₁, hret, hrest⟩
  · exact hm s _ s' hraise
  · exact IsTrans.trans _ _ _ (hm s _ s₁ hret) (hf a s₁ r s' hrest)

theorem catching {m : Exec ε σ α} {h : ε → Exec ε σ α} (hm : Within R m) (hh : ∀ e, Within R (h e)) :
    Within R (catching m h) := by
  intro s r s' hr
  simp only [Exec.catching] at hr
  rcases hs : m s with _ | ⟨e | a, s₁⟩ <;> simp only [hs] at hr
  · cases hr
  · exact IsTrans.trans _ _ _ (hm _ _ _ hs) (hh e _ _ _ hr)
  · cases hr
    exact hm _ _ _ hs

variable [Std.Refl R]

theorem forEach {body : α → Exec ε σ Unit} (h : ∀ x, Within R (body x)) : ∀ xs, Within R (forEach body xs)
  | [] => .pure ()
  | x :: xs => (h x).bind fun _ => forEach h xs

theorem filterMap {f : α → Exec ε σ (Option β)} (h : ∀ x, Within R (f x)) : ∀ xs, Within R (filterMap f xs)
  | [] => .pure []
  | x :: xs => (h x).bind fun _ => (filterMap h xs).bind fun _ => .pure _

theorem loop {cond : σ → Bool} {body : Exec ε σ Unit} (h : Within R body) : ∀ n, Within R (loop cond body n)
  | 0 => fun _ _ _ hr => by cases hr
  | n + 1 => by
    intro s r s' hr
    simp only [Exec.loop] at hr
    split at hr
    · exact (h.bind fun _ => loop h n) s r s' hr
    · cases hr
      exact Std.Refl.refl s

end Within

/-- `J` holds of the second if it did of the first. -/
def Carries (J : σ → Prop) (s s' : σ) : Prop := J s → J s'

instance (J : σ → Prop) : Std.Refl (Carries J) := ⟨fun _ h => h⟩

instance (J : σ → Prop) : IsTrans σ (Carries J) := ⟨fun _ _ _ h h' hs => h' (h hs)⟩

/-- What each element yields is as `P` says, if `I` holds before. -/
theorem filterMap_mem {I : σ → Prop} {P : β → Prop} {f : α → Exec ε σ (Option β)} (hI : ∀ x, Within (Carries I) (f x))
    (hf : ∀ x y s s', I s → f x s = some (.ok (some y), s') → P y) : ∀ (xs : List α) {s s' : σ} {ys : List β}, I s →
      filterMap f xs s = some (.ok ys, s') → ∀ y ∈ ys, P y
  | [], s, s', ys, _, h => by
    rw [← (pure_ok.mp h).1]
    exact fun y hy => absurd hy List.not_mem_nil
  | x :: xs, s, s', ys, hs, h => by
    obtain ⟨found, s₁, hfound, h⟩ := bind_ok.mp h
    obtain ⟨rest, s₂, hrest, h⟩ := bind_ok.mp h
    rw [← (pure_ok.mp h).1]
    intro y hy
    rcases List.mem_append.mp hy with hy | hy
    · rw [Option.mem_toList.mp hy] at hfound
      exact hf x y s s₁ hs hfound
    · exact filterMap_mem hI hf xs (hI x s _ s₁ hfound hs) hrest y hy

/-- From a state with `J`, `m` comes to a state with `J`, and what it returns is as `P` says. -/
def Ensures (J : σ → Prop) (P : α → Prop) (m : Exec ε σ α) : Prop :=
  ∀ s r s', J s → m s = some (r, s') → J s' ∧ ∀ a, r = .ok a → P a

namespace Ensures

variable {J : σ → Prop} {P : α → Prop}

theorem within {m : Exec ε σ α} (h : Ensures J P m) : Within (Carries J) m := fun s r s' hr hs => (h s r s' hs hr).1

theorem of_within {m : Exec ε σ α} (h : Within (Carries J) m) (hP : ∀ s a s', J s → m s = some (.ok a, s') → P a) :
    Ensures J P m := by
  intro s r s' hs hr
  refine ⟨h s r s' hr hs, ?_⟩
  rintro a rfl
  exact hP s a s' hs hr

theorem of_carries {m : Exec ε σ α} (h : Within (Carries J) m) : Ensures J (fun _ => True) m :=
  .of_within h fun _ _ _ _ _ => trivial

theorem mono {P' : α → Prop} {m : Exec ε σ α} (h : Ensures J P m) (hP : ∀ a, P a → P' a) : Ensures J P' m :=
  fun s r s' hs hr => ⟨(h s r s' hs hr).1, fun a ha => hP a ((h s r s' hs hr).2 a ha)⟩

theorem pure {a : α} (h : P a) : Ensures J P (Pure.pure a : Exec ε σ α) :=
  .of_within (.pure a) fun _ _ _ _ hr => (pure_ok.mp hr).1 ▸ h

theorem raise (e : ε) : Ensures J P (Exec.raise e : Exec ε σ α) :=
  .of_within (.raise e) fun _ _ _ _ hr => absurd hr raise_ok

theorem bind {m : Exec ε σ β} {f : β → Exec ε σ α} {Q : β → Prop} (hm : Ensures J Q m)
    (hf : ∀ b, Q b → Ensures J P (f b)) : Ensures J P (m >>= f) := by
  intro s r s' hs h
  rcases bind_eq_some h with ⟨e, rfl, hraise⟩ | ⟨b, s₁, hret, hrest⟩
  · exact ⟨(hm s _ s' hs hraise).1, fun a ha => by cases ha⟩
  · obtain ⟨hs₁, hb⟩ := hm s _ s₁ hs hret
    exact hf b (hb b rfl) s₁ r s' hs₁ hrest

theorem catching {m : Exec ε σ α} {h : ε → Exec ε σ α} (hm : Ensures J P m) (hh : ∀ e, Ensures J P (h e)) :
    Ensures J P (catching m h) := by
  intro s r s' hs hr
  simp only [Exec.catching] at hr
  rcases hrun : m s with _ | ⟨e | a, s₁⟩ <;> simp only [hrun] at hr
  · cases hr
  · exact hh e s₁ r s' (hm s _ s₁ hs hrun).1 hr
  · cases hr
    exact hm s _ _ hs hrun

theorem ite {c : Prop} [Decidable c] {m m' : Exec ε σ α} (h : Ensures J P m) (h' : Ensures J P m') :
    Ensures J P (if c then m else m') := by
  split
  · exact h
  · exact h'

theorem onSnd {m : Exec ε σ α} (h : Ensures J P m) :
    Ensures (fun s : τ × σ => J s.2) P (Exec.onSnd m : Exec ε (τ × σ) α) :=
  fun _ r _ hs hr => h _ r _ hs (onSnd_eq_some.mp hr).1

/-- What each element yields is as `P` says, and so are all of them. -/
theorem filterMap {f : β → Exec ε σ (Option α)} : ∀ {xs : List β},
    (∀ x ∈ xs, Ensures J (fun y => ∀ a, y = some a → P a) (f x)) → Ensures J (fun ys => ∀ a ∈ ys, P a) (filterMap f xs)
  | [], _ => .pure fun _ ha => absurd ha List.not_mem_nil
  | x :: xs, h => by
    obtain ⟨hx, h⟩ := List.forall_mem_cons.mp h
    refine hx.bind fun y hy => (filterMap h).bind fun ys hys => .pure fun a ha => ?_
    rcases List.mem_append.mp ha with ha | ha
    · exact hy a (Option.mem_toList.mp ha)
    · exact hys a ha

end Ensures

/-- `f` of both is the same. -/
def Same {γ : Type} (f : σ → γ) (s s' : σ) : Prop := f s' = f s

instance {γ : Type} (f : σ → γ) : Std.Refl (Same f) := ⟨fun _ => rfl⟩

instance {γ : Type} (f : σ → γ) : IsTrans σ (Same f) := ⟨fun _ _ _ h h' => Eq.trans h' h⟩

/-- Whether it returns or raises, `m` leaves `f` of the state as it was. -/
def Keeps {γ : Type} (f : σ → γ) (m : Exec ε σ α) : Prop :=
  ∀ s r s', m s = some (r, s') → f s' = f s

namespace Keeps

variable {γ : Type} {f : σ → γ}

theorem within {m : Exec ε σ α} : Keeps f m ↔ Within (Same f) m := Iff.rfl

theorem pure (a : α) : Keeps f (Pure.pure a : Exec ε σ α) := within.mpr (.pure a)

theorem raise (e : ε) : Keeps f (Exec.raise e : Exec ε σ α) := within.mpr (.raise e)

theorem read : Keeps f (Exec.read : Exec ε σ σ) := within.mpr .read

theorem ofExcept (r : Except ε α) : Keeps f (Exec.ofExcept r : Exec ε σ α) := within.mpr (.ofExcept r)

theorem modify {g : σ → σ} (h : ∀ s, f (g s) = f s) : Keeps f (Exec.modify g : Exec ε σ Unit) :=
  within.mpr (.modify h)

theorem bind {m : Exec ε σ α} {n : α → Exec ε σ β} (hm : Keeps f m) (hn : ∀ a, Keeps f (n a)) :
    Keeps f (m >>= n) :=
  within.mpr ((within.mp hm).bind fun a => within.mp (hn a))

theorem catching {m : Exec ε σ α} {h : ε → Exec ε σ α} (hm : Keeps f m) (hh : ∀ e, Keeps f (h e)) :
    Keeps f (catching m h) :=
  within.mpr ((within.mp hm).catching fun e => within.mp (hh e))

theorem filterMap {g : α → Exec ε σ (Option β)} (hg : ∀ x, Keeps f (g x)) (xs : List α) :
    Keeps f (filterMap g xs) :=
  within.mpr (.filterMap (fun x => within.mp (hg x)) xs)

theorem zoom {τ : Type} {f : τ → γ} {get : τ → σ} {set : τ → σ → τ} (h : ∀ t w, f (set t w) = f t) (m : Exec ε σ α) :
    Keeps f (zoom get set m) :=
  within.mpr (.zoom h m)

end Keeps

/-! ## Weakest preconditions -/

/-- From `s`, `m` returns a value satisfying `Q` or raises an error satisfying `E`. -/
def wp (m : Exec ε σ α) (Q : α → σ → Prop) (E : ε → σ → Prop) (s : σ) : Prop :=
  match m s with
  | none => False
  | some (.ok a, s') => Q a s'
  | some (.error e, s') => E e s'

variable {m : Exec ε σ α} {Q Q' : α → σ → Prop} {E E' : ε → σ → Prop} {s : σ}

theorem wp_of_ok {a : α} {s' : σ} (h : m s = some (.ok a, s')) : wp m Q E s ↔ Q a s' := by
  simp only [wp, h]

theorem wp_of_error {e : ε} {s' : σ} (h : m s = some (.error e, s')) : wp m Q E s ↔ E e s' := by
  simp only [wp, h]

theorem wp_congr {m' : Exec ε σ α} (h : m s = m' s) : wp m Q E s ↔ wp m' Q E s := by
  simp only [wp, h]

@[simp] theorem wp_pure (a : α) : wp (pure a : Exec ε σ α) Q E s ↔ Q a s := Iff.rfl
@[simp] theorem wp_raise (e : ε) : wp (raise e : Exec ε σ α) Q E s ↔ E e s := Iff.rfl
@[simp] theorem wp_read {Q : σ → σ → Prop} : wp (read : Exec ε σ σ) Q E s ↔ Q s s := Iff.rfl
@[simp] theorem wp_modify {Q : Unit → σ → Prop} (f : σ → σ) :
    wp (modify f : Exec ε σ Unit) Q E s ↔ Q () (f s) := Iff.rfl

@[simp] theorem wp_bind {f : α → Exec ε σ β} {Q : β → σ → Prop} :
    wp (m >>= f) Q E s ↔ wp m (fun a s' => wp (f a) Q E s') E s := by
  simp only [wp, bind, andThen]
  rcases m s with _ | ⟨_ | _, _⟩ <;> rfl

@[simp] theorem wp_catching {h : ε → Exec ε σ α} :
    wp (catching m h) Q E s ↔ wp m Q (fun e s' => wp (h e) Q E s') s := by
  simp only [wp, catching]
  rcases m s with _ | ⟨_ | _, _⟩ <;> rfl

@[simp] theorem wp_onSnd {m : Exec ε σ α} {Q : α → τ × σ → Prop} {E : ε → τ × σ → Prop} {s : τ × σ} :
    wp (onSnd m) Q E s ↔ wp m (fun a w => Q a (s.1, w)) (fun e w => E e (s.1, w)) s.2 := by
  simp only [wp, onSnd]
  rcases m s.2 with _ | ⟨_ | _, _⟩ <;> rfl

@[simp] theorem wp_zoom {get : τ → σ} {set : τ → σ → τ} {Q : α → τ → Prop} {E : ε → τ → Prop} {t : τ} :
    wp (zoom get set m) Q E t ↔
      wp m (fun a w => Q a (set t w)) (fun e w => E e (set t w)) (get t) := by
  simp only [wp, zoom]
  rcases m (get t) with _ | ⟨_ | _, _⟩ <;> rfl

theorem wp_mono (h : wp m Q E s) (hq : ∀ a s', Q a s' → Q' a s') (he : ∀ e s', E e s' → E' e s') :
    wp m Q' E' s := by
  simp only [wp] at h ⊢
  rcases hm : m s with _ | ⟨_ | _, s'⟩ <;> simp only [hm] at h ⊢
  · exact he _ _ h
  · exact hq _ _ h

theorem wp_and (h : wp m Q E s) (h' : wp m Q' E' s) :
    wp m (fun a s' => Q a s' ∧ Q' a s') (fun e s' => E e s' ∧ E' e s') s := by
  simp only [wp] at h h' ⊢
  rcases hm : m s with _ | ⟨_ | _, s'⟩ <;> simp only [hm] at h h' ⊢
  · exact ⟨h, h'⟩
  · exact ⟨h, h'⟩

/-- A computation with a weakest precondition returns or raises. -/
theorem wp_returns (h : wp m Q E s) :
    (∃ a s', m s = some (.ok a, s') ∧ Q a s') ∨ ∃ e s', m s = some (.error e, s') ∧ E e s' := by
  simp only [wp] at h
  rcases hm : m s with _ | ⟨e | a, s'⟩ <;> simp only [hm] at h
  · exact .inr ⟨e, s', rfl, h⟩
  · exact .inl ⟨a, s', rfl, h⟩

theorem after_of_wp {P : σ → Prop} (h : wp m (fun _ => P) (fun _ => P) s) : P (m.after s) := by
  rcases wp_returns h with ⟨_, _, hm, hP⟩ | ⟨_, _, hm, hP⟩
  · rwa [after, hm]
  · rwa [after, hm]

/-- An invariant `m` ends with, returning or raising. -/
theorem Within.carries {J : σ → Prop} (h : ∀ s, J s → wp m (fun _ => J) (fun _ => J) s) : Within (Carries J) m := by
  intro s r s' hrun hs
  rcases wp_returns (h s hs) with ⟨_, _, heq, hJ⟩ | ⟨_, _, heq, hJ⟩ <;> rw [heq] at hrun <;> cases hrun <;> exact hJ

/-- A computation that cannot raise returns. -/
theorem wp_returns_ok (h : wp m Q (fun _ _ => False) s) : ∃ a s', m s = some (.ok a, s') ∧ Q a s' := by
  rcases wp_returns h with h | ⟨_, _, _, h⟩
  · exact h
  · exact h.elim

/-! ## Loops -/

variable {cond : σ → Bool} {body : Exec ε σ Unit}

/-- **The loop rule.** A body that keeps `I` and decreases `μ` makes the loop
return, with `I` and the condition false, whenever the fuel exceeds `μ`. -/
theorem wp_loop {I : σ → Prop} {μ : σ → Nat}
    (hbody : ∀ s, I s → cond s = true → wp body (fun _ s' => I s' ∧ μ s' < μ s) E s) :
    ∀ {n : Nat} {s : σ}, I s → μ s < n →
      wp (loop cond body n) (fun _ s' => I s' ∧ cond s' = false) E s := by
  intro n
  induction n with
  | zero => intro s _ hn; omega
  | succ n ih =>
    intro s hs hn
    cases hc : cond s with
    | false => simp only [wp, loop, hc]; exact ⟨hs, hc⟩
    | true =>
      have hstep : wp (body >>= fun _ => loop cond body n) (fun _ s' => I s' ∧ cond s' = false) E s := by
        rw [wp_bind]
        refine wp_mono (hbody s hs hc) (fun _ s' h => ih h.1 (by omega)) fun _ _ h => h
      simpa only [wp, loop, hc, if_true] using hstep

/-- A loop sees of its body only what it does from the states reached. -/
theorem loop_congr {body' : Exec ε σ Unit} {J : σ → Prop}
    (h : ∀ s, J s → cond s = true → body s = body' s ∧ ∀ s', body s = some (.ok (), s') → J s') :
    ∀ (n : Nat) {s : σ}, J s → loop cond body n s = loop cond body' n s
  | 0, _, _ => rfl
  | n + 1, s, hs => by
    simp only [loop]
    by_cases hc : cond s = true
    · obtain ⟨hbody, hkeep⟩ := h s hs hc
      rw [if_pos hc, if_pos hc]
      exact bind_congr hbody fun _ s' hs' => loop_congr h n (hkeep s' hs')
    · rw [if_neg hc, if_neg hc]

/-- A loop whose body returns, keeping `J`, raises nothing. -/
theorem loop_safe {J : σ → Prop} (hbody : ∀ s, J s → cond s = true → wp body (fun _ => J) (fun _ _ => False) s) :
    ∀ (n : Nat) {s s' : σ} {r : Except ε Unit}, J s → loop cond body n s = some (r, s') → r = .ok () ∧ J s'
  | 0, _, _, _, _, h => by cases h
  | n + 1, s, s', r, hs, h => by
    simp only [loop] at h
    split at h
    · rename_i hc
      obtain ⟨_, s₁, hrun, hs₁⟩ := wp_returns_ok (hbody s hs hc)
      rw [bind_of_ok _ hrun] at h
      exact loop_safe hbody n hs₁ h
    · cases h
      exact ⟨rfl, hs⟩

/-- A loop whose body returns with the condition still true returns for no fuel. -/
theorem loop_none {J : σ → Prop} (hc : ∀ s, J s → cond s = true)
    (hbody : ∀ s, J s → ∃ s', body s = some (.ok (), s') ∧ J s') :
    ∀ (n : Nat) {s : σ}, J s → loop cond body n s = none := by
  intro n
  induction n with
  | zero => intro s _; rfl
  | succ n ih =>
    intro s hs
    obtain ⟨s', hb, hs'⟩ := hbody s hs
    simp only [loop, hc s hs, if_true, bind, andThen, hb]
    exact ih hs'

@[simp] theorem forEach_nil (f : α → Exec ε σ Unit) : forEach f [] = pure () := rfl
@[simp] theorem forEach_cons (f : α → Exec ε σ Unit) (x : α) (xs : List α) :
    forEach f (x :: xs) = f x >>= fun _ => forEach f xs := rfl

theorem forEach_map (f : β → Exec ε σ Unit) (g : α → β) : ∀ xs : List α,
    forEach f (xs.map g) = forEach (fun x => f (g x)) xs
  | [] => rfl
  | x :: xs => by rw [List.map_cons, forEach_cons, forEach_map f g xs, forEach_cons]

@[simp] theorem filterMap_nil (f : α → Exec ε σ (Option β)) : filterMap f [] = pure [] := rfl
@[simp] theorem filterMap_cons (f : α → Exec ε σ (Option β)) (x : α) (xs : List α) :
    filterMap f (x :: xs) = f x >>= fun y => filterMap f xs >>= fun ys => pure (y.toList ++ ys) := rfl

/-! ## The same computation on other states -/

/-- From a state with `J`, `m'` does to the image under `f` what `m` does to
the state, and keeps `J`. -/
def Maps (J : σ → Prop) (f : σ → τ) (m : Exec ε σ α) (m' : Exec ε τ α) : Prop :=
  ∀ s, J s → m' (f s) = (m s).map (Prod.map id f) ∧ ∀ r s', m s = some (r, s') → J s'

variable {J : σ → Prop} {f : σ → τ}

theorem Maps.ret (a : α) : Maps J f (pure a : Exec ε σ α) (pure a) := by
  intro s hs
  refine ⟨rfl, fun r s' h => ?_⟩
  cases h
  exact hs

theorem Maps.raise (e : ε) : Maps J f (raise e : Exec ε σ α) (raise e) := by
  intro s hs
  refine ⟨rfl, fun r s' h => ?_⟩
  cases h
  exact hs

theorem Maps.modify {g : σ → σ} {g' : τ → τ} (h : ∀ s, J s → g' (f s) = f (g s) ∧ J (g s)) :
    Maps (ε := ε) J f (modify g) (modify g') := by
  intro s hs
  obtain ⟨heq, hkeep⟩ := h s hs
  refine ⟨by simp only [Exec.modify, heq]; rfl, fun r s' hr => ?_⟩
  cases hr
  exact hkeep

theorem Maps.bind {m : Exec ε σ α} {m' : Exec ε τ α} {n : α → Exec ε σ β} {n' : α → Exec ε τ β}
    (hm : Maps J f m m') (hn : ∀ a, Maps J f (n a) (n' a)) : Maps J f (m >>= n) (m' >>= n') := by
  intro s hs
  obtain ⟨heq, hkeep⟩ := hm s hs
  simp only [Bind.bind, andThen, heq]
  rcases h : m s with _ | ⟨e | a, s'⟩
  · exact ⟨rfl, by simp⟩
  · refine ⟨rfl, fun r s'' hr => ?_⟩
    cases hr
    exact hkeep _ _ h
  · exact hn a s' (hkeep _ _ h)

theorem Maps.loop {cond' : τ → Bool} {body' : Exec ε τ Unit} (hc : ∀ s, J s → cond' (f s) = cond s)
    (hbody : Maps J f body body') : ∀ n, Maps J f (loop cond body n) (loop cond' body' n)
  | 0, s, _ => ⟨rfl, by simp [Exec.loop]⟩
  | n + 1, s, hs => by
    simp only [Exec.loop, hc s hs]
    cases cond s with
    | false =>
      refine ⟨rfl, fun r s' h => ?_⟩
      cases h
      exact hs
    | true => exact hbody.bind (fun _ => Maps.loop hc hbody n) s hs

theorem Maps.forEach {body : α → Exec ε σ Unit} {body' : β → Exec ε τ Unit} {g : α → β}
    (hbody : ∀ x, Maps J f (body x) (body' (g x))) : ∀ xs, Maps J f (forEach body xs) (forEach body' (xs.map g))
  | [] => .ret ()
  | x :: xs => (hbody x).bind fun _ => Maps.forEach hbody xs

end Exec

/-! ## Lists of results -/

theorem mapM_ok_of_forall {ε α β : Type} {f : α → Except ε β} {g : α → β} :
    ∀ {xs : List α}, (∀ x ∈ xs, f x = .ok (g x)) →
    xs.mapM f = .ok (xs.map g)
  | [], _ => rfl
  | x :: xs, h => by
    obtain ⟨hx, hxs⟩ := List.forall_mem_cons.mp h
    rw [List.mapM_cons, hx, mapM_ok_of_forall hxs]
    rfl

theorem forall_of_mapM_ok {ε α β : Type} {f : α → Except ε β} : ∀ {xs : List α} {ys : List β}, xs.mapM f = .ok ys →
    ∀ x ∈ xs, ∃ y, f x = .ok y
  | [], _, _ => by simp
  | x :: xs, ys, h => by
    rw [List.mapM_cons] at h
    cases hx : f x with
    | error e => rw [hx] at h; cases h
    | ok y =>
      cases hxs : xs.mapM f with
      | error e => rw [hx, hxs] at h; cases h
      | ok ys => exact List.forall_mem_cons.mpr ⟨⟨y, hx⟩, forall_of_mapM_ok hxs⟩

end GptCache
