/-
Arithmetic in a binary format: the numbers that its rounding gives below its
bound, the infinities and `nan`. The two zeros are one.

`sum` adds up a list from the left, as a loop does. Where it is finite so is
all that it adds (`value_sum`), and of numbers that are not negative the sum
of larger ones is larger (`total_mono`).
-/
import GptCache.Lib.Rounding

namespace GptCache

inductive Floating (f : Format) where
  | finite (x : ℚ) (h : f.round x = x ∧ |x| < 2 ^ f.bound)
  | inf (negative : Bool)
  | nan
  deriving DecidableEq

abbrev Double : Type := Floating .binary64

namespace Floating

variable {f : Format}

/-- The number next to one. -/
def ofRat (x : ℚ) : Floating f :=
  if h : |f.round x| < 2 ^ f.bound then .finite (f.round x) ⟨Format.round_round x, h⟩ else .inf (x < 0)

def add : Floating f → Floating f → Floating f
  | .finite x _, .finite y _ => ofRat (x + y)
  | .inf s, .inf s' => if s = s' then .inf s else .nan
  | .inf s, .finite _ _ => .inf s
  | .finite _ _, .inf s => .inf s
  | _, _ => .nan

def neg : Floating f → Floating f
  | .finite x _ => ofRat (-x)
  | .inf s => .inf (!s)
  | .nan => .nan

def mul : Floating f → Floating f → Floating f
  | .finite x _, .finite y _ => ofRat (x * y)
  | .inf s, .inf s' => .inf (s != s')
  | .inf s, .finite y _ => if y = 0 then .nan else .inf (s != (y < 0))
  | .finite x _, .inf s => if x = 0 then .nan else .inf (s != (x < 0))
  | _, _ => .nan

/-- `1 / x`, of an `x` that is not 0. -/
def inv : Floating f → Floating f
  | .finite x _ => ofRat (1 / x)
  | .inf _ => ofRat 0
  | .nan => .nan

/-- The same number in another format. -/
def cast {g : Format} : Floating g → Floating f
  | .finite x _ => ofRat x
  | .inf s => .inf s
  | .nan => .nan

instance : Zero (Floating f) := ⟨ofRat 0⟩
instance : Add (Floating f) := ⟨add⟩
instance : Sub (Floating f) := ⟨fun x y => add x (neg y)⟩
instance : Mul (Floating f) := ⟨mul⟩
instance : Inv (Floating f) := ⟨inv⟩

/-- Added up from the left. -/
def sum (xs : List (Floating f)) : Floating f := xs.foldl (· + ·) 0

/-- The number, of those that are one. -/
def value : Floating f → Option ℚ
  | .finite x _ => some x
  | _ => none

theorem eq_finite {d : Floating f} {x : ℚ} (h : d.value = some x) : ∃ hx, d = .finite x hx := by
  cases d with
  | finite y hy =>
    cases h
    exact ⟨hy, rfl⟩
  | inf | nan => cases h

theorem round_of_value {d : Floating f} {x : ℚ} (h : d.value = some x) : f.round x = x := by
  obtain ⟨hx, -⟩ := eq_finite h
  exact hx.1

theorem onGrid_of_value {d : Floating f} {x : ℚ} (h : d.value = some x) : f.OnGrid x :=
  round_of_value h ▸ Format.onGrid_round x

theorem value_ofRat {x : ℚ} (h : |f.round x| < 2 ^ f.bound) : (ofRat x : Floating f).value = some (f.round x) := by
  rw [ofRat, dif_pos h]
  rfl

theorem value_ofRat_eq_some {x y : ℚ} (h : (ofRat x : Floating f).value = some y) : y = f.round x := by
  unfold ofRat at h
  split at h
  · exact (Option.some.inj h).symm
  · cases h

@[simp] theorem value_zero : (0 : Floating f).value = some 0 := by
  have h : |f.round 0| < 2 ^ f.bound := by
    rw [Format.round_zero, abs_zero]
    positivity
  exact (value_ofRat h).trans (by rw [Format.round_zero])

theorem add_of_value {d d' : Floating f} {x y : ℚ} (h : d.value = some x) (h' : d'.value = some y) :
    d + d' = ofRat (x + y) := by
  obtain ⟨hx, rfl⟩ := eq_finite h
  obtain ⟨hy, rfl⟩ := eq_finite h'
  rfl

theorem sub_of_value {d d' : Floating f} {x y : ℚ} (h : d.value = some x) (h' : d'.value = some y) :
    d - d' = ofRat (x - y) := by
  obtain ⟨hy, rfl⟩ := eq_finite h'
  have hneg : (neg (.finite y hy) : Floating f).value = some (-y) := by
    refine (value_ofRat ?_).trans (by rw [Format.round_neg, hy.1])
    rw [Format.round_neg, hy.1, abs_neg]
    exact hy.2
  rw [sub_eq_add_neg]
  exact add_of_value h hneg

theorem mul_of_value {d d' : Floating f} {x y : ℚ} (h : d.value = some x) (h' : d'.value = some y) :
    d * d' = ofRat (x * y) := by
  obtain ⟨hx, rfl⟩ := eq_finite h
  obtain ⟨hy, rfl⟩ := eq_finite h'
  rfl

/-- What is finite was made of numbers. -/
theorem value_add {d d' : Floating f} {z : ℚ} (h : (d + d').value = some z) :
    ∃ x y, d.value = some x ∧ d'.value = some y ∧ z = f.round (x + y) := by
  cases d with
  | finite x hx =>
    cases d' with
    | finite y hy => exact ⟨x, y, rfl, rfl, value_ofRat_eq_some h⟩
    | inf | nan => cases h
  | inf s =>
    cases d' with
    | finite | nan => cases h
    | inf s' =>
      have h : (if s = s' then Floating.inf s else .nan).value = some z := h
      split at h <;> cases h
  | nan => cases h

theorem value_mul {d d' : Floating f} {z : ℚ} (h : (d * d').value = some z) :
    ∃ x y, d.value = some x ∧ d'.value = some y ∧ z = f.round (x * y) := by
  cases d with
  | finite x hx =>
    cases d' with
    | finite y hy => exact ⟨x, y, rfl, rfl, value_ofRat_eq_some h⟩
    | inf s =>
      have h : (if x = 0 then Floating.nan else .inf (s != (x < 0))).value = some z := h
      split at h <;> cases h
    | nan => cases h
  | inf s =>
    cases d' with
    | finite y hy =>
      have h : (if y = 0 then Floating.nan else .inf (s != (y < 0))).value = some z := h
      split at h <;> cases h
    | inf | nan => cases h
  | nan => cases h

/-- The sign of what is divided by. -/
theorem value_inv_nonneg {d : Floating f} (hd : ∀ x, d.value = some x → 0 ≤ x) {y : ℚ} (h : d⁻¹.value = some y) :
    0 ≤ y := by
  cases d with
  | finite x hx =>
    rw [value_ofRat_eq_some h]
    exact Format.round_nonneg (one_div_nonneg.mpr (hd x rfl))
  | inf =>
    rw [value_ofRat_eq_some h]
    exact Format.round_nonneg le_rfl
  | nan => cases h

/-! ## Sums -/

/-- The numbers added up from the left, each sum rounded. -/
def total (f : Format) (v : ℚ) (xs : List ℚ) : ℚ := xs.foldl (fun v x => f.round (v + x)) v

@[simp] theorem total_nil (v : ℚ) : total f v [] = v := rfl

@[simp] theorem total_cons (v x : ℚ) (xs : List ℚ) : total f v (x :: xs) = total f (f.round (v + x)) xs := rfl

theorem total_nonneg : ∀ {v : ℚ} {xs : List ℚ}, 0 ≤ v → (∀ x ∈ xs, 0 ≤ x) → 0 ≤ total f v xs
  | _, [], hv, _ => hv
  | v, x :: xs, hv, hxs => by
    obtain ⟨hx, hrest⟩ := List.forall_mem_cons.mp hxs
    exact total_nonneg (v := f.round (v + x)) (Format.round_nonneg (add_nonneg hv hx)) hrest

/-- Larger numbers have a larger sum. -/
theorem total_mono {v v' : ℚ} {xs ys : List ℚ} (hv : 0 ≤ v) (hle : v ≤ v')
    (h : List.Forall₂ (fun x y => 0 ≤ x ∧ x ≤ y) xs ys) :
    total f v xs ≤ total f v' ys := by
  induction h generalizing v v' with
  | nil => exact hle
  | cons hxy _ ih =>
    have hsum : 0 ≤ v + _ := add_nonneg hv hxy.1
    exact ih (Format.round_nonneg hsum) (Format.round_mono hsum (add_le_add hle hxy.2))

/-- What is not negative is at most what it is added to. -/
theorem le_total : ∀ {v : ℚ} {xs : List ℚ}, 0 ≤ v → f.round v = v → (∀ x ∈ xs, 0 ≤ x) → v ≤ total f v xs
  | _, [], _, _, _ => le_rfl
  | v, x :: xs, hv, hround, hxs => by
    obtain ⟨hx, hrest⟩ := List.forall_mem_cons.mp hxs
    calc v = f.round v := hround.symm
      _ ≤ f.round (v + x) := Format.round_mono hv (by linarith)
      _ ≤ total f (f.round (v + x)) xs := le_total (Format.round_nonneg (add_nonneg hv hx)) (Format.round_round _) hrest

/-- And a summand at most the sum. -/
theorem le_total_of_mem : ∀ {v : ℚ} {xs : List ℚ}, 0 ≤ v → (∀ x ∈ xs, 0 ≤ x) →
    ∀ x ∈ xs, f.round x = x → x ≤ total f v xs
  | v, x :: xs, hv, hxs, y, hy, hround => by
    obtain ⟨hx, hrest⟩ := List.forall_mem_cons.mp hxs
    have hsum : 0 ≤ f.round (v + x) := Format.round_nonneg (add_nonneg hv hx)
    rcases List.mem_cons.mp hy with rfl | hy
    · calc y = f.round y := hround.symm
        _ ≤ f.round (v + y) := Format.round_mono hx (by linarith)
        _ ≤ total f (f.round (v + y)) xs := le_total hsum (Format.round_round _) hrest
    · exact le_total_of_mem (v := f.round (v + x)) hsum hrest y hy hround

/-- A scale of four goes through. -/
theorem total_four_mul : ∀ {v : ℚ} {xs : List ℚ}, f.OnGrid v → (∀ x ∈ xs, f.OnGrid x) →
    total f (4 * v) (xs.map (4 * ·)) = 4 * total f v xs
  | _, [], _, _ => rfl
  | v, x :: xs, hv, hxs => by
    rw [List.map_cons, total_cons, total_cons, ← mul_add, Format.round_four_mul (hv.add (hxs x List.mem_cons_self))]
    exact total_four_mul (Format.onGrid_round _) fun y hy => hxs y (List.mem_cons_of_mem x hy)

theorem value_foldl : ∀ {ds : List (Floating f)} {d : Floating f} {z : ℚ}, (ds.foldl (· + ·) d).value = some z →
    ∃ v xs, d.value = some v ∧ ds.map value = xs.map some ∧ z = total f v xs
  | [], _, z, h => ⟨z, [], h, rfl, rfl⟩
  | d' :: ds, d, z, h => by
    obtain ⟨v', xs, hv', hxs, hz⟩ := value_foldl (d := d + d') h
    obtain ⟨v, x, hv, hx, rfl⟩ := value_add hv'
    exact ⟨v, x :: xs, hv, by rw [List.map_cons, hx, hxs, List.map_cons], hz⟩

/-- A finite sum is one of numbers. -/
theorem value_sum {ds : List (Floating f)} {z : ℚ} (h : (sum ds).value = some z) :
    ∃ xs, ds.map value = xs.map some ∧ z = total f 0 xs := by
  obtain ⟨v, xs, hv, hxs, hz⟩ := value_foldl h
  obtain rfl : 0 = v := Option.some.inj (value_zero.symm.trans hv)
  exact ⟨xs, hxs, hz⟩

theorem foldl_value : ∀ {ds : List (Floating f)} {d : Floating f} {v : ℚ} {xs : List ℚ}, d.value = some v →
    ds.map value = xs.map some →
    0 ≤ v → (∀ x ∈ xs, 0 ≤ x) → total f v xs < 2 ^ f.bound → (ds.foldl (· + ·) d).value = some (total f v xs)
  | [], d, v, xs, hd, hxs, _, _, _ => by
    obtain rfl : xs = [] := by simpa using hxs.symm
    exact hd
  | d' :: ds, d, v, xs, hd, hxs, hv, hnonneg, hlt => by
    obtain ⟨x, xs, rfl⟩ : ∃ x xs', xs = x :: xs' := List.exists_cons_of_ne_nil (by rintro rfl; simp at hxs)
    rw [List.map_cons, List.map_cons, List.cons.injEq] at hxs
    obtain ⟨hx, hrest⟩ := List.forall_mem_cons.mp hnonneg
    have hsum : 0 ≤ f.round (v + x) := Format.round_nonneg (add_nonneg hv hx)
    have hbound : |f.round (v + x)| < 2 ^ f.bound := by
      rw [abs_of_nonneg hsum]
      exact (le_total hsum (Format.round_round _) hrest).trans_lt hlt
    have hadd : (d + d').value = some (f.round (v + x)) := by
      rw [add_of_value hd hxs.1, value_ofRat hbound]
    exact foldl_value (d := d + d') (v := f.round (v + x)) hadd hxs.2 hsum hrest hlt

/-- A sum of numbers is finite where it is not too large. -/
theorem sum_value {ds : List (Floating f)} {xs : List ℚ} (hxs : ds.map value = xs.map some) (hnonneg : ∀ x ∈ xs, 0 ≤ x)
    (hlt : total f 0 xs < 2 ^ f.bound) : (sum ds).value = some (total f 0 xs) :=
  foldl_value value_zero hxs le_rfl hnonneg hlt

end Floating

end GptCache
