/-
Weighted caching with credits, in general. A key is loaded with a credit of at
least its weight, an eviction takes a key of least credit and the others pay
that credit, and a hit may raise a credit again, never over `b` weights.

`Run.competitive`: whatever is requested, such a cache whose evictions happen
at `k` keys or more pays, per weight an offline schedule of `h ≤ k` places
loads, at most `k * b / (k + 1 - h)`. The argument is by the potential

  `(h - 1) * Σ cached, credit  +  k * Σ offline, (b * weight - credit)`

(`potential`): the offline schedule moves first and raises it by what it loads
(`potential_moves`), an eviction does not raise it, because one of the `h`
offline keys is the request and so not cached (`Evict.potential_le`), and a
load pays for itself out of it (`Serve.potential_le`).
-/
import Mathlib.Algebra.Order.Field.Basic
import Mathlib.Algebra.Order.BigOperators.Group.Finset
import Mathlib.Algebra.BigOperators.Ring.Finset
import Mathlib.Logic.Relation
import Mathlib.Tactic.Linarith
import Mathlib.Tactic.Ring

namespace GptCache.Landlord

structure State (K F : Type) where
  keys : Finset K
  credit : K → F

variable {K F : Type} [DecidableEq K] [Field F] [LinearOrder F]

/-- A key of least credit leaves a cache of at least `k` keys; the others pay that credit. -/
def Evict (k : Nat) (s s' : State K F) : Prop :=
  ∃ v ∈ s.keys, k ≤ s.keys.card ∧ (∀ f ∈ s.keys, s.credit v ≤ s.credit f) ∧ s'.keys = s.keys.erase v ∧
    ∀ f ∈ s'.keys, s'.credit f = s.credit f - s.credit v

/-- Any number of evictions. -/
def Evictions (k : Nat) : State K F → State K F → Prop := Relation.ReflTransGen (Evict k)

/-- A key's credit is renewed, up to `b` weights. -/
structure Renew (w : K → F) (b : F) (s : State K F) (g : K) (s' : State K F) : Prop where
  others : ∀ f ∈ s.keys, f ≠ g → s'.credit f = s.credit f
  le : s'.credit g ≤ b * w g

/-- A request for `g`. -/
inductive Serve (w : K → F) (b : F) (k : Nat) (s : State K F) (g : K) : State K F → Prop
  | hit {s'} : g ∈ s.keys → s'.keys = s.keys → Renew w b s g s' → s.credit g ≤ s'.credit g → Serve w b k s g s'
  | miss {s₁ s'} : g ∉ s.keys → Evictions k s s₁ → s'.keys = insert g s₁.keys → Renew w b s₁ g s' →
      w g ≤ s'.credit g → Serve w b k s g s'

/-- What a request costs. -/
def price (w : K → F) (s : State K F) (g : K) : F := if g ∈ s.keys then 0 else w g

/-- Requests one after the other, and what they cost together. -/
inductive Run (w : K → F) (b : F) (k : Nat) : State K F → List K → F → State K F → Prop
  | nil {s} : Run w b k s [] 0 s
  | cons {s g s' gs c s''} : Serve w b k s g s' → Run w b k s' gs c s'' → Run w b k s (g :: gs) (price w s g + c) s''

/-! ## Offline schedules -/

/-- A schedule holds `h` keys at most and each request when it comes. -/
def Serves (h : Nat) (gs : List K) (plan : List (Finset K)) : Prop :=
  List.Forall₂ (fun g keys => g ∈ keys ∧ keys.card ≤ h) gs plan

/-- The weight a schedule loads, from what it holds at first. -/
def loads (w : K → F) : Finset K → List (Finset K) → F
  | _, [] => 0
  | held, keys :: plan => ∑ f ∈ keys \ held, w f + loads w keys plan

omit [LinearOrder F] in
theorem loads_append (w : K → F) : ∀ (held : Finset K) (plan plan' : List (Finset K)),
    loads w held (plan ++ plan') = loads w held plan + loads w (plan.getLastD held) plan'
  | held, [], plan' => by simp [loads]
  | held, keys :: plan, plan' => by
    rw [List.cons_append, loads, loads, loads_append w keys plan plan', List.getLastD_cons, add_assoc]

theorem loads_nonneg [IsStrictOrderedRing F] {w : K → F} (hw : ∀ f, 0 ≤ w f) :
    ∀ (held : Finset K) (plan : List (Finset K)),
    0 ≤ loads w held plan
  | _, [] => le_rfl
  | _, keys :: plan => add_nonneg (Finset.sum_nonneg fun f _ => hw f) (loads_nonneg hw keys plan)

omit [LinearOrder F] in
theorem loads_stay (w : K → F) (keys : Finset K) (n : Nat) : loads w keys (List.replicate n keys) = 0 := by
  induction n with
  | zero => rfl
  | succ n ih => rw [List.replicate_succ, loads, ih, Finset.sdiff_self, Finset.sum_empty, add_zero]

/-- Holding on to some keys loads each of them once at most. -/
theorem loads_replicate_le [IsStrictOrderedRing F] {w : K → F} (hw : ∀ f, 0 ≤ w f) (keys held : Finset K) :
    ∀ n, loads w held (List.replicate n keys) ≤ ∑ f ∈ keys, w f
  | 0 => Finset.sum_nonneg fun f _ => hw f
  | n + 1 => by
    rw [List.replicate_succ, loads, loads_stay, add_zero]
    exact Finset.sum_le_sum_of_subset_of_nonneg Finset.sdiff_subset fun f _ _ => hw f

/-! ## Credits -/

/-- What is left of a key's credit, nothing where the key is not cached. -/
def State.held (s : State K F) (f : K) : F := if f ∈ s.keys then s.credit f else 0

omit [LinearOrder F] in
theorem State.held_of_mem {s : State K F} {f : K} (h : f ∈ s.keys) : s.held f = s.credit f := if_pos h

omit [LinearOrder F] in
theorem State.held_of_not_mem {s : State K F} {f : K} (h : f ∉ s.keys) : s.held f = 0 := if_neg h

/-- No credit is negative or over `b` weights. -/
def Sound (w : K → F) (b : F) (s : State K F) : Prop := ∀ f ∈ s.keys, 0 ≤ s.credit f ∧ s.credit f ≤ b * w f

variable {w : K → F} {b : F} {k h : Nat} {s s₁ s' : State K F} {g : K} {held : Finset K}

theorem Evict.keys_subset (he : Evict k s s') : s'.keys ⊆ s.keys := by
  obtain ⟨v, -, -, -, hkeys, -⟩ := he
  exact hkeys ▸ Finset.erase_subset v s.keys

theorem Evictions.keys_subset (he : Evictions k s s') : s'.keys ⊆ s.keys := by
  induction he with
  | refl => exact Finset.Subset.refl _
  | tail _ hlast ih => exact hlast.keys_subset.trans ih

variable [IsStrictOrderedRing F]

theorem Evict.sound (hs : Sound w b s) (he : Evict k s s') : Sound w b s' := by
  intro f hf
  have hmem : f ∈ s.keys := he.keys_subset hf
  obtain ⟨v, hv, -, hmin, -, hcredit⟩ := he
  have hleast := hmin f hmem
  have hpaid := (hs v hv).1
  have hbound := (hs f hmem).2
  rw [hcredit f hf]
  exact ⟨by linarith, by linarith⟩

theorem Evictions.sound (hs : Sound w b s) (he : Evictions k s s') : Sound w b s' := by
  induction he with
  | refl => exact hs
  | tail _ hlast ih => exact hlast.sound ih

omit [IsStrictOrderedRing F] in
theorem Renew.sound (hs : Sound w b s) (hr : Renew w b s g s') (hkeys : s'.keys = insert g s.keys)
    (hnonneg : 0 ≤ s'.credit g) : Sound w b s' := by
  intro f hf
  by_cases hfg : f = g
  · subst hfg
    exact ⟨hnonneg, hr.le⟩
  · have hmem : f ∈ s.keys := (Finset.mem_insert.mp (hkeys ▸ hf)).resolve_left hfg
    rw [hr.others f hmem hfg]
    exact hs f hmem

/-! ## The potential -/

/-- The share of the offline keys that is not covered by credits. -/
def debt (w : K → F) (b : F) (s : State K F) (f : K) : F := b * w f - s.held f

def potential (w : K → F) (b : F) (h k : Nat) (held : Finset K) (s : State K F) : F :=
  (h - 1) * ∑ f ∈ s.keys, s.held f + k * ∑ f ∈ held, debt w b s f

omit [IsStrictOrderedRing F] in
theorem held_nonneg (hs : Sound w b s) (f : K) : 0 ≤ s.held f := by
  by_cases hf : f ∈ s.keys
  · rw [State.held_of_mem hf]
    exact (hs f hf).1
  · rw [State.held_of_not_mem hf]

theorem debt_nonneg (hw : ∀ f, 0 ≤ w f) (hb : 0 ≤ b) (hs : Sound w b s) (f : K) : 0 ≤ debt w b s f := by
  by_cases hf : f ∈ s.keys
  · rw [debt, State.held_of_mem hf]
    have := (hs f hf).2
    linarith
  · rw [debt, State.held_of_not_mem hf, sub_zero]
    exact mul_nonneg hb (hw f)

theorem potential_nonneg (hw : ∀ f, 0 ≤ w f) (hb : 0 ≤ b) (hh : 1 ≤ h) (hs : Sound w b s) (held : Finset K) :
    0 ≤ potential w b h k held s := by
  have hplaces : (0 : F) ≤ h - 1 := by
    have : (1 : F) ≤ h := by exact_mod_cast hh
    linarith
  refine add_nonneg (mul_nonneg hplaces ?_) (mul_nonneg (Nat.cast_nonneg k) ?_)
  · exact Finset.sum_nonneg fun f _ => held_nonneg hs f
  · exact Finset.sum_nonneg fun f _ => debt_nonneg hw hb hs f

/-- The schedule moves: what it drops lowers the potential, what it loads raises it by `k * b` weights. -/
theorem potential_moves (hw : ∀ f, 0 ≤ w f) (hb : 0 ≤ b) (hs : Sound w b s) (held held' : Finset K) :
    potential w b h k held' s ≤ potential w b h k held s + k * b * ∑ f ∈ held' \ held, w f := by
  have hloaded : ∑ f ∈ held' \ held, debt w b s f ≤ b * ∑ f ∈ held' \ held, w f := by
    rw [Finset.mul_sum]
    refine Finset.sum_le_sum fun f _ => ?_
    have := held_nonneg hs f
    rw [debt]
    linarith
  have hall : ∑ f ∈ held', debt w b s f ≤ ∑ f ∈ held, debt w b s f + ∑ f ∈ held' \ held, debt w b s f := by
    rw [← Finset.sum_union Finset.disjoint_sdiff, Finset.union_sdiff_self_eq_union]
    exact Finset.sum_le_sum_of_subset_of_nonneg Finset.subset_union_right fun f _ _ => debt_nonneg hw hb hs f
  have hscaled := mul_le_mul_of_nonneg_left (hall.trans (add_le_add_right hloaded _)) (Nat.cast_nonneg k : (0 : F) ≤ k)
  rw [potential, potential]
  linarith

omit [Field F] [LinearOrder F] [IsStrictOrderedRing F] in
/-- Of `h` offline keys one is the request, which is not cached. -/
theorem card_covered_lt (cached : Finset K) (hg : g ∈ held) (hmiss : g ∉ cached) (hcard : held.card ≤ h) :
    (held.filter (· ∈ cached)).card + 1 ≤ h := by
  have hlt : (held.filter (· ∈ cached)).card < held.card :=
    Finset.card_lt_card (Finset.filter_ssubset.mpr ⟨g, hg, hmiss⟩)
  omega

/-- An eviction does not raise the potential. -/
theorem Evict.potential_le (hs : Sound w b s) (he : Evict k s s') (hg : g ∈ held) (hmiss : g ∉ s.keys)
    (hcard : held.card ≤ h) : potential w b h k held s' ≤ potential w b h k held s := by
  obtain ⟨v, hv, hk, hmin, hkeys, hcredit⟩ := he
  have hpaid : 0 ≤ s.credit v := (hs v hv).1
  have hafter : ∀ f, s'.held f = s.held f - if f ∈ s.keys then s.credit v else 0 := by
    intro f
    by_cases hf : f ∈ s.keys
    · rw [if_pos hf, State.held_of_mem hf]
      by_cases hfv : f = v
      · rw [State.held_of_not_mem (by rw [hkeys, hfv]; exact Finset.notMem_erase v s.keys), hfv, sub_self]
      · have hf' : f ∈ s'.keys := hkeys ▸ Finset.mem_erase.mpr ⟨hfv, hf⟩
        rw [State.held_of_mem hf', hcredit f hf']
    · have hf' : f ∉ s'.keys := hkeys ▸ fun hin => hf (Finset.mem_of_mem_erase hin)
      rw [if_neg hf, State.held_of_not_mem hf, State.held_of_not_mem hf', sub_zero]
  have hcached : ∑ f ∈ s'.keys, s'.held f = ∑ f ∈ s.keys, s.held f - s.keys.card * s.credit v := by
    have hgone : s'.held v = 0 := by rw [hafter v, if_pos hv, State.held_of_mem hv, sub_self]
    rw [hkeys, Finset.sum_erase _ hgone, Finset.sum_congr rfl fun f _ => hafter f, Finset.sum_sub_distrib,
      Finset.sum_congr rfl fun f hf => if_pos hf, Finset.sum_const, nsmul_eq_mul]
  have hdebt : ∑ f ∈ held, debt w b s' f =
      ∑ f ∈ held, debt w b s f + (held.filter (· ∈ s.keys)).card * s.credit v := by
    have hone : ∀ f, debt w b s' f = debt w b s f + if f ∈ s.keys then s.credit v else 0 := by
      intro f
      rw [debt, debt, hafter f]
      ring
    rw [Finset.sum_congr rfl fun f _ => hone f, Finset.sum_add_distrib, ← Finset.sum_filter,
      Finset.sum_const, nsmul_eq_mul]
  have hfew : ((held.filter (· ∈ s.keys)).card : F) ≤ h - 1 := by
    have := card_covered_lt s.keys hg hmiss hcard
    have : ((held.filter (· ∈ s.keys)).card : F) + 1 ≤ h := by exact_mod_cast this
    linarith
  -- at least `k` keys pay `h - 1` times what at most `h - 1` keys cost `k` times
  have hshare : (k : F) * (held.filter (· ∈ s.keys)).card ≤ (h - 1) * s.keys.card := by
    have hmany : (k : F) ≤ s.keys.card := by exact_mod_cast hk
    have hzero : (0 : F) ≤ (held.filter (· ∈ s.keys)).card := Nat.cast_nonneg _
    calc (k : F) * (held.filter (· ∈ s.keys)).card ≤ k * (h - 1) := mul_le_mul_of_nonneg_left hfew (Nat.cast_nonneg k)
      _ = (h - 1) * k := mul_comm _ _
      _ ≤ (h - 1) * s.keys.card := mul_le_mul_of_nonneg_left hmany (hzero.trans hfew)
  have hpays := mul_le_mul_of_nonneg_right hshare hpaid
  rw [potential, potential, hcached, hdebt]
  linarith

theorem Evictions.potential_le (hs : Sound w b s) (he : Evictions k s s') (hg : g ∈ held) (hmiss : g ∉ s.keys)
    (hcard : held.card ≤ h) : potential w b h k held s' ≤ potential w b h k held s := by
  induction he with
  | refl => exact le_rfl
  | tail hfirst hlast ih =>
    have hmid : g ∉ _ := fun hin => hmiss (Evictions.keys_subset hfirst hin)
    exact (hlast.potential_le (Evictions.sound hs hfirst) hg hmid hcard).trans ih

omit [LinearOrder F] [IsStrictOrderedRing F] in
/-- A credit that is renewed counts `h - 1` times as cached and `k` times less as debt. -/
theorem potential_renew (hg : g ∈ held) (hkeys : s'.keys = insert g s.keys)
    (hothers : ∀ f ∈ s.keys, f ≠ g → s'.credit f = s.credit f) :
    potential w b h k held s' = potential w b h k held s - (k + 1 - h) * (s'.credit g - s.held g) := by
  have hgheld : s'.held g = s.held g + (s'.credit g - s.held g) := by
    rw [State.held_of_mem (hkeys ▸ Finset.mem_insert_self g s.keys)]
    ring
  have hsame : ∀ f, f ≠ g → s'.held f = s.held f := by
    intro f hfg
    by_cases hf : f ∈ s.keys
    · rw [State.held_of_mem hf, State.held_of_mem (hkeys ▸ Finset.mem_insert_of_mem hf), hothers f hf hfg]
    · have hf' : f ∉ s'.keys := hkeys ▸ fun hin => (Finset.mem_insert.mp hin).elim hfg hf
      rw [State.held_of_not_mem hf, State.held_of_not_mem hf']
  have hcached : ∑ f ∈ s'.keys, s'.held f = ∑ f ∈ s.keys, s.held f + (s'.credit g - s.held g) := by
    have hbefore : ∑ f ∈ insert g s.keys, s.held f = ∑ f ∈ s.keys, s.held f :=
      Finset.sum_insert_of_eq_zero_if_notMem fun hnot => State.held_of_not_mem hnot
    rw [hkeys, ← hbefore, ← Finset.add_sum_erase _ _ (Finset.mem_insert_self g s.keys),
      ← Finset.add_sum_erase _ s.held (Finset.mem_insert_self g s.keys), hgheld,
      Finset.sum_congr rfl fun f hf => hsame f (Finset.ne_of_mem_erase hf)]
    ring
  have hdebt : ∑ f ∈ held, debt w b s' f = ∑ f ∈ held, debt w b s f - (s'.credit g - s.held g) := by
    rw [← Finset.add_sum_erase _ _ hg, ← Finset.add_sum_erase _ (debt w b s) hg,
      Finset.sum_congr rfl fun f hf => by rw [debt, hsame f (Finset.ne_of_mem_erase hf), ← debt], debt, debt, hgheld]
    ring
  rw [potential, potential, hcached, hdebt]
  ring

/-- A request is paid out of the potential. -/
theorem Serve.potential_le (hw : ∀ f, 0 ≤ w f) (hhk : h ≤ k) (hs : Sound w b s) (hserve : Serve w b k s g s')
    (hg : g ∈ held) (hcard : held.card ≤ h) :
    Sound w b s' ∧ potential w b h k held s' + (k + 1 - h) * price w s g ≤ potential w b h k held s := by
  have hplaces : (0 : F) ≤ k + 1 - h := by
    have : (h : F) ≤ k := by exact_mod_cast hhk
    linarith
  cases hserve with
  | hit hmem hkeys hr hraise =>
    have hkeys' : s'.keys = insert g s.keys := hkeys.trans (Finset.insert_eq_of_mem hmem).symm
    refine ⟨hr.sound hs hkeys' ((hs g hmem).1.trans hraise), ?_⟩
    rw [potential_renew hg hkeys' hr.others, State.held_of_mem hmem, price, if_pos hmem]
    have := mul_nonneg hplaces (sub_nonneg.mpr hraise)
    linarith
  | @miss s₁ _ hmem hevicted hkeys hr hload =>
    have hmem₁ : g ∉ s₁.keys := fun hin => hmem (hevicted.keys_subset hin)
    refine ⟨hr.sound (hevicted.sound hs) hkeys ((hw g).trans hload), ?_⟩
    have hbefore := hevicted.potential_le hs hg hmem hcard
    have hpaid := mul_le_mul_of_nonneg_left hload hplaces
    rw [potential_renew hg hkeys hr.others, State.held_of_not_mem hmem₁, sub_zero, price, if_neg hmem]
    linarith

/-! ## The bound -/

theorem Run.potential_le (hw : ∀ f, 0 ≤ w f) (hb : 0 ≤ b) (hhk : h ≤ k) {gs : List K} {c : F}
    (hrun : Run w b k s gs c s') :
    ∀ (held : Finset K) {plan : List (Finset K)}, Sound w b s → Serves h gs plan →
      ∃ last, Sound w b s' ∧ potential w b h k last s' + (k + 1 - h) * c ≤
        potential w b h k held s + k * b * loads w held plan := by
  induction hrun with
  | nil =>
    intro held plan hs hplan
    cases hplan
    exact ⟨held, hs, by simp [loads]⟩
  | @cons s g s₁ gs c s' hserve hrest ih =>
    intro held plan hs hplan
    cases hplan with
    | @cons _ keys _ plan hfirst hothers =>
      have hmoves := potential_moves (h := h) (k := k) hw hb hs held keys
      obtain ⟨hs₁, hpaid⟩ := hserve.potential_le hw hhk hs hfirst.1 hfirst.2
      obtain ⟨last, hs', hlast⟩ := ih keys hs₁ hothers
      refine ⟨last, hs', ?_⟩
      rw [loads]
      linarith

/-- **Competitiveness.** From an empty cache, whatever is requested, against
every schedule of `h` places. -/
theorem Run.competitive (hw : ∀ f, 0 ≤ w f) (hb : 0 ≤ b) (hh : 1 ≤ h) (hhk : h ≤ k) {gs : List K} {c : F}
    (hrun : Run w b k s gs c s') (hempty : s.keys = ∅) {plan : List (Finset K)} (hplan : Serves h gs plan) :
    (k + 1 - h) * c ≤ k * b * loads w ∅ plan := by
  have hs : Sound w b s := by simp [Sound, hempty]
  obtain ⟨last, hs', hle⟩ := hrun.potential_le hw hb hhk ∅ hs hplan
  have hstart : potential w b h k ∅ s = 0 := by simp [potential, hempty]
  have hend := potential_nonneg (k := k) hw hb hh hs' last
  linarith

/-! ## Keys in an order -/

/-- With unit weights, credits that rise along an order: its first key may always be evicted. -/
structure Rising (order : List K) (credit : K → F) : Prop where
  nodup : order.Nodup
  sorted : order.Pairwise fun k k' => credit k ≤ credit k'
  bounds : ∀ k ∈ order, 0 ≤ credit k ∧ credit k ≤ 1

omit [DecidableEq K] in
theorem Rising.tail {v : K} {order : List K} {credit : K → F} (h : Rising (v :: order) credit) :
    Rising order fun f => credit f - credit v := by
  refine ⟨h.nodup.of_cons, h.sorted.of_cons.imp fun hle => sub_le_sub_right hle _, fun f hf => ?_⟩
  have hfirst := List.rel_of_pairwise_cons h.sorted hf
  have hv := h.bounds v List.mem_cons_self
  have hbound := h.bounds f (List.mem_cons_of_mem v hf)
  exact ⟨by linarith, by linarith⟩

/-- A key that comes last has a credit of 1. -/
theorem Rising.last {order : List K} {credit : K → F} (h : Rising order credit) (k : K) :
    Rising (order.filter (fun k' => k' ≠ k) ++ [k]) (Function.update credit k 1) := by
  have hsame : ∀ f ∈ order.filter fun k' => k' ≠ k, Function.update credit k 1 f = credit f ∧
      f ∈ order := fun f hf => by
    simp only [List.mem_filter, ne_eq, decide_not, Bool.not_eq_true', decide_eq_false_iff_not] at hf
    exact ⟨Function.update_of_ne hf.2 1 credit, hf.1⟩
  refine ⟨?_, ?_, fun f hf => ?_⟩
  · refine List.nodup_append.mpr ⟨h.nodup.filter _, List.nodup_singleton k, fun f hf k' hk' => ?_⟩
    obtain rfl := List.mem_singleton.mp hk'
    simp only [List.mem_filter, ne_eq, decide_not, Bool.not_eq_true', decide_eq_false_iff_not] at hf
    exact hf.2
  · refine List.pairwise_append.mpr ⟨?_, List.pairwise_singleton _ k, fun f hf k' hk' => ?_⟩
    · refine (h.sorted.filter _).imp_of_mem fun hf hf' hle => ?_
      rw [(hsame _ hf).1, (hsame _ hf').1]
      exact hle
    · obtain rfl := List.mem_singleton.mp hk'
      rw [(hsame f hf).1, Function.update_self]
      exact (h.bounds f (hsame f hf).2).2
  · by_cases hfk : f = k
    · subst hfk
      rw [Function.update_self]
      exact ⟨zero_le_one, le_rfl⟩
    · rw [Function.update_of_ne hfk]
      refine h.bounds f (hsame f ?_).2
      simpa [hfk] using hf

end GptCache.Landlord
