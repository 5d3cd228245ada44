/-
Entries that are inserted once, may be marked and are cleared when they are.
A ledger is what a store with soft deletion is to its readers: under each key
the value that was inserted, while it is not marked (`live`).

A table whose rows belong to entries follows its ledger: what it takes to add,
keep and delete rows with their entries is said once (`rows_insert`,
`rows_mark`, `rows_clear`), for ledgers whose keys are distinct.
-/
import Mathlib.Data.List.Nodup

namespace GptCache

structure LedgerEntry (K V : Type) where
  key : K
  value : V
  marked : Bool := false

abbrev Ledger (K V : Type) := List (LedgerEntry K V)

namespace Ledger

variable {K V : Type}

def keys (l : Ledger K V) : List K := l.map LedgerEntry.key

def insert (l : Ledger K V) (items : List (K × V)) : Ledger K V := l ++ items.map fun item => ⟨item.1, item.2, false⟩

theorem insert_nil (l : Ledger K V) : l.insert [] = l := List.append_nil l

theorem insert_insert (l : Ledger K V) (items items' : List (K × V)) :
    (l.insert items).insert items' = l.insert (items ++ items') := by
  simp only [insert, List.map_append, List.append_assoc]

def mark [DecidableEq K] (l : Ledger K V) (ks : List K) : Ledger K V :=
  l.map fun e => if e.key ∈ ks then { e with marked := true } else e

def clear (l : Ledger K V) : Ledger K V := l.filter fun e => !e.marked

section
variable [DecidableEq K]

def entry (l : Ledger K V) (k : K) : Option (LedgerEntry K V) := l.find? fun e => e.key = k

/-- The value under a key, if it is not marked. -/
def live (l : Ledger K V) (k : K) : Option V :=
  match l.entry k with
  | some ⟨_, v, false⟩ => some v
  | _ => none

end

/-! ## Keys -/

theorem keys_insert (l : Ledger K V) (items : List (K × V)) : (l.insert items).keys = l.keys ++ items.map Prod.fst := by
  simp [keys, insert, Function.comp_def]

theorem keys_clear_sublist (l : Ledger K V) : l.clear.keys.Sublist l.keys := List.filter_sublist.map _

variable [DecidableEq K]

@[simp] theorem keys_mark (l : Ledger K V) (ks : List K) : (l.mark ks).keys = l.keys := by
  simp only [keys, mark, List.map_map]
  exact List.map_congr_left fun e _ => by simp only [Function.comp]; split <;> rfl

/-- What `g` does to the record of an entry is what marking does to the entry. -/
theorem map_mark {R : Type*} (l : Ledger K V) {ks : List K} {f : LedgerEntry K V → R} {g : R → R}
    (hmarked : ∀ e, e.key ∈ ks → g (f e) = f { e with marked := true }) (hother : ∀ e, e.key ∉ ks → g (f e) = f e) :
    (l.mark ks).map f = (List.map f l).map g := by
  rw [mark, List.map_map, List.map_map]
  refine List.map_congr_left fun e _ => ?_
  by_cases hk : e.key ∈ ks
  · rw [Function.comp, Function.comp, if_pos hk, hmarked e hk]
  · rw [Function.comp, Function.comp, if_neg hk, hother e hk]

theorem entry_eq_none {l : Ledger K V} {k : K} : l.entry k = none ↔ k ∉ l.keys := by
  simp only [entry, List.find?_eq_none, keys, List.mem_map, not_exists, not_and, decide_eq_true_eq]

theorem key_of_entry {l : Ledger K V} {k : K} {e : LedgerEntry K V} (h : l.entry k = some e) : e ∈ l ∧ e.key = k :=
  ⟨List.mem_of_find?_eq_some h, by simpa using List.find?_some h⟩

omit [DecidableEq K] in
/-- What finds an entry and only entries under its key finds that entry. -/
theorem find?_of_mem {l : Ledger K V} (h : l.keys.Nodup) {e : LedgerEntry K V} (he : e ∈ l) {p : LedgerEntry K V → Bool}
    (hfinds : p e = true) (honly : ∀ e', p e' = true → e'.key = e.key) : l.find? p = some e := by
  cases hfound : l.find? p with
  | none => exact absurd hfinds (List.find?_eq_none.mp hfound e he)
  | some e' =>
    have hkey := honly e' (List.find?_some hfound)
    rw [List.inj_on_of_nodup_map h (List.mem_of_find?_eq_some hfound) he hkey]

theorem entry_of_mem {l : Ledger K V} (h : l.keys.Nodup) {e : LedgerEntry K V} (he : e ∈ l) : l.entry e.key = some e :=
  find?_of_mem h he (by simp) fun e' hkey => by simpa using hkey

/-! ## What a reader sees -/

theorem live_eq_some {l : Ledger K V} (h : l.keys.Nodup) {k : K} {v : V} : l.live k = some v ↔ ⟨k, v, false⟩ ∈ l := by
  refine ⟨fun hlive => ?_, fun hmem => ?_⟩
  · unfold live at hlive
    split at hlive
    · rename_i hfound
      cases hlive
      obtain ⟨hmem, rfl⟩ := key_of_entry hfound
      exact hmem
    · cases hlive
  · have hfound := entry_of_mem h hmem
    simp only [live, hfound]

/-! ## Tables whose rows belong to entries -/

/-- The rows `f` makes of the entries, marked or not. -/
def rows {R : Type} (f : K → V → List R) (l : Ledger K V) : List R := l.flatMap fun e => f e.key e.value

def markedKeys (l : Ledger K V) : List K := (l.filter LedgerEntry.marked).map LedgerEntry.key

omit [DecidableEq K] in
theorem markedKeys_sublist (l : Ledger K V) : l.markedKeys.Sublist l.keys := List.filter_sublist.map _

theorem mark_nil (l : Ledger K V) : l.mark [] = l := by
  simp [mark]

omit [DecidableEq K] in
/-- Where nothing is marked, clearing does nothing. -/
theorem clear_of_markedKeys {l : Ledger K V} (h : l.markedKeys = []) : l.clear = l := by
  rw [markedKeys, List.map_eq_nil_iff, List.filter_eq_nil_iff] at h
  exact List.filter_eq_self.mpr fun e he => by simpa using h e he

section
variable {R : Type} (f : K → V → List R)

omit [DecidableEq K] in
theorem rows_insert (l : Ledger K V) (items : List (K × V)) :
    (l.insert items).rows f = l.rows f ++ items.flatMap fun item => f item.1 item.2 := by
  simp only [rows, insert, List.flatMap_append, List.flatMap_map]

theorem rows_mark (l : Ledger K V) (ks : List K) : (l.mark ks).rows f = l.rows f := by
  simp only [rows, mark, List.flatMap_map]
  exact congrArg (List.flatMap · l) (funext fun e => by split <;> rfl)

omit [DecidableEq K] in
theorem mem_markedKeys {l : Ledger K V} (h : l.keys.Nodup) {e : LedgerEntry K V} (he : e ∈ l) :
    e.key ∈ l.markedKeys ↔ e.marked = true := by
  refine ⟨fun hmem => ?_, fun hmarked => List.mem_map_of_mem (List.mem_filter.mpr ⟨he, hmarked⟩)⟩
  obtain ⟨e', he', hkey⟩ := List.mem_map.mp hmem
  obtain ⟨he', hmarked⟩ := List.mem_filter.mp he'
  rwa [List.inj_on_of_nodup_map h he' he hkey] at hmarked

variable {f} {owner : R → K} (howner : ∀ k v, ∀ r ∈ f k v, owner r = k)
include howner

/-- Deleting the rows of the marked entries. -/
theorem rows_clear {l : Ledger K V} (h : l.keys.Nodup) :
    (l.rows f).filter (fun r => owner r ∉ l.markedKeys) = l.clear.rows f := by
  have hpart : ∀ part : Ledger K V, (∀ e ∈ part, e ∈ l) →
      (part.rows f).filter (fun r => owner r ∉ l.markedKeys) = part.clear.rows f := by
    intro part
    induction part with
    | nil => exact fun _ => rfl
    | cons e part ih =>
      intro hsub
      obtain ⟨he, hsub⟩ := List.forall_mem_cons.mp hsub
      have hrows : ∀ r ∈ f e.key e.value, (owner r ∉ l.markedKeys) ↔ e.marked = false := by
        intro r hr
        rw [howner _ _ r hr, mem_markedKeys h he, Bool.not_eq_true]
      have ih := ih hsub
      simp only [rows, clear, List.flatMap_cons, List.filter_append] at ih ⊢
      rw [ih]
      cases hmarked : e.marked with
      | true =>
        have hnone : (f e.key e.value).filter (fun r => owner r ∉ l.markedKeys) = [] :=
          List.filter_eq_nil_iff.mpr fun r hr => by simpa [hmarked] using (hrows r hr).not
        rw [hnone, List.filter_cons_of_neg (by simp [hmarked]), List.nil_append]
      | false =>
        have hall : (f e.key e.value).filter (fun r => owner r ∉ l.markedKeys) = f e.key e.value :=
          List.filter_eq_self.mpr fun r hr => by simpa [hmarked] using hrows r hr
        rw [hall, List.filter_cons_of_pos (by simp [hmarked]), List.flatMap_cons]
  exact hpart l fun _ he => he

/-- The rows of one entry. -/
theorem rows_of_key {l : Ledger K V} (h : l.keys.Nodup) {e : LedgerEntry K V} (he : e ∈ l) :
    (l.rows f).filter (fun r => owner r = e.key) = f e.key e.value := by
  induction l with
  | nil => cases he
  | cons e' l ih =>
    obtain ⟨hnew, hnodup⟩ := List.nodup_cons.mp h
    simp only [rows, List.flatMap_cons, List.filter_append] at ih ⊢
    have hother : ∀ part : Ledger K V, e.key ∉ part.keys →
        (part.flatMap fun e => f e.key e.value).filter (fun r => owner r = e.key) = [] := by
      intro part hpart
      refine List.filter_eq_nil_iff.mpr fun r hr => ?_
      obtain ⟨e'', he'', hr⟩ := List.mem_flatMap.mp hr
      have hne : owner r ≠ e.key := fun heq =>
        hpart (heq ▸ howner _ _ r hr ▸ List.mem_map_of_mem he'')
      simpa using hne
    rcases List.mem_cons.mp he with rfl | he
    · have hself : (f e.key e.value).filter (fun r => owner r = e.key) = f e.key e.value :=
        List.filter_eq_self.mpr fun r hr => by simpa using howner _ _ r hr
      rw [hself, hother l hnew, List.append_nil]
    · have hne : e'.key ≠ e.key := fun heq => hnew (heq ▸ List.mem_map_of_mem he)
      have hfirst : (f e'.key e'.value).filter (fun r => owner r = e.key) = [] :=
        List.filter_eq_nil_iff.mpr fun r hr => by simpa [howner _ _ r hr] using hne
      rw [hfirst, ih hnodup he, List.nil_append]

end

end Ledger

end GptCache
