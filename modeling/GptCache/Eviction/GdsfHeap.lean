/-
The length of the heap of a `GDSFCache`.

A store pushes an entry and an eviction pops one at least, so without anything
else there are no more entries than cached keys. A hit and an overwrite push
one for a key that has one already, and a deletion leaves its key's behind:
each adds at most one stale entry (`run_gains`), and since only an
eviction takes entries away, from the top, calls of one of these kinds alone
let the heap grow without end (`grows`). `heap_bounded_iff` puts the two together.
-/
import GptCache.Eviction.GdsfAgeing

namespace GptCache.GDSFCache

variable {K α : Type}

/-- What a call does to a cached key other than evicting it. -/
inductive Access where
  | hit
  | overwrite
  | deletion
  deriving DecidableEq

def Op.kind : Op K α → Option (K × Access)
  | .setitem k _ => some (k, .overwrite)
  | .getitem k | .get k => some (k, .hit)
  | .delitem k => some (k, .deletion)
  | .popitem => none

/-- From `s` to `s'` the heap gained `slack` entries more than the cache gained keys, at most. -/
def Gains (slack : Nat) (s s' : GDSFCache K α) : Prop :=
  s'.heap.length + s.base.data.len ≤ s.heap.length + s'.base.data.len + slack

theorem Gains.refl (s : GDSFCache K α) : Gains 0 s s := by
  unfold Gains
  omega

theorem Gains.trans {n n' : Nat} {s s' s'' : GDSFCache K α} (h : Gains n s s') (h' : Gains n' s' s'') :
    Gains (n + n') s s'' := by
  unfold Gains at *
  omega

theorem Gains.mono {n n' : Nat} {s s' : GDSFCache K α} (h : Gains n s s') (hle : n ≤ n') : Gains n' s s' := by
  unfold Gains at *
  omega

variable [DecidableEq K]

/-- The access a call is, where its key is cached. -/
def access (s : GDSFCache K α) (op : Op K α) : Option Access :=
  (op.kind.filter fun a => s.base.data.contains a.1).map Prod.snd

/-- The accesses of a run. -/
def accesses (fuel : Nat) : GDSFCache K α → List (Op K α) → List Access
  | _, [] => []
  | s, op :: ops => (access s op).toList ++
    match call fuel s op with
    | none => []
    | some (_, s') => accesses fuel s' ops

/-! ## A stale entry for every access at most -/

@[simp] theorem push_heap_length (s : GDSFCache K α) (k : K) (v : Value α) :
    (s.push k v).heap.length = s.heap.length + 1 :=
  List.orderedInsert_length _ _ _

@[simp] theorem store_heap_length (s : GDSFCache K α) (k : K) (v : Value α) :
    (s.store k v).heap.length = s.heap.length + 1 := by
  rw [store, push_heap_length]
  split <;> rfl

theorem popLive_length {prio : Dict K ℚ} {heap rest : List (HeapEntry K)} {e : HeapEntry K}
    (h : popLive prio heap = some (e, rest)) : rest.length < heap.length := by
  obtain ⟨stale, rfl, -, -⟩ := popLive_some h
  simp only [List.length_append, List.length_cons]
  omega

/-- `popitem` adds no entry, and takes one for the key it answers. -/
theorem popitem_heap_length (s : GDSFCache K α) :
    s.popitem.2.heap.length + s.popitem.1.toList.length ≤ s.heap.length := by
  unfold popitem
  split
  · exact Nat.zero_le _
  · rename_i e heap hpop
    have hrest := popLive_length hpop
    split
    · simp only [Option.toList_none, List.length_nil]
      omega
    · simp only [forget, Option.toList_some, List.length_singleton]
      omega

/-- An eviction pops its key's entry. -/
theorem popitem_gains {s : GDSFCache K α} (h : Inv s) : Gains 0 s s.popitem.2 := by
  have hheap := popitem_heap_length s
  rcases Nat.eq_zero_or_pos s.base.data.len with hlen | hlen
  · obtain ⟨-, -, hbase⟩ := popitem_empty h hlen
    unfold Gains
    rw [hbase]
    omega
  · obtain ⟨k, v, hk, hv, -, hbase, -⟩ := popitem_some h hlen
    have herase := Dict.len_erase_add_one (Dict.contains_eq_true.mpr ⟨v, hk⟩)
    rw [hv, Option.toList_some, List.length_singleton] at hheap
    unfold Gains
    rw [hbase, Cache.pop_data]
    omega

theorem store_gains (s : GDSFCache K α) (k : K) (v : Value α) :
    Gains (if s.base.data.contains k then 1 else 0) s (s.store k v) := by
  unfold Gains
  rw [store_heap_length, store_base, Cache.store_data]
  rcases hk : s.base.data.contains k with _ | _
  · rw [Dict.len_set_of_not_mem hk]
    simp only [Bool.false_eq_true, if_false]
    omega
  · rw [Dict.len_set_of_mem hk]
    simp only [if_true]
    omega

/-- `Cache.__setitem__` may evict first. -/
theorem setitem_gains {fuel : Nat} {s : GDSFCache K α} (h : Inv s) (hfuel : s.base.data.len < fuel)
    (k : K) (v : Value α) {o : Outcome K α} {s' : GDSFCache K α} (hcall : call fuel s (.setitem k v) = some (o, s')) :
    Gains (if s.base.data.contains k then 1 else 0) s s' := by
  -- an eviction may take `k` itself, and then its store is that of a new key
  let P : GDSFCache K α → Prop := fun s' => Gains 0 s s' ∧
    (s'.base.data.contains k = true → s.base.data.contains k = true)
  have hpop : ∀ s' k', Evicted s s' → P s' → s'.base.overflows (s.base.getsizeof v) = true →
      s'.base.data.contains k' = true → s'.textbook.IsLeast s.base.getsizeof k' → s'.popitem.2.base = s'.base.pop k' →
      P s'.popitem.2 := by
    intro s' k' hs' hP _ _ _ hbase
    refine ⟨hP.1.trans (popitem_gains hs'.inv), fun hk => hP.2 ?_⟩
    rw [hbase, Cache.pop_data, Dict.contains_erase, Bool.and_eq_true] at hk
    exact hk.2
  rcases setitem_cases h hfuel k v (P := P) ⟨.refl s, fun hk => hk⟩ hpop with
    ⟨-, hraised⟩ | ⟨s₁, -, hdone, -, ⟨hgains, hkept⟩, -⟩
  · cases hraised.symm.trans hcall
    exact (Gains.refl s).mono (Nat.zero_le _)
  · cases hdone.symm.trans hcall
    rw [← Nat.zero_add (ite _ _ _)]
    refine hgains.trans ((store_gains s₁ k v).mono ?_)
    split
    · rename_i hk
      rw [if_pos (hkept hk)]
    · exact Nat.zero_le _

/-- A hit pushes one entry. -/
theorem getitem_gains {s : GDSFCache K α} (h : Inv s) {k : K} {v : Value α} (hk : s.base.data.get? k = some v) :
    (s.getitem k).2.heap.length = s.heap.length + 1 ∧ (s.getitem k).2.base.data = s.base.data := by
  have hf : s.freq.get? k = some (s.textbook.freq k) := by rw [h.freq, ← h.data, hk, Option.map_some]
  simp only [getitem, hk, hf]
  exact ⟨push_heap_length _ k v, rfl⟩

theorem getitem_state (fuel : Nat) (s : GDSFCache K α) (k : K) :
    (call fuel s (.getitem k)).map Prod.snd = some (s.getitem k).2 := by
  simp only [call]
  rcases s.getitem k with ⟨_ | _, _⟩ <;> rfl

theorem get_state (fuel : Nat) (s : GDSFCache K α) (k : K) :
    (call fuel s (.get k)).map Prod.snd = some (s.getitem k).2 := by
  have hstate : ((cacheClass K α).get s k).2 = (s.getitem k).2 := by
    rcases hk : s.base.data.get? k with _ | v
    · rw [(cacheClass K α).get_miss hk, getitem_miss hk]
    · have hkey : ((cacheClass K α).cache s).data.contains k = true := Dict.contains_eq_true.mpr ⟨v, hk⟩
      rw [CacheClass.get, if_pos hkey]
      rfl
  rw [← hstate]
  simp only [call]
  rcases (cacheClass K α).get s k with ⟨_ | _, _⟩ <;> rfl

theorem delitem_state (fuel : Nat) (s : GDSFCache K α) (k : K) :
    (call fuel s (.delitem k)).map Prod.snd = some (s.delitem k).2 := by
  simp only [call]
  rcases s.delitem k with ⟨_ | _, _⟩ <;> rfl

theorem popitem_state (fuel : Nat) (s : GDSFCache K α) :
    (call fuel s .popitem).map Prod.snd = some s.popitem.2 := by
  simp only [call]
  rcases s.popitem with ⟨_ | _, _⟩ <;> rfl

/-- What any access gains, where its key is cached. -/
theorem Gains.access {s s' : GDSFCache K α} {op : Op K α} {k : K} {a : Access} (hop : op.kind = some (k, a))
    (hcached : s.base.data.contains k = true → Gains 1 s s') (hother : s.base.data.contains k = false → Gains 0 s s') :
    Gains (access s op).toList.length s s' := by
  rcases hk : s.base.data.contains k with _ | _
  · simpa [GDSFCache.access, hop, Option.filter, hk] using hother hk
  · simpa [GDSFCache.access, hop, Option.filter, hk] using hcached hk

/-- **The heap in one call**: one entry more than the cache gains keys, at
most, and that only for an access. -/
theorem call_gains {fuel : Nat} {s : GDSFCache K α} (h : Inv s) (hfuel : s.base.data.len < fuel) {op : Op K α}
    {o : Outcome K α} {s' : GDSFCache K α} (hcall : call fuel s op = some (o, s')) :
    Gains (access s op).toList.length s s' := by
  have hstate : (call fuel s op).map Prod.snd = some s' := congrArg (Option.map Prod.snd) hcall
  have hhit : ∀ k, (s.base.data.contains k = true → Gains 1 s (s.getitem k).2) ∧
      (s.base.data.contains k = false → Gains 0 s (s.getitem k).2) := by
    intro k
    refine ⟨fun hk => ?_, fun hk => ?_⟩
    · obtain ⟨v, hv⟩ := Dict.contains_eq_true.mp hk
      obtain ⟨hheap, hdata⟩ := getitem_gains h hv
      unfold Gains
      rw [hheap, hdata]
      omega
    · rw [getitem_miss (Dict.contains_eq_false.mp hk)]
      exact .refl s
  cases op with
  | setitem k v =>
    have hgains := setitem_gains h hfuel k v hcall
    exact .access rfl (fun hk => by rwa [if_pos hk] at hgains) fun hk => by simpa [hk] using hgains
  | getitem k =>
    cases (getitem_state fuel s k).symm.trans hstate
    exact .access rfl (hhit k).1 (hhit k).2
  | get k =>
    cases (get_state fuel s k).symm.trans hstate
    exact .access rfl (hhit k).1 (hhit k).2
  | delitem k =>
    cases (delitem_state fuel s k).symm.trans hstate
    refine .access rfl (fun hk => ?_) fun hk => ?_
    · have hlen := Dict.len_erase_add_one hk
      simp only [delitem, hk, if_true, Gains, forget, Cache.delitem_data]
      omega
    · simp only [delitem, hk, Bool.false_eq_true, if_false]
      exact .refl s
  | popitem =>
    cases (popitem_state fuel s).symm.trans hstate
    exact popitem_gains h

/-- **The heap in a run**: one stale entry for every access, at most. -/
theorem run_gains (fuel : Nat) : ∀ (ops : List (Op K α)) {s s' : GDSFCache K α} {outs : List (Outcome K α)}, Inv s →
    s.base.data.len + ops.length < fuel + 1 → run fuel s ops = some (outs, s') → Gains (accesses fuel s ops).length s s'
  | [], s, s', outs, _, _, hrun => by
    cases hrun
    exact .refl s
  | op :: ops, s, s', outs, h, hfuel, hrun => by
    simp only [List.length_cons] at hfuel
    obtain ⟨o, s₁, hcall, hok⟩ := call_ok h (by omega : s.base.data.len < fuel) op
    have hlen := hok.len
    obtain ⟨os, s₂, hruns, -⟩ := run_ok fuel ops hok.inv (by omega)
    simp only [run, hcall, hruns, Option.some.injEq, Prod.mk.injEq] at hrun
    obtain ⟨-, rfl⟩ := hrun
    have hrest := run_gains fuel ops hok.inv (by omega) hruns
    simp only [accesses, hcall, List.length_append]
    exact (call_gains h (by omega) hcall).trans hrest

/-- Never more than `N` keys of unit size are cached. -/
theorem Inv.len_le {N : Nat} {s : GDSFCache K α} (h : Inv s) (hunit : s.base.getsizeof = fun _ => 1)
    (hw : Textbook.Within (fun _ => 1) N s.base.history) : s.base.data.len ≤ N := by
  rw [h.data, textbook, hunit]
  exact hw.len_le

/-- Of a cache that has no room no key is ever accessed. -/
theorem accesses_of_no_room (fuel : Nat) : ∀ (ops : List (Op K α)) {s : GDSFCache K α}, Inv s →
    s.base.maxsize = (0 : Nat) → s.base.getsizeof = (fun _ => 1) → Textbook.Within (fun _ => 1) 0 s.base.history →
    ops.length < fuel → accesses fuel s ops = []
  | [], _, _, _, _, _, _ => rfl
  | op :: ops, s, h, hm, hunit, hw, hfuel => by
    simp only [List.length_cons] at hfuel
    have hlen : s.base.data.len = 0 := Nat.le_zero.mp (h.len_le hunit hw)
    have hnone : access s op = none := by
      have hkeys : ∀ k, s.base.data.contains k = false := fun k => Dict.contains_eq_false.mpr
          (Dict.len_eq_zero.mp hlen k)
      rcases hop : op.kind with _ | a <;> simp [access, hop, Option.filter, hkeys]
    obtain ⟨o, s₁, hcall, hok⟩ := call_ok h (by omega : s.base.data.len < fuel) op
    have hcall' := hok.call
    rw [hm, hunit] at hcall'
    have hrest := accesses_of_no_room fuel ops hok.inv (hok.maxsize.trans hm) (hok.getsizeof.trans hunit)
      (hcall'.within hw) (by omega)
    simp only [accesses, hnone, hcall, hrest, Option.toList_none, List.append_nil]

/-! ## Accesses of one kind alone -/

/-- A unit-size cache within its capacity that holds `k`. -/
structure Keeps (N : Nat) (k : K) (s : GDSFCache K α) : Prop where
  inv : Inv s
  maxsize : s.base.maxsize = N
  unit : s.base.getsizeof = fun _ => 1
  len : s.base.data.len ≤ N
  cached : s.base.data.contains k = true

/-- Nothing is evicted for a key that is cached or that there is room for. -/
theorem call_store (fuel : Nat) {N : Nat} {s : GDSFCache K α} (hm : s.base.maxsize = N)
    (hunit : s.base.getsizeof = fun _ => 1)
    (hN : 1 ≤ N) {k : K} (hroom : s.base.data.contains k = false → s.base.data.len < N) (v : Value α) :
    call (fuel + 1) s (.setitem k v) = some (.done, s.store k v) := by
  have hfits : ¬ (N : ℚ) < 1 := not_lt.mpr (by exact_mod_cast hN)
  rcases hk : s.base.data.contains k with _ | _
  · have hneeds : s.base.needsRoom k 1 = true := by
      rw [Cache.needsRoom, Dict.contains_eq_false.mp hk]
    have hover : s.base.overflows 1 = false := by
      rw [Cache.overflows, hm, Cache.currsize_of_unit (fun v => congrFun hunit v), decide_eq_false_iff_not, not_lt]
      exact_mod_cast hroom hk
    have hloop : Exec.loop (fun s : GDSFCache K α × Unit => s.1.base.overflows 1)
        (cacheClass K α).popitemSelf (fuel + 1) (s, ()) = some (.ok (), (s, ())) := by
      simp only [Exec.loop, hover, Bool.false_eq_true, if_false]
    simp only [call, setitem, CacheClass.setitem, cacheClass_cache, bind, Exec.andThen, Exec.read, hm, hunit, hfits,
      if_false, hneeds, if_true, hloop, Exec.modify, cacheClass_store]
  · obtain ⟨old, hold⟩ := Dict.contains_eq_true.mp hk
    have hneeds : s.base.needsRoom k 1 = false := by
      simp [Cache.needsRoom, hold, hunit]
    simp only [call, setitem, CacheClass.setitem, cacheClass_cache, bind, Exec.andThen, Exec.read, hm, hunit, hfits,
      if_false, hneeds, Bool.false_eq_true, Exec.modify, cacheClass_store]
    rfl

theorem store_keeps {N : Nat} {s : GDSFCache K α} (h : Inv s) (hm : s.base.maxsize = N)
    (hunit : s.base.getsizeof = fun _ => 1)
    (hlen : s.base.data.len ≤ N) {k : K} (hroom : s.base.data.contains k = false → s.base.data.len < N) (v : Value α) :
    Keeps N k (s.store k v) := by
  refine ⟨store_inv k v h, by simp [hm], by simp [hunit], ?_, by simp [Dict.contains_set]⟩
  rw [store_base, Cache.store_data]
  rcases hk : s.base.data.contains k with _ | _
  · rw [Dict.len_set_of_not_mem hk]
    exact hroom hk
  · rw [Dict.len_set_of_mem hk]
    exact hlen

/-- The calls that are an access to `k` and leave it cached. -/
def again (k : K) : Access → List (Op K α)
  | .hit => [.getitem k]
  | .overwrite => [.setitem k (.bool true)]
  | .deletion => [.delitem k, .setitem k (.bool true)]

/-- The heap has grown by one entry, the cache not at all. -/
theorem again_grows (fuel : Nat) {N : Nat} {k : K} {s : GDSFCache K α} (h : Keeps N k s) (a : Access) :
    ∃ outs s', run (fuel + 1) s (again k a) = some (outs, s') ∧ Keeps N k s' ∧
      s'.heap.length = s.heap.length + 1 ∧ accesses (fuel + 1) s (again k a) = [a] := by
  have hN : 1 ≤ N := by
    have := Dict.len_erase_add_one h.cached
    have := h.len
    omega
  obtain ⟨v, hv⟩ := Dict.contains_eq_true.mp h.cached
  cases a with
  | hit =>
    obtain ⟨hval, hinv, hbase⟩ := getitem_inv h.inv hv
    have hcall : call (fuel + 1) s (.getitem k) = some (.value v, (s.getitem k).2) := call_getitem_of_some hval
    refine ⟨[.value v], (s.getitem k).2, by simp only [again, run, hcall], ?_, (getitem_gains h.inv hv).1, ?_⟩
    · exact ⟨hinv, by simp [hbase, h.maxsize], by simp [hbase, h.unit], by simpa [hbase] using h.len,
        by simpa [hbase] using h.cached⟩
    · simp [again, accesses, hcall, access, Op.kind, Option.filter, h.cached]
  | overwrite =>
    have hroom : s.base.data.contains k = false → s.base.data.len < N := fun hk => by simp [h.cached] at hk
    have hcall := call_store fuel h.maxsize h.unit hN hroom (.bool true)
    refine ⟨[.done], s.store k (.bool true), by simp only [again, run, hcall],
      store_keeps h.inv h.maxsize h.unit h.len hroom _, store_heap_length s k _, ?_⟩
    simp [again, accesses, hcall, access, Op.kind, Option.filter, h.cached]
  | deletion =>
    obtain ⟨hdone, hinv, hbase⟩ := delitem_inv h.inv h.cached
    have hcall : call (fuel + 1) s (.delitem k) = some (.done, (s.delitem k).2) := by
      simp only [call, delitem, h.cached, if_true]
    have hlen := Dict.len_erase_add_one h.cached
    have hle := h.len
    have hgone : (s.delitem k).2.base.data.contains k = false := by
      simp [hbase, Dict.contains_erase]
    have hroom : (s.delitem k).2.base.data.len < N := by
      rw [hbase, Cache.delitem_data]
      omega
    have hm : (s.delitem k).2.base.maxsize = N := by rw [hbase, ← h.maxsize]; rfl
    have hunit : (s.delitem k).2.base.getsizeof = fun _ => 1 := by rw [hbase, ← h.unit]; rfl
    have hstore := call_store (k := k) fuel hm hunit hN (fun _ => hroom) (.bool true)
    refine ⟨[.done, .done], (s.delitem k).2.store k (.bool true), by simp only [again, run, hcall, hstore],
      store_keeps hinv hm hunit hroom.le (fun _ => hroom) _, ?_, ?_⟩
    · rw [store_heap_length]
      simp only [delitem, h.cached, if_true, forget]
    · simp [again, accesses, hcall, hstore, access, Op.kind, Option.filter, h.cached, hgone]

theorem run_append (fuel : Nat) : ∀ (ops ops' : List (Op K α)) {s s' s'' : GDSFCache K α}
    {outs outs' : List (Outcome K α)}, run fuel s ops = some (outs, s') → run fuel s' ops' = some (outs', s'') →
    run fuel s (ops ++ ops') = some (outs ++ outs', s'') ∧
      accesses fuel s (ops ++ ops') = accesses fuel s ops ++ accesses fuel s' ops'
  | [], ops', s, s', s'', outs, outs', hrun, hrun' => by
    cases hrun
    exact ⟨hrun', rfl⟩
  | op :: ops, ops', s, s', s'', outs, outs', hrun, hrun' => by
    simp only [run] at hrun
    split at hrun
    · cases hrun
    · rename_i o s₁ hcall
      split at hrun
      · cases hrun
      · rename_i os s₂ hruns
        cases hrun
        obtain ⟨happ, hacc⟩ := run_append fuel ops ops' hruns hrun'
        refine ⟨by simp only [List.cons_append, run, hcall, happ], ?_⟩
        simp only [List.cons_append, accesses, hcall, hacc, List.append_assoc]

theorem repeat_grows (fuel : Nat) {N : Nat} {k : K} (a : Access) : ∀ (n : Nat) {s : GDSFCache K α}, Keeps N k s →
    ∃ outs s', run (fuel + 1) s (List.replicate n (again k a)).flatten = some (outs, s') ∧
      s'.heap.length = s.heap.length + n ∧ ∀ b ∈ accesses (fuel + 1) s (List.replicate n (again k a)).flatten, b = a
  | 0, s, h => ⟨[], s, rfl, rfl, by simp [accesses]⟩
  | n + 1, s, h => by
    obtain ⟨outs, s₁, hrun, h₁, hlen, hacc⟩ := again_grows fuel h a
    obtain ⟨outs', s₂, hruns, hlen', hacc'⟩ := repeat_grows fuel a n h₁
    obtain ⟨happ, haccs⟩ := run_append (fuel + 1) _ _ hrun hruns
    refine ⟨outs ++ outs', s₂, ?_, by omega, ?_⟩
    · rw [List.replicate_succ, List.flatten_cons]
      exact happ
    · rw [List.replicate_succ, List.flatten_cons, haccs, hacc]
      simpa using hacc'

/-- **Accesses of any one kind** let the heap grow over every bound. -/
theorem grows {N : Nat} (hN : 1 ≤ N) (k : K) (a : Access) (B : Nat) :
    ∃ (ops : List (Op K α)) (fuel : Nat), ops.length < fuel ∧
    (∀ b ∈ accesses fuel (new N fun _ => 1) ops, b = a) ∧
    ∃ outs s, run fuel (new N fun _ => 1) ops = some (outs, s) ∧ B < s.heap.length := by
  let ops : List (Op K α) := .setitem k (.bool true) :: (List.replicate B (again k a)).flatten
  have hempty : (new N fun _ => 1 : GDSFCache K α).base.data.len = 0 := by simp [new, Cache.new]
  have hroom : (new N fun _ => 1 : GDSFCache K α).base.data.contains k = false →
      (new N fun _ => 1 : GDSFCache K α).base.data.len < N := fun _ => hempty.trans_lt hN
  have hcall := call_store ops.length (k := k) (s := new N fun _ => 1) rfl rfl hN hroom (.bool true)
  have hkeeps : Keeps N k ((new N fun _ => 1 : GDSFCache K α).store k (.bool true)) :=
    store_keeps (new_inv N _) rfl rfl (hempty.trans_le (Nat.zero_le N)) hroom _
  obtain ⟨outs, s, hruns, hlen, hacc⟩ := repeat_grows ops.length a B hkeeps
  rw [store_heap_length] at hlen
  refine ⟨ops, ops.length + 1, Nat.lt_succ_self _, ?_, .done :: outs, s, ?_, by omega⟩
  · have hfirst : access (new N fun _ => 1 : GDSFCache K α) (.setitem k (.bool true)) = none := by
      simp [access, Op.kind, new, Cache.new, Option.filter, Dict.contains]
    simp only [ops, accesses, hfirst, hcall, Option.toList_none, List.nil_append]
    exact hacc
  · simp only [ops, run, hcall, hruns]

/-- The length of the heap is bounded over all runs of a cache of capacity `N`
and unit sizes whose accesses are `allowed`. -/
def HeapBounded (K α : Type) [DecidableEq K] (N : Nat) (allowed : Access → Prop) : Prop :=
  ∃ B, ∀ (ops : List (Op K α)) (fuel : Nat), ops.length < fuel →
    (∀ a ∈ accesses fuel (new N fun _ => 1) ops, allowed a) →
    ∃ outs s, run fuel (new N fun _ => 1) ops = some (outs, s) ∧ s.heap.length ≤ B

/-- **The heap is bounded** just where nothing fits in the cache or no cached
key is ever hit, overwritten or deleted. -/
theorem heapBounded_iff [Inhabited K] (N : Nat) (allowed : Access → Prop) :
    HeapBounded K α N allowed ↔ N = 0 ∨ ∀ a, ¬ allowed a := by
  refine ⟨fun hbound => ?_, fun hcond => ⟨N, fun ops fuel hfuel hallowed => ?_⟩⟩
  · obtain ⟨B, hB⟩ := hbound
    by_contra hnot
    rw [not_or, not_forall] at hnot
    obtain ⟨hN, a, ha⟩ := hnot
    obtain ⟨ops, fuel, hfuel, hacc, outs, s, hrun, hlen⟩ :=
      grows (α := α) (Nat.one_le_iff_ne_zero.mpr hN) (default : K) a B
    obtain ⟨outs', s', hrun', hle⟩ := hB ops fuel hfuel fun b hb => by
      rw [hacc b hb]
      exact not_not.mp ha
    cases hrun.symm.trans hrun'
    omega
  · have hinv : Inv (new N fun _ => 1 : GDSFCache K α) := new_inv N _
    have hempty : (new N fun _ => 1 : GDSFCache K α).base.data.len = 0 := by simp [new, Cache.new]
    have hnone : accesses fuel (new N fun _ => 1) ops = [] := by
      rcases hcond with rfl | hcond
      · exact accesses_of_no_room fuel ops hinv rfl rfl trivial hfuel
      · exact List.eq_nil_iff_forall_not_mem.mpr fun a ha => hcond a (hallowed a ha)
    obtain ⟨outs, s, hrun, hi, hm, hg, -, htext⟩ := run_ok fuel ops hinv (by omega)
    have hgains := run_gains fuel ops hinv (by omega) hrun
    have hlen : s.base.data.len ≤ N := hi.len_le hg (htext.within (N := N) trivial)
    have hheap : (new N fun _ => 1 : GDSFCache K α).heap.length = 0 := rfl
    refine ⟨outs, s, hrun, ?_⟩
    rw [Gains, hnone, List.length_nil] at hgains
    omega

/-- One place, and one key that is read again and again. -/
theorem heap_unbounded : ¬ HeapBounded Nat Unit 1 fun _ => True := by
  intro hbound
  obtain ⟨B, hB⟩ := hbound
  obtain ⟨ops, fuel, hfuel, -, outs, s, hrun, hlen⟩ := grows (α := Unit) Nat.le.refl 7 .hit B
  obtain ⟨outs', s', hrun', hle⟩ := hB ops fuel hfuel fun _ _ => trivial
  cases hrun.symm.trans hrun'
  omega

end GptCache.GDSFCache
