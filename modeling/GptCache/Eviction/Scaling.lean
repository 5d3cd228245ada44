/-
Only relative costs matter: a `MemoryCacheEviction` with GDSF run with every
cost multiplied by `c > 0` goes through the states of the original run with
every priority and the inflation multiplied by `c`.

`Revalues` says this of one step of any class, for any renaming of states and
values; `run_revalues` carries it through the runs. For `GDSFCache` the
renaming is `scale c`: the heap's order, the live entries and the ties are the
same, because `c` times is strictly monotone.
-/
import GptCache.Eviction.Manager

namespace GptCache

variable {σ K V α ω : Type} [DecidableEq K]

/-- On states with `J`, `C` does to the image of a state under `f`, with the
values changed by `g`, what it does to the state. -/
structure Revalues (C : CacheClass σ K V) (J : σ → Prop) (f : σ → σ) (g : V → V) : Prop where
  maxsize : ∀ s, J s → (C.cache (f s)).maxsize = (C.cache s).maxsize
  getsizeof : ∀ s, J s → ∀ v, (C.cache (f s)).getsizeof (g v) = (C.cache s).getsizeof v
  data : ∀ s, J s → (C.cache (f s)).data = (C.cache s).data.mapValues g
  store : ∀ s k v, J s → C.store (f s) k (g v) = f (C.store s k v) ∧ J (C.store s k v)
  getitem : ∀ s k, J s → (C.getitem (f s) k).2 = f (C.getitem s k).2 ∧ J (C.getitem s k).2
  popitem : ∀ s, J s → (C.popitem (f s)).1.map Prod.fst = (C.popitem s).1.map Prod.fst ∧
    (C.popitem (f s)).2 = f (C.popitem s).2 ∧ J (C.popitem s).2

namespace Revalues

variable {C : CacheClass σ K V} {J : σ → Prop} {f : σ → σ} {g : V → V} (h : Revalues C J f g)
include h

theorem overflows {s : σ} (hs : J s) (size : ℚ) :
    (C.cache (f s)).overflows size = (C.cache s).overflows size := by
  have hsizes : (C.cache (f s)).currsize = (C.cache s).currsize := by
    simp only [Cache.currsize, h.data s hs, Dict.values, Dict.mapValues, List.map_map]
    congr 1
    exact List.map_congr_left fun e _ => h.getsizeof s hs e.2
  simp only [Cache.overflows, hsizes, h.maxsize s hs]

theorem needsRoom {s : σ} (hs : J s) (k : K) (size : ℚ) :
    (C.cache (f s)).needsRoom k size = (C.cache s).needsRoom k size := by
  simp only [Cache.needsRoom, h.data s hs, Dict.get?_mapValues]
  rcases (C.cache s).data.get? k with _ | v
  · rfl
  · simp only [Option.map_some, h.getsizeof s hs]

theorem popKeys : ∀ (n : Nat) {s : σ}, J s →
    popKeys C n (f s) = ((popKeys C n s).1, f (popKeys C n s).2) ∧ J (GptCache.popKeys C n s).2
  | 0, s, hs => ⟨rfl, hs⟩
  | n + 1, s, hs => by
    obtain ⟨hfst, hsnd, hkeep⟩ := h.popitem s hs
    simp only [GptCache.popKeys]
    rcases hp : C.popitem s with ⟨_ | ⟨k, v⟩, s'⟩ <;>
      rcases hp' : C.popitem (f s) with ⟨_ | ⟨k', v'⟩, s''⟩ <;>
      simp only [hp, hp', Option.map_none, Option.map_some, reduceCtorEq, Option.some.injEq] at hfst hsnd hkeep
    · exact ⟨by rw [hsnd], hkeep⟩
    · obtain ⟨heq, hkeep'⟩ := popKeys n hkeep
      subst hfst hsnd
      simp only [heq]
      rcases hq : GptCache.popKeys C n s' with ⟨_ | _, _⟩ <;> simp only [hq] at hkeep' ⊢ <;> exact ⟨trivial, hkeep'⟩

theorem popitemWrapper (onEvict : List K → Exec PyError ω Unit) (n : Nat) :
    Exec.Maps (fun s : σ × ω => J s.1) (Prod.map f id) (popitemWrapper C onEvict n) (popitemWrapper C onEvict n) := by
  intro s hs
  obtain ⟨heq, hkeep⟩ := h.popKeys n hs
  simp only [GptCache.popitemWrapper, Prod.map, id, heq, Exec.onSnd]
  rcases onEvict ((GptCache.popKeys C n s.1).1.getD []) s.2 with _ | ⟨r, w⟩
  · exact ⟨rfl, by simp⟩
  · refine ⟨rfl, fun r' s' hr => ?_⟩
    cases hr
    exact hkeep

end Revalues

namespace MemoryCacheEviction

variable {e : MemoryCacheEviction σ K α ω} {J : σ → Prop} {f : σ → σ} {g : Value α → Value α}

theorem setitem_revalues (h : Revalues e.cls J f g) (fuel : Nat) (k : K) (v : Value α) :
    Exec.Maps (fun s : σ × ω => J s.1) (Prod.map f id) (e.setitem fuel k v) (e.setitem fuel k (g v)) := by
  intro s hs
  have hloop : ∀ size, Exec.Maps (fun s : σ × ω => J s.1) (Prod.map f id)
      (Exec.loop (fun s => (e.cls.cache s.1).overflows size) (popitemWrapper e.cls e.onEvict e.cleanSize) fuel)
      (Exec.loop (fun s => (e.cls.cache s.1).overflows size) (popitemWrapper e.cls e.onEvict e.cleanSize) fuel) :=
    fun size => by
      refine Exec.Maps.loop ?_ (h.popitemWrapper e.onEvict e.cleanSize) fuel
      exact fun s hs => h.overflows hs size
  have hstore : Exec.Maps (ε := PyError) (fun s : σ × ω => J s.1) (Prod.map f id)
      (Exec.modify fun s => (e.cls.store s.1 k v, s.2)) (Exec.modify fun s => (e.cls.store s.1 k (g v), s.2)) :=
    .modify fun s hs => by
      obtain ⟨heq, hkeep⟩ := h.store s.1 k v hs
      exact ⟨by simp [Prod.map, heq], hkeep⟩
  simp only [setitem, CacheClass.setitem, Exec.read_bind, Prod.map_fst, h.maxsize s.1 hs, h.getsizeof s.1 hs,
    h.needsRoom hs]
  split
  · exact Exec.Maps.raise _ s hs
  · split
    · exact (hloop _).bind (fun _ => hstore) s hs
    · exact (Exec.Maps.ret ()).bind (fun _ => hstore) s hs

theorem setitems_revalues (h : Revalues e.cls J f g) (fuel : Nat) (items : List (K × Value α)) :
    Exec.Maps (fun s : σ × ω => J s.1) (Prod.map f id) (e.setitems fuel items)
      (e.setitems fuel (items.map fun item => (item.1, g item.2))) :=
  Exec.Maps.forEach (g := fun item : K × Value α => (item.1, g item.2))
    (fun item => setitem_revalues h fuel item.1 item.2) items

theorem get_revalues (h : Revalues e.cls J f g) (k : K) {s : σ × ω} (hs : J s.1) :
    (e.get k (s.map f id)).map Prod.snd = ((e.get k s).map Prod.snd).map (Prod.map f id) ∧
      ∀ r s', e.get k s = some (r, s') → J s'.1 := by
  have hget : (e.cls.get (f s.1) k).2 = f (e.cls.get s.1 k).2 ∧ J (e.cls.get s.1 k).2 := by
    simp only [CacheClass.get, h.data s.1 hs, Dict.contains_mapValues]
    split
    · exact h.getitem s.1 k hs
    · exact ⟨rfl, hs⟩
  refine ⟨by simp [get, Exec.total, Prod.map, hget.1], fun r s' hr => ?_⟩
  cases hr
  exact hget.2

end MemoryCacheEviction

/-! ## Scaled costs -/

/-- `c` times the cost the policy takes a value to have. -/
def Value.scale (c : ℚ) (v : Value α) : Value α := .num (c * GDSFCache.costOf v)

def Event.scale (c : ℚ) : Event K (Value α) → Event K (Value α)
  | .stored k v => .stored k (v.scale c)
  | .read k => .read k
  | .deleted k => .deleted k
  | .popped k => .popped k

omit [DecidableEq K] in
theorem evictions_scale (c : ℚ) (es : List (Event K (Value α))) :
    evictions (es.map (Event.scale c)) = evictions es := by
  induction es with
  | nil => rfl
  | cons ev es ih => cases ev <;> simp [Event.scale, evictions, ih]

namespace GDSFCache

@[simp] theorem getitem_getsizeof (s : GDSFCache K α) (k : K) :
    (s.getitem k).2.base.getsizeof = s.base.getsizeof := by
  unfold getitem
  split
  · rfl
  · dsimp only; split <;> rfl

@[simp] theorem popitem_getsizeof (s : GDSFCache K α) : (s.popitem).2.base.getsizeof = s.base.getsizeof := by
  unfold popitem
  split
  · rfl
  · split <;> rfl

/-- The state the scaled run is in. -/
def scale (c : ℚ) (s : GDSFCache K α) : GDSFCache K α where
  base := { s.base with
    data := s.base.data.mapValues (Value.scale c)
    history := s.base.history.map (Event.scale c) }
  heap := s.heap.map fun e => { e with prio := c * e.prio }
  counter := s.counter
  freq := s.freq
  prio := s.prio.mapValues (c * ·)
  inflation := c * s.inflation

section
variable {c : ℚ} (hc : 0 < c)
include hc

omit [DecidableEq K] in
theorem heappush_scale (heap : List (HeapEntry K)) (e : HeapEntry K) :
    heappush (heap.map fun e => { e with prio := c * e.prio }) { e with prio := c * e.prio } =
      (heappush heap e).map fun e => { e with prio := c * e.prio } := by
  have hle : ∀ a b : HeapEntry K, HeapEntry.le a b ↔
      HeapEntry.le { a with prio := c * a.prio } { b with prio := c * b.prio } := fun a b => by
    simp only [HeapEntry.le, mul_lt_mul_iff_right₀ hc, mul_right_inj' hc.ne']
  exact (List.map_orderedInsert _ _ _ heap e (fun a _ => hle a e) fun a _ => hle e a).symm

theorem push_scale (s : GDSFCache K α) (k : K) (v : Value α)
    (hsize : s.base.getsizeof (v.scale c) = s.base.getsizeof v) :
    (s.scale c).push k (v.scale c) = (s.push k v).scale c := by
  have hprio : c * s.inflation + ((s.freq.get? k).getD 0 : Nat) * costOf (v.scale c) /
      sizeOf s.base.getsizeof (v.scale c) =
      c * (s.inflation + ((s.freq.get? k).getD 0 : Nat) * costOf v / sizeOf s.base.getsizeof v) := by
    have hcost : costOf (v.scale c) = c * costOf v := rfl
    simp only [sizeOf, hsize, hcost]
    ring
  simp only [push, scale, hprio, Dict.mapValues_set, ← heappush_scale hc]

theorem popLive_scale (prio : Dict K ℚ) : ∀ heap : List (HeapEntry K),
    popLive (prio.mapValues (c * ·)) (heap.map fun e => { e with prio := c * e.prio }) =
      (popLive prio heap).map fun r => ({ r.1 with prio := c * r.1.prio },
        r.2.map fun e => { e with prio := c * e.prio })
  | [] => rfl
  | e :: heap => by
    have hlive : (prio.mapValues (c * ·)).get? e.key = some (c * e.prio) ↔ prio.get? e.key = some e.prio := by
      rw [Dict.get?_mapValues]
      rcases prio.get? e.key with _ | p
      · simp
      · simp [mul_right_inj' hc.ne']
    simp only [List.map_cons, popLive, hlive]
    split
    · rfl
    · exact popLive_scale prio heap

theorem store_scale (s : GDSFCache K α) (k : K) (v : Value α)
    (hsize : s.base.getsizeof (v.scale c) = s.base.getsizeof v) :
    (s.scale c).store k (v.scale c) = (s.store k v).scale c := by
  have hbase : ∀ freq, ({ s.scale c with base := (s.scale c).base.store k (v.scale c), freq := freq } : GDSFCache K α) =
      scale c { s with base := s.base.store k v, freq := freq } := fun freq => by
    simp only [scale, Cache.store, Dict.mapValues_set, List.map_cons, Event.scale]
  have hfreq : (s.scale c).freq = s.freq := rfl
  simp only [store, hfreq]
  split
  · exact hbase s.freq ▸ push_scale hc { s with base := s.base.store k v } k v hsize
  · exact hbase (s.freq.set k 1) ▸ push_scale hc { s with base := s.base.store k v, freq := s.freq.set k 1 } k v hsize

theorem getitem_scale (s : GDSFCache K α) (k : K)
    (hsize : ∀ v, s.base.getsizeof (Value.scale c v) = s.base.getsizeof v) :
    ((s.scale c).getitem k).2 = (s.getitem k).2.scale c := by
  have hdata : (s.scale c).base.data.get? k = (s.base.data.get? k).map (Value.scale c) := Dict.get?_mapValues ..
  simp only [getitem, hdata]
  rcases s.base.data.get? k with _ | v
  · rfl
  · have hfreq : (s.scale c).freq.get? k = s.freq.get? k := rfl
    simp only [Option.map_some, hfreq]
    rcases s.freq.get? k with _ | n
    · rfl
    · exact push_scale hc { s with base := s.base.read k, freq := s.freq.set k (n + 1) } k v (hsize v)

theorem popitem_scale (s : GDSFCache K α) :
    ((s.scale c).popitem).1.map Prod.fst = (s.popitem).1.map Prod.fst ∧
      ((s.scale c).popitem).2 = (s.popitem).2.scale c := by
  have hlive := popLive_scale hc s.prio s.heap
  simp only [popitem, show popLive (s.scale c).prio (s.scale c).heap = _ from hlive]
  rcases popLive s.prio s.heap with _ | ⟨e, heap⟩
  · exact ⟨rfl, rfl⟩
  · have hdata : (s.scale c).base.data.get? e.key = (s.base.data.get? e.key).map (Value.scale c) :=
      Dict.get?_mapValues ..
    simp only [Option.map_some, hdata]
    rcases s.base.data.get? e.key with _ | v
    · exact ⟨rfl, rfl⟩
    · refine ⟨rfl, ?_⟩
      simp only [Option.map_some, forget, scale, Cache.pop, Dict.mapValues_erase, List.map_cons, Event.scale]

/-- **Scaling one step.** On a cache whose sizes do not depend on the cost,
`GDSFCache` does to the scaled state what it does to the state. -/
theorem scale_revalues : Revalues (GDSFCache.cacheClass K α)
    (fun s => ∀ v, s.base.getsizeof (Value.scale c v) = s.base.getsizeof v) (scale c) (Value.scale c) where
  maxsize _ _ := rfl
  getsizeof _ hs v := hs v
  data _ _ := rfl
  store s k v hs := ⟨store_scale hc s k v (hs v), by simpa using hs⟩
  getitem s k hs := ⟨getitem_scale hc s k hs, by simpa using hs⟩
  popitem s hs := ⟨(popitem_scale hc s).1, (popitem_scale hc s).2, by simpa using hs⟩

end

end GDSFCache

/-! ## Scaled runs -/

def Call.scale (c : ℚ) : Call K → Call K
  | .put objs costs => .put objs (costs.map (List.map (c * ·)))
  | .get obj => .get obj

/-- A `put` says what each object cost. -/
def Call.Costed : Call K → Prop
  | .put _ costs => costs.isSome
  | .get _ => True

namespace MemoryCacheEviction

omit [DecidableEq K] in
theorem putItems_scale (c : ℚ) (objs : List K) (costs : List ℚ) :
    putItems (α := α) objs (some (costs.map (c * ·))) =
      (putItems objs (some costs)).map fun item => (item.1, item.2.scale c) := by
  simp [putItems, List.zip_map_right, Value.scale, GDSFCache.costOf]

variable {c : ℚ} {e : MemoryCacheEviction (GDSFCache K α) K α ω}

theorem callResult_scale (hc : 0 < c) (he : e.cls = GDSFCache.cacheClass K α) (fuel : Nat) {s : GDSFCache K α × ω}
    (hsize : ∀ v, s.1.base.getsizeof (Value.scale c v) = s.1.base.getsizeof v) {call : Call K} (hcall : call.Costed) :
    e.callResult fuel (s.map (GDSFCache.scale c) id) (call.scale c) =
        (e.callResult fuel s call).map (Prod.map (GDSFCache.scale c) id) ∧
      ∀ s', e.callResult fuel s call = some s' →
        ∀ v, s'.1.base.getsizeof (Value.scale c v) = s'.1.base.getsizeof v := by
  have hstep : Revalues e.cls _ (GDSFCache.scale c) (Value.scale c) := he ▸ GDSFCache.scale_revalues hc
  cases call with
  | put objs costs =>
    obtain ⟨costs, rfl⟩ := Option.isSome_iff_exists.mp hcall
    obtain ⟨heq, hkeep⟩ := setitems_revalues hstep fuel (putItems objs (some costs)) s hsize
    simp only [callResult, Call.scale, Option.map_some, put_items, putItems_scale, heq]
    rcases hset : e.setitems fuel (putItems objs (some costs)) s with _ | ⟨r, s'⟩
    · exact ⟨rfl, by simp⟩
    · refine ⟨rfl, fun s'' hs'' => ?_⟩
      cases hs''
      exact hkeep _ _ hset
  | get obj =>
    obtain ⟨heq, hkeep⟩ := get_revalues hstep obj (s := s) hsize
    refine ⟨heq, fun s' hs' => ?_⟩
    rw [callResult, Option.map_eq_some_iff] at hs'
    obtain ⟨⟨r, s''⟩, hget, rfl⟩ := hs'
    exact hkeep _ _ hget

/-- **Scaling a run.** -/
theorem run_scale (hc : 0 < c) (he : e.cls = GDSFCache.cacheClass K α) (fuel : Nat) :
    ∀ (cs : List (Call K)) {s : GDSFCache K α × ω},
      (∀ v, s.1.base.getsizeof (Value.scale c v) = s.1.base.getsizeof v) → (∀ call ∈ cs, call.Costed) →
      e.run fuel (s.map (GDSFCache.scale c) id) (cs.map (Call.scale c)) =
        (e.run fuel s cs).map (Prod.map (GDSFCache.scale c) id)
  | [], s, _, _ => rfl
  | call :: cs, s, hsize, hcosted => by
    obtain ⟨hcall, hcs⟩ := List.forall_mem_cons.mp hcosted
    obtain ⟨heq, hkeep⟩ := callResult_scale hc he fuel hsize hcall
    simp only [List.map_cons, run, heq]
    rcases h : e.callResult fuel s call with _ | s'
    · rfl
    · exact run_scale hc he fuel cs (hkeep s' h) hcs

/-- **Only relative costs matter.** The run with every cost multiplied by `c`
makes the same callbacks, evicts the same keys in the same order, ends with
the same keys in the cache and has `c` times the inflation. -/
theorem costs_relative (draws : Nat → Nat) {m cleanSize : Nat} (hm : 1 ≤ m) (hclean : 1 ≤ cleanSize)
    (f : List K → ω → ω) (w : ω) {c : ℚ} (hc : 0 < c) (cs : List (Call K)) (hcosted : ∀ call ∈ cs, call.Costed) :
    let e : MemoryCacheEviction (GDSFCache K α) K α (ω × List (List K)) :=
      ofPolicy draws .GDSF cleanSize fun ks => Exec.modify (recording f ks)
    let s₀ : GDSFCache K α × ω × List (List K) := (GDSFCache.new m fun _ => 1, w, [])
    ∃ s s', e.run (m + 1) s₀ cs = some s ∧ e.run (m + 1) s₀ (cs.map (Call.scale c)) = some s' ∧
      s'.2 = s.2 ∧ e.left s'.1 = e.left s.1 ∧ s'.1.base.data.keys = s.1.base.data.keys ∧
      s'.1.inflation = c * s.1.inflation := by
  intro e s₀
  obtain ⟨s, hrun, -⟩ := run_sized (e := e) (f := recording f) rfl hclean hm cs (new_sized e m (w, []))
  have hnew : s₀.map (GDSFCache.scale c) id = s₀ := by
    simp [s₀, GDSFCache.new, GDSFCache.scale, Cache.new]
  have hscale := run_scale (e := e) hc rfl (m + 1) cs (s := s₀) (fun _ => rfl) hcosted
  rw [hnew, show e.run (m + 1) s₀ cs = some s from hrun] at hscale
  refine ⟨s, _, hrun, hscale, rfl, ?_, ?_, rfl⟩
  · have hhistory : (e.cls.cache (s.1.scale c)).history = (e.cls.cache s.1).history.map (Event.scale c) := rfl
    rw [left, left, Prod.map_fst, hhistory, ← List.map_reverse, evictions_scale]
  · exact Dict.keys_mapValues ..

theorem costs_relative_half :
    let e : MemoryCacheEviction (GDSFCache Nat Unit) Nat Unit (Unit × List (List Nat)) :=
      ofPolicy id .GDSF 1 fun ks => Exec.modify (recording (fun _ w => w) ks)
    let s₀ : GDSFCache Nat Unit × Unit × List (List Nat) := (GDSFCache.new (2 : Nat) fun _ => 1, (), [])
    let cs := [.put [1, 2] (some [3, 5]), .get 1, .put [3] (some [4])]
    ∃ s s', e.run 3 s₀ cs = some s ∧ e.run 3 s₀ (cs.map (Call.scale (1 / 2))) = some s' ∧
      s'.2 = s.2 ∧ e.left s'.1 = e.left s.1 ∧ s'.1.base.data.keys = s.1.base.data.keys ∧
      s'.1.inflation = 1 / 2 * s.1.inflation :=
  costs_relative id (m := 2) (by decide) (by decide) (fun _ w => w) () (by norm_num)
    [.put [1, 2] (some [3, 5]), .get 1, .put [3] (some [4])] (by simp [Call.Costed])

end MemoryCacheEviction

end GptCache
