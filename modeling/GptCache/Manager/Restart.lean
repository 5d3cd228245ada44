/-
What a restart does to the costs of a GDSF index.

`import_data` puts every row into the index with the cost of its answers.
`SSDataManager.__init__` puts the rows it finds without costs: each gets the
placeholder `True`, and with it cost 1. `restart_costs` says when that is the
cost of the stored answers.
-/
import GptCache.Manager.Consistency

namespace GptCache.SSDataManager

variable {B E S α : Type} {env : Env B E S}

/-- `_answer_cost` of the answers stored for a row. -/
def storedCost (s : SQLStorage B E) (id : Nat) : ℚ := answerCost (.items ((s.answersOf id).map .answer))

/-- Every live row is in the index with the cost of its stored answers. -/
def Carried (index : GDSFCache Nat α) (w : World B E) : Prop :=
  ∀ id ∈ w.s.getIds false, ∃ v, index.base.data.get? id = some v ∧ GDSFCache.costOf v = storedCost w.s id

/-- Of two reloaded rows the one with the cheaper answers is not evicted after the other. -/
def CheaperFirst (cost : Nat → ℚ) (reloaded evicted : List Nat) : Prop :=
  ∀ a ∈ reloaded, ∀ b ∈ reloaded, cost a < cost b → ¬ [b, a].Sublist evicted

/-- The constructor of a restart over the stores `w` ended in `s`: the index
has the costs, and its evictions respect them in whatever is imported. -/
def CostsPreserved (env : Env B E S) (e : MemoryCacheEviction (GDSFCache Nat α) Nat α (World B E)) (fuel maxSize : Nat)
    (w : World B E) (s : GDSFCache Nat α × World B E) : Prop :=
  Carried s.1 s.2 ∧
    ∀ ops : List (Op B E), (∀ op ∈ ops, ∀ id, op ≠ .hit id) → ∀ s', runOps env e fuel s ops = some s' →
      CheaperFirst (storedCost w.s) ((w.s.getIds false).take maxSize) (evictions s'.1.base.history.reverse)

/-- All that is in the index has the placeholder for a value, and the live
rows are among those of `w`, with their answers. -/
def Placeheld {σ : Type} (e : MemoryCacheEviction σ Nat α (World B E)) (w : World B E) (s : σ × World B E) : Prop :=
  (∀ id v, (e.cls.cache s.1).data.get? id = some v → v = .bool true) ∧
    ∀ id ∈ s.2.s.getIds false, id ∈ w.s.getIds false ∧ s.2.s.answersOf id = w.s.answersOf id

theorem placeheld_stable {σ : Type} (e : MemoryCacheEviction σ Nat α (World B E)) (w : World B E) :
    Stable e (fun _ v => v = .bool true) (Placeheld e w) where
  pop := by
    rintro s s' ks ⟨hv, hlive⟩ - hcache hclear
    refine ⟨fun id v h => hv id v (Cache.get?_of_popAll (hcache ▸ h)), fun id hid => ?_⟩
    have hold : id ∈ s.2.s.getIds false := List.mem_of_mem_filter (hclear.live ▸ hid)
    rw [hclear.answers id hid]
    exact hlive id hold
  store := by
    rintro s id v ⟨hv, hlive⟩ rfl
    refine ⟨fun id' v' h => ?_, hlive⟩
    rw [e.cls.store_cache, Cache.store_data, Dict.get?_set] at h
    split at h
    · exact (Option.some.inj h).symm
    · exact hv id' v' h

/-- The constructor over consistent stores. -/
theorem init_placeheld {σ : Type} {e : MemoryCacheEviction σ Nat α (World B E)} {m fuel : Nat}
    (hw : Wired env e m fuel) {tracked : Nat → Bool} {w : World B E} (h : Consistent env tracked w) :
    ∃ s, init env e fuel (e.cls.new m fun _ => 1, w) = some (.ok (), s) ∧ Indexed env e m [] s ∧ Placeheld e w s := by
  obtain ⟨_, s, hinit, hs⟩ := Exec.wp_returns_ok (init_indexed hw (placeheld_stable e w) (fun _ => rfl) h
    fun _ => ⟨by simp [Cache.new], fun id hid => ⟨hid, rfl⟩⟩)
  exact ⟨s, hinit, hs⟩

/-- Where all the rows fit, the constructor keeps them. -/
theorem init_fits {σ : Type} {e : MemoryCacheEviction σ Nat α (World B E)} {m fuel : Nat}
    (hw : Wired env e m fuel) {tracked : Nat → Bool} {w : World B E} (h : Consistent env tracked w)
    (hlen : (w.s.getIds false).length ≤ m) {s : σ × World B E}
    (hinit : init env e fuel (e.cls.new m fun _ => 1, w) = some (.ok (), s)) : s.2.s = w.s := by
  obtain ⟨fuel, rfl⟩ : ∃ n, fuel = n + 1 := ⟨fuel - 1, by have := hw.lt; omega⟩
  have hkeys : (MemoryCacheEviction.putItems (α := α) (w.s.getIds false) none).map Prod.fst = w.s.getIds false :=
    MemoryCacheEviction.keys_putItems rfl
  have hreturns : Exec.wp (init env e (fuel + 1)) (fun _ s' => s'.2.s = w.s) (fun _ _ => False)
      (e.cls.new m fun _ => 1, w) := by
    have hcover : MemoryCacheEviction.costsCover (w.s.getIds false) none = true := rfl
    simp only [init, Exec.wp_bind, Exec.wp_modify, Exec.wp_onSnd, World.wp_call env hw.fails,
      e.put_covered (fuel + 1) hcover]
    obtain ⟨s', hset, -, hworld, -⟩ := MemoryCacheEviction.setitems_fit fuel
      (MemoryCacheEviction.putItems (α := α) (w.s.getIds false) none)
      (MemoryCacheEviction.new_sized e m { w with deleteCount := 0, calls := w.calls + 1 })
      (hkeys.symm ▸ (SQLStorage.getIds_ascending h.paired.wellFormed false).imp fun hlt => Nat.ne_of_lt hlt)
      (fun k _ => by simp [Cache.new, Dict.contains])
      (by simpa [Cache.new, MemoryCacheEviction.putItems] using hlen)
    rw [Exec.wp_of_ok hset, hworld]
  exact (Exec.wp_of_ok hinit).mp hreturns

/-- What the index carries after the constructor: cost 1 for every row. -/
theorem carried_iff {e : MemoryCacheEviction (GDSFCache Nat α) Nat α (World B E)}
    (he : e.cls = GDSFCache.cacheClass Nat α) {m : Nat} {w : World B E} {s : GDSFCache Nat α × World B E}
    (h : Indexed env e m [] s) (hplace : Placeheld e w s) :
    Carried s.1 s.2 ↔ ∀ id ∈ s.2.s.getIds false, storedCost w.s id = 1 := by
  have hcache : e.cls.cache s.1 = s.1.base := by rw [he]; rfl
  refine forall_congr' fun id => forall_congr' fun hid => ?_
  obtain ⟨v, hv⟩ := Dict.contains_eq_true.mp ((h.tracked.live id).mp hid)
  have hcost : storedCost s.2.s id = storedCost w.s id := by
    simp only [storedCost, (hplace.2 id hid).2]
  obtain rfl := hplace.1 id v hv
  rw [hcache] at hv
  simp [hv, hcost, GDSFCache.costOf, eq_comm]

/-- **Restart.** Over any stores that earlier processes left, a new GDSF
manager preserves the costs if every live row's answers cost 1; if there is
room for all live rows, only then. -/
theorem restart_costs (env : Env B E S) (hf : ∀ n, env.fails n = false) (objects : Bool) (fuel : Nat)
    (ps : List (Process B E)) (hps : ∀ p ∈ ps, p.Sound ∧ p.maxSize < fuel) (draws : Nat → Nat)
    (maxSize cleanSize : Nat) (hclean : 1 ≤ cleanSize) (hle : cleanSize ≤ maxSize) (hfuel : maxSize < fuel) :
    let e : MemoryCacheEviction (GDSFCache Nat α) Nat α (World B E) :=
      MemoryCacheEviction.ofPolicy draws .GDSF cleanSize (World.clear env)
    ∃ (w : World B E) (s : GDSFCache Nat α × World B E), runs α env fuel ps (World.init objects) = some w ∧
      init env e fuel (GDSFCache.new maxSize fun _ => 1, w) = some (.ok (), s) ∧
      ((∀ id ∈ w.s.getIds false, storedCost w.s id = 1) → CostsPreserved env e fuel maxSize w s) ∧
      ((w.s.getIds false).length ≤ maxSize → CostsPreserved env e fuel maxSize w s →
        ∀ id ∈ w.s.getIds false, storedCost w.s id = 1) := by
  intro e
  have hw : Wired env e maxSize fuel := ⟨hf, rfl, hclean, hle, hfuel⟩
  obtain ⟨tracked, w, hruns, h⟩ := runs_consistent (α := α) hf ps hps (init_consistent env objects)
  obtain ⟨s, hinit, hs, hplace⟩ := init_placeheld hw h
  refine ⟨w, s, hruns, hinit, fun hone => ⟨?_, fun ops _ s' _ a ha b hb hlt => ?_⟩, fun hlen hpres => ?_⟩
  · exact (carried_iff rfl hs hplace).mpr fun id hid => hone id (hplace.2 id hid).1
  · rw [hone a (List.mem_of_mem_take ha), hone b (List.mem_of_mem_take hb)] at hlt
    exact absurd hlt (lt_irrefl 1)
  · have hkept := init_fits hw h hlen hinit
    exact hkept ▸ (carried_iff rfl hs hplace).mp hpres.1

theorem restart_costs_single_letters :
    let env : Env Unit ℚ ℚ :=
      { norm := abs, div := (· / ·), float32 := id, download := fun _ => .ok (), path := toString
        fails := fun _ => false, reindexes := false }
    let p : Process Unit ℚ := ⟨.GDSF, 2, 1, id,
      [.importData [.str "p", .str "q"] [.str "x", .str "y"] [1, 2] [none, none]]⟩
    let e : MemoryCacheEviction (GDSFCache Nat Unit) Nat Unit (World Unit ℚ) :=
      MemoryCacheEviction.ofPolicy id .GDSF 1 (World.clear env)
    ∃ (w : World Unit ℚ) (s : GDSFCache Nat Unit × World Unit ℚ), runs Unit env 3 [p] (World.init false) = some w ∧
      init env e 3 (GDSFCache.new (2 : Nat) fun _ => 1, w) = some (.ok (), s) ∧ w.s.getIds false = [1, 2] ∧
      CostsPreserved env e 3 2 w s := by
  intro env p e
  obtain ⟨w, s, hruns, hinit, hpres, -⟩ := restart_costs (α := Unit) env (fun _ => rfl) false 3 [p]
    (by
      intro q hq
      obtain rfl := List.mem_singleton.mp hq
      exact ⟨⟨by decide, by decide⟩, by decide⟩)
    id 2 1 (by decide) (by decide) (by decide)
  have heval : (runs Unit env 3 [p] (World.init false)).map
      (fun w => (w.s.getIds false, (w.s.getIds false).map (storedCost w.s))) =
      some ([1, 2], [1, 1]) := by decide +kernel
  obtain ⟨hlive, hcosts⟩ : w.s.getIds false = [1, 2] ∧ (w.s.getIds false).map (storedCost w.s) = [1, 1] := by
    simpa [hruns] using heval
  refine ⟨w, s, hruns, hinit, hlive, hpres fun id hid => ?_⟩
  have hcost := hcosts ▸ List.mem_map_of_mem (f := storedCost w.s) hid
  simpa using hcost

/-- Row 1 with an answer of three letters and row 2 with one of a single
letter: after a restart both cost 1, and row 1 is evicted first. -/
theorem restart_forgets_costs :
    let env : Env Unit ℚ ℚ :=
      { norm := abs, div := (· / ·), float32 := id, download := fun _ => .ok (), path := toString
        fails := fun _ => false, reindexes := false }
    let p : Process Unit ℚ := ⟨.GDSF, 2, 1, id, [.importData [.str "p", .str "q"] [.str "xyz", .str "y"] [1, 2]
      [none, none]]⟩
    let e : MemoryCacheEviction (GDSFCache Nat Unit) Nat Unit (World Unit ℚ) :=
      MemoryCacheEviction.ofPolicy id .GDSF 1 (World.clear env)
    let more : List (Op Unit ℚ) := [.importData [.str "r", .str "s"] [.str "z", .str "z"] [3, 4] [none, none]]
    ∃ (w : World Unit ℚ) (s s' : GDSFCache Nat Unit × World Unit ℚ),
      runs Unit env 3 [p] (World.init false) = some w ∧
      init env e 3 (GDSFCache.new (2 : Nat) fun _ => 1, w) = some (.ok (), s) ∧
      w.s.getIds false = [1, 2] ∧ storedCost w.s 1 = 3 ∧ storedCost w.s 2 = 1 ∧
      s.1.base.data.get? 1 = some (.bool true) ∧ runOps env e 3 s more = some s' ∧
      evictions s'.1.base.history.reverse = [1, 2] ∧ ¬ CostsPreserved env e 3 2 w s := by
  intro env p e more
  have heval : ((runs Unit env 3 [p] (World.init false)).bind fun w =>
      (init env e 3 (GDSFCache.new (2 : Nat) fun _ => 1, w)).bind fun r => (runOps env e 3 r.2 more).map fun s' =>
        ((w.s.getIds false, storedCost w.s 1, storedCost w.s 2), r.1.isOk, r.2.1.base.data.get? 1,
          evictions s'.1.base.history.reverse)) =
      some (([1, 2], 3, 1), true, some (.bool true), [1, 2]) := by decide +kernel
  rcases hruns : runs Unit env 3 [p] (World.init false) with _ | w
  · simp only [hruns, Option.bind_none, reduceCtorEq] at heval
  rcases hinit : init env e 3 (GDSFCache.new (2 : Nat) fun _ => 1, w) with _ | ⟨r, s⟩
  · simp only [hruns, hinit, Option.bind_some, Option.bind_none, reduceCtorEq] at heval
  rcases hops : runOps env e 3 s more with _ | s'
  · simp only [hruns, hinit, hops, Option.bind_some, Option.map_none, reduceCtorEq] at heval
  simp only [hruns, hinit, hops, Option.bind_some, Option.map_some, Option.some.injEq, Prod.mk.injEq] at heval
  obtain ⟨⟨hlive, hone, htwo⟩, hok, hvalue, hevicted⟩ := heval
  rcases r with _ | u
  · cases hok
  refine ⟨w, s, s', rfl, hinit, hlive, hone, htwo, hvalue, hops, hevicted, fun hpres => ?_⟩
  refine hpres.2 more (by simp [more]) s' hops 2 (by simp [hlive]) 1 (by simp [hlive]) ?_ (by simp [hevicted])
  rw [hone, htwo]
  decide

end GptCache.SSDataManager
