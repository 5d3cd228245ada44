/-
The backlog of soft-deleted rows and the checks that bound it.

`_clear` marks rows, asks `check_evict` and deletes what is marked where it
says so. `Backlog` is what a check leaves: it is a check on doubles, and with
at most `MAX_MARK_COUNT` marked rows a rate above a tenth is above it by more
than the rounding can hide (`rate_exceeded`).

`clearGuarded` is `_clear` with a check that gets stuck on stores without a
row. A run of it that returns is a run whose every check had a row to divide
by (`process_guarded`).
-/
import GptCache.Manager.FailedDelete

namespace GptCache

variable {B E S : Type} {env : Env B E S}

namespace World

/-- The soft-deleted rows are few, and at most a tenth of all. -/
structure Backlog (w : World B E) : Prop where
  count : w.s.count (-1) false ≤ MAX_MARK_COUNT
  rate : 10 * w.s.count (-1) false ≤ w.s.count 0 true

/-- `check_evict`, stuck where the scalar store has no row. -/
def checkEvictGuarded (env : Env B E S) : Exec PyError (World B E) Bool := fun w =>
  if w.s.ids = [] then none else checkEvict env w

/-- `_clear` with the guarded check. -/
def clearGuarded (env : Env B E S) (markedKeys : List Nat) : Exec PyError (World B E) Unit :=
  Exec.modify (fun w => { w with evicted := markedKeys ++ w.evicted }) >>= fun _ =>
  softEvict env markedKeys >>= fun _ =>
  checkEvictGuarded env >>= fun evict =>
  if evict then delete env else pure ()

/-- Where there are rows the guard does nothing: marking leaves them there. -/
theorem clearGuarded_eq (hf : ∀ n, env.fails n = false) {w : World B E} (h : w.s.ids ≠ []) (markedKeys : List Nat) :
    clearGuarded env markedKeys w = clear env markedKeys w := by
  unfold clearGuarded clear
  refine Exec.bind_congr rfl fun _ w₁ h₁ => Exec.bind_congr rfl fun _ w₂ h₂ => Exec.bind_congr ?_ fun _ _ _ => rfl
  have hids : w₂.s.ids = w.s.ids := by
    cases h₁
    simp only [softEvict, call, Exec.total, hf, Option.some.injEq] at h₂
    obtain ⟨-, rfl⟩ := h₂
    exact SQLStorage.markDeleted_ids w.s markedKeys
  rw [checkEvictGuarded, if_neg (hids ▸ h)]

/-- A tenth of the rows and one more are a tenth of them as doubles, and more. -/
theorem rate_exceeded {marked all : Nat} (hmarked : marked ≤ MAX_MARK_COUNT) (hall : all ≠ 0) (h : all < 10 * marked) :
    MAX_MARK_RATE < Binary64.round (marked / all) := by
  have hgap : MAX_MARK_RATE < Binary64.round (1 / 10 + 1 / 500000) := by decide +kernel
  have hpos : (0 : ℚ) < all := by exact_mod_cast Nat.pos_of_ne_zero hall
  have hmore : (all : ℚ) + 1 ≤ 10 * marked := by exact_mod_cast h
  have hfew : (all : ℚ) ≤ 50000 := by
    have : all ≤ 50000 := by unfold MAX_MARK_COUNT at hmarked; omega
    exact_mod_cast this
  have hle : (1 / 10 + 1 / 500000 : ℚ) ≤ marked / all := by
    rw [le_div_iff₀ hpos]
    linarith
  exact hgap.trans_le (Binary64.round_mono (by norm_num) hle)

/-- Without soft-deleted rows. -/
theorem Backlog.of_none {w : World B E} (h : w.s.getIds true = []) : w.Backlog := by
  have hcount : w.s.count (-1) false = 0 := by rw [SQLStorage.count_deleted, h, List.length_nil]
  exact ⟨by rw [hcount]; exact Nat.zero_le _, by rw [hcount]; exact Nat.zero_le _⟩

/-- It says something of the rows only, and holds of more rows. -/
theorem Backlog.of_rows {w w' : World B E} (h : w.Backlog) (hdeleted : w'.s.getIds true = w.s.getIds true)
    (hids : w.s.ids.length ≤ w'.s.ids.length) : w'.Backlog := by
  have hcount : w'.s.count (-1) false = w.s.count (-1) false := by
    rw [SQLStorage.count_deleted, SQLStorage.count_deleted, hdeleted]
  refine ⟨hcount ▸ h.count, ?_⟩
  have hrate := h.rate
  rw [SQLStorage.count_all] at hrate ⊢
  omega

theorem rebuild_backlog (hf : ∀ n, env.fails n = false) (w : World B E) :
    Exec.wp (rebuild env) (fun _ => Backlog) (fun _ => Backlog) w := by
  simp only [rebuild, Exec.wp_bind, wp_call env hf, Exec.wp_modify]
  refine .of_none ?_
  cases env.reindexes <;> exact SQLStorage.getIds_deleted_clearDeletedData w.s

theorem delete_backlog (hf : ∀ n, env.fails n = false) (w : World B E) :
    Exec.wp (delete env) (fun _ => Backlog) (fun _ => Backlog) w := by
  simp only [delete, Exec.wp_bind, wp_call env hf, Exec.wp_modify, Exec.wp_read]
  split
  · exact rebuild_backlog hf _
  · exact .of_none (SQLStorage.getIds_deleted_clearDeletedData w.s)

/-- **What a check leaves.** Whatever was marked before, `_clear` ends with a
backlog in bounds. -/
theorem clear_backlog (hf : ∀ n, env.fails n = false) (markedKeys : List Nat) (w : World B E) :
    Exec.wp (clear env markedKeys) (fun _ => Backlog) (fun _ => Backlog) w := by
  simp only [clear, softEvict, checkEvict, Exec.wp_bind, Exec.wp_modify, wp_call env hf]
  set s := w.s.markDeleted markedKeys with hs
  split
  · exact delete_backlog hf _
  rename_i hcount
  have hcount := Nat.le_of_not_lt hcount
  by_cases hall : s.count 0 true = 0
  · rw [if_pos hall]
    refine .of_none (List.eq_nil_of_length_eq_zero ?_)
    have hle : (s.getIds true).length ≤ s.ids.length := (List.filter_sublist.map QuestionRow.id).length_le
    rw [SQLStorage.count_all] at hall
    show (s.getIds true).length = 0
    omega
  · rw [if_neg hall, Exec.wp_pure]
    by_cases hrate : MAX_MARK_RATE < Binary64.round (s.count (-1) false / s.count 0 true)
    · rw [if_pos (decide_eq_true hrate)]
      exact delete_backlog hf _
    · rw [if_neg (by simpa using hrate)]
      refine ⟨hcount, ?_⟩
      by_contra hover
      exact hrate (rate_exceeded hcount hall (Nat.lt_of_not_le hover))

end World

namespace SSDataManager

variable {σ α : Type} {e : MemoryCacheEviction σ Nat α (World B E)} {m fuel : Nat}

/-! ## Every check has a row -/

/-- The index, its `_clear` guarded. -/
def guarded (env : Env B E S) (e : MemoryCacheEviction σ Nat α (World B E)) : MemoryCacheEviction σ Nat α (World B E) :=
  { e with onEvict := World.clearGuarded env }

/-- A tracked key is a live row, so a full index has one. -/
theorem Indexed.rows {todo : List Nat} {s : σ × World B E} (h : Indexed env e m todo s)
    (hlen : 0 < (e.cls.cache s.1).data.len) : s.2.s.ids ≠ [] := by
  obtain ⟨k, v, hk, -⟩ := e.cls.popitem_some h.sized.inv hlen
  have hlive : k ∈ s.2.s.getIds false := (h.consistent.live k).mpr (by simp [Dict.contains_eq_true.mpr ⟨v, hk⟩])
  exact List.ne_nil_of_mem (SQLStorage.mem_ids_of_mem_getIds hlive)

theorem popitemWrapper_guarded (hw : Wired env e m fuel) {todo : List Nat} {s : σ × World B E}
    (h : Indexed env e m todo s) (hover : (e.cls.cache s.1).overflows 1 = true) :
    popitemWrapper e.cls (World.clearGuarded env) e.cleanSize s = popitemWrapper e.cls e.onEvict e.cleanSize s := by
  have hrow : s.2.s.ids ≠ [] := h.rows (by
    have := h.sized.overflows.mp hover
    have := hw.one_le.trans hw.le
    omega)
  simp only [popitemWrapper, Exec.onSnd, hw.clear, World.clearGuarded_eq hw.fails hrow]

theorem setitem_guarded (hw : Wired env e m fuel) {todo : List Nat} {s : σ × World B E} (h : Indexed env e m todo s)
    (id : Nat) (v : Value α) : (guarded env e).setitem fuel id v s = e.setitem fuel id v s := by
  show e.cls.setitem (popitemWrapper e.cls (World.clearGuarded env) e.cleanSize) fuel id v s =
    e.cls.setitem (popitemWrapper e.cls e.onEvict e.cleanSize) fuel id v s
  simp only [CacheClass.setitem, Exec.read_bind, h.sized.unit]
  by_cases hlarge : (e.cls.cache s.1).maxsize < 1
  · rw [if_pos hlarge, if_pos hlarge]
  rw [if_neg hlarge, if_neg hlarge]
  refine Exec.bind_congr ?_ fun _ _ _ => rfl
  split
  · refine Exec.loop_congr (J := Indexed env e m todo) (fun s' hs' hover => ?_) fuel h
    have heq := popitemWrapper_guarded hw hs' hover
    refine ⟨heq, fun s'' hs'' => ?_⟩
    exact ((Exec.wp_of_ok (heq ▸ hs'')).mp (popitemWrapper_indexed hw (stable_true e) hs' trivial hover)).1.1
  · rfl

theorem setitems_guarded (hw : Wired env e m fuel) : ∀ (items : List (Nat × Value α)) {s : σ × World B E},
    Indexed env e m (items.map Prod.fst) s → (items.map Prod.fst).Nodup →
      (guarded env e).setitems fuel items s = e.setitems fuel items s
  | [], _, _, _ => rfl
  | item :: items, s, h, hnodup => by
    obtain ⟨hid, hnodup⟩ := List.nodup_cons.mp hnodup
    have heq := setitem_guarded hw h item.1 item.2
    rw [MemoryCacheEviction.setitems, MemoryCacheEviction.setitems, Exec.forEach_cons, Exec.forEach_cons]
    refine Exec.bind_congr heq fun _ s' hs' => setitems_guarded hw items ?_ hnodup
    exact ((Exec.wp_of_ok (heq ▸ hs')).mp (setitem_indexed hw (stable_true e) h trivial hid trivial)).1

theorem put_guarded (hw : Wired env e m fuel) {ids : List Nat} {costs : Option (List ℚ)}
    (hcosts : MemoryCacheEviction.costsCover ids costs = true) (hnodup : ids.Nodup) {s : σ × World B E}
    (h : Indexed env e m ids s) : (guarded env e).put fuel ids costs s = e.put fuel ids costs s := by
  have hkeys := MemoryCacheEviction.keys_putItems (α := α) hcosts
  rw [e.put_covered fuel hcosts, (guarded env e).put_covered fuel hcosts]
  exact setitems_guarded hw _ (hkeys.symm ▸ h) (hkeys.symm ▸ hnodup)

theorem importData_guarded (hw : Wired env e m fuel) {s : σ × World B E} (h : Indexed env e m [] s)
    (questions : List QuestionArg) (answers : List (AnswerArg B)) (embeddingDatas : List E)
    (sessionIds : List (Option String)) :
    importData env (guarded env e) fuel questions answers embeddingDatas sessionIds s =
      importData env e fuel questions answers embeddingDatas sessionIds s := by
  rw [importData_eq, importData_eq]
  refine Exec.bind_congr rfl fun batch s' hs' => ?_
  obtain ⟨hindex, ha⟩ := (Exec.wp_of_ok hs').mp (wp_importRows hw.fails s questions answers embeddingDatas sessionIds)
  have h' : Indexed env e m batch.1 (s.1, s'.2) := h.arrived ha
  rw [← hindex] at h'
  exact put_guarded hw ha.costsCover (ha.inserted.fresh h.consistent.paired.wellFormed).1 h'

theorem opResult_guarded (hw : Wired env e m fuel) {s : σ × World B E} (h : Indexed env e m [] s) (op : Op B E) :
    opResult env (guarded env e) fuel s op = opResult env e fuel s op := by
  cases op with
  | importData questions answers embeddingDatas sessionIds =>
    exact congrArg (Option.map Prod.snd) (importData_guarded hw h questions answers embeddingDatas sessionIds)
  | hit id => rfl

theorem runOps_guarded (hw : Wired env e m fuel) : ∀ (ops : List (Op B E)) {s : σ × World B E},
    Indexed env e m [] s → runOps env (guarded env e) fuel s ops = runOps env e fuel s ops
  | [], _, _ => rfl
  | op :: ops, s, h => by
    obtain ⟨s', hop, h'⟩ := opResult_indexed hw h op
    simp only [runOps, opResult_guarded hw h op, hop]
    exact runOps_guarded hw ops h'

theorem init_guarded (hw : Wired env e m fuel) {tracked : Nat → Bool} {w : World B E} (h : Consistent env tracked w) :
    init env (guarded env e) fuel (e.cls.new m fun _ => 1, w) = init env e fuel (e.cls.new m fun _ => 1, w) := by
  have hcall : ∀ f : World B E → List Nat × World B E, World.call env f = fun w =>
      some (.ok (f { w with calls := w.calls + 1 }).1, (f { w with calls := w.calls + 1 }).2) := fun f => by
    funext w
    simp only [World.call, Exec.total, hw.fails, Bool.false_eq_true, if_false]
  refine Exec.bind_congr rfl fun _ s₁ h₁ => Exec.bind_congr rfl fun ids s₂ h₂ => ?_
  cases h₁
  rw [hcall] at h₂
  cases h₂
  exact put_guarded hw rfl ((SQLStorage.getIds_ascending h.paired.wellFormed false).imp fun hlt => Nat.ne_of_lt hlt)
    (h.reloaded e m _)

/-! ## Runs -/

/-- Rows are added, or `_clear` runs. -/
theorem backlog_steps (hf : ∀ n, env.fails n = false) : Steps env (Exec.Carries (World.Backlog (B := B) (E := E))) where
  same := fun w w' hsame hw => hw.of_rows (by rw [hsame.s]) (by rw [hsame.s])
  save := by
    refine fun datas embeddingDatas _ => .carries fun w hw => ?_
    have hi := SQLStorage.batchInsert_inserted datas w.s
    simp only [StoreOp.exec, Exec.wp_bind, World.wp_call env hf]
    refine hw.of_rows hi.getIds_deleted ?_
    show w.s.ids.length ≤ (w.s.batchInsert datas).2.ids.length
    rw [hi.ids, List.length_append]
    omega
  clear := fun markedKeys => .carries fun w _ => World.clear_backlog hf markedKeys w

/-- `Process.run` with the guarded check. -/
def Process.runGuarded {α : Type} (env : Env B E S) (fuel : Nat) (p : Process B E) (w : World B E) :
    Option (Except PyError (Manager B E α) × World B E) :=
  match EvictionBase.get p.draws "memory" p.policy.name p.maxSize (some p.cleanSize) (World.clearGuarded env)
      (fun _ : Value α => 1) with
  | .error err => some (.error err, w)
  | .ok (.memory policy e index) =>
    match init env e fuel (index, w) with
    | none => none
    | some (.error err, s) => some (.error err, s.2)
    | some (.ok (), s) => (runOps env e fuel s p.ops).map fun s => (.ok ⟨policy, e, s.1⟩, s.2)
  | .ok _ => some (.error ⟨.AttributeError, ""⟩, w)

/-- `runs` with the guarded check. -/
def runsGuarded (α : Type) (env : Env B E S) (fuel : Nat) : List (Process B E) → World B E → Option (World B E)
  | [], w => some w
  | p :: ps, w =>
    match Process.runGuarded (α := α) env fuel p w with
    | none => none
    | some (_, w') => runsGuarded α env fuel ps w'

/-- No check of a process gets stuck, and it ends as without the guard. -/
theorem process_guarded (hf : ∀ n, env.fails n = false) (p : Process B E) (hsound : p.Sound) (hfuel : p.maxSize < fuel)
    {tracked : Nat → Bool} {w : World B E} (h : Consistent env tracked w) :
    ∃ (mgr mgr' : Manager B E α) (w' : World B E), p.run env fuel w = some (.ok mgr, w') ∧
      p.runGuarded env fuel w = some (.ok mgr', w') := by
  let e : MemoryCacheEviction (p.policy.State Nat α) Nat α (World B E) :=
    MemoryCacheEviction.ofPolicy p.draws p.policy p.cleanSize (World.clear env)
  have hw : Wired env e p.maxSize fuel := ⟨hf, rfl, hsound.1, hsound.2, hfuel⟩
  obtain ⟨a, s, hinit, hs, -⟩ := Exec.wp_returns_ok
    (init_indexed hw (stable_true e) (fun _ => trivial) h fun _ => trivial)
  obtain ⟨s', hops, -⟩ := runOps_indexed hw p.ops hs
  let e' : MemoryCacheEviction (p.policy.State Nat α) Nat α (World B E) :=
    MemoryCacheEviction.ofPolicy p.draws p.policy p.cleanSize (World.clearGuarded env)
  refine ⟨⟨p.policy, e, s'.1⟩, ⟨p.policy, e', s'.1⟩, s'.2, ?_, ?_⟩
  · have hinit : init env e fuel ((p.policy.cacheClass p.draws Nat α).new p.maxSize fun _ => 1, w) = some (.ok a, s) :=
      hinit
    simp only [Process.run, get_memory p.draws p.policy p.maxSize hsound.1]
    rw [hinit]
    exact congrArg (Option.map _) hops
  · have hinit' : init env e' fuel ((p.policy.cacheClass p.draws Nat α).new p.maxSize fun _ => 1, w) =
        some (.ok a, s) := (init_guarded hw h).trans hinit
    have hops' : runOps env e' fuel s p.ops = some s' := (runOps_guarded hw p.ops hs).trans hops
    simp only [Process.runGuarded, get_memory p.draws p.policy p.maxSize hsound.1]
    rw [hinit']
    exact congrArg (Option.map _) hops'

theorem runs_guarded (hf : ∀ n, env.fails n = false) : ∀ (ps : List (Process B E)),
    (∀ p ∈ ps, p.Sound ∧ p.maxSize < fuel) → ∀ {tracked : Nat → Bool} {w : World B E}, Consistent env tracked w →
    runsGuarded α env fuel ps w = runs α env fuel ps w
  | [], _, _, _, _ => rfl
  | p :: ps, hps, _, w, h => by
    obtain ⟨⟨hsound, hfuel⟩, hps⟩ := List.forall_mem_cons.mp hps
    obtain ⟨mgr, mgr', w₁, hrun, hrun'⟩ := process_guarded (α := α) hf p hsound hfuel h
    obtain ⟨mgr₁, w₂, hrun₁, h₁⟩ := process_run (α := α) hf p hsound.1 hsound.2 hfuel h
    rw [hrun] at hrun₁
    cases hrun₁
    simp only [runs, runsGuarded, hrun, hrun']
    exact runs_guarded hf ps hps h₁

theorem init_backlog (objects : Bool) : (World.init objects : World B E).Backlog := .of_none rfl

/-- **The backlog.** Processes run one after another over stores that start
empty and do not fail; the last one has got to anywhere between two calls, its
constructor among them. Every `check_evict` up to there was called on a store
with a row, so with the guard the run is the same; and of the rows at most
5000, and at most a tenth, are soft-deleted. -/
theorem backlog_bounded (env : Env B E S) (hf : ∀ n, env.fails n = false) (objects : Bool) (fuel : Nat)
    (ps : List (Process B E)) (p : Process B E) (hps : ∀ q ∈ p :: ps, q.Sound ∧ q.maxSize < fuel) :
    ∃ (w : World B E) (mgr mgr' : Manager B E α) (w' : World B E),
      runs α env fuel ps (World.init objects) = some w ∧ p.run env fuel w = some (.ok mgr, w') ∧
      runsGuarded α env fuel ps (World.init objects) = some w ∧ p.runGuarded env fuel w = some (.ok mgr', w') ∧
      w'.s.count (-1) false ≤ 5000 ∧ 10 * w'.s.count (-1) false ≤ w'.s.count 0 true := by
  obtain ⟨⟨hsound, hfuel⟩, hps⟩ := List.forall_mem_cons.mp hps
  have hinit := init_consistent (S := S) env objects
  obtain ⟨tracked, w, hruns, h⟩ := runs_consistent (α := α) hf ps hps hinit
  obtain ⟨mgr, mgr', w', hrun, hrun'⟩ := process_guarded (α := α) hf p hsound hfuel h
  have hbacklog : w'.Backlog :=
    process_within (backlog_steps hf).methods hrun
      (runs_within (backlog_steps hf).methods ps hruns (init_backlog objects))
  exact ⟨w, mgr, mgr', w', hruns, hrun, (runs_guarded hf ps hps hinit).trans hruns, hrun',
    hbacklog.count, hbacklog.rate⟩

/-- Five rows through an index of two, then a restart with FIFO and one more. -/
theorem backlog_bounded_restart :
    let env : Env Unit ℚ ℚ :=
      { norm := abs, div := (· / ·), float32 := id, download := fun _ => .ok (), path := toString
        fails := fun _ => false, reindexes := false }
    let first : Process Unit ℚ := ⟨.LRU, 2, 1, id, [.importData [.str "a", .str "b", .str "c", .str "d", .str "e"]
      [.str "v", .str "w", .str "x", .str "y", .str "z"] [1, -2, 3, 4, 5] [none, none, none, none, none], .hit 2]⟩
    let second : Process Unit ℚ := ⟨.FIFO, 1, 1, id, [.importData [.str "f"] [.str "u"] [6] [none]]⟩
    ∃ (w : World Unit ℚ) (mgr mgr' : Manager Unit ℚ Unit) (w' : World Unit ℚ),
      runsGuarded Unit env 3 [first] (World.init false) = some w ∧ second.run env 3 w = some (.ok mgr, w') ∧
      second.runGuarded env 3 w = some (.ok mgr', w') ∧ 10 * w'.s.count (-1) false ≤ w'.s.count 0 true := by
  intro env first second
  obtain ⟨w, mgr, mgr', w', -, hrun, hguarded, hrun', -, hrate⟩ := backlog_bounded (α := Unit) env (fun _ => rfl) false
    3 [first] second (by
      intro q hq
      simp only [List.mem_cons, List.not_mem_nil, or_false] at hq
      rcases hq with rfl | rfl <;> exact ⟨⟨by decide, by decide⟩, by decide⟩)
  exact ⟨w, mgr, mgr', w', hguarded, hrun, hrun', hrate⟩

end SSDataManager

end GptCache
