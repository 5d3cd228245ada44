/-
A physical deletion of which the second half fails.

`EvictionManager.delete` asks for the soft-deleted ids, clears their rows and
then deletes their vectors. Where the vector store raises, as one that cannot
delete always does, the rows are gone and with them all that said which
vectors are left to delete: these vectors have no row, and no later deletion
removes them (`failed_delete`).
-/
import GptCache.Manager.FailedImport

namespace GptCache

variable {B E S : Type} {env : Env B E S}

/-- What is done to the stores, one thing after another. -/
inductive StoreOp (B E : Type) where
  /-- Rows and their vectors, as `import_data` does it. -/
  | save (datas : List (CacheData B E)) (embeddingDatas : List E)
  | softEvict (markedKeys : List Nat)
  /-- `EvictionManager.delete`. -/
  | delete
  /-- Anything that leaves questions and vectors as they are; the rest is that of `w`. -/
  | other (w : World B E)

namespace StoreOp

def exec (env : Env B E S) : StoreOp B E → Exec PyError (World B E) Unit
  | save datas embeddingDatas =>
    World.call env (fun w =>
      let (ids, s) := w.s.batchInsert datas
      (ids, { w with s := s, imported := ids.zip embeddingDatas ++ w.imported })) >>= fun ids =>
    World.call env fun w => ((), { w with v := w.v ++ ids.zip (embeddingDatas.map (normalize env)) })
  | softEvict markedKeys => World.softEvict env markedKeys
  | delete => World.delete env
  | other w' => Exec.modify fun w => { w' with s := { w'.s with ques := w.s.ques }, v := w.v }

/-- The stores after an operation, whether it returned or raised. -/
def after (env : Env B E S) (w : World B E) (op : StoreOp B E) : World B E :=
  match op.exec env w with
  | none => w
  | some (_, w') => w'

end StoreOp

def runStores (env : Env B E S) (w : World B E) (ops : List (StoreOp B E)) : World B E :=
    ops.foldl (StoreOp.after env) w

/-- Every row is live or soft-deleted, and every vector has one. -/
structure Rooted (w : World B E) : Prop where
  state : ∀ r ∈ w.s.ques, r.deleted = 0 ∨ r.deleted = -1
  rows : ∀ d ∈ w.v, d.1 ∈ w.s.ids

/-- Called now, `EvictionManager.delete` gets to the vector store, and that raises. -/
def VectorDeleteRaises (env : Env B E S) (w : World B E) : Prop :=
  env.fails w.calls = false ∧ env.fails (w.calls + 1) = false ∧ env.fails (w.calls + 2) = true

/-- It does so, and there is a vector whose row is not live. -/
def Loses (env : Env B E S) (w : World B E) : Prop :=
  VectorDeleteRaises env w ∧ ∃ d ∈ w.v, d.1 ∉ w.s.getIds false

/-- Every vector's row is live. -/
structure AllLive (w : World B E) : Prop where
  state : ∀ r ∈ w.s.ques, r.deleted = 0 ∨ r.deleted = -1
  rows : ∀ d ∈ w.v, d.1 ∈ w.s.getIds false

theorem AllLive.rooted {w : World B E} (h : AllLive w) : Rooted w :=
  ⟨h.state, fun d hd => SQLStorage.mem_ids_of_mem_getIds (h.rows d hd)⟩

/-! ## One operation -/

theorem mem_getIds_of_state {s : SQLStorage B E} (h : ∀ r ∈ s.ques, r.deleted = 0 ∨ r.deleted = -1) {id : Nat}
    (hid : id ∈ s.ids) : id ∈ s.getIds false ∨ id ∈ s.getIds true := by
  obtain ⟨r, hr, rfl⟩ := List.mem_map.mp hid
  rcases h r hr with hs | hs
  · exact .inl (List.mem_map_of_mem (List.mem_filter.mpr ⟨hr, by simpa using hs⟩))
  · exact .inr (List.mem_map_of_mem (List.mem_filter.mpr ⟨hr, by simpa using hs⟩))

theorem rebuild_allLive {w : World B E} (h : AllLive w) :
    Exec.wp (World.rebuild env) (fun _ => AllLive) (fun _ => AllLive) w := by
  have hcleared : ∀ r ∈ w.s.clearDeletedData.ques, r.deleted = 0 ∨ r.deleted = -1 :=
    fun r hr => h.state r (List.mem_of_mem_filter hr)
  have hrows : ∀ d ∈ w.v, d.1 ∈ w.s.clearDeletedData.getIds false := by
    intro d hd
    rw [SQLStorage.getIds_live_clearDeletedData]
    exact h.rows d hd
  simp only [World.rebuild, Exec.wp_bind, World.wp_call_iff, Exec.wp_modify]
  split
  · exact ⟨h.state, h.rows⟩
  split
  · exact ⟨hcleared, hrows⟩
  split
  · exact ⟨hcleared, hrows⟩
  · cases env.reindexes with
    | false => exact ⟨hcleared, hrows⟩
    | true => exact ⟨hcleared, fun d hd => hrows d (List.mem_of_mem_filter hd)⟩

/-- A deletion that loses nothing: where it gets to the vectors it deletes
all whose row is gone, and the rebuild after it finds only live rows. -/
theorem delete_rooted {w : World B E} (h : Rooted w) (hloses : ¬ Loses env w) :
    Exec.wp (World.delete env) (fun _ => Rooted) (fun _ => Rooted) w := by
  have hcleared : ∀ r ∈ w.s.clearDeletedData.ques, r.deleted = 0 ∨ r.deleted = -1 :=
    fun r hr => h.state r (List.mem_of_mem_filter hr)
  simp only [World.delete, Exec.wp_bind, World.wp_call_iff]
  split
  · exact ⟨h.state, h.rows⟩
  rename_i hread
  split
  · exact ⟨h.state, h.rows⟩
  rename_i hclear
  split
  · rename_i hdelete
    have hraises : VectorDeleteRaises env w := ⟨by simpa using hread, by simpa using hclear, hdelete⟩
    refine ⟨hcleared, fun d hd => ?_⟩
    show d.1 ∈ w.s.clearDeletedData.ids
    rw [SQLStorage.ids_clearDeletedData_of_state h.state]
    by_contra hgone
    exact hloses ⟨hraises, d, hd, hgone⟩
  · have hlive : ∀ (n m : Nat), AllLive { w with
        s := w.s.clearDeletedData, v := w.v.filter (fun d => d.1 ∉ w.s.getIds true),
        deleteCount := n, calls := m } := by
      intro n m
      refine ⟨hcleared, fun d hd => ?_⟩
      obtain ⟨hd, hmark⟩ := List.mem_filter.mp hd
      show d.1 ∈ w.s.clearDeletedData.getIds false
      rw [SQLStorage.getIds_live_clearDeletedData]
      exact (mem_getIds_of_state h.state (h.rows d hd)).resolve_right (by simpa using hmark)
    simp only [Exec.wp_modify, Exec.wp_read]
    split
    · exact Exec.wp_mono (rebuild_allLive (hlive _ _)) (fun _ _ h' => h'.rooted) fun _ _ h' => h'.rooted
    · exact (hlive _ _).rooted

/-- The rows are gone, and the vectors are not. -/
theorem delete_raises {w : World B E} (h : VectorDeleteRaises env w) :
    World.delete env w = some (.error ⟨.StorageError, ""⟩,
      { w with s := w.s.clearDeletedData, calls := w.calls + 3 }) := by
  obtain ⟨h₀, h₁, h₂⟩ := h
  simp [World.delete, World.call, Exec.total, bind, Exec.andThen, h₀, h₁, h₂]

theorem save_rooted {w : World B E} (h : Rooted w) (datas : List (CacheData B E)) (embeddingDatas : List E) :
    Exec.wp ((StoreOp.save datas embeddingDatas).exec env) (fun _ => Rooted) (fun _ => Rooted) w := by
  have hi := SQLStorage.batchInsert_inserted datas w.s
  have hstate : ∀ r ∈ (w.s.batchInsert datas).2.ques, r.deleted = 0 ∨ r.deleted = -1 := by
    intro r hr
    rw [hi.ques, List.mem_append] at hr
    rcases hr with hr | hr
    · exact h.state r hr
    · exact .inl (SQLStorage.zipWith_newRow_deleted r hr)
  have hold : ∀ d ∈ w.v, d.1 ∈ (w.s.batchInsert datas).2.ids := by
    intro d hd
    rw [hi.ids]
    exact List.mem_append_left _ (h.rows d hd)
  simp only [StoreOp.exec, Exec.wp_bind, World.wp_call_iff]
  split
  · exact ⟨h.state, h.rows⟩
  split
  · exact ⟨hstate, hold⟩
  · refine ⟨hstate, fun d hd => ?_⟩
    rcases List.mem_append.mp hd with hd | hd
    · exact hold d hd
    · show d.1 ∈ (w.s.batchInsert datas).2.ids
      rw [hi.ids]
      exact List.mem_append_right _ (List.of_mem_zip (a := d.1) (b := d.2) hd).1

theorem softEvict_rooted {w : World B E} (h : Rooted w) (markedKeys : List Nat) :
    Exec.wp (World.softEvict env markedKeys) (fun _ => Rooted) (fun _ => Rooted) w := by
  simp only [World.softEvict, World.wp_call_iff]
  split
  · exact ⟨h.state, h.rows⟩
  · refine ⟨fun r hr => ?_, fun d hd => ?_⟩
    · obtain ⟨r', hr', rfl⟩ := List.mem_map.mp hr
      split
      · exact .inr rfl
      · exact h.state r' hr'
    · show d.1 ∈ (w.s.markDeleted markedKeys).ids
      rw [SQLStorage.markDeleted_ids]
      exact h.rows d hd

theorem after_of_wp {w : World B E} {op : StoreOp B E} {J : World B E → Prop}
    (h : Exec.wp (op.exec env) (fun _ => J) (fun _ => J) w) : J (op.after env w) := by
  unfold StoreOp.after
  rcases Exec.wp_returns h with ⟨_, w', hrun, hw'⟩ | ⟨_, w', hrun, hw'⟩
  · rwa [hrun]
  · rwa [hrun]

/-- One operation: vectors keep their rows unless it is a deletion that loses some. -/
theorem after_rooted {w : World B E} (h : Rooted w) {op : StoreOp B E} (hloses : op = .delete → ¬ Loses env w) :
    Rooted (op.after env w) := by
  refine after_of_wp ?_
  cases op with
  | save datas embeddingDatas => exact save_rooted h datas embeddingDatas
  | softEvict markedKeys => exact softEvict_rooted h markedKeys
  | delete => exact delete_rooted h (hloses rfl)
  | other w' => exact ⟨h.state, h.rows⟩

/-- A vector without a row. -/
structure Lost (d : Nat × E) (w : World B E) : Prop where
  held : d ∈ w.v
  gone : d.1 ∉ w.s.ids

/-- A vector of a row that is not live: it stays, and has no row at all. -/
theorem delete_loses {w : World B E} (hstate : ∀ r ∈ w.s.ques, r.deleted = 0 ∨ r.deleted = -1)
    (hraises : VectorDeleteRaises env w) {d : Nat × E} (hd : d ∈ w.v) (hgone : d.1 ∉ w.s.getIds false) :
    Lost d (StoreOp.delete.after env w) := by
  have hafter : StoreOp.delete.after env w = { w with s := w.s.clearDeletedData, calls := w.calls + 3 } := by
    unfold StoreOp.after
    rw [StoreOp.exec, delete_raises hraises]
  rw [hafter]
  refine ⟨hd, ?_⟩
  show d.1 ∉ w.s.clearDeletedData.ids
  rw [SQLStorage.ids_clearDeletedData_of_state hstate]
  exact hgone

/-! ## What becomes of it -/

theorem Lost.clearDeletedData {d : Nat × E} {w : World B E} (h : Lost d w) : d.1 ∉ w.s.clearDeletedData.ids :=
  fun hid => h.gone ((List.filter_sublist.map QuestionRow.id).subset hid)

theorem rebuild_lost (hreindexes : env.reindexes = false) {d : Nat × E} {w : World B E} (h : Lost d w) :
    Exec.wp (World.rebuild env) (fun _ => Lost d) (fun _ => Lost d) w := by
  simp only [World.rebuild, Exec.wp_bind, World.wp_call_iff, Exec.wp_modify, hreindexes]
  split
  · exact ⟨h.held, h.gone⟩
  split
  · exact ⟨h.held, h.clearDeletedData⟩
  split
  · exact ⟨h.held, h.clearDeletedData⟩
  · exact ⟨h.held, h.clearDeletedData⟩

/-- A deletion asks for the soft-deleted rows, so it does not find it. -/
theorem delete_lost (hreindexes : env.reindexes = false) {d : Nat × E} {w : World B E} (h : Lost d w) :
    Exec.wp (World.delete env) (fun _ => Lost d) (fun _ => Lost d) w := by
  have hkept : d ∈ w.v.filter fun d => d.1 ∉ w.s.getIds true := by
    refine List.mem_filter.mpr ⟨h.held, ?_⟩
    simpa using fun hid => h.gone (SQLStorage.mem_ids_of_mem_getIds hid)
  simp only [World.delete, Exec.wp_bind, World.wp_call_iff, Exec.wp_modify, Exec.wp_read]
  split
  · exact ⟨h.held, h.gone⟩
  split
  · exact ⟨h.held, h.gone⟩
  split
  · exact ⟨h.held, h.clearDeletedData⟩
  split
  · exact rebuild_lost hreindexes ⟨hkept, h.clearDeletedData⟩
  · exact ⟨hkept, h.clearDeletedData⟩

/-- The rows of a save that goes through have the id. -/
def Inserts (env : Env B E S) (w : World B E) (op : StoreOp B E) (id : Nat) : Prop :=
  ∃ datas embeddingDatas, op = .save datas embeddingDatas ∧ env.fails w.calls = false ∧ id ∈ (w.s.batchInsert datas).1

/-- Other rows and their vectors do not bring it a row. -/
theorem save_lost {d : Nat × E} {w : World B E} (h : Lost d w) {datas : List (CacheData B E)} {embeddingDatas : List E}
    (hop : ¬ Inserts env w (.save datas embeddingDatas) d.1) :
    Exec.wp ((StoreOp.save datas embeddingDatas).exec env) (fun _ => Lost d) (fun _ => Lost d) w := by
  simp only [StoreOp.exec, Exec.wp_bind, World.wp_call_iff]
  split
  · exact ⟨h.held, h.gone⟩
  rename_i hfails
  have hgone : d.1 ∉ (w.s.batchInsert datas).2.ids := by
    rw [(SQLStorage.batchInsert_inserted datas w.s).ids, List.mem_append, not_or]
    exact ⟨h.gone, fun hid => hop ⟨datas, embeddingDatas, rfl, by simpa using hfails, hid⟩⟩
  split
  · exact ⟨h.held, hgone⟩
  · exact ⟨List.mem_append_left _ h.held, hgone⟩

/-- Nothing but an insertion that takes its id again gives it a row. -/
theorem after_lost (hreindexes : env.reindexes = false) {d : Nat × E} {w : World B E} (h : Lost d w)
    {op : StoreOp B E} (hop : ¬ Inserts env w op d.1) : Lost d (op.after env w) := by
  refine after_of_wp ?_
  cases op with
  | save datas embeddingDatas => exact save_lost h hop
  | softEvict markedKeys =>
    simp only [StoreOp.exec, World.softEvict, World.wp_call_iff]
    split
    · exact ⟨h.held, h.gone⟩
    · refine ⟨h.held, ?_⟩
      show d.1 ∉ (w.s.markDeleted markedKeys).ids
      rw [SQLStorage.markDeleted_ids]
      exact h.gone
  | delete => exact delete_lost hreindexes h
  | other w' => exact ⟨h.held, h.gone⟩

/-! ## Runs -/

theorem runStores_append (env : Env B E S) (w : World B E) (ops ops' : List (StoreOp B E)) :
    runStores env w (ops ++ ops') = runStores env (runStores env w ops) ops' :=
  List.foldl_append ..

/-- Every state of a run is rooted just when no deletion in it loses a vector. -/
theorem runStores_rooted_iff {w₀ : World B E} (h : Rooted w₀) (ops : List (StoreOp B E)) :
    (∀ done rest, ops = done ++ rest → Rooted (runStores env w₀ done)) ↔
      ∀ done rest, ops = done ++ .delete :: rest → ¬ Loses env (runStores env w₀ done) := by
  refine ⟨fun hall done rest heq hloses => ?_, fun hnone done => ?_⟩
  · obtain ⟨hraises, d, hd, hgone⟩ := hloses
    have hbefore := hall done (.delete :: rest) heq
    have hafter := hall (done ++ [.delete]) rest (by rw [heq, List.append_assoc]; rfl)
    rw [runStores_append] at hafter
    have hlost := delete_loses hbefore.state hraises hd hgone
    exact hlost.gone (hafter.rows d hlost.held)
  · -- On the operations done, from the last one.
    induction done using List.reverseRecOn with
    | nil => exact fun _ _ => h
    | append_singleton done op ih =>
      intro rest heq
      rw [runStores_append]
      refine after_rooted (ih (op :: rest) (by rw [heq, List.append_assoc]; rfl)) fun hop => ?_
      exact hnone done rest (by rw [heq, List.append_assoc, hop]; rfl)

/-- No save of the run inserts a row with the id. -/
def NotInserted (env : Env B E S) (w : World B E) (ops : List (StoreOp B E)) (id : Nat) : Prop :=
  ∀ done op rest, ops = done ++ op :: rest → ¬ Inserts env (runStores env w done) op id

theorem notInserted_cons {w : World B E} {op : StoreOp B E} {ops : List (StoreOp B E)} {id : Nat} :
    NotInserted env w (op :: ops) id ↔ ¬ Inserts env w op id ∧ NotInserted env (op.after env w) ops id := by
  refine ⟨fun h => ⟨h [] op ops rfl, fun done op' rest heq => h (op :: done) op' rest (by rw [heq, List.cons_append])⟩,
    ?_⟩
  intro ⟨hfirst, hrest⟩ done op' rest heq
  cases done with
  | nil =>
    obtain ⟨rfl, -⟩ := List.cons.inj heq
    exact hfirst
  | cons op'' done =>
    obtain ⟨rfl, htail⟩ := List.cons.inj heq
    exact hrest done op' rest htail

theorem runStores_lost (hreindexes : env.reindexes = false) {d : Nat × E} : ∀ (ops : List (StoreOp B E))
    {w : World B E}, Lost d w → NotInserted env w ops d.1 → Lost d (runStores env w ops)
  | [], _, h, _ => h
  | op :: ops, w, h, hops => by
    obtain ⟨hfirst, hrest⟩ := notInserted_cons.mp hops
    exact runStores_lost hreindexes ops (after_lost hreindexes h hfirst) hrest

def saveOne : StoreOp Unit ℚ := .save [⟨.str "a", [], some 1, none⟩] [1]

theorem init_rooted (objects : Bool) : Rooted (World.init objects : World B E) := by
  refine ⟨?_, ?_⟩ <;> simp [World.init, SQLStorage.empty]

/-- Two rows, one of which is evicted. -/
def evictOne : List (StoreOp Unit ℚ) := [saveOne, saveOne, .softEvict [1]]

/-- The operations take `w` to `w'`. -/
def Reaches (env : Env B E S) (w w' : World B E) : Prop := ∃ ops, runStores env w ops = w'

instance : Std.Refl (Reaches env) := ⟨fun _ => ⟨[], rfl⟩⟩

instance : IsTrans (World B E) (Reaches env) where
  trans := by
    intro w w₁ w₂ ⟨ops, h⟩ ⟨ops', h'⟩
    exact ⟨ops ++ ops', by rw [runStores_append, h, h']⟩

theorem Reaches.other {w w' : World B E} (hques : w'.s.ques = w.s.ques) (hv : w'.v = w.v) : Reaches env w w' := by
  refine ⟨[.other w'], ?_⟩
  show { w' with s := { w'.s with ques := w.s.ques }, v := w.v } = w'
  rw [← hques, ← hv]

theorem Reaches.exec (op : StoreOp B E) : Exec.Within (Reaches env) (op.exec env) := by
  intro w r w' hrun
  refine ⟨[op], ?_⟩
  show op.after env w = w'
  unfold StoreOp.after
  rw [hrun]

theorem Reaches.read {β : Type} (f : World B E → β) :
    Exec.Within (Reaches env) (World.call env fun w => (f w, w)) := by
  refine .total fun w => ?_
  cases env.fails w.calls <;> exact .other rfl rfl

theorem clear_reaches (markedKeys : List Nat) :
    Exec.Within (Reaches env) (World.clear (B := B) (E := E) env markedKeys) := by
  have hevict : Exec.Within (Reaches env) (World.checkEvict (B := B) (E := E) env) :=
    (Reaches.read _).bind fun _ => (Reaches.read _).bind fun _ =>
      (Exec.Within.pure _).ite ((Exec.Within.raise _).ite (.pure _))
  refine Exec.Within.bind ?_ fun _ => (Reaches.exec (.softEvict markedKeys)).bind fun _ => hevict.bind fun _ => ?_
  · exact .modify fun w => .other rfl rfl
  · exact (Reaches.exec .delete).ite (.pure _)

namespace SSDataManager

variable {σ α : Type} {e : MemoryCacheEviction σ Nat α (World B E)} {fuel : Nat}

/-- `T` holds of what the methods are made of: what changes no row, the
insertion of rows with their vectors, and `_clear`. -/
structure Steps (env : Env B E S) (T : World B E → World B E → Prop) : Prop where
  same : ∀ w w', SameRows w w' → T w w'
  save : ∀ (datas : List (CacheData B E)) (embeddingDatas : List E), datas.length = embeddingDatas.length →
    Exec.Within T ((StoreOp.save datas embeddingDatas).exec env)
  clear : ∀ markedKeys, Exec.Within T (World.clear env markedKeys)

section

variable {T : World B E → World B E → Prop} [Std.Refl T] [IsTrans _ T]

/-- A `put` does to the stores what `_clear` does. -/
theorem put_within (hclear : e.onEvict = World.clear env) (h : Steps env T) (ids : List Nat) (costs : Option (List ℚ)) :
    Exec.Within (InvImage T Prod.snd) (e.put fuel ids costs) :=
  e.within_put_snd fuel ids costs fun ks => hclear ▸ h.clear ks

/-- `import_data` does to the stores what inserting the rows with their vectors and `_clear` do. -/
theorem importData_within (hclear : e.onEvict = World.clear env) (h : Steps env T) (questions : List QuestionArg)
    (answers : List (AnswerArg B)) (embeddingDatas : List E) (sessionIds : List (Option String)) :
    Exec.Within (InvImage T Prod.snd) (importData env e fuel questions answers embeddingDatas sessionIds) := by
  unfold importData
  split
  · exact .raise _
  rename_i hlen
  intro s r s' hrun
  have hputs := insertable_puts env
    (questions.zip (answers.zip ((embeddingDatas.map (normalize env)).zip sessionIds))) s.2
  rcases Exec.bind_eq_some hrun with ⟨err, -, hraise⟩ | ⟨datas, s₁, hdatas, hrun⟩
  · have hputs := (Exec.wp_of_error (Exec.onSnd_eq_some.mp hraise).1).mp hputs
    exact h.same _ _ hputs.toSameRows
  obtain ⟨hputs, hembedded⟩ := (Exec.wp_of_ok (Exec.onSnd_eq_some.mp hdatas).1).mp hputs
  refine IsTrans.trans _ _ _ (h.same s.2 s₁.2 hputs.toSameRows) ?_
  have hlength : datas.length = embeddingDatas.length := by
    have := congrArg List.length hembedded
    simp only [List.length_map, List.length_zip] at this
    omega
  -- The rows and the vectors are one operation.
  have hsave := h.save datas embeddingDatas hlength
  rcases Exec.bind_eq_some hrun with ⟨err, -, hraise⟩ | ⟨ids, s₂, hret, hrun⟩
  · refine hsave s₁.2 (.error err) s'.2 ?_
    simp only [StoreOp.exec, bind, Exec.andThen, (Exec.onSnd_eq_some.mp hraise).1]
  rcases Exec.bind_eq_some hrun with ⟨err, -, hraise⟩ | ⟨_, s₃, hret₃, hput⟩
  · refine hsave s₁.2 (.error err) s'.2 ?_
    rw [StoreOp.exec, Exec.bind_of_ok _ (Exec.onSnd_eq_some.mp hret).1]
    exact (Exec.onSnd_eq_some.mp hraise).1
  · have hboth : T s₁.2 s₃.2 := by
      refine hsave s₁.2 (.ok ()) s₃.2 ?_
      rw [StoreOp.exec, Exec.bind_of_ok _ (Exec.onSnd_eq_some.mp hret).1]
      exact (Exec.onSnd_eq_some.mp hret₃).1
    exact IsTrans.trans _ _ _ hboth (put_within hclear h _ _ _ _ _ hput)

theorem init_within (hclear : e.onEvict = World.clear env) (h : Steps env T) :
    Exec.Within (InvImage T Prod.snd) (init env e fuel) := by
  have hread : Exec.Within T (World.call env fun w : World B E => (w.s.getIds false, w)) := by
    refine .total fun w => ?_
    cases env.fails w.calls <;> exact h.same _ _ ⟨rfl, rfl, rfl, rfl⟩
  refine Exec.Within.bind ?_ fun _ => hread.onSnd.bind fun ids => put_within hclear h ids none
  exact .modify fun s => h.same _ _ ⟨rfl, rfl, rfl, rfl⟩

theorem hit_within (id : Nat) : Exec.Within (InvImage T Prod.snd) (hitCacheCallback e id) :=
  (Exec.Within.total fun s => Std.Refl.refl s.2).bind fun _ => .pure _

/-- `T` holds of what the constructor and `import_data` do to the stores. -/
structure Methods (env : Env B E S) (α : Type) (fuel : Nat) (T : World B E → World B E → Prop) : Prop where
  init : ∀ {σ : Type} (e : MemoryCacheEviction σ Nat α (World B E)), e.onEvict = World.clear env →
    Exec.Within (InvImage T Prod.snd) (init env e fuel)
  importData : ∀ {σ : Type} (e : MemoryCacheEviction σ Nat α (World B E)), e.onEvict = World.clear env →
    ∀ questions answers embeddingDatas sessionIds,
      Exec.Within (InvImage T Prod.snd) (importData env e fuel questions answers embeddingDatas sessionIds)

theorem Steps.methods (h : Steps env T) : Methods env α fuel T where
  init := fun _ hclear => init_within hclear h
  importData := fun _ hclear => importData_within hclear h

theorem opResult_within (hclear : e.onEvict = World.clear env) (h : Methods env α fuel T) {s s' : σ × World B E}
    {op : Op B E} (hop : opResult env e fuel s op = some s') : T s.2 s'.2 := by
  cases op with
  | importData questions answers embeddingDatas sessionIds =>
    obtain ⟨⟨r, _⟩, hrun, rfl⟩ := Option.map_eq_some_iff.mp hop
    exact h.importData e hclear questions answers embeddingDatas sessionIds _ _ _ hrun
  | hit id =>
    have hop : (hitCacheCallback e id s).map Prod.snd = some s' := hop
    obtain ⟨⟨r, _⟩, hrun, rfl⟩ := Option.map_eq_some_iff.mp hop
    exact hit_within id _ _ _ hrun

theorem runOps_within (hclear : e.onEvict = World.clear env) (h : Methods env α fuel T) :
    ∀ (ops : List (Op B E)) {s s' : σ × World B E}, runOps env e fuel s ops = some s' → T s.2 s'.2
  | [], s, s', hrun => by
    cases hrun
    exact Std.Refl.refl s.2
  | op :: ops, s, s', hrun => by
    simp only [runOps] at hrun
    split at hrun
    · cases hrun
    · rename_i s₁ hop
      exact IsTrans.trans _ _ _ (opResult_within hclear h hop) (runOps_within hclear h ops hrun)

theorem process_within (h : Methods env α fuel T) {p : Process B E} {w w' : World B E}
    {r : Except PyError (Manager B E α)} (hrun : p.run env fuel w = some (r, w')) : T w w' := by
  simp only [Process.run] at hrun
  split at hrun
  · cases hrun
    exact Std.Refl.refl w
  · rename_i policy e index hget
    have hclear := EvictionBase.get_onEvict hget
    split at hrun
    · cases hrun
    · rename_i hinit
      cases hrun
      exact h.init e hclear _ _ _ hinit
    · rename_i s hinit
      obtain ⟨s', hops, heq⟩ := Option.map_eq_some_iff.mp hrun
      cases heq
      exact IsTrans.trans _ _ _ (h.init e hclear _ _ _ hinit) (runOps_within hclear h p.ops hops)
  · cases hrun
    exact Std.Refl.refl w

/-- What processes do to the stores is made of what the methods do. -/
theorem runs_within (h : Methods env α fuel T) : ∀ (ps : List (Process B E)) {w w' : World B E},
    runs α env fuel ps w = some w' → T w w'
  | [], w, w', hrun => by
    cases hrun
    exact Std.Refl.refl w
  | p :: ps, w, w', hrun => by
    simp only [runs] at hrun
    split at hrun
    · cases hrun
    · rename_i r w₁ hp
      exact IsTrans.trans _ _ _ (process_within h hp) (runs_within h ps hrun)

end

theorem reaches_steps : Steps env (Reaches env) where
  same := fun _ _ hsame => .other (by rw [hsame.s]) hsame.v
  save := fun datas embeddingDatas _ => Reaches.exec (.save datas embeddingDatas)
  clear := clear_reaches

/-- What processes do to the stores is a run of these operations. -/
theorem runs_reaches (ps : List (Process B E)) {w w' : World B E} (h : runs α env fuel ps w = some w') :
    Reaches env w w' :=
  runs_within reaches_steps.methods ps h

end SSDataManager

end GptCache
