/-
An import in which a call to a store fails.

`import_data` puts objects, inserts the rows, adds the vectors and puts the
ids into the index, in this order, and takes nothing back. A failure before
the rows are in leaves nothing behind but objects. One after it, a failure of
an eviction the import causes included, leaves a row that was on its way live,
without a vector or at least not tracked, so that it is never evicted
(`importData_failed`).
-/
import GptCache.Lib.Faults
import GptCache.Manager.Consistency

namespace GptCache

variable {B E S : Type} {env : Env B E S}

/-! ## A failing call is the last -/

namespace World

theorem call_stops {α : Type} {f : World B E → α × World B E} (hf : ∀ w, (f w).2.calls = w.calls) :
    Stops World.calls env.fails (call env f) := by
  refine .call (fun w => ?_) fun w a h => ?_
  · cases env.fails w.calls with
    | true => rfl
    | false => exact hf _
  · cases hfail : env.fails w.calls with
    | true => simp [hfail] at h
    | false => rfl

/-- What a call did: nothing, where it fails. -/
theorem call_eq_some {α : Type} {f : World B E → α × World B E} {w w' : World B E} {r : Except PyError α}
    (h : call env f w = some (r, w')) :
    (∃ err, r = .error err ∧ w' = { w with calls := w.calls + 1 }) ∨
      (r = .ok (f { w with calls := w.calls + 1 }).1 ∧ w' = (f { w with calls := w.calls + 1 }).2) := by
  simp only [call, Exec.total] at h
  cases hfail : env.fails w.calls with
  | true =>
    simp only [hfail, if_true] at h
    cases h
    exact .inl ⟨_, rfl, rfl⟩
  | false =>
    simp only [hfail, Bool.false_eq_true, if_false] at h
    cases h
    exact .inr ⟨rfl, rfl⟩

theorem checkEvict_stops : Stops World.calls env.fails (checkEvict (B := B) (E := E) env) :=
  (call_stops fun _ => rfl).bind fun _ => (call_stops fun _ => rfl).bind fun _ =>
    (Stops.pure _).ite ((Stops.raise _).ite (.pure _))

theorem rebuild_stops : Stops World.calls env.fails (rebuild (B := B) (E := E) env) := by
  refine (call_stops fun _ => rfl).bind fun _ => (call_stops fun _ => rfl).bind fun ids =>
    (call_stops fun w => ?_).bind fun _ => .modify fun _ => rfl
  cases env.reindexes <;> rfl

theorem delete_stops : Stops World.calls env.fails (delete (B := B) (E := E) env) := by
  refine (call_stops fun _ => rfl).bind fun _ => (call_stops fun _ => rfl).bind fun _ =>
    (call_stops fun _ => rfl).bind fun _ => Stops.bind ?_ fun _ => Stops.read.bind fun _ => rebuild_stops.ite (.pure _)
  exact .modify fun _ => rfl

theorem clear_stops (marked : List Nat) : Stops World.calls env.fails (clear (B := B) (E := E) env marked) := by
  refine Stops.bind ?_ fun _ => (call_stops fun _ => rfl).bind fun _ => checkEvict_stops.bind fun _ =>
    delete_stops.ite (.pure _)
  exact .modify fun _ => rfl

end World

namespace SSDataManager

open World (call_stops)

theorem putObject_stops (obj : Content B) : Stops World.calls env.fails (putObject (E := E) env obj) := by
  refine Stops.read.bind fun w => ?_
  cases w.o with
  | none => exact .raise _
  | some objs => exact call_stops fun _ => rfl

theorem processAnswers_stops : ∀ answers : List (AnswerItem B),
    Stops World.calls env.fails (processAnswers (E := E) env answers)
  | [] => .pure _
  | .answer _ :: answers =>
    ((Stops.pure _).ite ((putObject_stops _).bind fun _ => .pure _)).bind fun _ =>
      (processAnswers_stops answers).bind fun _ => .pure _
  | .pair _ _ :: _ => .raise _
  | .plain (.str _) :: _ => .raise _
  | .plain (.other _) :: _ => .raise _

theorem processAnswerData_stops (answers : AnswerArg B) :
    Stops World.calls env.fails (processAnswerData (E := E) env answers) := by
  cases answers <;> exact (processAnswers_stops _).bind fun _ => .pure _

theorem storeDeps_stops (deps : List QuestionDep) : Stops World.calls env.fails (storeDeps (E := E) env deps) := by
  refine .forEach (fun dep => .ite (Stops.read.bind fun w => .ite (.raise _) ?_) (.pure _)) deps
  cases env.download dep.data with
  | error err => exact .raise err
  | ok content => exact (putObject_stops _).bind fun _ => .pure _

theorem processQuestionData_stops (question : QuestionArg) :
    Stops World.calls env.fails (processQuestionData (E := E) env question) := by
  cases question with
  | str s => exact .pure _
  | question q =>
    simp only [processQuestionData]
    cases q.deps with
    | none => exact .pure _
    | some deps => exact (storeDeps_stops deps).bind fun _ => .pure _

theorem cacheData_stops (entry : Entry B E) : Stops World.calls env.fails (cacheData env entry) := by
  obtain ⟨question, answers, embeddingData, sessionId⟩ := entry
  refine Stops.read.bind fun w => Stops.bind ?_ fun _ => (processQuestionData_stops question).bind fun _ => .pure _
  cases w.o with
  | none => exact .pure _
  | some objs =>
    cases answers with
    | str s => exact .pure _
    | answer a => exact processAnswerData_stops _
    | items xs => exact processAnswerData_stops _

theorem cacheDatas_stops : ∀ entries : List (Entry B E), Stops World.calls env.fails (cacheDatas env entries)
  | [] => .pure _
  | entry :: entries => (cacheData_stops entry).bind fun _ => (cacheDatas_stops entries).bind fun _ => .pure _

theorem insertable_stops (entries : List (Entry B E)) : Stops World.calls env.fails (insertable env entries) :=
  (cacheDatas_stops entries).bind fun _ => (Stops.pure _).ite (.raise _)

variable {σ α : Type} {e : MemoryCacheEviction σ Nat α (World B E)} {m fuel : Nat}

/-- The calls made so far. -/
abbrev callsOf (s : σ × World B E) : Nat := s.2.calls

theorem popitemWrapper_stops (hclear : e.onEvict = World.clear env) :
    Stops callsOf env.fails (popitemWrapper e.cls e.onEvict e.cleanSize) := by
  rw [hclear]
  have h : ∀ s : σ × World B E, Stops callsOf env.fails
      (Exec.onSnd (World.clear env ((popKeys e.cls e.cleanSize s.1).1.getD [])) : Exec PyError (σ × World B E) Unit) :=
    fun s => (World.clear_stops _).onSnd
  refine ⟨fun s r s' hr => ?_, fun s r s' n hr => ?_, fun s a s' n hr => ?_⟩
  · exact (h s).le ((popKeys e.cls e.cleanSize s.1).2, s.2) r s' hr
  · exact (h s).before ((popKeys e.cls e.cleanSize s.1).2, s.2) r s' n hr
  · exact (h s).returned ((popKeys e.cls e.cleanSize s.1).2, s.2) a s' n hr

theorem put_stops (hclear : e.onEvict = World.clear env) (ids : List Nat) (costs : Option (List ℚ)) :
    Stops callsOf env.fails (e.put fuel ids costs) := by
  rw [e.put_eq]
  refine (Stops.forEach (fun item => ?_) _).bind fun _ => (Stops.pure _).ite (.raise _)
  exact Stops.read.bind fun s => (Stops.raise _).ite
    ((((popitemWrapper_stops hclear).loop fuel).ite (.pure _)).bind fun _ => .modify fun _ => rfl)

theorem importData_stops (hclear : e.onEvict = World.clear env) (questions : List QuestionArg)
    (answers : List (AnswerArg B)) (embeddingDatas : List E) (sessionIds : List (Option String)) :
    Stops callsOf env.fails (importData env e fuel questions answers embeddingDatas sessionIds) := by
  unfold importData
  refine (Stops.raise _).ite ?_
  exact (insertable_stops _).onSnd.bind fun datas => (call_stops fun _ => rfl).onSnd.bind fun ids =>
    (call_stops fun _ => rfl).onSnd.bind fun _ => put_stops hclear ids _

/-! ## Rows on their way into the index -/

/-- The stores describe the same entries: the tracked ones are live, and live ones have a vector. -/
structure Agree (e : MemoryCacheEviction σ Nat α (World B E)) (s : σ × World B E) : Prop where
  tracked : ∀ id, id ∈ s.2.s.getIds false ↔ (e.cls.cache s.1).data.contains id = true
  vectors : ∀ id ∈ s.2.s.getIds false, id ∈ s.2.v.map Prod.fst

/-- The rows `todo` are live. -/
def Live (todo : List Nat) (w : World B E) : Prop := ∀ id ∈ todo, id ∈ w.s.getIds false

/-- The rows `todo` are live and the index has not heard of them. -/
structure Pending (e : MemoryCacheEviction σ Nat α (World B E)) (todo : List Nat) (s : σ × World B E) : Prop where
  inv : e.cls.Inv s.1
  live : Live todo s.2
  untracked : ∀ id ∈ todo, (e.cls.cache s.1).data.contains id = false

/-- A row of the batch that is live and not tracked. -/
def Orphaned (e : MemoryCacheEviction σ Nat α (World B E)) (s s' : σ × World B E) : Prop :=
  ∃ id, id ∉ s.2.s.ids ∧ id ∈ s'.2.s.getIds false ∧ (e.cls.cache s'.1).data.contains id = false

theorem Orphaned.not_agree {s s' : σ × World B E} (h : Orphaned e s s') : ¬ Agree e s' := by
  intro hagree
  obtain ⟨id, -, hlive, huntracked⟩ := h
  have htracked := (hagree.tracked id).mp hlive
  rw [huntracked] at htracked
  cases htracked

theorem Pending.orphaned {todo : List Nat} {s s' : σ × World B E} (h : Pending e todo s') (hne : todo ≠ [])
    (hnew : ∀ id ∈ todo, id ∉ s.2.s.ids) : Orphaned e s s' := by
  obtain ⟨id, hid⟩ := List.exists_mem_of_ne_nil todo hne
  exact ⟨id, hnew id hid, h.live id hid, h.untracked id hid⟩

/-- Live rows, vectors and index are what they were. -/
structure Unchanged (s s' : σ × World B E) : Prop where
  index : s'.1 = s.1
  live : s'.2.s.getIds false = s.2.s.getIds false
  vectors : s'.2.v = s.2.v

theorem Agree.unchanged {s s' : σ × World B E} (h : Agree e s) (hsame : Unchanged s s') : Agree e s' := by
  refine ⟨fun id => ?_, fun id hid => ?_⟩
  · rw [hsame.live, hsame.index]
    exact h.tracked id
  · rw [hsame.live] at hid
    rw [hsame.vectors]
    exact h.vectors id hid

theorem call_live {β : Type} {todo : List Nat} {f : World B E → β × World B E}
    (hf : ∀ w, Live todo w → Live todo (f w).2) :
    Exec.Within (Exec.Carries (Live todo)) (World.call env f) := by
  refine .total fun w hw => ?_
  cases env.fails w.calls with
  | true => exact hw
  | false => exact hf _ hw

theorem clearDeletedData_live (todo : List Nat) : Exec.Within (Exec.Carries (Live todo))
    (World.call env fun w : World B E => ((), { w with s := w.s.clearDeletedData })) := by
  refine call_live fun w hw id hid => ?_
  rw [SQLStorage.getIds_live_clearDeletedData]
  exact hw id hid

theorem rebuild_live (todo : List Nat) :
    Exec.Within (Exec.Carries (Live todo)) (World.rebuild (B := B) (E := E) env) := by
  refine (clearDeletedData_live todo).bind fun _ => (call_live fun w hw => hw).bind fun ids => ?_
  refine (call_live fun w hw => ?_).bind fun _ => .modify fun w hw => hw
  cases env.reindexes <;> exact hw

theorem delete_live (todo : List Nat) :
    Exec.Within (Exec.Carries (Live todo)) (World.delete (B := B) (E := E) env) := by
  refine (call_live fun w hw => hw).bind fun _ => (clearDeletedData_live todo).bind fun _ =>
    (call_live fun w hw => hw).bind fun _ => Exec.Within.bind ?_ fun _ => ?_
  · exact .modify fun w hw => hw
  · exact Exec.Within.read.bind fun _ => (rebuild_live todo).ite (.pure _)

theorem Pending.sameRows {todo : List Nat} {s : σ × World B E} (h : Pending e todo s) {w : World B E}
    (hs : w.s = s.2.s) : Pending e todo (s.1, w) := by
  refine ⟨h.inv, fun id hid => ?_, h.untracked⟩
  rw [hs]
  exact h.live id hid

/-- Rows that are not handed to `_clear` stay live, however far it gets. -/
theorem clear_live {todo marked : List Nat} (hfresh : ∀ id ∈ todo, id ∉ marked) :
    Exec.Within (Exec.Carries (Live todo)) (World.clear (B := B) (E := E) env marked) := by
  have hmark : Exec.Within (Exec.Carries (Live todo)) (World.softEvict (B := B) (E := E) env marked) := by
    refine call_live fun w hw id hid => ?_
    rw [SQLStorage.getIds_live_markDeleted, List.mem_filter]
    exact ⟨hw id hid, by simpa using hfresh id hid⟩
  have hevict : Exec.Within (Exec.Carries (Live todo)) (World.checkEvict (B := B) (E := E) env) :=
    (call_live fun w hw => hw).bind fun _ => (call_live fun w hw => hw).bind fun _ =>
      (Exec.Within.pure _).ite ((Exec.Within.raise _).ite (.pure _))
  refine Exec.Within.bind ?_ fun _ => hmark.bind fun _ => hevict.bind fun _ => (delete_live todo).ite (.pure _)
  exact .modify fun w hw => hw

/-- An overflow takes none of the rows to come. -/
theorem popitemWrapper_pending (hclear : e.onEvict = World.clear env) (todo : List Nat) :
    Exec.Within (Exec.Carries (Pending e todo)) (popitemWrapper e.cls e.onEvict e.cleanSize) := by
  intro s r s' hrun h
  obtain ⟨ks, hinv, hcache, -⟩ := popKeys_spec e.cls e.cleanSize h.inv
  have hfresh : ∀ id ∈ todo, id ∉ (popKeys e.cls e.cleanSize s.1).1.getD [] := by
    intro id hid hk
    have htracked := contains_of_mem_popKeys e.cls e.cleanSize h.inv hk
    rw [h.untracked id hid] at htracked
    cases htracked
  simp only [popitemWrapper, hclear] at hrun
  obtain ⟨hrun, hindex⟩ := Exec.onSnd_eq_some.mp hrun
  refine ⟨hindex ▸ hinv, clear_live hfresh _ _ _ hrun h.live, fun id hid => ?_⟩
  rw [hindex, hcache, ← Bool.not_eq_true, Cache.contains_popAll]
  intro hstill
  rw [h.untracked id hid] at hstill
  cases hstill.2

/-- Storing the first of them; it is still pending where this raises. -/
theorem setitem_pending (hclear : e.onEvict = World.clear env) {id : Nat} {todo : List Nat} (hid : id ∉ todo)
    {v : Value α} {s s' : σ × World B E} {r : Except PyError Unit} (h : Pending e (id :: todo) s)
    (hrun : e.setitem fuel id v s = some (r, s')) :
    (r = .ok () ∧ Pending e todo s') ∨ ∃ err, r = .error err ∧ Pending e (id :: todo) s' := by
  rw [MemoryCacheEviction.setitem, CacheClass.setitem, Exec.read_bind] at hrun
  split at hrun
  · cases hrun
    exact .inr ⟨_, rfl, h⟩
  · have hloop : Exec.Within (Exec.Carries (Pending e (id :: todo))) (Exec.loop
        (fun t : σ × World B E => (e.cls.cache t.1).overflows ((e.cls.cache s.1).getsizeof v))
        (popitemWrapper e.cls e.onEvict e.cleanSize) fuel) :=
      (popitemWrapper_pending hclear (id :: todo)).loop fuel
    have hroom := hloop.ite (c := (e.cls.cache s.1).needsRoom id ((e.cls.cache s.1).getsizeof v) = true) (.pure ())
    rcases Exec.bind_eq_some hrun with ⟨err, hr, hraise⟩ | ⟨_, s₁, hret, hstore⟩
    · exact .inr ⟨err, hr, hroom s _ s' hraise h⟩
    · have h₁ := hroom s _ s₁ hret h
      cases hstore
      refine .inl ⟨rfl, e.cls.store_inv id v h₁.inv, fun k hk => h₁.live k (List.mem_cons_of_mem _ hk), fun k hk => ?_⟩
      have hne : k ≠ id := fun heq => hid (heq ▸ hk)
      simp only [e.cls.store_cache, Cache.store_data, Dict.contains_set, decide_eq_false hne, Bool.false_or]
      exact h₁.untracked k (List.mem_cons_of_mem _ hk)

theorem setitems_pending (hclear : e.onEvict = World.clear env) : ∀ (items : List (Nat × Value α))
    {s s' : σ × World B E} {err : PyError}, (items.map Prod.fst).Nodup → Pending e (items.map Prod.fst) s →
      e.setitems fuel items s = some (.error err, s') →
      ∃ todo, todo ≠ [] ∧ todo ⊆ items.map Prod.fst ∧ Pending e todo s'
  | [], _, _, _, _, _, hrun => by cases hrun
  | item :: items, s, s', err, hnodup, h, hrun => by
    obtain ⟨hid, hnodup⟩ := List.nodup_cons.mp hnodup
    rw [MemoryCacheEviction.setitems, Exec.forEach_cons] at hrun
    rcases Exec.bind_eq_some hrun with ⟨err₁, -, hraise⟩ | ⟨_, s₁, hret, hrest⟩
    · rcases setitem_pending hclear hid h hraise with ⟨hok, -⟩ | ⟨_, -, h'⟩
      · cases hok
      · exact ⟨_, List.cons_ne_nil _ _, List.Subset.refl _, h'⟩
    · rcases setitem_pending hclear hid h hret with ⟨-, h'⟩ | ⟨_, herr, -⟩
      · obtain ⟨todo, hne, hsub, htodo⟩ := setitems_pending hclear items hnodup h' hrest
        exact ⟨todo, hne, List.subset_cons_of_subset item.1 hsub, htodo⟩
      · cases herr

/-! ## The import -/

/-- The entries `import_data` zips together. -/
def zipped (env : Env B E S) (questions : List QuestionArg) (answers : List (AnswerArg B)) (embeddingDatas : List E)
    (sessionIds : List (Option String)) : List (Entry B E) :=
  questions.zip (answers.zip ((embeddingDatas.map (normalize env)).zip sessionIds))

/-- How many objects an import puts. -/
def importPuts (env : Env B E S) (objects : Bool) (questions : List QuestionArg) (answers : List (AnswerArg B))
    (embeddingDatas : List E) (sessionIds : List (Option String)) : Nat :=
  objectPuts objects (zipped env questions answers embeddingDatas sessionIds)

/-- An import ended before the rows were in, or came to the vectors. -/
theorem importData_phases {s s' : σ × World B E} {questions : List QuestionArg} {answers : List (AnswerArg B)}
    {embeddingDatas : List E} {sessionIds : List (Option String)} {r : Except PyError Unit} {k : Nat}
    (hk : k = importPuts env s.2.o.isSome questions answers embeddingDatas sessionIds)
    (hrun : importData env e fuel questions answers embeddingDatas sessionIds s = some (r, s')) :
    (∃ w, s' = (s.1, w) ∧ SameRows s.2 w ∧ w.calls ≤ s.2.calls + k + 1) ∨
    ∃ datas ids w, SQLStorage.Inserted s.2.s datas ids w.s ∧ datas.length = questions.length ∧
      w.v = s.2.v ∧ w.calls = s.2.calls + k + 1 ∧
      (Exec.onSnd (World.call env fun w =>
        ((), { w with v := w.v ++ ids.zip (embeddingDatas.map (normalize env)) })) >>=
        fun _ => e.put fuel ids (some (datas.map importCost))) (s.1, w) = some (r, s') := by
  subst hk
  unfold importData at hrun
  split at hrun
  · cases hrun
    exact .inl ⟨s.2, rfl, .refl _, by omega⟩
  rename_i hlen
  simp only [not_or, not_not] at hlen
  obtain ⟨hanswers, hembeddings, hsessions⟩ := hlen
  have hentries : (zipped env questions answers embeddingDatas sessionIds).length = questions.length := by
    simp [zipped, ← hanswers, ← hembeddings, ← hsessions]
  have hputs := insertable_puts env (zipped env questions answers embeddingDatas sessionIds) s.2
  rcases Exec.bind_eq_some hrun with ⟨_, -, hraise⟩ | ⟨datas, ⟨_, w₁⟩, hret, hrun⟩
  · obtain ⟨hraise, hindex⟩ := Exec.onSnd_eq_some.mp hraise
    have hput := (Exec.wp_of_error hraise).mp hputs
    exact .inl ⟨s'.2, Prod.ext hindex rfl, hput.toSameRows, hput.calls.trans (Nat.le_succ _)⟩
  obtain ⟨hret, hindex⟩ := Exec.onSnd_eq_some.mp hret
  cases hindex
  obtain ⟨hput, hdatas⟩ := (Exec.wp_of_ok hret).mp hputs
  have hdatas : datas.length = questions.length := by
    simpa [hentries] using congrArg List.length hdatas
  rcases Exec.bind_eq_some hrun with ⟨_, -, hraise⟩ | ⟨ids, ⟨_, w₂⟩, hret, hrun⟩
  · obtain ⟨hraise, hindex⟩ := Exec.onSnd_eq_some.mp hraise
    rcases World.call_eq_some hraise with ⟨_, -, hw⟩ | ⟨hok, -⟩
    · refine .inl ⟨s'.2, Prod.ext hindex rfl, ?_, ?_⟩
      · rw [hw]
        exact ⟨hput.s, hput.v, hput.imported, hput.evicted⟩
      · rw [hw]
        exact Nat.add_le_add_right (Nat.le_of_eq hput.calls) 1
    · cases hok
  obtain ⟨hret, hindex⟩ := Exec.onSnd_eq_some.mp hret
  cases hindex
  rcases World.call_eq_some hret with ⟨_, herr, -⟩ | ⟨hids, hw⟩
  · cases herr
  have hids : ids = (w₁.s.batchInsert datas).1 := Except.ok.inj hids
  have hs : w₂.s = (w₁.s.batchInsert datas).2 := (congrArg World.s hw).trans rfl
  have hv : w₂.v = w₁.v := (congrArg World.v hw).trans rfl
  have hcalls : w₂.calls = w₁.calls + 1 := (congrArg World.calls hw).trans rfl
  refine .inr ⟨datas, ids, w₂, ?_, hdatas, hv.trans hput.v, ?_, hrun⟩
  · rw [hids, hs, ← hput.s]
    exact SQLStorage.batchInsert_inserted datas w₁.s
  · rw [hcalls, hput.calls]
    rfl

/-- The rows of a batch, once they are in. -/
theorem Agree.pending {s : σ × World B E} (h : Agree e s) (hinv : e.cls.Inv s.1) (hwf : s.2.s.WellFormed)
    {datas : List (CacheData B E)} {ids : List Nat} {w : World B E} (hi : SQLStorage.Inserted s.2.s datas ids w.s) :
    Pending e ids (s.1, w) := by
  refine ⟨hinv, fun id hid => ?_, fun id hid => ?_⟩
  · rw [hi.getIds_live]
    exact List.mem_append_right _ hid
  · rw [← Bool.not_eq_true, ← h.tracked]
    exact fun hlive => (hi.fresh hwf).2 id hid (SQLStorage.mem_ids_of_mem_getIds hlive)

/-- An import that raised did so before the rows were in, and changed nothing,
or after, and left a row of the batch untracked unless there was none. -/
theorem importData_raised (hclear : e.onEvict = World.clear env) {s s' : σ × World B E} (h : Agree e s)
    (hinv : e.cls.Inv s.1) (hwf : s.2.s.WellFormed) {questions : List QuestionArg} {answers : List (AnswerArg B)}
    {embeddingDatas : List E} {sessionIds : List (Option String)} {err : PyError} {k : Nat}
    (hk : k = importPuts env s.2.o.isSome questions answers embeddingDatas sessionIds)
    (hrun : importData env e fuel questions answers embeddingDatas sessionIds s = some (.error err, s')) :
    (callsOf s' ≤ callsOf s + k + 1 ∧ Unchanged s s') ∨
      (callsOf s + k + 1 < callsOf s' ∧ (questions = [] → Unchanged s s') ∧ (questions ≠ [] → Orphaned e s s')) := by
  rcases importData_phases hk hrun with ⟨w, rfl, hsame, hcalls⟩ | ⟨datas, ids, w, hi, hdatas, hv, hcalls, hrest⟩
  · exact .inl ⟨hcalls, rfl, congrArg (SQLStorage.getIds · false) hsame.s, hsame.v⟩
  have hpending := h.pending hinv hwf hi
  have hnew := (hi.fresh hwf).2
  have hlen := hi.length
  have hnil : questions = [] ↔ ids = [] := by
    rw [← List.length_eq_zero_iff, ← List.length_eq_zero_iff, hlen, hdatas]
  rw [ne_eq, hnil]
  refine .inr ?_
  rcases Exec.bind_eq_some hrest with ⟨_, -, hraise⟩ | ⟨_, ⟨_, w₁⟩, hret, hrun⟩
  · -- The vectors are not in.
    obtain ⟨hraise, hindex⟩ := Exec.onSnd_eq_some.mp hraise
    obtain ⟨index, w'⟩ := s'
    cases hindex
    rcases World.call_eq_some hraise with ⟨_, -, hw⟩ | ⟨hok, -⟩
    · have hs : w'.s = w.s := (congrArg World.s hw).trans rfl
      have hv' : w'.v = w.v := (congrArg World.v hw).trans rfl
      have hcalls' : w'.calls = w.calls + 1 := (congrArg World.calls hw).trans rfl
      refine ⟨by simp only [callsOf]; omega, fun hids => ⟨rfl, ?_, hv'.trans hv⟩, fun hne => ?_⟩
      · subst hids
        rw [hs, hi.getIds_live, List.append_nil]
      · exact (hpending.sameRows hs).orphaned hne hnew
    · cases hok
  · -- They are; the index is not.
    obtain ⟨hret, hindex⟩ := Exec.onSnd_eq_some.mp hret
    cases hindex
    rcases World.call_eq_some hret with ⟨_, herr, -⟩ | ⟨-, hw⟩
    · cases herr
    have hs : w₁.s = w.s := (congrArg World.s hw).trans rfl
    have hcalls₁ : w₁.calls = w.calls + 1 := (congrArg World.calls hw).trans rfl
    have hcover : MemoryCacheEviction.costsCover ids (some (datas.map importCost)) = true := by
      simp [MemoryCacheEviction.costsCover, hlen]
    have hkeys := MemoryCacheEviction.keys_putItems (α := α) hcover
    have hle : w₁.calls ≤ s'.2.calls := (put_stops hclear ids _).le _ _ _ hrun
    rw [e.put_covered fuel hcover] at hrun
    obtain ⟨todo, hne, hsub, htodo⟩ := setitems_pending hclear _ (hkeys.symm ▸ (hi.fresh hwf).1)
      (hkeys.symm ▸ hpending.sameRows hs) hrun
    refine ⟨by simp only [callsOf]; omega, fun hids => ?_, fun _ => htodo.orphaned hne fun id hid => ?_⟩
    · subst hids
      cases hrun
    · exact hnew id (hkeys ▸ hsub hid)

/-- **Failed imports.** An import that raises no later than at the insertion of
the rows, or that has none to insert, leaves live rows, vectors and index as
they were. One that raises later leaves a row of its own live and untracked.
And where it is a call of a store that fails, its number says which it is. -/
theorem importData_failed (hclear : e.onEvict = World.clear env) {s s' : σ × World B E} (h : Agree e s)
    (hinv : e.cls.Inv s.1) (hwf : s.2.s.WellFormed) {questions : List QuestionArg} {answers : List (AnswerArg B)}
    {embeddingDatas : List E} {sessionIds : List (Option String)} {err : PyError}
    (hrun : importData env e fuel questions answers embeddingDatas sessionIds s = some (.error err, s')) {k : Nat}
    (hk : k = importPuts env s.2.o.isSome questions answers embeddingDatas sessionIds) :
    (Agree e s' ↔ questions = [] ∨ s'.2.calls ≤ s.2.calls + k + 1) ∧
    (questions = [] ∨ s'.2.calls ≤ s.2.calls + k + 1 → Unchanged s s') ∧
    (questions ≠ [] → s.2.calls + k + 1 < s'.2.calls → Orphaned e s s') ∧
    ((∃ n, s.2.calls ≤ n ∧ n < s'.2.calls ∧ env.fails n = true) →
      (s'.2.calls ≤ s.2.calls + k + 1 ↔ ∃ n, s.2.calls ≤ n ∧ n ≤ s.2.calls + k ∧ env.fails n = true)) := by
  have hstops : Stops callsOf env.fails (importData env e fuel questions answers embeddingDatas sessionIds) :=
    importData_stops hclear questions answers embeddingDatas sessionIds
  have hraised := importData_raised hclear h hinv hwf hk hrun
  simp only [callsOf] at hraised
  have hunchanged : questions = [] ∨ s'.2.calls ≤ s.2.calls + k + 1 → Unchanged s s' := by
    intro hor
    rcases hraised with ⟨-, hsame⟩ | ⟨hlate, hnone, -⟩
    · exact hsame
    · exact hnone (hor.resolve_right (by omega))
  have horphaned : questions ≠ [] → s.2.calls + k + 1 < s'.2.calls → Orphaned e s s' := by
    intro hne hlate
    rcases hraised with ⟨hearly, -⟩ | ⟨-, -, hsome⟩
    · omega
    · exact hsome hne
  refine ⟨⟨fun hagree => ?_, fun hor => h.unchanged (hunchanged hor)⟩, hunchanged, horphaned, ?_⟩
  · by_contra hneither
    obtain ⟨hne, hlate⟩ := not_or.mp hneither
    exact (horphaned hne (by omega)).not_agree hagree
  · intro ⟨n, hle, hlt, hfails⟩
    refine ⟨fun hearly => ⟨n, hle, by omega, hfails⟩, fun ⟨n', hle', hlt', hfails'⟩ => ?_⟩
    by_contra hlate
    have hbefore := hstops.before s _ s' n' hrun hle' (by simp only [callsOf]; omega)
    rw [hfails'] at hbefore
    cases hbefore

/-- Stores one call of which fails. -/
def failingAt (n : Nat) : Env Unit ℚ ℚ where
  norm := abs
  div := (· / ·)
  float32 := id
  download := fun _ => .ok ()
  path := toString
  fails := fun i => decide (i = n)
  reindexes := false

/-- An LRU index of two. -/
abbrev lruOfTwo (env : Env Unit ℚ ℚ) : MemoryCacheEviction (Policy.LRU.State Nat Unit) Nat Unit (World Unit ℚ) :=
  .ofPolicy id .LRU 1 (World.clear env)

def opened (env : Env Unit ℚ ℚ) : Policy.LRU.State Nat Unit × World Unit ℚ :=
  ((lruOfTwo env).cls.new 2 fun _ => 1, World.init false)

theorem opened_agree (env : Env Unit ℚ ℚ) : Agree (lruOfTwo env) (opened env) := by
  have hempty : ∀ id, ((lruOfTwo env).cls.cache (opened env).1).data.contains id = false := by
    intro id
    simp [opened, Cache.new, Dict.contains]
  refine ⟨fun id => ?_, fun id hid => ?_⟩
  · rw [hempty]
    simp [opened, World.init, SQLStorage.empty, SQLStorage.getIds]
  · simp [opened, World.init, SQLStorage.empty, SQLStorage.getIds] at hid

/-- The rows cannot be inserted. -/
theorem importData_failed_insert :
    ∃ err s', importData (failingAt 0) (lruOfTwo (failingAt 0)) 3 [.str "a"] [.str "x"] [1] [none]
      (opened (failingAt 0)) =
        some (.error err, s') ∧ Unchanged (opened (failingAt 0)) s' ∧ Agree (lruOfTwo (failingAt 0)) s' := by
  have heval : (importData (failingAt 0) (lruOfTwo (failingAt 0)) 3 [.str "a"] [.str "x"] [1] [none]
      (opened (failingAt 0))).map (fun r => (r.1.isOk, r.2.2.calls)) = some (false, 1) := by decide +kernel
  rcases hrun : importData (failingAt 0) (lruOfTwo (failingAt 0)) 3 [.str "a"] [.str "x"] [1] [none]
      (opened (failingAt 0)) with _ | ⟨err | _, s'⟩ <;> rw [hrun] at heval
  · cases heval
  · have hcalls : s'.2.calls = 1 := by simpa [Except.isOk, Except.toBool] using heval
    obtain ⟨hagree, hunchanged, -, hwhich⟩ := importData_failed rfl (opened_agree (failingAt 0))
      ((lruOfTwo _).cls.new_inv _ _) SQLStorage.empty_wellFormed hrun rfl
    have hearly := (hwhich ⟨0, Nat.le_refl 0, by omega, rfl⟩).mpr ⟨0, Nat.le_refl 0, Nat.zero_le _, rfl⟩
    exact ⟨err, s', rfl, hunchanged (.inr hearly), hagree.mpr (.inr hearly)⟩
  · cases heval

/-- The vectors cannot be added: the row is live and nothing tracks it. -/
theorem importData_orphans :
    Agree (lruOfTwo (failingAt 1)) (opened (failingAt 1)) ∧
    ∃ err s', importData (failingAt 1) (lruOfTwo (failingAt 1)) 3 [.str "a"] [.str "x"] [1] [none]
      (opened (failingAt 1)) =
        some (.error err, s') ∧ s'.2.calls = 2 ∧ ¬ Agree (lruOfTwo (failingAt 1)) s' := by
  have heval : (importData (failingAt 1) (lruOfTwo (failingAt 1)) 3 [.str "a"] [.str "x"] [1] [none]
      (opened (failingAt 1))).map (fun r => (r.1.isOk, r.2.2.calls, r.2.2.s.getIds false,
        ((lruOfTwo (failingAt 1)).cls.cache r.2.1).data.contains 1)) = some (false, 2, [1], false) := by decide +kernel
  refine ⟨opened_agree _, ?_⟩
  rcases hrun : importData (failingAt 1) (lruOfTwo (failingAt 1)) 3 [.str "a"] [.str "x"] [1] [none]
      (opened (failingAt 1)) with _ | ⟨err | _, s'⟩ <;> rw [hrun] at heval
  · cases heval
  · obtain ⟨-, hcalls, hlive, huntracked⟩ : false = false ∧ s'.2.calls = 2 ∧ s'.2.s.getIds false = [1] ∧
        ((lruOfTwo (failingAt 1)).cls.cache s'.1).data.contains 1 = false := by
      simpa [Except.isOk, Except.toBool] using heval
    refine ⟨err, s', rfl, hcalls, fun hagree => ?_⟩
    have htracked := (hagree.tracked 1).mp (by simp [hlive])
    rw [huntracked] at htracked
    cases htracked
  · cases heval

end SSDataManager

end GptCache
