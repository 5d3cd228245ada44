/-
That a session was served an entry is remembered as long as the entry is live.

An id may be given again once its row is cleared, so an entry is an id and the
number of rows that were imported under it so far (`births`). Whatever is done
to the stores, and whatever calls of them fail, an entry that a session row
names stays so, or is not live any more (`Remembers`); `get_scalar_data` does
not return it to a session that checks for it (`getScalarData_fresh`).
-/
import GptCache.Manager.FailedDelete

namespace GptCache

variable {B E S : Type} {env : Env B E S}

/-- How many rows were imported under an id. -/
def World.births (w : World B E) (id : Nat) : Nat := (w.imported.filter fun d => d.1 = id).length

/-- As long as the entry is live, there is a session row for it. -/
structure Remembers (name : String) (id n : Nat) (w : World B E) : Prop where
  wellFormed : w.s.WellFormed
  born : n ≤ w.births id
  told : w.births id = n → id ∈ w.s.getIds false → ∃ r ∈ w.s.session, r.questionId = id ∧ r.sessionId = name

namespace Remembers

variable {name : String} {id n : Nat}

/-- What adds no rows, makes none live and takes no session rows of live entries away. -/
theorem of_frame {w w' : World B E} (h : Remembers name id n w) (hwf : w'.s.WellFormed) (hi : w'.imported = w.imported)
    (hlive : ∀ id ∈ w'.s.getIds false, id ∈ w.s.getIds false)
    (hsession : ∀ r ∈ w.s.session, r.questionId ∈ w'.s.getIds false → r ∈ w'.s.session) : Remembers name id n w' := by
  have hbirths : w'.births id = w.births id := by rw [World.births, World.births, hi]
  refine ⟨hwf, by rw [hbirths]; exact h.born, fun hn hid => ?_⟩
  obtain ⟨r, hr, hrid, hrname⟩ := h.told (hbirths ▸ hn) (hlive id hid)
  exact ⟨r, hsession r hr (hrid ▸ hid), hrid, hrname⟩

theorem of_same {w w' : World B E} (h : Remembers name id n w) (hs : w'.s = w.s) (hi : w'.imported = w.imported) :
    Remembers name id n w' :=
  h.of_frame (hs ▸ h.wellFormed) hi (fun _ hid => hs ▸ hid) fun _ hr _ => hs ▸ hr

/-! ## The stores -/

theorem call {α : Type} {f : World B E → α × World B E}
    (hf : ∀ w, Remembers name id n w → Remembers name id n (f w).2) :
    Exec.Within (Exec.Carries (Remembers name id n)) (World.call env f) := by
  refine .total fun w h => ?_
  have hcalls : Remembers name id n { w with calls := w.calls + 1 } := h.of_same rfl rfl
  cases env.fails w.calls with
  | true => exact hcalls
  | false => exact hf _ hcalls

theorem read {α : Type} (f : World B E → α) :
    Exec.Within (Exec.Carries (Remembers name id n)) (World.call env fun w => (f w, w)) :=
  call fun _ h => h

theorem clearDeletedData {w : World B E} (h : Remembers name id n w) :
    Remembers name id n { w with s := w.s.clearDeletedData } := by
  refine h.of_frame (SQLStorage.clearDeletedData_wellFormed h.wellFormed) rfl (fun id hid => by simpa using hid)
    fun r hr hid => ?_
  have hlive : r.questionId ∈ w.s.getIds false := by simpa using hid
  exact List.mem_filter.mpr ⟨hr, by simpa using h.wellFormed.live_not_deleted hlive⟩

theorem softEvict (markedKeys : List Nat) :
    Exec.Within (Exec.Carries (Remembers name id n)) (World.softEvict (B := B) (E := E) env markedKeys) := by
  refine call fun w h => h.of_frame (SQLStorage.markDeleted_wellFormed h.wellFormed markedKeys) rfl (fun id hid => ?_)
    fun r hr _ => hr
  rw [SQLStorage.getIds_live_markDeleted] at hid
  exact List.mem_of_mem_filter hid

theorem delete : Exec.Within (Exec.Carries (Remembers name id n)) (World.delete (B := B) (E := E) env) := by
  have hclear : Exec.Within (Exec.Carries (Remembers name id n))
      (World.call env fun w : World B E => ((), { w with s := w.s.clearDeletedData })) :=
        call fun _ h => h.clearDeletedData
  have hrebuild : Exec.Within (Exec.Carries (Remembers name id n)) (World.rebuild (B := B) (E := E) env) := by
    refine hclear.bind fun _ => (read _).bind fun ids => Exec.Within.bind (call fun w h => ?_) fun _ =>
      .modify fun w h => ?_
    · cases env.reindexes with
      | false => exact h
      | true => exact h.of_same rfl rfl
    · exact h.of_same rfl rfl
  refine (read _).bind fun markIds => hclear.bind fun _ => Exec.Within.bind (call fun w h => h.of_same rfl rfl) fun _ =>
    Exec.Within.bind (.modify fun w h => h.of_same rfl rfl) fun _ => Exec.Within.read.bind fun w => ?_
  exact hrebuild.ite (.pure _)

theorem clear (markedKeys : List Nat) :
    Exec.Within (Exec.Carries (Remembers name id n)) (World.clear (B := B) (E := E) env markedKeys) := by
  have hevict : Exec.Within (Exec.Carries (Remembers name id n)) (World.checkEvict (B := B) (E := E) env) :=
    (read _).bind fun _ => (read _).bind fun _ => (Exec.Within.pure _).ite ((Exec.Within.raise _).ite (.pure _))
  refine Exec.Within.bind (.modify fun w h => h.of_same rfl rfl) fun _ => (softEvict markedKeys).bind fun _ =>
    hevict.bind fun _ => delete.ite (.pure _)

/-- A row that comes under its id is another entry. -/
theorem save {datas : List (CacheData B E)} {embeddingDatas : List E} (hlength : datas.length = embeddingDatas.length) :
    Exec.Within (Exec.Carries (Remembers name id n)) ((StoreOp.save datas embeddingDatas).exec env) := by
  refine Exec.Within.bind (call fun w h => ?_) fun ids => call fun w h => h.of_same rfl rfl
  have hi := SQLStorage.batchInsert_inserted datas w.s
  have hids : ((w.s.batchInsert datas).1.zip embeddingDatas).map Prod.fst = (w.s.batchInsert datas).1 :=
    List.map_fst_zip (by rw [hi.length, hlength])
  have hbirths : ({ w with s := (w.s.batchInsert datas).2, imported :=
      (w.s.batchInsert datas).1.zip embeddingDatas ++ w.imported } : World B E).births id =
        (((w.s.batchInsert datas).1.zip embeddingDatas).filter fun d => d.1 = id).length + w.births id := by
    simp only [World.births, List.filter_append, List.length_append]
  refine ⟨hi.wellFormed h.wellFormed, ?_, fun hn hid => ?_⟩
  · dsimp only
    rw [hbirths]
    exact h.born.trans (Nat.le_add_left _ _)
  · dsimp only at hn hid
    rw [hbirths] at hn
    have hborn := h.born
    have hnew : id ∉ (w.s.batchInsert datas).1 := by
      intro hmem
      rw [← hids] at hmem
      obtain ⟨d, hd, hdid⟩ := List.mem_map.mp hmem
      have hfound : d ∈ ((w.s.batchInsert datas).1.zip embeddingDatas).filter fun d => d.1 = id :=
        List.mem_filter.mpr ⟨hd, decide_eq_true hdid⟩
      have hpos := List.length_pos_of_mem hfound
      omega
    rw [hi.getIds_live, List.mem_append] at hid
    obtain ⟨r, hr, hrid, hrname⟩ := h.told (by omega) (hid.resolve_right hnew)
    exact ⟨r, SQLStorage.session_batchInsert datas w.s hr, hrid, hrname⟩

/-- Whatever is told of other entries and sessions. -/
theorem addSession {w : World B E} (h : Remembers name id n w) (id' : Nat) (name' data : String) :
    Remembers name id n { w with s := w.s.addSession id' name' data } := by
  refine ⟨⟨h.wellFormed.ascending, h.wellFormed.state, h.wellFormed.owned⟩, h.born, fun hn hid => ?_⟩
  obtain ⟨r, hr, hrid, hrname⟩ := h.told hn hid
  exact ⟨r, List.mem_append_left _ hr, hrid, hrname⟩

/-- Before it is known of any import, whatever is not live. -/
theorem of_wellFormed {w : World B E} (h : w.s.WellFormed) (name : String) :
    ∃ id, Remembers name id 0 w := by
  refine ⟨nextId w.s.ids, h, Nat.zero_le _, fun _ hid => ?_⟩
  exact absurd (lt_nextId (SQLStorage.mem_ids_of_mem_getIds hid)) (Nat.lt_irrefl _)

/-- An entry the session is told of is remembered. -/
theorem told_of {w : World B E} (h : w.s.WellFormed) (name : String) (id : Nat) (data : String) :
    Remembers name id (w.births id) { w with s := w.s.addSession id name data } :=
  ⟨⟨h.ascending, h.state, h.owned⟩, Nat.le_refl _, fun _ _ => ⟨_, List.mem_append_right _ List.mem_cons_self, rfl, rfl⟩⟩

end Remembers

/-- A live entry that no session row of the name is about. -/
structure Untold (name : String) (id : Nat) (w : World B E) : Prop where
  live : id ∈ w.s.getIds false
  not_told : ∀ r ∈ w.s.session, r.questionId = id → r.sessionId ≠ name

theorem Untold.of_same {name : String} {id : Nat} {w w' : World B E} (h : Untold name id w') (hs : w'.s = w.s) :
    Untold name id w := by
  obtain ⟨hlive, htold⟩ := h
  exact ⟨hs ▸ hlive, hs ▸ htold⟩

/-- What is live and was not told of is another entry than those remembered. -/
theorem Untold.births_ne {name : String} {id n : Nat} {w : World B E} (h : Untold name id w)
    (hr : Remembers name id n w) : w.births id ≠ n := by
  intro hn
  obtain ⟨r, hr, hrid, hrname⟩ := hr.told hn h.live
  exact h.not_told r hr hrid hrname

/-! ## The data manager -/

namespace SSDataManager

variable {name : String} {id n : Nat} {σ α : Type} {e : MemoryCacheEviction σ Nat α (World B E)} {fuel : Nat}

theorem importData_remembers (hclear : e.onEvict = World.clear env) (questions : List QuestionArg)
    (answers : List (AnswerArg B)) (embeddingDatas : List E) (sessionIds : List (Option String)) :
    Exec.Within (InvImage (Exec.Carries (Remembers name id n)) Prod.snd)
      (importData env e fuel questions answers embeddingDatas sessionIds) :=
  importData_within hclear ⟨fun _ _ hsame h => h.of_same hsame.s hsame.imported,
    fun _ _ hlength => Remembers.save hlength, Remembers.clear⟩ _ _ _ _

/-- Reading an entry changes neither its rows nor what was imported. -/
def rowsOf (w : World B E) : SQLStorage B E × List (Nat × E) := (w.s, w.imported)

theorem call_keeps {β : Type} {f : World B E → β × World B E} (hf : ∀ w, rowsOf (f w).2 = rowsOf w) :
    Exec.Keeps rowsOf (World.call env f) := by
  refine Exec.Within.total fun w => ?_
  cases env.fails w.calls with
  | true => rfl
  | false => exact hf _

theorem call_ok {β : Type} {f : World B E → β × World B E} {w w' : World B E} {b : β}
    (h : World.call env f w = some (.ok b, w')) :
    (f { w with calls := w.calls + 1 }).1 = b ∧ (f { w with calls := w.calls + 1 }).2 = w' := by
  rcases World.call_eq_some h with ⟨err, hr, -⟩ | ⟨hr, rfl⟩
  · cases hr
  · cases hr
    exact ⟨rfl, rfl⟩

theorem loadAnswers_keeps : ∀ answers : List (Answer B), Exec.Keeps (rowsOf (E := E)) (loadAnswers env answers)
  | [] => .pure _
  | ans :: answers => by
    have hobject : Exec.Keeps (rowsOf (E := E)) (getObject env ans.answer) := by
      refine Exec.Keeps.read.bind fun w => ?_
      cases w.o with
      | none => exact .raise _
      | some objs => exact call_keeps fun w => by cases ans.answer <;> rfl
    refine Exec.Keeps.bind ?_ fun _ => (loadAnswers_keeps answers).bind fun _ => .pure _
    split
    · exact .pure _
    · exact hobject

theorem getScalarData_keeps (id : Nat) (session : Option (HitCheck B)) :
    Exec.Keeps (rowsOf (E := E)) (getScalarData env id session) := by
  have hcheck : ∀ data : StoredData B E, Exec.Keeps (rowsOf (E := E)) (checkHit env id data session) := by
    intro data
    unfold checkHit
    split
    · exact .pure _
    · split
      · exact .raise _
      · refine Exec.Keeps.bind ?_ fun _ => .pure _
        refine (call_keeps fun w => rfl).bind fun res => ?_
        split
        · exact .raise _
        · exact .pure _
  refine (call_keeps fun w => rfl : Exec.Keeps (rowsOf (E := E)) (storedData env id)).bind fun found =>
    (Exec.Keeps.ofExcept _).bind fun cacheData => ?_
  cases cacheData with
  | none => exact .pure _
  | some data =>
    refine (hcheck data).bind fun hit => ?_
    split
    · exact (loadAnswers_keeps _).bind fun _ => .pure _
    · exact .pure _

theorem listSessionsOf_ok {w w' : World B E} {res : List SessionRow}
    (h : listSessionsOf env id w = some (.ok res, w')) :
    ∀ r ∈ w.s.session, r.questionId = id → r ∈ res := by
  obtain ⟨res', w₁, hres, h⟩ := Exec.bind_ok.mp h
  obtain ⟨rfl, rfl⟩ := call_ok hres
  intro r hr hrid
  split at h
  · exact absurd h Exec.raise_ok
  · rw [← (Exec.pure_ok.mp h).1]
    simp only [SQLStorage.listSessions, Option.any_none, Bool.false_eq_true, if_false]
    split
    · exact List.mem_filter.mpr ⟨hr, decide_eq_true (congrArg some hrid)⟩
    · exact hr

theorem checkHit_ok {w w' : World B E} {data : StoredData B E}
    (h : checkHit env id data (some ⟨name, checkHitSession⟩) w = some (.ok true, w')) :
    ∀ r ∈ w.s.session, r.questionId = id → r.sessionId ≠ name := by
  unfold checkHit at h
  cases hanswers : data.answers with
  | nil =>
    simp only [hanswers] at h
    exact absurd h Exec.raise_ok
  | cons ans answers =>
    simp only [hanswers] at h
    obtain ⟨res, w₁, hlist, h⟩ := Exec.bind_ok.mp h
    have hnot : name ∉ res.map SessionRow.sessionId := by
      simpa [checkHitSession] using (Exec.pure_ok.mp h).1
    intro r hr hrid hname
    exact hnot (hname ▸ List.mem_map_of_mem (listSessionsOf_ok hlist r hr hrid))

/-- What `get_scalar_data` returns to a session that checks for it is live, and not one it was told of. -/
theorem getScalarData_fresh {w w' : World B E} {data : ScalarData B E}
    (h : getScalarData env id (some ⟨name, checkHitSession⟩) w = some (.ok (some data), w')) : Untold name id w := by
  obtain ⟨found, w₁, hfound, h⟩ := Exec.bind_ok.mp h
  obtain ⟨cacheData, w₂, hdata, h⟩ := Exec.bind_ok.mp h
  obtain ⟨hdata, rfl⟩ := Exec.ofExcept_eq_ok.mp hdata
  obtain ⟨rfl, rfl⟩ := call_ok hfound
  cases cacheData with
  | none => cases (Exec.pure_ok.mp h).1
  | some stored =>
    refine ⟨?_, ?_⟩
    · by_contra hlive
      simp only [SQLStorage.getDataById_eq_none hlive] at hdata
      cases hdata
    · obtain ⟨hit, w₃, hcheck, h⟩ := Exec.bind_ok.mp h
      cases hit with
      | false => cases (Exec.pure_ok.mp h).1
      | true =>
        have hnot := checkHit_ok hcheck
        exact hnot

end SSDataManager

end GptCache
