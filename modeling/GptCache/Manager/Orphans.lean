/-
What clearing soft-deleted questions leaves of their answers, dependencies and
sessions, over each of the databases.

SQL, MongoDB and Redis delete the records of just the ids they delete
(`RecordView.Cleared.of_dropped`), once every record belongs to a question,
which every call keeps. DynamoDB's sessions are items of their own that
nothing deletes with the question (`clear_orphans`).
-/
import GptCache.Lib.Ownership
import GptCache.Manager.DynamoPaging
import GptCache.Manager.SoftDelete
import GptCache.Manager.SqlLedger

namespace GptCache

variable {B E : Type}

/-! ## Rows of several tables -/

/-- A row of one of the tables a question is spread over. -/
inductive ScalarRow (Q A S : Type) where
  | question (r : Q)
  | answer (r : A)
  | dep (r : DepRow)
  | session (r : S)

namespace ScalarRow

variable {Q A S : Type}

def owner (id : Q → Nat) (answerOf : A → Nat) (sessionOf : S → Nat) : ScalarRow Q A S → Nat
  | question r => id r
  | answer r => answerOf r
  | dep r => r.questionId
  | session r => sessionOf r

def rows (ques : List Q) (answers : List A) (deps : List DepRow) (sessions : List S) : List (ScalarRow Q A S) :=
  ques.map question ++ answers.map answer ++ deps.map dep ++ sessions.map session

variable {id : Q → Nat} {answerOf : A → Nat} {sessionOf : S → Nat} {ques : List Q} {answers : List A}
  {deps : List DepRow} {sessions : List S}

theorem forall_rows {P : ScalarRow Q A S → Prop} : (∀ r ∈ rows ques answers deps sessions, P r) ↔
    (∀ r ∈ ques, P (question r)) ∧ (∀ r ∈ answers, P (answer r)) ∧ (∀ r ∈ deps, P (dep r)) ∧
    ∀ r ∈ sessions, P (session r) := by
  simp only [rows, List.mem_append, List.mem_map, or_imp, forall_and, forall_exists_index, and_imp,
    forall_apply_eq_imp_iff₂, and_assoc]

theorem session_mem_rows {r : S} (h : r ∈ sessions) : session r ∈ rows ques answers deps sessions :=
  List.mem_append_right _ (List.mem_map_of_mem h)

/-- Dropping rows by their owner drops them from each table. -/
theorem filter_rows (gone : List Nat) :
    (rows ques answers deps sessions).filter (fun r => owner id answerOf sessionOf r ∉ gone) =
      rows (ques.filter fun r => id r ∉ gone) (answers.filter fun r => answerOf r ∉ gone)
        (deps.filter fun r => r.questionId ∉ gone) (sessions.filter fun r => sessionOf r ∉ gone) := by
  simp only [rows, List.filter_append, List.filter_map]
  rfl

end ScalarRow

/-- What has an id that was not dropped. -/
theorem mem_map_filter_not_mem {Q : Type} (id : Q → Nat) (ques : List Q) (gone : List Nat) (k : Nat) :
    k ∈ (ques.filter fun q => id q ∉ gone).map id ↔ k ∈ ques.map id ∧ k ∉ gone := by
  refine ⟨fun hmem => ?_, fun ⟨hmem, hkept⟩ => ?_⟩
  · obtain ⟨q, hq, rfl⟩ := List.mem_map.mp hmem
    obtain ⟨hq, hkept⟩ := List.mem_filter.mp hq
    exact ⟨List.mem_map_of_mem hq, of_decide_eq_true hkept⟩
  · obtain ⟨q, hq, rfl⟩ := List.mem_map.mp hmem
    exact List.mem_map_of_mem (List.mem_filter.mpr ⟨hq, decide_eq_true hkept⟩)

/-! ## SQL -/

namespace SQLStorage

def view (B E : Type) : RecordView (SQLStorage B E) Nat (ScalarRow (QuestionRow E) (AnswerRow B) SessionRow) where
  stored s id := id ∈ s.ids
  marked s id := id ∈ s.getIds true
  records s := ScalarRow.rows s.ques s.answer s.quesDep s.session
  owner := ScalarRow.owner QuestionRow.id AnswerRow.questionId SessionRow.questionId
  listed s r := ∃ sessionId key, ∃ row ∈ s.listSessions sessionId key, r = .session row

theorem listed_mem {s : SQLStorage B E} : ∀ r, (view B E).listed s r → r ∈ (view B E).records s := by
  rintro _ ⟨sessionId, key, row, hrow, rfl⟩
  refine ScalarRow.session_mem_rows ?_
  unfold listSessions at hrow
  split at hrow
  · exact List.mem_of_mem_filter hrow
  · split at hrow
    · exact List.mem_of_mem_filter hrow
    · exact hrow

theorem Run.owned {s : SQLStorage B E} {l : Ledger Nat (CacheData B E)} (h : Run s l) : (view B E).Owned s := by
  have hs := h.holds
  refine ScalarRow.forall_rows.mpr ⟨fun r hr => List.mem_map_of_mem hr, ?_, ?_, ?_⟩
  · intro r hr
    show r.questionId ∈ s.ids
    rw [hs.ids]
    rw [hs.answer] at hr
    exact owner_mem_keys newAnswers_owner hr
  · intro r hr
    show r.questionId ∈ s.ids
    rw [hs.ids]
    rw [hs.quesDep] at hr
    exact owner_mem_keys newDeps_owner hr
  · intro r hr
    show r.questionId ∈ s.ids
    rw [hs.ids]
    exact hs.session r hr

theorem Run.cleared {s : SQLStorage B E} {l : Ledger Nat (CacheData B E)} (h : Run s l) :
    (view B E).Cleared s s.clearDeletedData := by
  have hs := h.holds
  have hques : s.clearDeletedData.ques = s.ques.filter fun r => r.id ∉ s.getIds true := by
    refine List.filter_congr fun r hr => ?_
    rw [hs.ques] at hr
    obtain ⟨e, he, rfl⟩ := List.mem_map.mp hr
    have hmarked := Ledger.mem_markedKeys hs.nodup he
    rw [hs.getIds_true]
    cases hm : e.marked <;> simp [questionRow, hm] at hmarked ⊢ <;> exact hmarked
  refine .of_dropped (s.getIds true) h.owned (fun _ hid => hid) (fun id => ?_) ?_ listed_mem
  · show id ∈ s.clearDeletedData.ids ↔ id ∈ s.ids ∧ _
    rw [hs.clearDeletedData.ids, hs.mem_keys_clear, hs.ids, hs.getIds_true]
  · show ScalarRow.rows s.clearDeletedData.ques _ _ _ = List.filter _ _
    rw [hques]
    exact (ScalarRow.filter_rows _).symm

end SQLStorage

/-! ## MongoDB -/

namespace MongoStorage

def view (E : Type) : RecordView (MongoStorage E) Nat (ScalarRow (MongoQuestion E) (AnswerRow Empty) MongoSession) where
  stored s id := id ∈ s.ques.map MongoQuestion.oid
  marked s id := ∃ q ∈ s.ques, q.oid = id ∧ q.deleted = -1
  records s := ScalarRow.rows s.ques s.answer s.quesDep s.session
  owner := ScalarRow.owner MongoQuestion.oid AnswerRow.questionId MongoSession.questionId
  listed s r := ∃ sessionId key rows s', listSessions sessionId key s = some (.ok rows, s') ∧
    ∃ row ∈ rows, r = .session row

/-- What calls make of an empty storage, also where they raise. -/
inductive Run (me : Mongoengine) : MongoStorage E → Prop
  | empty : Run me empty
  | batchInsert {s : MongoStorage E} (h : Run me s) (allData : List (CacheData Empty E)) :
      Run me ((batchInsert me allData).after s)
  | markDeleted {s : MongoStorage E} (h : Run me s) (keys : List Nat) : Run me ((markDeleted keys).after s)
  | clearDeletedData {s : MongoStorage E} (h : Run me s) : Run me (clearDeletedData.after s)
  | addSession {s : MongoStorage E} (h : Run me s) {id : Nat} (hlive : ∃ q ∈ s.ques, q.oid = id ∧ q.deleted = 0)
      (sessionId sessionQuestion : String) : Run me ((addSession id sessionId sessionQuestion).after s)

/-- Ids are distinct and every document belongs to a question. -/
structure Sound (s : MongoStorage E) : Prop where
  nodup : (s.ques.map MongoQuestion.oid).Nodup
  counted : ∀ q ∈ s.ques, q.oid ≤ s.counter
  answer : ∀ r ∈ s.answer, r.questionId ∈ s.ques.map MongoQuestion.oid
  quesDep : ∀ r ∈ s.quesDep, r.questionId ∈ s.ques.map MongoQuestion.oid
  session : ∀ r ∈ s.session, r.questionId ∈ s.ques.map MongoQuestion.oid

namespace Sound

variable {s : MongoStorage E} (h : Sound s)
include h

theorem owned : (view E).Owned s :=
  ScalarRow.forall_rows.mpr ⟨fun _ hr => List.mem_map_of_mem hr, h.answer, h.quesDep, h.session⟩

/-- A question under the next number. -/
theorem newQuestion (question : String) (embeddingData : Option E) : Sound { s with
    counter := s.counter + 1
    ques := s.ques ++ [⟨s.counter + 1, question, embeddingData, 0⟩] } := by
  have hold : ∀ {id}, id ∈ s.ques.map MongoQuestion.oid →
      id ∈ (s.ques ++ [(⟨s.counter + 1, question, embeddingData, 0⟩ : MongoQuestion E)]).map MongoQuestion.oid := by
    intro id hid
    rw [List.map_append]
    exact List.mem_append_left _ hid
  refine ⟨?_, ?_, fun r hr => hold (h.answer r hr), fun r hr => hold (h.quesDep r hr), fun r hr =>
    hold (h.session r hr)⟩
  · rw [List.map_append]
    refine List.nodup_append.mpr ⟨h.nodup, List.nodup_singleton _, fun id hid id' hid' heq => ?_⟩
    obtain ⟨q, hq, rfl⟩ := List.mem_map.mp hid
    have hle := h.counted q hq
    rw [heq, List.mem_singleton.mp hid'] at hle
    exact Nat.not_succ_le_self _ hle
  · intro q hq
    rcases List.mem_append.mp hq with hq | hq
    · exact (h.counted q hq).trans (Nat.le_succ _)
    · rw [List.mem_singleton.mp hq]

variable {id : Nat} (hid : id ∈ s.ques.map MongoQuestion.oid)
include hid

theorem addAnswers {rows : List (AnswerRow Empty)} (hrows : ∀ r ∈ rows, r.questionId = id) :
    Sound { s with answer := s.answer ++ rows } :=
  ⟨h.nodup, h.counted, fun r hr => (List.mem_append.mp hr).elim (h.answer r) fun hr => hrows r hr ▸ hid,
    h.quesDep, h.session⟩

theorem addDeps {rows : List DepRow} (hrows : ∀ r ∈ rows, r.questionId = id) :
    Sound { s with quesDep := s.quesDep ++ rows } :=
  ⟨h.nodup, h.counted, h.answer, fun r hr => (List.mem_append.mp hr).elim (h.quesDep r) fun hr =>
    hrows r hr ▸ hid, h.session⟩

theorem newSession (sessionId sessionQuestion : String) :
    Sound { s with session := s.session ++ [⟨id, sessionId, sessionQuestion⟩] } := by
  refine ⟨h.nodup, h.counted, h.answer, h.quesDep, fun r hr => ?_⟩
  rcases List.mem_append.mp hr with hr | hr
  · exact h.session r hr
  · rw [List.mem_singleton.mp hr]
    exact hid

end Sound

section
variable (me : Mongoengine) {s : MongoStorage E}

theorem Sound.insert (h : Sound s) (data : CacheData Empty E) :
    Exec.wp (insert me data) (fun _ s' => Sound s') (fun _ s' => Sound s') s := by
  have hques := h.newQuestion data.question.content data.embeddingData
  have hid : s.counter + 1 ∈ (s.ques ++
      [(⟨s.counter + 1, data.question.content, data.embeddingData, 0⟩ : MongoQuestion E)]).map
      MongoQuestion.oid := by
    simp
  have hdeps := hques.addDeps hid (depRows_owner (s.counter + 1) data)
  have hanswers := hdeps.addAnswers hid (answerRows_owner (s.counter + 1) data)
  simp only [MongoStorage.insert, Exec.wp_bind, Exec.wp_modify, Exec.wp_read, Exec.wp_pure]
  refine wp_insertDeps me (wp_insertDocs me ?_ fun _ _ => hdeps) fun _ _ => hques
  cases data.sessionId with
  | none => exact hanswers
  | some name =>
    by_cases hname : name = ""
    · simp only [hname, if_true]
      exact hanswers
    · simp only [hname, if_false]
      exact hanswers.newSession hid name data.question.content

theorem Sound.batchInsert : ∀ (allData : List (CacheData Empty E)) {s : MongoStorage E}, Sound s →
    Exec.wp (batchInsert me allData) (fun _ s' => Sound s') (fun _ s' => Sound s') s
  | [], s, h => h
  | data :: allData, s, h => by
    simp only [MongoStorage.batchInsert, Exec.wp_bind, Exec.wp_pure]
    refine Exec.wp_mono (h.insert me data) (fun id s₁ h₁ => ?_) fun _ _ h₁ => h₁
    exact Exec.wp_mono (batchInsert allData h₁) (fun _ _ h₂ => h₂) fun _ _ h₂ => h₂

theorem Sound.markDeleted (h : Sound s) (keys : List Nat) : Sound ((markDeleted keys).after s) := by
  have hids : (s.ques.map fun q => if q.oid ∈ keys then { q with deleted := -1 } else q).map MongoQuestion.oid =
      s.ques.map MongoQuestion.oid := by
    rw [List.map_map]
    exact List.map_congr_left fun q _ => by simp only [Function.comp]; split <;> rfl
  refine ⟨?_, fun q hq => ?_, ?_, ?_, ?_⟩
  · exact hids ▸ h.nodup
  · obtain ⟨q', hq', rfl⟩ := List.mem_map.mp hq
    split <;> exact h.counted q' hq'
  · exact fun r hr => hids ▸ h.answer r hr
  · exact fun r hr => hids ▸ h.quesDep r hr
  · exact fun r hr => hids ▸ h.session r hr

/-- The documents that are deleted are those of the questions that are. -/
theorem Sound.cleared (h : Sound s) : (view E).Cleared s (clearDeletedData.after s) := by
  have hmarked : ∀ q ∈ s.ques, q.oid ∈ (s.ques.filter fun q => q.deleted = -1).map MongoQuestion.oid ↔
      q.deleted = -1 := by
    intro q hq
    refine ⟨fun hmem => ?_, fun hdeleted => List.mem_map_of_mem (List.mem_filter.mpr ⟨hq, by simpa using hdeleted⟩)⟩
    obtain ⟨q', hq', heq⟩ := List.mem_map.mp hmem
    obtain ⟨hq', hdeleted⟩ := List.mem_filter.mp hq'
    rw [← List.inj_on_of_nodup_map h.nodup hq' hq heq]
    simpa using hdeleted
  have hques : s.ques.filter (fun q => q.deleted ≠ -1) =
      s.ques.filter fun q => q.oid ∉ (s.ques.filter fun q => q.deleted = -1).map MongoQuestion.oid :=
    List.filter_congr fun q hq => decide_eq_decide.mpr (not_congr (hmarked q hq).symm)
  refine .of_dropped ((s.ques.filter fun q => q.deleted = -1).map MongoQuestion.oid) h.owned ?_ (fun id => ?_) ?_ ?_
  · intro id hid
    obtain ⟨q, hq, rfl⟩ := List.mem_map.mp hid
    obtain ⟨hq, hdeleted⟩ := List.mem_filter.mp hq
    exact ⟨q, hq, rfl, by simpa using hdeleted⟩
  · show id ∈ (s.ques.filter fun q => q.deleted ≠ -1).map MongoQuestion.oid ↔ _
    rw [hques]
    exact mem_map_filter_not_mem MongoQuestion.oid s.ques _ id
  · show ScalarRow.rows (s.ques.filter fun q => q.deleted ≠ -1) _ _ _ = List.filter _ _
    rw [hques]
    exact (ScalarRow.filter_rows _).symm
  · rintro _ ⟨sessionId, key, rows, s', hrows, row, hrow, rfl⟩
    cases hrows
    exact ScalarRow.session_mem_rows (List.mem_of_mem_filter hrow)

theorem Sound.clearDeletedData (h : Sound s) : Sound (clearDeletedData.after s) := by
  obtain ⟨-, hanswer, hdep, hsession⟩ := ScalarRow.forall_rows.mp h.cleared.owned
  refine ⟨h.nodup.sublist (List.filter_sublist.map _), fun q hq => h.counted q (List.mem_of_mem_filter hq),
    hanswer, hdep, hsession⟩

theorem Run.sound (h : Run me s) : Sound s := by
  induction h with
  | empty => exact ⟨List.nodup_nil, by
      simp [MongoStorage.empty], by simp [MongoStorage.empty], by simp [MongoStorage.empty],
      by simp [MongoStorage.empty]⟩
  | batchInsert _ allData ih => exact Exec.after_of_wp (ih.batchInsert me allData)
  | markDeleted _ keys ih => exact ih.markDeleted keys
  | clearDeletedData _ ih => exact ih.clearDeletedData
  | addSession _ hlive sessionId sessionQuestion ih =>
    obtain ⟨q, hq, rfl, -⟩ := hlive
    exact ih.newSession (List.mem_map_of_mem hq) sessionId sessionQuestion

end

end MongoStorage

/-! ## Redis -/

namespace RedisCacheStorage

/-- A question's answers and dependencies are in its document. -/
def view (E : Type) : RecordView (RedisCacheStorage E) Nat (ScalarRow (RedisQuestion E) Empty RedisSession) where
  stored s id := id ∈ s.ques.map RedisQuestion.pk
  marked s id := ∃ q ∈ s.ques, q.pk = id ∧ q.deleted = -1
  records s := ScalarRow.rows s.ques [] [] s.session
  owner := ScalarRow.owner RedisQuestion.pk Empty.elim RedisSession.questionId
  listed s r := ∃ om sessionId key rows s', listSessions om sessionId key s = some (.ok rows, s') ∧
    ∃ row ∈ rows, r = .session row

/-- What calls make of an empty storage, also where they raise. -/
inductive Run (om : RedisOm) : RedisCacheStorage E → Prop
  | empty : Run om empty
  | batchInsert {s : RedisCacheStorage E} (h : Run om s) (allData : List (CacheData Empty E)) :
      Run om ((batchInsert allData).after s)
  | markDeleted {s : RedisCacheStorage E} (h : Run om s) (keys : List Nat) : Run om ((markDeleted om keys).after s)
  | clearDeletedData {s : RedisCacheStorage E} (h : Run om s) : Run om ((clearDeletedData om).after s)
  | addSession {s : RedisCacheStorage E} (h : Run om s) {id : Nat} (hlive : ∃ q ∈ s.ques, q.pk = id ∧ q.deleted = 0)
      (sessionId sessionQuestion : String) : Run om ((addSession id sessionId sessionQuestion).after s)

variable (om : RedisOm) {s : RedisCacheStorage E}

/-- Every session belongs to a question. -/
def Sound (s : RedisCacheStorage E) : Prop := ∀ r ∈ s.session, r.questionId ∈ s.ques.map RedisQuestion.pk

theorem Sound.owned (h : Sound s) : (view E).Owned s :=
  ScalarRow.forall_rows.mpr ⟨fun _ hr => List.mem_map_of_mem hr, by simp, by simp, h⟩

theorem listed_mem : ∀ r, (view E).listed s r → r ∈ (view E).records s := by
  rintro _ ⟨om, sessionId, key, rows, s', hrows, row, hrow, rfl⟩
  refine ScalarRow.session_mem_rows ?_
  obtain ⟨hrows, -⟩ := Exec.pure_ok.mp hrows
  subst hrows
  split at hrow
  · exact List.mem_of_mem_filter hrow
  · exact List.mem_of_mem_filter hrow
  · exact hrow

theorem Sound.batchInsert (h : Sound s) (allData : List (CacheData Empty E)) :
    Exec.wp (batchInsert allData) (fun _ s' => Sound s') (fun _ s' => Sound s') s := by
  simp only [RedisCacheStorage.batchInsert, Exec.wp_bind, Exec.wp_modify, Exec.wp_pure]
  refine Exec.wp_mono (inserts_queued allData s) (fun queued s₁ h₁ => ?_) fun _ s' h₁ => ?_
  · obtain ⟨rfl, hqueued⟩ := h₁
    intro r hr
    rw [List.map_append, List.mem_append]
    rcases List.mem_append.mp hr with hr | hr
    · exact .inl (h r hr)
    · -- a queued session is that of the question queued with it
      obtain ⟨q, hq, hsession⟩ := List.mem_filterMap.mp hr
      have hpair : ∀ {items : List (Nat × CacheData Empty E)} {queued : List (RedisQuestion E × Option RedisSession)},
          List.Forall₂ Queued items queued → ∀ q ∈ queued, ∀ r, q.2 = some r → r.questionId = q.1.pk := by
        intro items queued hall
        induction hall with
        | nil => simp
        | @cons item q items queued hfirst _ ih =>
          refine List.forall_mem_cons.mpr ⟨fun r hr => ?_, ih⟩
          obtain ⟨embedding, -, hdoc⟩ := Option.map_eq_some_iff.mp hfirst.1
          have hmem : r ∈ sessionRows item.1 item.2 := by
            rw [hfirst.2, hr]
            exact List.mem_cons_self
          rw [sessionRows_owner _ _ r hmem, ← hdoc]
      rw [hpair hqueued q hq r hsession]
      exact .inr (List.mem_map_of_mem (List.mem_map_of_mem hq))
  · obtain ⟨n, rfl⟩ := h₁
    exact h

theorem Sound.markDeleted (h : Sound s) (keys : List Nat) :
    Exec.wp (markDeleted om keys) (fun _ s' => Sound s') (fun _ s' => Sound s') s := by
  rw [RedisCacheStorage.markDeleted, Exec.wp_bind]
  refine wp_findIn om ?_ fun _ _ => h
  intro r hr
  have hpks : (s.ques.map fun q => if q.pk ∈ keys then { q with deleted := -1 } else q).map RedisQuestion.pk =
      s.ques.map RedisQuestion.pk := by
    rw [List.map_map]
    exact List.map_congr_left fun q _ => by simp only [Function.comp]; split <;> rfl
  show r.questionId ∈ List.map _ _
  rw [hpks]
  exact h r hr

theorem Sound.cleared (h : Sound s) :
    Exec.wp (clearDeletedData om) (fun _ s' => (view E).Cleared s s') (fun _ s' => (view E).Cleared s s') s := by
  simp only [RedisCacheStorage.clearDeletedData, Exec.wp_bind, Exec.wp_read]
  refine wp_findIn om ?_ fun _ _ => .refl h.owned listed_mem
  refine .of_dropped ((s.ques.filter fun q => q.deleted = -1).map RedisQuestion.pk) h.owned ?_
    (fun id => ?_) ?_ listed_mem
  · intro id hid
    obtain ⟨q, hq, rfl⟩ := List.mem_map.mp hid
    obtain ⟨hq, hdeleted⟩ := List.mem_filter.mp hq
    exact ⟨q, hq, rfl, by simpa using hdeleted⟩
  · exact mem_map_filter_not_mem RedisQuestion.pk s.ques _ id
  · have hrows : ∀ gone : List Nat, ((view E).records s).filter (fun r => (view E).owner r ∉ gone) =
        ScalarRow.rows (s.ques.filter fun q => q.pk ∉ gone) [] [] (s.session.filter fun r => r.questionId ∉ gone) :=
      fun gone => ScalarRow.filter_rows gone
    exact (hrows _).symm

theorem Run.sound (h : Run om s) : Sound s := by
  induction h with
  | empty => simp [Sound, RedisCacheStorage.empty]
  | batchInsert _ allData ih => exact Exec.after_of_wp (ih.batchInsert allData)
  | markDeleted _ keys ih => exact Exec.after_of_wp (ih.markDeleted om keys)
  | clearDeletedData _ ih => exact (ScalarRow.forall_rows.mp (Exec.after_of_wp (ih.cleared om)).owned).2.2.2
  | addSession _ hlive sessionId sessionQuestion ih =>
    obtain ⟨q, hq, rfl, -⟩ := hlive
    intro r hr
    rcases List.mem_append.mp hr with hr | hr
    · exact ih r hr
    · rw [List.mem_singleton.mp hr]
      exact List.mem_map_of_mem hq

end RedisCacheStorage

/-! ## DynamoDB -/

namespace DynamoTable

open DynamoStorage (sessionKey)

variable (pages : DynamoPages B E)

/-- A question's answers and dependencies are in its item, which is there under its `pk` alone. -/
def view : RecordView (DynamoTable B E) String (TableItem B E) where
  stored t pk := ∃ i ∈ t.items, i.pk = pk ∧ i.id = pk
  marked t pk := ∃ i ∈ t.items, i.pk = pk ∧ i.id = pk ∧ i.deleted.any (·.startsWith "True_") = true
  records t := t.items
  owner := TableItem.pk
  listed t i := ∃ fuel sessionId key items, sessionItems pages fuel t sessionId key = some items ∧ i ∈ items

/-- No question that `clear_deleted_data` finds has a session. -/
def NoSessionCleared (t : DynamoTable B E) : Prop :=
  ∀ e ∈ deletedValues.flatMap (fun value => first pages t (.byDeleted value)), ∀ i ∈ t.items,
    i.id.startsWith "sessions#" = true → i.pk ≠ e.id

/-- What calls make of an empty table, also where they raise, if clearing found no question with a session. -/
inductive Run : DynamoTable B E → Prop
  | empty : Run empty
  | batchInsert {t : DynamoTable B E} (h : Run t) (suffix : Nat) (entries : List (Nat × TaggedData B E)) :
      Run ((batchInsert suffix entries).after t)
  | markDeleted {t : DynamoTable B E} (h : Run t) (suffix : Nat) (keys : List Nat) : Run (markDeleted suffix t keys)
  | clearDeletedData {t : DynamoTable B E} (h : Run t) (hcond : NoSessionCleared pages t) :
      Run (clearDeletedData pages t)
  | addSession {t : DynamoTable B E} (h : Run t) {id : Nat} (hlive : ∃ i ∈ t.items, i.pk = questionKey id ∧
      i.id = questionKey id ∧ i.deleted.any (·.startsWith "True_") = false) (sessionId sessionQuestion : String) :
      Run (addSession t id sessionId sessionQuestion)

/-- An item of a question, or of one of its sessions. -/
def Shaped (i : TableItem B E) : Prop :=
  (∃ id, i.pk = questionKey id) ∧ (i.id = i.pk ∨ (∃ name, i.id = sessionKey name) ∧ i.deleted = none)

structure Sound (t : DynamoTable B E) : Prop where
  shaped : ∀ i ∈ t.items, Shaped i
  owned : (view pages).Owned t

variable {pages} {t : DynamoTable B E}

theorem forall_putItem {P : TableItem B E → Prop} {item : TableItem B E} (h : ∀ i ∈ t.items, P i) (hitem : P item) :
    ∀ i ∈ (t.putItem item).items, P i := by
  intro i hi
  rcases List.mem_append.mp hi with hi | hi
  · exact h i (List.mem_of_mem_filter hi)
  · rw [List.mem_singleton.mp hi]
    exact hitem

/-- A question's item, new or in the place of another. -/
theorem Sound.putQuestion (h : Sound pages t) (item : TableItem B E) (id : Nat) (hpk : item.pk = questionKey id)
    (hid : item.id = questionKey id) : Sound pages (t.putItem item) := by
  refine ⟨forall_putItem h.shaped ⟨⟨id, hpk⟩, .inl (hid.trans hpk.symm)⟩, fun i hi => ?_⟩
  · have hnew : item ∈ (t.putItem item).items := List.mem_append_right _ (List.mem_singleton.mpr rfl)
    rcases List.mem_append.mp hi with hi | hi
    · obtain ⟨q, hq, hqpk, hqid⟩ := h.owned i (List.mem_of_mem_filter hi)
      by_cases hreplaced : q.pk = item.pk ∧ q.id = item.id
      · exact ⟨item, hnew, hreplaced.1 ▸ hqpk, hreplaced.2 ▸ hqid⟩
      · exact ⟨q, List.mem_append_left _ (List.mem_filter.mpr ⟨hq, decide_eq_true hreplaced⟩), hqpk, hqid⟩
    · rw [List.mem_singleton.mp hi]
      exact ⟨item, hnew, rfl, hid.trans hpk.symm⟩

/-- A session of a question that is there. -/
theorem Sound.putSession (h : Sound pages t) (item : TableItem B E) (id : Nat)
    (hpk : item.pk = questionKey id) {name : String} (hid : item.id = sessionKey name) (hdeleted : item.deleted = none)
    (hstored : (view pages).stored t (questionKey id)) :
    Sound pages (t.putItem item) := by
  -- what is put is in no question's place
  have hkept : ∀ {pk}, (∃ id, pk = questionKey id) → (view pages).stored t pk →
      (view pages).stored (t.putItem item) pk := by
    rintro _ ⟨id', rfl⟩ ⟨q, hq, hqpk, hqid⟩
    refine ⟨q, List.mem_append_left _ (List.mem_filter.mpr ⟨hq, ?_⟩), hqpk, hqid⟩
    have hne : q.id ≠ item.id := by
      rw [hqid, hid]
      exact (sessionKey_ne_questionKey name id').symm
    simp [hne]
  refine ⟨forall_putItem h.shaped ⟨⟨id, hpk⟩, .inr ⟨⟨name, hid⟩, hdeleted⟩⟩, forall_putItem (fun i hi => ?_) ?_⟩
  · exact hkept (h.shaped i hi).1 (h.owned i hi)
  · show (view pages).stored _ item.pk
    rw [hpk]
    exact hkept ⟨id, rfl⟩ hstored

theorem Sound.insert (h : Sound pages t) (suffix id : Nat) (data : TaggedData B E) :
    Exec.wp (insert suffix id data) (fun _ t' => Sound pages t') (fun _ t' => Sound pages t') t := by
  cases hitem : questionItem suffix id data with
  | error err =>
    have hraised : DynamoTable.insert suffix id data t = some (.error err, t) := by
      unfold DynamoTable.insert
      rw [hitem]
      rfl
    exact (Exec.wp_of_error hraised).mpr h
  | ok item =>
    rw [Exec.wp_of_ok (insert_of_tagged (tagged_of_questionItem hitem) t)]
    have hquestion := h.putQuestion (storedItem suffix id data) id rfl rfl
    rcases storedSessions_cases data with hnames | ⟨name, -, hnames⟩
    · rw [itemsOf, hnames]
      exact hquestion
    · rw [itemsOf, hnames]
      exact hquestion.putSession (sessionItem id data name) id rfl rfl rfl
        ⟨_, List.mem_append_right _ (List.mem_singleton.mpr rfl), rfl, rfl⟩

theorem Sound.batchInsert (suffix : Nat) :
    ∀ (entries : List (Nat × TaggedData B E)) {t : DynamoTable B E}, Sound pages t →
    Exec.wp (batchInsert suffix entries) (fun _ t' => Sound pages t') (fun _ t' => Sound pages t') t
  | [], _, h => h
  | (id, data) :: entries, t, h => by
    simp only [DynamoTable.batchInsert, Exec.wp_bind, Exec.wp_pure]
    refine Exec.wp_mono (h.insert suffix id data) (fun _ t₁ h₁ => ?_) fun _ _ h₁ => h₁
    exact Exec.wp_mono (batchInsert suffix entries h₁) (fun _ _ h₂ => h₂) fun _ _ h₂ => h₂

theorem Sound.markDeleted (suffix : Nat) : ∀ (keys : List Nat) {t : DynamoTable B E}, Sound pages t →
    Sound pages (markDeleted suffix t keys)
  | [], _, h => h
  | key :: keys, _, h => markDeleted suffix keys (h.putQuestion _ key rfl rfl)

/-! ### Clearing -/

theorem deletedValues_startsWith : ∀ value ∈ deletedValues, value.startsWith "True_" = true := by
  intro value hvalue
  obtain ⟨n, -, rfl⟩ := List.mem_map.mp hvalue
  exact startsWith_append "True_" (toString n)

variable (pages t) in
/-- The items that `clear_deleted_data` finds. -/
def cleared : List (TableItem B E) := deletedValues.flatMap fun value => first pages t (.byDeleted value)

/-- What is found is soft-deleted, and it is a question. -/
theorem Sound.marked (h : Sound pages t) {e : TableItem B E} (he : e ∈ cleared pages t) :
    e ∈ t.items ∧ e.id = e.pk ∧ e.deleted.any (·.startsWith "True_") = true := by
  obtain ⟨value, hvalue, he⟩ := List.mem_flatMap.mp he
  obtain ⟨hitem, hfinds⟩ := List.mem_filter.mp (first_subset pages t _ he)
  have hdeleted : e.deleted = some value := by simpa [TableRequest.finds] using hfinds
  refine ⟨hitem, ?_, ?_⟩
  · rcases (h.shaped e hitem).2 with hid | ⟨-, hnone⟩
    · exact hid
    · rw [hdeleted] at hnone
      cases hnone
  · rw [hdeleted]
    exact deletedValues_startsWith value hvalue

theorem mem_clearDeletedData {i : TableItem B E} : i ∈ (clearDeletedData pages t).items ↔
    i ∈ t.items ∧ ∀ e ∈ cleared pages t, ¬ (i.pk = e.id ∧ i.id = e.id) := by
  show i ∈ t.items.filter _ ↔ _
  rw [List.mem_filter, decide_eq_true_eq]
  refine and_congr_right fun _ => ⟨fun hnot e he hkey => hnot ?_, fun hall hmem => ?_⟩
  · exact List.mem_map.mpr ⟨e, he, by rw [hkey.1, hkey.2]⟩
  · obtain ⟨e, he, hkey⟩ := List.mem_map.mp hmem
    obtain ⟨hpk, hid⟩ := Prod.mk.inj hkey
    exact hall e he ⟨hpk.symm, hid.symm⟩

theorem Sound.clearDeletedData (h : Sound pages t) (hcond : NoSessionCleared pages t) :
    Sound pages (clearDeletedData pages t) := by
  refine ⟨fun i hi => h.shaped i (mem_clearDeletedData.mp hi).1, fun i hi => ?_⟩
  obtain ⟨hi, hkept⟩ := mem_clearDeletedData.mp hi
  obtain ⟨q, hq, hqpk, hqid⟩ := h.owned i hi
  refine ⟨q, mem_clearDeletedData.mpr ⟨hq, fun e he hkey => ?_⟩, hqpk, hqid⟩
  have hpk : i.pk = e.id := by
    rw [← hkey.1]
    exact hqpk.symm
  rcases (h.shaped i hi).2 with hid | ⟨⟨name, hname⟩, -⟩
  · exact hkept e he ⟨hpk, hid.trans hpk⟩
  · refine hcond e he i hi ?_ hpk
    rw [hname]
    exact startsWith_append "sessions#" name

theorem Run.sound (h : Run pages t) : Sound pages t := by
  induction h with
  | empty => exact ⟨fun i hi => absurd hi List.not_mem_nil, fun i hi => absurd hi List.not_mem_nil⟩
  | batchInsert _ suffix entries ih => exact Exec.after_of_wp (ih.batchInsert suffix entries)
  | markDeleted _ suffix keys ih => exact ih.markDeleted suffix keys
  | clearDeletedData _ hcond ih => exact ih.clearDeletedData hcond
  | addSession _ hlive sessionId sessionQuestion ih =>
    obtain ⟨q, hq, hpk, hid, -⟩ := hlive
    exact ih.putSession _ _ rfl rfl rfl ⟨q, hq, hpk, hid⟩

theorem listed_mem {i : TableItem B E} (h : (view pages).listed t i) : i ∈ t.items := by
  obtain ⟨fuel, sessionId, key, items, hitems, hi⟩ := h
  unfold sessionItems at hitems
  have hfirst : ∀ request, i ∈ first pages t request → i ∈ t.items := fun request hmem =>
    List.mem_of_mem_filter (first_subset pages t request hmem)
  split at hitems
  · cases hitems
    exact hfirst _ hi
  · cases hitems
    exact hfirst _ hi
  · cases hitems
    exact hfirst _ hi
  · obtain ⟨all, hall, rfl⟩ := Option.map_eq_some_iff.mp hitems
    obtain ⟨rest, hrest, hchain⟩ := Page.chain_of_fetchAll hall
    rw [List.nil_append] at hrest
    obtain ⟨ps, hps, hcontent⟩ := pages.complete t .sessions
    rw [hrest, hchain.unique hps, hcontent] at hi
    exact List.mem_of_mem_filter hi

/-- Clearing leaves no orphan just when it found no question with a session. -/
theorem Sound.cleared_iff (h : Sound pages t) :
    (view pages).Cleared t (DynamoTable.clearDeletedData pages t) ↔ NoSessionCleared pages t := by
  constructor
  · intro hcleared e he i hi hsession hpk
    have hquestion : i.id ≠ i.pk := by
      intro hid
      obtain ⟨id, hid'⟩ := (h.shaped i hi).1
      rw [hid, hid', questionKey_not_session] at hsession
      cases hsession
    have hstays : i ∈ (DynamoTable.clearDeletedData pages t).items :=
      mem_clearDeletedData.mpr ⟨hi, fun e' _ hkey => hquestion (hkey.2.trans hkey.1.symm)⟩
    obtain ⟨q, hq, hqpk, hqid⟩ := hcleared.owned i hstays
    exact (mem_clearDeletedData.mp hq).2 e he ⟨hqpk.trans hpk, hqid.trans hpk⟩
  · intro hcond
    have howned := (h.clearDeletedData hcond).owned
    -- only what is marked goes
    have hkept : ∀ {pk}, ¬ (view pages).marked t pk → ∀ i ∈ t.items, i.pk = pk →
        i ∈ (DynamoTable.clearDeletedData pages t).items := by
      intro pk hmarked i hi hpk
      refine mem_clearDeletedData.mpr ⟨hi, fun e he hkey => hmarked ?_⟩
      obtain ⟨hitem, hid, hdeleted⟩ := h.marked he
      exact ⟨e, hitem, by rw [← hid, ← hkey.1, hpk], by rw [← hkey.1, hpk], hdeleted⟩
    refine ⟨howned, fun i hi => howned i (listed_mem hi), fun pk hpk => ?_, fun pk hpk => ?_⟩
    · exact ⟨fun ⟨q, hq, hkey⟩ => ⟨q, (mem_clearDeletedData.mp hq).1, hkey⟩, fun ⟨q, hq, hqpk, hqid⟩ =>
        ⟨q, hkept hpk q hq hqpk, hqpk, hqid⟩⟩
    · show (t.items.filter _).filter _ = t.items.filter _
      rw [List.filter_filter]
      refine List.filter_congr fun i hi => ?_
      by_cases hi' : i.pk = pk
      · have hmem : i ∈ t.items.filter _ := hkept hpk i hi hi'
        rw [(List.mem_filter.mp hmem).2, Bool.and_true]
      · have hne : (view pages).owner i ≠ pk := hi'
        simp [hne]

end DynamoTable

/-- **After every run**, clearing leaves no answer, dependency or session without its question and nothing else of
what was not deleted changed: over SQL, MongoDB and Redis, and over DynamoDB just when no question that it finds
has a session. -/
theorem clear_orphans_iff (me : Mongoengine) (om : RedisOm) (pages : DynamoPages B E) :
    (∀ (s : SQLStorage B E) l, SQLStorage.Run s l → (SQLStorage.view B E).Cleared s s.clearDeletedData) ∧
    (∀ s : MongoStorage E, MongoStorage.Run me s →
      (MongoStorage.view E).Cleared s (MongoStorage.clearDeletedData.after s)) ∧
    (∀ s : RedisCacheStorage E, RedisCacheStorage.Run om s →
      (RedisCacheStorage.view E).Cleared s ((RedisCacheStorage.clearDeletedData om).after s)) ∧
    ∀ t : DynamoTable B E, DynamoTable.Run pages t →
      ((DynamoTable.view pages).Cleared t (DynamoTable.clearDeletedData pages t) ↔
        DynamoTable.NoSessionCleared pages t) :=
  ⟨fun _ _ h => h.cleared, fun _ h => (h.sound me).cleared, fun _ h => Exec.after_of_wp ((h.sound om).cleared om),
    fun _ h => h.sound.cleared_iff⟩

namespace DynamoTable

/-- A question without a session, soft-deleted, and one with a session. -/
def oneDeleted : DynamoTable String Nat :=
  markDeleted 1 ((batchInsert 1 [(5, { shownEntry with sessionId := none }), (6, shownEntry)]).after empty) [5]

theorem oneDeleted_run : Run (.one String Nat) oneDeleted := (Run.empty.batchInsert 1 _).markDeleted 1 [5]

/-- Clearing takes the one, and the other keeps its session. -/
theorem clear_orphans_iff_deleted :
    (view (.one String Nat)).Cleared oneDeleted (clearDeletedData (.one String Nat) oneDeleted) := by
  refine ((clear_orphans_iff .unset .exact (.one String Nat)).2.2.2 oneDeleted oneDeleted_run).mpr ?_
  have heval : (deletedValues.flatMap fun value => first (.one String Nat) oneDeleted (.byDeleted value)).all (fun e =>
      oneDeleted.items.all fun i => decide (i.pk ≠ e.id ∨ ¬ i.id.startsWith "sessions#" = true)) = true := by
        decide +kernel
  intro e he i hi hsession
  have hkept := of_decide_eq_true (List.all_eq_true.mp (List.all_eq_true.mp heval e he) i hi)
  exact hkept.resolve_right (not_not.mpr hsession)

/-- A question with a session, soft-deleted. -/
def deletedWithSession : DynamoTable String Nat := markDeleted 1 ((batchInsert 1 [(5, shownEntry)]).after empty) [5]

theorem deletedWithSession_run : Run (.one String Nat) deletedWithSession :=
    (Run.empty.batchInsert 1 _).markDeleted 1 [5]

/-- Its session stays when it is cleared. -/
theorem session_orphaned : ¬ (view (.one String Nat)).Cleared deletedWithSession
    (clearDeletedData (.one String Nat) deletedWithSession) := by
  rw [deletedWithSession_run.sound.cleared_iff]
  intro h
  have hitems : deletedWithSession.items = [sessionItem 5 shownEntry "s1",
      { pk := questionKey 5, id := questionKey 5, deleted := some (serializeDeletedValue 1 true) }] := by
    rfl
  refine h { pk := questionKey 5, id := questionKey 5, deleted := some "True_1" } ?_ (sessionItem 5 shownEntry "s1") ?_
    (startsWith_append "sessions#" "s1") rfl
  · refine List.mem_flatMap.mpr ⟨"True_1", by decide, List.mem_filter.mpr ⟨?_, rfl⟩⟩
    rw [hitems]
    exact List.mem_cons_of_mem _ List.mem_cons_self
  · rw [hitems]
    exact List.mem_cons_self

end DynamoTable

end GptCache
