/-
The scalar store: the data a cache entry is made of
(gptcache/manager/scalar_data/base.py) and `SQLStorage`
(gptcache/manager/scalar_data/sql_storage.py): inserting, reading,
soft-deleting and clearing rows, and the sessions.

A table is the list of its rows in the order of insertion. The database gives
a new row the id after the largest there is, so the ids ascend along the list
(`Ascending`) and a query without an order answers them so. Time stamps are
left out: nothing here reads them.
-/
import Mathlib.Data.List.Sort
import GptCache.Python

namespace GptCache

inductive DataType where
  | STR
  | IMAGE_BASE64
  | IMAGE_URL
  deriving DecidableEq, Repr

/-- What an answer holds: a text, or something else, such as an image's bytes. -/
inductive Content (B : Type) where
  | str (s : String)
  | other (b : B)
  deriving DecidableEq, Repr

/-- `str(x)`, of an object by `str`. -/
def Content.toStr {B : Type} (str : B → String) : Content B → String
  | .str s => s
  | .other b => str b

structure Answer (B : Type) where
  answer : Content B
  answerType : DataType := .STR
  deriving DecidableEq, Repr

structure QuestionDep where
  name : String
  data : String
  depType : DataType := .STR
  deriving DecidableEq, Repr

structure Question where
  content : String
  deps : Option (List QuestionDep) := none
  deriving DecidableEq, Repr

/-- `Union[str, Question]`. -/
inductive QuestionArg where
  | str (s : String)
  | question (q : Question)
  deriving DecidableEq, Repr

def QuestionArg.content : QuestionArg → String
  | .str s => s
  | .question q => q.content

/-- `data.question.deps`, where there are any. -/
def QuestionArg.deps : QuestionArg → List QuestionDep
  | .str _ => []
  | .question q => q.deps.getD []

/-- An element of a list of answers: an `Answer`, a tuple of an answer and its
type, or a bare answer. -/
inductive AnswerItem (B : Type) where
  | answer (a : Answer B)
  | pair (answer : Content B) (answerType : DataType)
  | plain (c : Content B)
  deriving DecidableEq, Repr

/-- The answers of an entry as callers give them. A tuple is iterated like a list. -/
inductive AnswerArg (B : Type) where
  | str (s : String)
  | answer (a : Answer B)
  | items (xs : List (AnswerItem B))
  deriving DecidableEq, Repr

/-- The `Answer` that `CacheData.__init__` makes of an element. -/
def AnswerItem.toAnswer {B : Type} : AnswerItem B → Answer B
  | .answer a => a
  | .pair c t => ⟨c, t⟩
  | .plain c => ⟨c, .STR⟩

/-- The answers of a `CacheData` made with these. -/
def AnswerArg.toAnswers {B : Type} : AnswerArg B → List (Answer B)
  | .str s => [⟨.str s, .STR⟩]
  | .answer a => [a]
  | .items xs => xs.map AnswerItem.toAnswer

structure CacheData (B E : Type) where
  question : QuestionArg
  answers : List (Answer B)
  embeddingData : Option E
  sessionId : Option String

/-- `CacheData.__init__`. -/
def CacheData.init {B E : Type} (question : QuestionArg) (answers : AnswerArg B) (embeddingData : Option E)
    (sessionId : Option String) : CacheData B E where
  question := question
  answers := answers.toAnswers
  embeddingData := embeddingData
  sessionId := sessionId

/-- The `CacheData` a store makes of what it holds for a key; its session ids are a list. -/
structure StoredData (B E : Type) where
  question : QuestionArg
  answers : List (Answer B)
  embeddingData : E
  sessionIds : List String

/-! ## Tables -/

structure QuestionRow (E : Type) where
  id : Nat
  question : String
  embeddingData : Option E
  deleted : Int := 0

structure AnswerRow (B : Type) where
  questionId : Nat
  answer : Content B
  answerType : DataType

structure DepRow where
  questionId : Nat
  depName : String
  depData : String
  depType : DataType

structure SessionRow where
  id : Nat
  questionId : Nat
  sessionId : String
  sessionQuestion : String

structure SQLStorage (B E : Type) where
  ques : List (QuestionRow E)
  answer : List (AnswerRow B)
  quesDep : List DepRow
  session : List SessionRow

/-- The id a database gives a new row: one more than the largest. -/
def nextId (ids : List Nat) : Nat := ids.foldr max 0 + 1

theorem lt_nextId {ids : List Nat} {i : Nat} (h : i ∈ ids) : i < nextId ids := by
  induction ids with
  | nil => cases h
  | cons j ids ih =>
    simp only [nextId, List.foldr_cons] at ih ⊢
    rcases List.mem_cons.mp h with rfl | h
    · omega
    · have := ih h
      omega

theorem nextId_ascending {ids : List Nat} (h : ids.Pairwise (· < ·)) : (ids ++ [nextId ids]).Pairwise (· < ·) := by
  refine List.pairwise_append.mpr ⟨h, List.pairwise_singleton _ _, fun a ha b hb => ?_⟩
  rw [List.mem_singleton.mp hb]
  exact lt_nextId ha

namespace SQLStorage

variable {B E : Type}

def empty : SQLStorage B E := ⟨[], [], [], []⟩

def ids (s : SQLStorage B E) : List Nat := s.ques.map QuestionRow.id

/-- `_insert`: the new row's id. An answer that is no text is kept as it is here;
whether its column takes it, and what it gives back, is `Env.column`'s. -/
def insert (s : SQLStorage B E) (data : CacheData B E) : Nat × SQLStorage B E :=
  let id := nextId s.ids
  (id, {
    ques := s.ques ++ [⟨id, data.question.content, data.embeddingData, 0⟩]
    quesDep := s.quesDep ++ data.question.deps.map fun dep => ⟨id, dep.name, dep.data, dep.depType⟩
    answer := s.answer ++ data.answers.map fun a => ⟨id, a.answer, a.answerType⟩
    session :=
      match data.sessionId with
      | none => s.session
      | some name =>
        if name = "" then s.session
        else s.session ++ [⟨nextId (s.session.map SessionRow.id), id, name, data.question.content⟩] })

/-- `batch_insert`: one transaction. -/
def batchInsert (s : SQLStorage B E) : List (CacheData B E) → List Nat × SQLStorage B E
  | [] => ([], s)
  | data :: rest =>
    let (id, s) := s.insert data
    let (ids, s) := s.batchInsert rest
    (id :: ids, s)

/-- `get_ids`. -/
def getIds (s : SQLStorage B E) (deleted : Bool) : List Nat :=
  (s.ques.filter fun r => r.deleted = if deleted then -1 else 0).map QuestionRow.id

/-- `mark_deleted`. -/
def markDeleted (s : SQLStorage B E) (keys : List Nat) : SQLStorage B E :=
  { s with ques := s.ques.map fun r => if r.id ∈ keys then { r with deleted := -1 } else r }

/-- `clear_deleted_data`. -/
def clearDeletedData (s : SQLStorage B E) : SQLStorage B E :=
  let qIds := s.getIds true
  { ques := s.ques.filter fun r => r.deleted ≠ -1
    answer := s.answer.filter fun r => r.questionId ∉ qIds
    quesDep := s.quesDep.filter fun r => r.questionId ∉ qIds
    session := s.session.filter fun r => r.questionId ∉ qIds }

/-- The answers stored for a question. -/
def answersOf (s : SQLStorage B E) (id : Nat) : List (Answer B) :=
  (s.answer.filter fun r => r.questionId = id).map fun r => ⟨r.answer, r.answerType⟩

def depsOf (s : SQLStorage B E) (id : Nat) : List QuestionDep :=
  (s.quesDep.filter fun r => r.questionId = id).map fun r => ⟨r.depName, r.depData, r.depType⟩

/-- `get_data_by_id`. -/
def getDataById (s : SQLStorage B E) (key : Nat) : Except PyError (Option (StoredData B E)) :=
  match s.ques.find? fun r => decide (r.id = key) && decide (r.deleted = 0) with
  | none => .ok none
  | some qs =>
    match qs.embeddingData with
    | none => .error ⟨.TypeError, "a bytes-like object is required, not 'NoneType'"⟩
    | some embeddingData => .ok (some {
        question := if s.depsOf qs.id = [] then .str qs.question else .question ⟨qs.question, some (s.depsOf qs.id)⟩
        answers := s.answersOf qs.id
        embeddingData := embeddingData
        sessionIds := (s.session.filter fun r => r.questionId = qs.id).map SessionRow.sessionId })

/-- `add_session`. -/
def addSession (s : SQLStorage B E) (questionId : Nat) (sessionId sessionQuestion : String) : SQLStorage B E :=
  { s with session := s.session ++ [⟨nextId (s.session.map SessionRow.id), questionId, sessionId, sessionQuestion⟩] }

/-- `list_sessions`. -/
def listSessions (s : SQLStorage B E) (sessionId : Option String) (key : Option Nat) : List SessionRow :=
  if sessionId.any (· ≠ "") then s.session.filter fun r => some r.sessionId = sessionId
  else if key.any (· ≠ 0) then s.session.filter fun r => some r.questionId = key
  else s.session

/-- `delete_session`. -/
def deleteSession (s : SQLStorage B E) (keys : List Nat) : SQLStorage B E :=
  { s with session := s.session.filter fun r => r.id ∉ keys }

/-- `count`. -/
def count (s : SQLStorage B E) (state : Int) (isAll : Bool) : Nat :=
  if isAll then s.ques.length else (s.ques.filter fun r => r.deleted = state).length

/-! ## Rows and their ids -/

/-- Ids ascend, every row is live or soft-deleted and no answer is without its question. -/
structure WellFormed (s : SQLStorage B E) : Prop where
  ascending : s.ids.Pairwise (· < ·)
  state : ∀ r ∈ s.ques, r.deleted = 0 ∨ r.deleted = -1
  owned : ∀ r ∈ s.answer, r.questionId ∈ s.ids

theorem empty_wellFormed : (empty : SQLStorage B E).WellFormed :=
  ⟨List.Pairwise.nil, by simp [empty], by simp [empty]⟩

theorem WellFormed.nodup {s : SQLStorage B E} (h : s.WellFormed) : s.ids.Nodup :=
  h.ascending.imp fun hlt => Nat.ne_of_lt hlt

theorem mem_ids_of_mem_getIds {s : SQLStorage B E} {deleted : Bool} {id : Nat} (h : id ∈ s.getIds deleted) :
    id ∈ s.ids :=
  ((List.filter_sublist.map QuestionRow.id).subset h :)

theorem getIds_ascending {s : SQLStorage B E} (h : s.WellFormed) (deleted : Bool) :
    (s.getIds deleted).Pairwise (· < ·) :=
  h.ascending.sublist (List.filter_sublist.map QuestionRow.id)

/-- No id is both live and soft-deleted. -/
theorem WellFormed.live_not_deleted {s : SQLStorage B E} (h : s.WellFormed) {id : Nat}
    (hid : id ∈ s.getIds false) : id ∉ s.getIds true := by
  intro hdel
  obtain ⟨r, hr, rfl⟩ := List.mem_map.mp hid
  obtain ⟨r', hr', heq⟩ := List.mem_map.mp hdel
  simp only [List.mem_filter, decide_eq_true_eq, if_true] at hr hr'
  obtain rfl := List.inj_on_of_nodup_map h.nodup hr'.1 hr.1 heq
  simp [hr'.2] at hr

theorem WellFormed.getIds_live {s : SQLStorage B E} (h : s.WellFormed) :
    s.getIds false = s.ids.filter fun id => id ∉ s.getIds true := by
  simp only [ids, List.filter_map, getIds, Bool.false_eq_true, if_false]
  congr 1
  refine List.filter_congr fun r hr => ?_
  have hmem : r.deleted = 0 → r.id ∈ s.getIds false := fun hd =>
    List.mem_map_of_mem (List.mem_filter.mpr ⟨hr, by simpa using hd⟩)
  have hmem' : r.deleted = -1 → r.id ∈ s.getIds true := fun hd =>
    List.mem_map_of_mem (List.mem_filter.mpr ⟨hr, by simpa using hd⟩)
  rcases h.state r hr with hd | hd
  · have := h.live_not_deleted (hmem hd)
    simpa [hd, getIds] using this
  · have := hmem' hd
    simpa [hd, getIds, and_assoc] using this

/-- Only a live row is read. -/
theorem getDataById_eq_none {s : SQLStorage B E} {key : Nat} (h : key ∉ s.getIds false) :
    s.getDataById key = .ok none := by
  have hnone : s.ques.find? (fun r => decide (r.id = key) && decide (r.deleted = 0)) = none := by
    rw [List.find?_eq_none]
    intro r hr hlive
    obtain ⟨rfl, hlive⟩ : r.id = key ∧ r.deleted = 0 := by simpa using hlive
    exact h (List.mem_map_of_mem (List.mem_filter.mpr ⟨hr, by simpa using hlive⟩))
  unfold getDataById
  rw [hnone]

/-! ## Insertion -/

def newRow (id : Nat) (data : CacheData B E) : QuestionRow E := ⟨id, data.question.content, data.embeddingData, 0⟩

def newAnswers (id : Nat) (data : CacheData B E) : List (AnswerRow B) :=
  data.answers.map fun a => ⟨id, a.answer, a.answerType⟩

theorem insert_wellFormed {s : SQLStorage B E} (h : s.WellFormed) (data : CacheData B E) :
    (s.insert data).2.WellFormed := by
  have hids : (s.insert data).2.ids = s.ids ++ [nextId s.ids] := by simp [ids, insert]
  refine ⟨?_, ?_, ?_⟩
  · rw [hids]
    exact nextId_ascending h.ascending
  · intro r hr
    simp only [insert, List.mem_append, List.mem_singleton] at hr
    rcases hr with hr | rfl
    · exact h.state r hr
    · exact .inl rfl
  · intro r hr
    rw [hids, List.mem_append, List.mem_singleton]
    rcases List.mem_append.mp hr with hr | hr
    · exact .inl (h.owned r hr)
    · obtain ⟨a, -, rfl⟩ := List.mem_map.mp hr
      exact .inr rfl

/-- What a batch adds: one row for each entry, with its answers, under new
ids in ascending order. -/
structure Inserted (s : SQLStorage B E) (datas : List (CacheData B E)) (ids : List Nat) (s' : SQLStorage B E) :
    Prop where
  wellFormed : s.WellFormed → s'.WellFormed
  length : ids.length = datas.length
  ques : s'.ques = s.ques ++ List.zipWith newRow ids datas
  answer : s'.answer = s.answer ++ (List.zipWith newAnswers ids datas).flatten

theorem batchInsert_inserted : ∀ (datas : List (CacheData B E)) (s : SQLStorage B E),
    Inserted s datas (s.batchInsert datas).1 (s.batchInsert datas).2
  | [], s => ⟨id, rfl, by simp [batchInsert], by simp [batchInsert]⟩
  | data :: datas, s => by
    have ih := batchInsert_inserted datas (s.insert data).2
    refine ⟨fun h => ih.wellFormed (insert_wellFormed h data), by simp [batchInsert, ih.length], ?_, ?_⟩
    · simp only [batchInsert, ih.ques, List.zipWith_cons_cons]
      simp [insert, newRow]
    · simp only [batchInsert, ih.answer, List.zipWith_cons_cons]
      simp [insert, newAnswers]

/-- An insertion leaves the sessions that are there. -/
theorem session_batchInsert : ∀ (datas : List (CacheData B E)) (s : SQLStorage B E), s.session ⊆
    (s.batchInsert datas).2.session
  | [], s => List.Subset.refl s.session
  | data :: datas, s => by
    have hinsert : s.session ⊆ (s.insert data).2.session := by
      unfold insert
      dsimp only
      split
      · exact List.Subset.refl s.session
      · split
        · exact List.Subset.refl s.session
        · exact List.subset_append_left _ _
    exact List.Subset.trans hinsert (session_batchInsert datas (s.insert data).2)

theorem zipWith_newRow_id : ∀ {ids : List Nat} {datas : List (CacheData B E)}, ids.length = datas.length →
    (List.zipWith newRow ids datas).map QuestionRow.id = ids
  | [], [], _ => rfl
  | id :: ids, data :: datas, h => by
    simp only [List.zipWith_cons_cons, List.map_cons, zipWith_newRow_id (Nat.succ.inj h), newRow]

theorem zipWith_newRow_deleted {ids : List Nat} {datas : List (CacheData B E)} :
    ∀ r ∈ List.zipWith newRow ids datas, r.deleted = 0 := by
  induction ids generalizing datas with
  | nil => simp
  | cons id ids ih =>
    cases datas with
    | nil => simp
    | cons data datas => simpa [newRow] using ih

namespace Inserted

variable {s s' : SQLStorage B E} {datas : List (CacheData B E)} {new : List Nat} (h : Inserted s datas new s')
include h

theorem ids : s'.ids = s.ids ++ new := by
  simp only [SQLStorage.ids, h.ques, List.map_append, zipWith_newRow_id h.length]

theorem getIds_live : s'.getIds false = s.getIds false ++ new := by
  have hnew : (List.zipWith newRow new datas).filter (fun r => r.deleted = 0) = List.zipWith newRow new datas :=
    List.filter_eq_self.mpr fun r hr => by simp [zipWith_newRow_deleted r hr]
  simp only [getIds, Bool.false_eq_true, if_false, h.ques, List.filter_append, List.map_append, hnew,
    zipWith_newRow_id h.length]

theorem getIds_deleted : s'.getIds true = s.getIds true := by
  have hnew : (List.zipWith newRow new datas).filter (fun r => r.deleted = -1) = [] :=
    List.filter_eq_nil_iff.mpr fun r hr => by simp [zipWith_newRow_deleted r hr]
  simp only [getIds, if_true, h.ques, List.filter_append, hnew, List.append_nil]

/-- The new ids are new. -/
theorem fresh (hs : s.WellFormed) : new.Nodup ∧ ∀ id ∈ new, id ∉ s.ids := by
  have hnodup := (h.wellFormed hs).nodup
  rw [h.ids, List.nodup_append] at hnodup
  exact ⟨hnodup.2.1, fun id hid hold => hnodup.2.2 id hold id hid rfl⟩

end Inserted

/-! ## Deletion -/

@[simp] theorem markDeleted_ids (s : SQLStorage B E) (keys : List Nat) : (s.markDeleted keys).ids = s.ids := by
  simp only [ids, markDeleted, List.map_map]
  exact List.map_congr_left fun r _ => by simp only [Function.comp]; split <;> rfl

theorem markDeleted_wellFormed {s : SQLStorage B E} (h : s.WellFormed) (keys : List Nat) :
    (s.markDeleted keys).WellFormed := by
  refine ⟨by simpa using h.ascending, fun r hr => ?_, fun r hr => by simpa using h.owned r hr⟩
  obtain ⟨r', hr', rfl⟩ := List.mem_map.mp hr
  split
  · exact .inr rfl
  · exact h.state r' hr'

theorem getIds_live_markDeleted (s : SQLStorage B E) (keys : List Nat) :
    (s.markDeleted keys).getIds false = (s.getIds false).filter fun id => id ∉ keys := by
  simp only [getIds, markDeleted, Bool.false_eq_true, if_false]
  induction s.ques with
  | nil => rfl
  | cons r rs ih =>
    by_cases hr : r.id ∈ keys <;> by_cases hd : r.deleted = 0 <;> simp [hr, hd, ih]

theorem clearDeletedData_ques (s : SQLStorage B E) :
    s.clearDeletedData.ques = s.ques.filter fun r => r.deleted ≠ -1 := rfl

@[simp] theorem getIds_live_clearDeletedData (s : SQLStorage B E) :
    s.clearDeletedData.getIds false = s.getIds false := by
  simp only [getIds, clearDeletedData_ques, Bool.false_eq_true, if_false, List.filter_filter]
  congr 1
  refine List.filter_congr fun r _ => ?_
  by_cases hd : r.deleted = 0 <;> simp [hd]

@[simp] theorem getIds_deleted_clearDeletedData (s : SQLStorage B E) : s.clearDeletedData.getIds true = [] := by
  simp [getIds, clearDeletedData_ques, List.filter_filter]

/-- What `clear_deleted_data` leaves of rows that are live or soft-deleted: the live ones. -/
theorem ids_clearDeletedData_of_state {s : SQLStorage B E} (h : ∀ r ∈ s.ques, r.deleted = 0 ∨ r.deleted = -1) :
    s.clearDeletedData.ids = s.getIds false := by
  simp only [ids, clearDeletedData_ques, getIds, Bool.false_eq_true, if_false]
  congr 1
  refine List.filter_congr fun r hr => ?_
  rcases h r hr with hs | hs <;> simp [hs]

theorem ids_clearDeletedData {s : SQLStorage B E} (h : s.WellFormed) : s.clearDeletedData.ids = s.getIds false :=
  ids_clearDeletedData_of_state h.state

theorem clearDeletedData_wellFormed {s : SQLStorage B E} (h : s.WellFormed) : s.clearDeletedData.WellFormed := by
  refine ⟨h.ascending.sublist (List.filter_sublist.map QuestionRow.id),
    fun r hr => h.state r (List.mem_of_mem_filter hr), fun r hr => ?_⟩
  obtain ⟨hr, hkept⟩ := List.mem_filter.mp hr
  rw [ids_clearDeletedData h, h.getIds_live, List.mem_filter]
  exact ⟨h.owned r hr, hkept⟩

theorem questionId_of_mem_newAnswers {id : Nat} {data : CacheData B E} {r : AnswerRow B}
    (hr : r ∈ newAnswers id data) : r.questionId = id := by
  obtain ⟨a, -, rfl⟩ := List.mem_map.mp hr
  rfl

theorem questionId_mem_of_mem_zipWith : ∀ {ids : List Nat} {datas : List (CacheData B E)} {r : AnswerRow B},
    r ∈ (List.zipWith newAnswers ids datas).flatten → r.questionId ∈ ids
  | [], _, _, hr => by simp at hr
  | _ :: _, [], _, hr => by simp at hr
  | id :: ids, data :: datas, r, hr => by
    rw [List.zipWith_cons_cons, List.flatten_cons, List.mem_append] at hr
    rcases hr with hr | hr
    · exact questionId_of_mem_newAnswers hr ▸ List.mem_cons_self
    · exact List.mem_cons_of_mem _ (questionId_mem_of_mem_zipWith hr)

theorem filter_newAnswers : ∀ {ids : List Nat} {datas : List (CacheData B E)} {i : Nat}, ids.Nodup →
    ∀ (hi : i < ids.length) (hi' : i < datas.length),
      (List.zipWith newAnswers ids datas).flatten.filter (fun r => r.questionId = ids[i]) = newAnswers ids[i] datas[i]
  | [], _, _, _, hi, _ => absurd hi (by simp)
  | _ :: _, [], _, _, _, hi' => absurd hi' (by simp)
  | id :: ids, data :: datas, 0, hnodup, _, _ => by
    have hfirst : (newAnswers id data).filter (fun r => r.questionId = id) = newAnswers id data :=
      List.filter_eq_self.mpr fun r hr => by simp [questionId_of_mem_newAnswers hr]
    have hrest : (List.zipWith newAnswers ids datas).flatten.filter (fun r => r.questionId = id) = [] :=
      List.filter_eq_nil_iff.mpr fun r hr => by
        have hne : r.questionId ≠ id := fun heq =>
          (List.nodup_cons.mp hnodup).1 (heq ▸ questionId_mem_of_mem_zipWith hr)
        simpa using hne
    simp [hfirst, hrest]
  | id :: ids, data :: datas, i + 1, hnodup, hi, hi' => by
    have hlt : i < ids.length := Nat.lt_of_succ_lt_succ hi
    have hfirst : (newAnswers id data).filter (fun r => r.questionId = ids[i]) = [] :=
      List.filter_eq_nil_iff.mpr fun r hr => by
        have hne : id ≠ ids[i] := fun heq => (List.nodup_cons.mp hnodup).1 (heq ▸ List.getElem_mem hlt)
        simpa [questionId_of_mem_newAnswers hr] using hne
    have ih := filter_newAnswers (List.nodup_cons.mp hnodup).2 hlt (Nat.lt_of_succ_lt_succ hi')
    simp [hfirst, ih]

/-- A new row's answers are the ones it was inserted with. -/
theorem Inserted.answersOf {s s' : SQLStorage B E} {datas : List (CacheData B E)} {new : List Nat}
    (h : Inserted s datas new s') (hs : s.WellFormed) {i : Nat} (hi : i < new.length) (hi' : i < datas.length) :
    s'.answersOf new[i] = datas[i].answers := by
  obtain ⟨hnodup, hfresh⟩ := h.fresh hs
  have hold : s.answer.filter (fun r => r.questionId = new[i]) = [] :=
    List.filter_eq_nil_iff.mpr fun r hr => by
      simpa using fun heq => hfresh new[i] (List.getElem_mem hi) (heq ▸ hs.owned r hr)
  simp only [SQLStorage.answersOf, h.answer, List.filter_append, hold, List.nil_append,
    filter_newAnswers hnodup hi hi', newAnswers, List.map_map]
  exact List.map_id'' (fun _ => rfl) _

theorem answersOf_clearDeletedData {s : SQLStorage B E} (h : s.WellFormed) {id : Nat} (hid : id ∈ s.getIds false) :
    s.clearDeletedData.answersOf id = s.answersOf id := by
  simp only [answersOf, clearDeletedData, List.filter_filter]
  congr 1
  refine List.filter_congr fun r _ => ?_
  by_cases hr : r.questionId = id
  · simp [hr, h.live_not_deleted hid]
  · simp [hr]

theorem count_deleted (s : SQLStorage B E) : s.count (-1) false = (s.getIds true).length := by
  simp [count, getIds]

theorem count_all (s : SQLStorage B E) (state : Int) : s.count state true = s.ids.length := by
  simp [count, ids]

end SQLStorage

end GptCache
