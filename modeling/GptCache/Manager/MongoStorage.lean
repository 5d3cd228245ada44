/-
`MongoStorage` (gptcache/manager/scalar_data/mongo.py): a collection for the
questions and one each for their answers, dependencies and sessions.

An answer holds a text, as in the collection. The ids of questions are counted
up by a `SequenceField`; the other collections' own ids are read by nothing.
What `get_data_by_id` gives for the sessions are their documents, here the
names in them. Time stamps are left out.
-/
import GptCache.Lib.Exec
import GptCache.Manager.Scalar

namespace GptCache

structure MongoQuestion (E : Type) where
  oid : Nat
  question : String
  embeddingData : Option E
  deleted : Int

structure MongoSession where
  questionId : Nat
  sessionId : String
  sessionQuestion : String
  deriving DecidableEq

/-- What the storage uses of mongoengine. -/
structure Mongoengine where
  /-- The attribute `id` of a session document, where it is a number. The field
  `_id` of the model is its `oid`; `id` is the one mongoengine adds itself. -/
  autoId : MongoSession → Option Nat
  /-- What inserting no documents raises, if it does. -/
  emptyInsert : Option PyError

/-- No attribute `id` is set, and no documents can be inserted. -/
def Mongoengine.unset : Mongoengine := ⟨fun _ => none, none⟩

structure MongoStorage (E : Type) where
  counter : Nat
  ques : List (MongoQuestion E)
  answer : List (AnswerRow Empty)
  quesDep : List DepRow
  session : List MongoSession

namespace MongoStorage

variable {E : Type} (me : Mongoengine)

def empty : MongoStorage E := ⟨0, [], [], [], []⟩

/-- `objects.insert(docs)`, where `f` adds them. -/
def insertDocs {α : Type} (docs : List α) (f : MongoStorage E → MongoStorage E) : Exec PyError (MongoStorage E) Unit :=
  match docs, me.emptyInsert with
  | [], some err => Exec.raise err
  | _, _ => Exec.modify f

/-- The dependencies `_insert` inserts, where the question has a list of them. -/
def insertDeps (oid : Nat) (question : QuestionArg) : Exec PyError (MongoStorage E) Unit :=
  match question with
  | .question ⟨_, some deps⟩ =>
    insertDocs me deps fun s =>
      { s with quesDep := s.quesDep ++ deps.map fun dep => ⟨oid, dep.name, dep.data, dep.depType⟩ }
  | _ => pure ()

/-- `_insert`: document after document, so what raises leaves those before it. -/
def insert (data : CacheData Empty E) : Exec PyError (MongoStorage E) Nat :=
  Exec.modify (fun s => { s with
    counter := s.counter + 1
    ques := s.ques ++ [⟨s.counter + 1, data.question.content, data.embeddingData, 0⟩] }) >>= fun _ =>
  Exec.read >>= fun s =>
  let oid := s.counter
  insertDeps me oid data.question >>= fun _ =>
  insertDocs me data.answers (fun s =>
    { s with answer := s.answer ++ data.answers.map fun a => ⟨oid, a.answer, a.answerType⟩ }) >>= fun _ =>
  Exec.modify (fun s =>
    match data.sessionId with
    | none => s
    | some name =>
      if name = "" then s else { s with session := s.session ++ [⟨oid, name, data.question.content⟩] }) >>= fun _ =>
  pure oid

/-- `batch_insert`. -/
def batchInsert : List (CacheData Empty E) → Exec PyError (MongoStorage E) (List Nat)
  | [] => pure []
  | data :: allData => insert me data >>= fun id => batchInsert allData >>= fun ids => pure (id :: ids)

/-- `get_data_by_id`: `objects.get` raises where there is no such document, so
what it returns is never `None`. -/
def getDataById (key : Nat) : Exec PyError (MongoStorage E) (Option (StoredData Empty E)) :=
  Exec.read >>= fun s =>
  match s.ques.find? fun q => decide (q.oid = key) && decide (q.deleted = 0) with
  | none => Exec.raise ⟨.DoesNotExist, "Questions matching query does not exist."⟩
  | some qs =>
    let deps := (s.quesDep.filter fun r => r.questionId = qs.oid).map fun r => ⟨r.depName, r.depData, r.depType⟩
    match qs.embeddingData with
    | none => Exec.raise ⟨.TypeError, "a bytes-like object is required, not 'NoneType'"⟩
    | some embeddingData => pure (some {
        question := if deps = [] then .str qs.question else .question ⟨qs.question, some deps⟩
        answers := (s.answer.filter fun r => r.questionId = qs.oid).map fun r => ⟨r.answer, r.answerType⟩
        embeddingData := embeddingData
        sessionIds := (s.session.filter fun r => r.questionId = qs.oid).map MongoSession.sessionId })

/-- `mark_deleted`. -/
def markDeleted (keys : List Nat) : Exec PyError (MongoStorage E) Unit :=
  Exec.modify fun s => { s with ques := s.ques.map fun q => if q.oid ∈ keys then { q with deleted := -1 } else q }

/-- `clear_deleted_data`. -/
def clearDeletedData : Exec PyError (MongoStorage E) Unit :=
  Exec.modify fun s =>
    let qIds := (s.ques.filter fun q => q.deleted = -1).map MongoQuestion.oid
    { s with
      ques := s.ques.filter fun q => q.deleted ≠ -1
      answer := s.answer.filter fun r => r.questionId ∉ qIds
      quesDep := s.quesDep.filter fun r => r.questionId ∉ qIds
      session := s.session.filter fun r => r.questionId ∉ qIds }

/-- `add_session`. -/
def addSession (questionId : Nat) (sessionId sessionQuestion : String) : Exec PyError (MongoStorage E) Unit :=
  Exec.modify fun s => { s with session := s.session ++ [⟨questionId, sessionId, sessionQuestion⟩] }

/-- `list_sessions`. -/
def listSessions (sessionId : Option String) (key : Option Nat) : Exec PyError (MongoStorage E) (List MongoSession) :=
  Exec.read >>= fun s =>
  pure (s.session.filter fun r =>
    (sessionId.filter (· ≠ "")).all (· = r.sessionId) && (key.filter (· ≠ 0)).all (· = r.questionId))

/-- `delete_session`: its keys are ids of questions, and what is no number is none. -/
def deleteSession (keys : List (Option Nat)) : Exec PyError (MongoStorage E) Unit :=
  Exec.modify fun s => { s with session := s.session.filter fun r => some r.questionId ∉ keys }

end MongoStorage

end GptCache
