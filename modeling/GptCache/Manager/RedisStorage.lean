/-
`RedisCacheStorage` (gptcache/manager/scalar_data/redis_storage.py).

A question is a document with its answers and dependencies in it, a session a
document of its own. What an answer holds is a text here, so the entries are
`CacheData Empty E`; `E` are the float32 arrays an embedding is kept as. The
keys of questions are the numbers the counter gave, and a query over them
finds what it names. Time stamps and the time to live, which is none unless
one is asked for, are left out.
-/
import GptCache.Lib.Exec
import GptCache.Manager.Scalar

namespace GptCache

/-- What the storage uses of redis-om. -/
structure RedisOm where
  /-- Whether a query for the first text finds a document whose field holds the second. -/
  matchesTag : String → String → Bool
  /-- What a query for any of no values raises; where it does not raise it finds nothing. -/
  emptyIn : Option PyError

/-- Texts are matched exactly, and a query for any of none finds nothing. -/
def RedisOm.exact : RedisOm := ⟨(· == ·), none⟩

structure RedisQuestion (E : Type) where
  pk : Nat
  question : String
  deleted : Int
  answers : List (Answer Empty)
  deps : List QuestionDep
  embedding : E

structure RedisSession where
  questionId : Nat
  sessionId : String
  sessionQuestion : String
  deriving DecidableEq

structure RedisCacheStorage (E : Type) where
  counter : Nat
  ques : List (RedisQuestion E)
  session : List RedisSession

namespace RedisCacheStorage

variable {E : Type} (om : RedisOm)

def empty : RedisCacheStorage E := ⟨0, [], []⟩

/-- `_insert`: a question and its session, on their way into the pipeline. An
embedding is required of a question, so without one its document is not made. -/
def insert (data : CacheData Empty E) :
    Exec PyError (RedisCacheStorage E) (RedisQuestion E × Option RedisSession) :=
  Exec.modify (fun s => { s with counter := s.counter + 1 }) >>= fun _ =>
  Exec.read >>= fun s =>
  match data.embeddingData with
  | none => Exec.raise ⟨.ValidationError, ""⟩
  | some embedding =>
    pure (⟨s.counter, data.question.content, 0, data.answers, data.question.deps, embedding⟩,
      match data.sessionId with
      | none => none
      | some name => if name = "" then none else some ⟨s.counter, name, data.question.content⟩)

def inserts : List (CacheData Empty E) →
    Exec PyError (RedisCacheStorage E) (List (RedisQuestion E × Option RedisSession))
  | [] => pure []
  | data :: allData => insert data >>= fun queued => inserts allData >>= fun rest => pure (queued :: rest)

/-- `batch_insert`: the pipeline is executed at the end, all at once. -/
def batchInsert (allData : List (CacheData Empty E)) : Exec PyError (RedisCacheStorage E) (List Nat) :=
  inserts allData >>= fun queued =>
  Exec.modify (fun s => { s with
    ques := s.ques ++ queued.map Prod.fst
    session := s.session ++ queued.filterMap Prod.snd }) >>= fun _ =>
  pure (queued.map fun q => q.1.pk)

/-- `get_data_by_id`. -/
def getDataById (key : Nat) : Exec PyError (RedisCacheStorage E) (Option (StoredData Empty E)) :=
  Exec.read >>= fun s =>
  match s.ques.find? fun q => q.pk = key with
  | none => pure none
  | some qs => pure (some {
      question := if qs.deps = [] then .str qs.question else .question ⟨qs.question, some qs.deps⟩
      answers := qs.answers
      embeddingData := qs.embedding
      sessionIds := (s.session.filter fun r => r.questionId = key).map RedisSession.sessionId })

/-- A query `<< values`, as far as it can raise. -/
def findIn (values : List Nat) : Exec PyError (RedisCacheStorage E) Unit :=
  match values, om.emptyIn with
  | [], some err => Exec.raise err
  | _, _ => pure ()

/-- `mark_deleted`. -/
def markDeleted (keys : List Nat) : Exec PyError (RedisCacheStorage E) Unit :=
  findIn om keys >>= fun _ =>
  Exec.modify fun s => { s with ques := s.ques.map fun q => if q.pk ∈ keys then { q with deleted := -1 } else q }

/-- `clear_deleted_data`: both deletions are in one pipeline. -/
def clearDeletedData : Exec PyError (RedisCacheStorage E) Unit :=
  Exec.read >>= fun s =>
  let qIds := (s.ques.filter fun q => q.deleted = -1).map RedisQuestion.pk
  findIn om qIds >>= fun _ =>
  Exec.modify fun s => { s with
    ques := s.ques.filter fun q => q.pk ∉ qIds
    session := s.session.filter fun r => r.questionId ∉ qIds }

/-- `add_session`. -/
def addSession (questionId : Nat) (sessionId sessionQuestion : String) : Exec PyError (RedisCacheStorage E) Unit :=
  Exec.modify fun s => { s with session := s.session ++ [⟨questionId, sessionId, sessionQuestion⟩] }

/-- `list_sessions`. -/
def listSessions (sessionId : Option String) (key : Option Nat) :
    Exec PyError (RedisCacheStorage E) (List RedisSession) :=
  Exec.read >>= fun s =>
  pure (match key.filter (· ≠ 0), sessionId.filter (· ≠ "") with
    | some key, _ => s.session.filter fun r => r.questionId = key
    | none, some name => s.session.filter fun r => om.matchesTag name r.sessionId
    | none, none => s.session)

/-- `delete_session`: its keys are ids of questions. -/
def deleteSession (keys : List Nat) : Exec PyError (RedisCacheStorage E) Unit :=
  findIn om keys >>= fun _ =>
  Exec.modify fun s => { s with session := s.session.filter fun r => r.questionId ∉ keys }

end RedisCacheStorage

end GptCache
