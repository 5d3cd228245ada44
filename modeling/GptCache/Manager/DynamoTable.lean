/-
`DynamoStorage` (gptcache/manager/scalar_data/dynamo_storage.py) on all its
table holds.

Questions and sessions are items of one table. An item is found under its `pk`
and `id` and put in the place of one with the same two; which other attributes
it has depends on who put it: `batch_insert`, `add_session` or `mark_deleted`,
which puts an item of nothing but its keys and `deleted`. DynamoDB answers in
pages (`DynamoPages`): scans ask for the next one, queries do not. It answers
items in the order of the table here, and writes in a batch are done at once.
-/
import Mathlib.Algebra.GroupWithZero.Nat
import GptCache.Lib.Exec
import GptCache.Lib.Pages
import GptCache.Manager.DynamoStorage
import GptCache.Manager.Scalar

namespace GptCache

/-! ## What is inserted -/

/-- An `answer_type` or a `dep_type`: a member of `DataType` or its integer.
The two are equal; only a member has a `value`. -/
inductive TypeTag where
  | member (t : DataType)
  | int (t : DataType)
  deriving DecidableEq, Repr

namespace TypeTag

def dataType : TypeTag → DataType
  | member t => t
  | int t => t

/-- `tag.value`. -/
def value : TypeTag → Except PyError DataType
  | member t => .ok t
  | int _ => .error ⟨.AttributeError, "'int' object has no attribute 'value'"⟩

end TypeTag

structure TaggedAnswer (B : Type) where
  answer : Content B
  answerType : TypeTag := .member .STR

structure TaggedDep where
  name : String
  data : String
  depType : TypeTag := .member .STR

/-- A `CacheData` whose types are as the caller wrote them. -/
structure TaggedData (B E : Type) where
  question : String
  /-- `none` for a question that is a text, `some deps` for a `Question` with these deps. -/
  deps : Option (Option (List TaggedDep))
  answers : List (TaggedAnswer B)
  embeddingData : Option E
  sessionId : Option String

namespace TaggedData

variable {B E : Type}

/-- `item.question.deps`, where there are any. -/
def itemDeps (data : TaggedData B E) : List TaggedDep := (data.deps.bind id).getD []

/-- The entry it is to a storage that takes a type for what it equals. -/
def toCacheData (data : TaggedData B E) : CacheData B E where
  question :=
    match data.deps with
    | none => .str data.question
    | some deps => .question ⟨data.question, deps.map (·.map fun dep => ⟨dep.name, dep.data, dep.depType.dataType⟩)⟩
  answers := data.answers.map fun a => ⟨a.answer, a.answerType.dataType⟩
  embeddingData := data.embeddingData
  sessionId := data.sessionId

end TaggedData

/-! ## The table -/

structure TableItem (B E : Type) where
  pk : String
  id : String
  question : Option String := none
  answers : Option (List (Answer B)) := none
  deps : Option (List QuestionDep) := none
  embeddingData : Option E := none
  deleted : Option String := none

structure DynamoTable (B E : Type) where
  items : List (TableItem B E)

/-- What the code asks the table for. -/
inductive TableRequest where
  /-- The sessions of a question: `pk` equals, `id` begins with `sessions#`. -/
  | sessionsOf (pk : String)
  /-- On `gsi_items_by_type`. -/
  | byId (id : String)
  /-- The same, filtered by `pk`. -/
  | byIdOf (id pk : String)
  /-- On `gsi_questions_by_deletion_status`. -/
  | byDeleted (deleted : String)
  /-- The scan of `get_ids`. -/
  | questions (deleted : Bool)
  /-- The scan of `count`, on `gsi_questions_by_deletion_status`. -/
  | counted (state : Int) (isAll : Bool)
  /-- The scan of `list_sessions`. -/
  | sessions
  deriving DecidableEq

/-- `f"{value}_"`. -/
def deletedPrefix (deleted : Bool) : String := if deleted then "True_" else "False_"

/-- An item is on the index of `deleted` if it has the attribute. -/
def TableRequest.finds {B E : Type} (item : TableItem B E) : TableRequest → Bool
  | sessionsOf pk => decide (item.pk = pk) && item.id.startsWith "sessions#"
  | byId id => item.id = id
  | byIdOf id pk => decide (item.id = id) && decide (item.pk = pk)
  | byDeleted deleted => item.deleted = some deleted
  | questions deleted => item.id.startsWith "questions#" && item.deleted.any (·.startsWith (deletedPrefix deleted))
  | counted state isAll => item.deleted.isSome && item.id.startsWith "questions#" &&
      (isAll || item.deleted.any (·.startsWith (deletedPrefix (state ≠ 0))))
  | sessions => item.id.startsWith "sessions#"

/-- `LastEvaluatedKey`, where it is there and not empty. -/
abbrev StartKey := List (String × String)

/-- How DynamoDB splits what a request finds into pages. -/
structure DynamoPages (B E : Type) where
  answer : DynamoTable B E → TableRequest → Option StartKey → Page StartKey (TableItem B E)
  complete : ∀ t request, ∃ pages, Page.Chain (answer t request) none pages ∧
    Page.content pages = t.items.filter fun item => request.finds item

namespace DynamoTable

variable {B E : Type}

def empty : DynamoTable B E := ⟨[]⟩

/-- What a request finds. -/
def found (t : DynamoTable B E) (request : TableRequest) : List (TableItem B E) :=
  t.items.filter fun item => request.finds item

end DynamoTable

/-- A table so small, or a page so large, that a page holds all that is found. -/
def DynamoPages.one (B E : Type) : DynamoPages B E where
  answer t request _ := ⟨t.found request, none⟩
  complete t request := ⟨[⟨t.found request, none⟩], .last rfl, List.append_nil _⟩

namespace DynamoTable

open DynamoStorage (sessionKey)

variable {B E : Type}

/-- `f"questions#{id}"`. -/
def questionKey (id : Nat) : String := DynamoStorage.questionKey (toString id)

/-- `put_item`. -/
def putItem (t : DynamoTable B E) (item : TableItem B E) : DynamoTable B E :=
  ⟨t.items.filter (fun i => ¬ (i.pk = item.pk ∧ i.id = item.id)) ++ [item]⟩

/-- `delete_item` for each of the keys. -/
def deleteItems (t : DynamoTable B E) (keys : List (String × String)) : DynamoTable B E :=
  ⟨t.items.filter fun i => (i.pk, i.id) ∉ keys⟩

/-- `get_item`. -/
def getItem (t : DynamoTable B E) (pk id : String) : Option (TableItem B E) :=
  t.items.find? fun i => i.pk = pk ∧ i.id = id

/-! ## Insertion -/

section
variable (suffix : Nat)

/-- `_serialize_deleted_value`: the suffix is drawn once, when the class is made. -/
def serializeDeletedValue (deleted : Bool) : String := deletedPrefix deleted ++ toString suffix

/-- `_serialize_answer`. -/
def serializeAnswer (answer : TaggedAnswer B) : Except PyError (Answer B) :=
  answer.answerType.value.map fun answerType => ⟨answer.answer, answerType⟩

/-- `_serialize_question_deps`. -/
def serializeQuestionDeps (dep : TaggedDep) : Except PyError QuestionDep :=
  dep.depType.value.map fun depType => ⟨dep.name, dep.data, depType⟩

/-- The item of a question; attributes that are `None` are stripped. -/
def questionItem (id : Nat) (data : TaggedData B E) : Except PyError (TableItem B E) :=
  (data.answers.mapM serializeAnswer).bind fun answers =>
    (data.itemDeps.mapM serializeQuestionDeps).map fun deps => {
      pk := questionKey id
      id := questionKey id
      question := some data.question
      answers := some answers
      deps := some deps
      embeddingData := data.embeddingData
      deleted := some (serializeDeletedValue suffix false) }

/-- What `batch_insert` puts for one entry, under the id it drew. -/
def insert (id : Nat) (data : TaggedData B E) : Exec PyError (DynamoTable B E) Unit :=
  Exec.ofExcept (questionItem suffix id data) >>= fun item =>
    Exec.modify (fun t => t.putItem item) >>= fun _ =>
      match data.sessionId with
      | none => pure ()
      | some name =>
        if name = "" then pure ()
        else Exec.modify fun t =>
          t.putItem { pk := questionKey id, id := sessionKey name, question := some data.question }

/-- `batch_insert`: the entries, each with the id `_generate_id` draws for it. -/
def batchInsert : List (Nat × TaggedData B E) → Exec PyError (DynamoTable B E) (List Nat)
  | [] => pure []
  | (id, data) :: rest => insert suffix id data >>= fun _ => batchInsert rest >>= fun ids => pure (id :: ids)

/-- `mark_deleted`: whatever an item held is replaced. -/
def markDeleted (t : DynamoTable B E) (keys : List Nat) : DynamoTable B E :=
  keys.foldl (fun t key => t.putItem
    { pk := questionKey key, id := questionKey key, deleted := some (serializeDeletedValue suffix true) }) t

end

/-- `add_session`. -/
def addSession (t : DynamoTable B E) (questionId : Nat) (sessionId sessionQuestion : String) : DynamoTable B E :=
  t.putItem { pk := questionKey questionId, id := sessionKey sessionId, question := some sessionQuestion }

/-! ## Reading -/

section
variable (pages : DynamoPages B E)

/-- An attribute of an item. -/
def getAttribute {α : Type} (name : String) : Option α → Except PyError α
  | some a => .ok a
  | none => .error ⟨.KeyError, "'" ++ name ++ "'"⟩

/-- `_response_item_to_cache_data`. -/
def responseItemToCacheData (item : TableItem B E) : Except PyError (StoredData B E) := do
  let question ← getAttribute "question" item.question
  let answers ← getAttribute "answers" item.answers
  let embeddingData ← getAttribute "embedding_data" item.embeddingData
  pure {
    question := .question ⟨question, some (item.deps.getD [])⟩
    answers := answers
    embeddingData := embeddingData
    sessionIds := [] }

/-- `session["id"].split("#")[1]`. -/
def sessionName (item : TableItem B E) : Except PyError String :=
  match (item.id.toList.splitOn '#')[1]? with
  | some name => .ok (String.ofList name)
  | none => .error ⟨.IndexError, "list index out of range"⟩

/-- `get_data_by_id`. -/
def getDataById (t : DynamoTable B E) (key : Nat) : Except PyError (Option (StoredData B E)) := do
  let sessions := (pages.answer t (.sessionsOf (questionKey key)) none).items
  match t.getItem (questionKey key) (questionKey key) with
  | none => pure none
  | some item =>
    let deleted ← getAttribute "deleted" item.deleted
    if deleted.startsWith "True_" then pure none
    else
      let data ← responseItemToCacheData item
      let sessionIds ← sessions.mapM sessionName
      pure (some { data with sessionIds := sessionIds })

/-- `_fetch_all_pages`. -/
def fetchAllPages (fuel : Nat) (t : DynamoTable B E) (request : TableRequest) :
    Option (List (Page StartKey (TableItem B E))) :=
  Page.fetchAll (pages.answer t request) fuel none []

/-- `int(item["pk"].replace("questions#", ""))`. -/
def intId (item : TableItem B E) : Except PyError Int :=
  match (item.pk.replace "questions#" "").toInt? with
  | some id => .ok id
  | none => .error ⟨.ValueError, "invalid literal for int() with base 10: '" ++ item.pk.replace "questions#" "" ++ "'"⟩

/-- `get_ids`. -/
def getIds (fuel : Nat) (t : DynamoTable B E) (deleted : Bool) : Option (Except PyError (List Int)) :=
  (fetchAllPages pages fuel t (.questions deleted)).map fun all => (Page.content all).mapM intId

/-- `count`. -/
def count (fuel : Nat) (t : DynamoTable B E) (state : Int) (isAll : Bool) : Option Nat :=
  (fetchAllPages pages fuel t (.counted state isAll)).map fun all => (all.map fun page => page.items.length).sum

/-- The items `list_sessions` gets: those of one page where a name or a key is given. -/
def sessionItems (fuel : Nat) (t : DynamoTable B E) (sessionId key : Option String) : Option (List (TableItem B E)) :=
  match sessionId.filter (· ≠ ""), key.filter (· ≠ "") with
  | some name, some key => some (pages.answer t (.byIdOf (sessionKey name) (DynamoStorage.questionKey key)) none).items
  | some name, none => some (pages.answer t (.byId (sessionKey name)) none).items
  | none, some key => some (pages.answer t (.sessionsOf (DynamoStorage.questionKey key)) none).items
  | none, none => (fetchAllPages pages fuel t .sessions).map Page.content

/-- `list_sessions`: the items' ids, each once. -/
def listSessions (fuel : Nat) (t : DynamoTable B E) (sessionId key : Option String) : Option (List String) :=
  (sessionItems pages fuel t sessionId key).map fun items => (items.map fun i => i.id.replace "questions#" "").dedup

/-! ## Deletion -/

/-- `max_cardinality_suffix`. -/
def maxCardinalitySuffix : Nat := 10

/-- The values of `deleted` that `clear_deleted_data` asks for. -/
def deletedValues : List String := (List.range' 1 maxCardinalitySuffix).map fun i => "True_" ++ toString i

/-- `clear_deleted_data`; all queries are taken to be answered in time. -/
def clearDeletedData (t : DynamoTable B E) : DynamoTable B E :=
  let softDeleted := deletedValues.flatMap fun deleted => (pages.answer t (.byDeleted deleted) none).items
  t.deleteItems (softDeleted.map fun entry => (entry.id, entry.id))

/-- `delete_session`: its keys are names of sessions, and `reduce` has nothing to start from where there is none. -/
def deleteSession (keys : List String) : Exec PyError (DynamoTable B E) Unit :=
  match keys with
  | [] => Exec.raise ⟨.TypeError, "reduce() of empty iterable with no initial value"⟩
  | _ => Exec.modify fun t =>
    t.deleteItems ((keys.flatMap fun key => (pages.answer t (.byId (sessionKey key)) none).items).map
      fun i => (i.pk, i.id))

end

/-! ## The sessions of the table -/

/-- What the table holds as far as its sessions go. -/
def toStorage (t : DynamoTable B E) : DynamoStorage := ⟨t.items.map fun i => ⟨i.pk, i.id, i.question.getD ""⟩⟩

theorem toStorage_putItem (t : DynamoTable B E) (item : TableItem B E) :
    (t.putItem item).toStorage = t.toStorage.putItem ⟨item.pk, item.id, item.question.getD ""⟩ := by
  simp only [toStorage, putItem, DynamoStorage.putItem, List.map_append, List.filter_map]
  rfl

theorem toStorage_addSession (t : DynamoTable B E) (questionId : Nat) (sessionId sessionQuestion : String) :
    DynamoStorage.addSession (toString questionId) sessionId sessionQuestion t.toStorage =
      some (.ok (), (t.addSession questionId sessionId sessionQuestion).toStorage) := by
  rw [addSession, toStorage_putItem]
  rfl

/-- Deleting sessions, all found on one page. -/
theorem toStorage_deleteSession (keys : List String) (t : DynamoTable B E) :
    DynamoStorage.deleteSession keys t.toStorage =
      (deleteSession (.one B E) keys t).map fun r => (r.1, r.2.toStorage) := by
  cases keys with
  | nil => rfl
  | cons key keys =>
    have hkept : ∀ i ∈ t.items, (i.pk, i.id) ∉ ((key :: keys).flatMap fun key => t.found (.byId (sessionKey key))).map
        (fun i => (i.pk, i.id)) ↔ i.id ∉ (key :: keys).map sessionKey := by
      intro i hi
      refine not_congr ⟨fun hmem => ?_, fun hmem => ?_⟩
      · obtain ⟨j, hj, hkey⟩ := List.mem_map.mp hmem
        obtain ⟨name, hname, hj⟩ := List.mem_flatMap.mp hj
        have hid : j.id = sessionKey name := by simpa [TableRequest.finds] using List.of_mem_filter hj
        obtain ⟨-, hkey⟩ := Prod.mk.inj hkey
        rw [← hkey, hid]
        exact List.mem_map_of_mem hname
      · obtain ⟨name, hname, hid⟩ := List.mem_map.mp hmem
        refine List.mem_map.mpr ⟨i, List.mem_flatMap.mpr ⟨name, hname, List.mem_filter.mpr ⟨hi, ?_⟩⟩, rfl⟩
        simp [TableRequest.finds, hid]
    refine congrArg (fun items => some (Except.ok (ε := PyError) (), (⟨items⟩ : DynamoStorage))) ?_
    show (t.items.map _).filter _ = (t.items.filter _).map _
    rw [List.filter_map]
    exact congrArg (List.map _) (List.filter_congr fun i hi => decide_eq_decide.mpr (hkept i hi).symm)

end DynamoTable

end GptCache
