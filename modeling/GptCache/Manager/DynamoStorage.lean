/-
`DynamoStorage` (gptcache/manager/scalar_data/dynamo_storage.py), as far as
its sessions go.

Questions and sessions are items of one table, told apart by their `id`:
`questions#` and a number, or `sessions#` and the session's name. Their `pk` is
that of the question. An item is put in the place of one with the same `pk`
and `id`; what else it holds is its `question` here. A query is taken to find
all there is, on one page.
-/
import Mathlib.Data.List.Dedup
import GptCache.Lib.Exec
import GptCache.Python

namespace GptCache

structure DynamoItem where
  pk : String
  id : String
  question : String
  deriving DecidableEq

structure DynamoStorage where
  items : List DynamoItem

namespace DynamoStorage

def questionKey (id : String) : String := "questions#" ++ id

def sessionKey (name : String) : String := "sessions#" ++ name

/-- `put_item`. -/
def putItem (s : DynamoStorage) (item : DynamoItem) : DynamoStorage :=
  ⟨s.items.filter (fun i => ¬ (i.pk = item.pk ∧ i.id = item.id)) ++ [item]⟩

/-- `add_session`. -/
def addSession (questionId sessionId sessionQuestion : String) : Exec PyError DynamoStorage Unit :=
  Exec.modify fun s => s.putItem ⟨questionKey questionId, sessionKey sessionId, sessionQuestion⟩

/-- The items `list_sessions` asks for. -/
def sessionItems (s : DynamoStorage) (sessionId key : Option String) : List DynamoItem :=
  match sessionId.filter (· ≠ ""), key.filter (· ≠ "") with
  | some name, some key => s.items.filter fun i => i.id = sessionKey name ∧ i.pk = questionKey key
  | some name, none => s.items.filter fun i => i.id = sessionKey name
  | none, some key => s.items.filter fun i => i.pk = questionKey key ∧ i.id.startsWith "sessions#"
  | none, none => s.items.filter fun i => i.id.startsWith "sessions#"

/-- `list_sessions`: the items' ids, each once. -/
def listSessions (sessionId key : Option String) : Exec PyError DynamoStorage (List String) :=
  Exec.read >>= fun s => pure ((s.sessionItems sessionId key).map fun i => i.id.replace "questions#" "").dedup

/-- `delete_session`: its keys are names of sessions, and `reduce` has nothing to start from where there is none. -/
def deleteSession (keys : List String) : Exec PyError DynamoStorage Unit :=
  match keys with
  | [] => Exec.raise ⟨.TypeError, "reduce() of empty iterable with no initial value"⟩
  | _ => Exec.modify fun s => ⟨s.items.filter fun i => i.id ∉ keys.map sessionKey⟩

end DynamoStorage

end GptCache
