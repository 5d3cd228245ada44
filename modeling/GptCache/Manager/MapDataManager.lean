/-
`MapDataManager` (gptcache/manager/data_manager.py): every entry in one
`LRUCache`, under its embedding, and a file it is dumped to. The container a
caller may give in place of the `LRUCache` is left out.

A `MapItem` is the tuple the source stores. A set of session names is the list
of its elements; the set belongs to the stored tuple, so `addSession` changes
the entry itself.
-/
import GptCache.Adapter.Adapt
import GptCache.Cachetools.Lru

namespace GptCache

structure MapItem (B E : Type) where
  question : Asked B
  answer : Data B
  embeddingData : E
  sessionIds : List String

/-- The file behind `data_path`: what it was last dumped, `none` when it does not exist. -/
structure DataFile (C : Type) where
  path : String
  permitted : Bool := true
  content : Option C := none

abbrev MapDataManager (B E : Type) := LRUCache E (MapItem B E) × DataFile (LRUCache E (MapItem B E))

namespace MapDataManager

variable {B E : Type} [DecidableEq E]

/-- `__init__`: a new container, unless the file holds one. -/
def init (maxSize : ℚ) (file : DataFile (LRUCache E (MapItem B E))) : Except PyError (MapDataManager B E) :=
  match file.content with
  | none => .ok (.new maxSize, file)
  | some data =>
    if file.permitted then .ok (data, file)
    else .error ⟨.CacheError, "You don't have permission to access this file <" ++ file.path ++ ">."⟩

/-- `question.content` of a `Question`. -/
def questionContent : Asked B → Asked B
  | .plain c => .plain c
  | .question c _ => .plain c

def save (question : Asked B) (answer : Data B) (embeddingData : E) (session : Option (Session B)) :
    Exec PyError (MapDataManager B E) Unit :=
  LRUCache.setitem embeddingData ⟨questionContent question, answer, embeddingData,
    match session with | none => [] | some s => [s.name]⟩

/-- `import_data`: a session id that is `None` or empty makes an empty set. -/
def importData (questions : List (Asked B)) (answers : List (Data B)) (embeddingDatas : List E)
    (sessionIds : List (Option String)) : Exec PyError (MapDataManager B E) Unit :=
  if questions.length ≠ answers.length ∨ questions.length ≠ embeddingDatas.length ∨
      questions.length ≠ sessionIds.length then
    Exec.raise ⟨.ParamError, "Make sure that all parameters have the same length"⟩
  else
    Exec.forEach (fun row : E × Asked B × Data B × Option String =>
        LRUCache.setitem row.1 ⟨row.2.1, row.2.2.1, row.1, (row.2.2.2.filter (· ≠ "")).toList⟩)
      (embeddingDatas.zip (questions.zip (answers.zip sessionIds)))

def search (embeddingData : E) : Exec PyError (MapDataManager B E) (Option (List (MapItem B E))) :=
  Exec.total fun m =>
    let (found, data) := m.1.getitem embeddingData
    (.ok (some found.toList), (data, m.2))

/-- `answer.answer` of an `Answer`. -/
def answerContent : Data B → Data B
  | .answers (.answer a) => a.answer.toData
  | d => d

/-- The answers `CacheData` makes of what was saved. -/
def toAnswers : Data B → Except PyError (List (Answer B))
  | .answers a => .ok a.toAnswers
  | .other _ => .error ⟨.TypeError, ""⟩

def getScalarData (item : MapItem B E) (session : Option (Session B)) :
    Exec PyError (MapDataManager B E) (Option (Entry B E)) :=
  let hit := match session with
    | none => true
    | some s => s.checkHitFunc s.name item.sessionIds [item.question] (answerContent item.answer)
  if hit then do
    let answers ← Exec.ofExcept (toAnswers item.answer)
    pure (some ⟨item.question, answers, none⟩)
  else pure none

/-- `res_data[3].add(session_id)`: the tuple found is the one stored. -/
def addSession (item : MapItem B E) (sessionId : String) : Exec PyError (MapDataManager B E) Unit :=
  Exec.modify fun m =>
    match m.1.base.data.get? item.embeddingData with
    | none => m
    | some stored =>
      let stored := { stored with sessionIds := stored.sessionIds.insert sessionId }
      ({ m.1 with base := { m.1.base with data := m.1.base.data.set item.embeddingData stored } }, m.2)

/-- `self.data[k]`. -/
def getitem (k : E) : Exec PyError (MapDataManager B E) (MapItem B E) :=
  Exec.total fun m =>
    match m.1.getitem k with
    | (none, data) => (.error ⟨.KeyError, ""⟩, (data, m.2))
    | (some item, data) => (.ok item, (data, m.2))

/-- `session_id and session_id in self.data[k][3]`. -/
def inSession (sessionId : Option String) (k : E) : Exec PyError (MapDataManager B E) Bool :=
  match sessionId.filter (· ≠ "") with
  | none => pure false
  | some s => getitem k >>= fun item => pure (decide (s ∈ item.sessionIds))

/-- The `elif` of `list_sessions`. -/
def sessionNames (name : String → E) (k : E) : Exec PyError (MapDataManager B E) (List E) := do
  let item ← getitem k
  if 0 < item.sessionIds.length then getitem k >>= fun item => pure (item.sessionIds.map name)
  else pure []

/-- What `list_sessions` adds to its set for a key: the key, if its entry is in
the session that was asked for, else the names of its entry's sessions. -/
def listEntry (name : String → E) (sessionId : Option String) (k : E) : Exec PyError (MapDataManager B E) (List E) := do
  let found ← inSession sessionId k
  if found then pure [k] else sessionNames name k

/-- `list_sessions`. The set holds keys of the map beside names of sessions,
`name` being such a text as an object; `order` is the order of its elements. -/
def listSessions (name : String → E) (order : List E → List E) (sessionId : Option String) :
    Exec PyError (MapDataManager B E) (List E) := do
  let m ← Exec.read
  let sessionIds ← Exec.collect (listEntry name sessionId) m.1.base.data.keys
  pure (order sessionIds.flatten.dedup)

/-- The body of the loop of `delete_session`. The set belongs to the stored tuple. -/
def removeSession (sessionId : String) (k : E) : Exec PyError (MapDataManager B E) Unit := do
  let item ← getitem k
  if sessionId ∈ item.sessionIds then do
    let left := { item with sessionIds := item.sessionIds.erase sessionId }
    Exec.modify fun m => ({ m.1 with base := { m.1.base with data := m.1.base.data.set k left } }, m.2)
    let item ← getitem k
    if item.sessionIds.length = 0 then Exec.modify fun m => (LRUCache.delitem m.1 k, m.2) else pure ()
  else Exec.raise ⟨.KeyError, "'" ++ sessionId ++ "'"⟩

def deleteSession (name : String → E) (order : List E → List E) (sessionId : String) :
    Exec PyError (MapDataManager B E) Unit := do
  let keys ← listSessions name order (some sessionId)
  Exec.forEach (removeSession sessionId) keys

/-- `flush`: a file that may not be written is logged and left as it is. -/
def flush : Exec PyError (MapDataManager B E) Unit :=
  Exec.modify fun m => if m.2.permitted then (m.1, { m.2 with content := some m.1 }) else m

/-- As the adapter sees it: `hit_cache_callback` and `report_cache` are the
base class's and do nothing, and there is neither an object nor a vector store. -/
def dataManager : DataManager B E (MapItem B E) (Data B) (MapDataManager B E) where
  search e _ _ := search e
  getScalarData item _ session := getScalarData item session
  hitCacheCallback _ := pure ()
  save question answer embeddingData _ session := save question answer embeddingData session
  addSession item sessionId _ := addSession item sessionId
  reportCache _ _ _ _ _ := pure ()
  flush := flush
  o := .error ⟨.AttributeError, "'MapDataManager' object has no attribute 'o'"⟩
  v := .error ⟨.AttributeError, "'MapDataManager' object has no attribute 'v'"⟩

/-! ## The map behind it -/

/-- A text saved under a text, as the map stores it, its answer as `saved` has it. -/
def savedItem (saved : String → Data B) (prompt answer : String) : MapItem B (Content B) :=
  ⟨.plain (.str prompt), saved answer, .str prompt, []⟩

/-- A text saved under a text, as the map stores it. -/
def textItem (prompt answer : String) : MapItem B (Content B) :=
  ⟨.plain (.str prompt), .answers (.str answer), .str prompt, []⟩

theorem getScalarData_savedItem [DecidableEq B] {saved : String → Data B} {a : String}
    (h : toAnswers (saved a) = .ok [⟨.str a, .STR⟩]) (p : String) :
    getScalarData (savedItem saved p a) none = pure (some ⟨.plain (.str p), [⟨.str a, .STR⟩], none⟩) := by
  simp only [getScalarData, savedItem, h, Exec.ofExcept_ok, Exec.pure_bind, if_true]

theorem str_injective {B : Type} : Function.Injective (Content.str : String → Content B) :=
  fun _ _ h => Content.str.inj h

/-- The data manager holds the texts of `m`, each saved under its prompt, and knows which was used last. -/
def HoldsAs [DecidableEq B] (saved : String → Data B) (s : MapDataManager B (Content B))
    (m : LruMap String String) : Prop :=
  LRUCache.Represents Content.str (savedItem saved) s.1 m

/-- The data manager holds the texts of `m`, each under its prompt, and knows which was used last. -/
def Holds [DecidableEq B] (s : MapDataManager B (Content B)) (m : LruMap String String) : Prop :=
  LRUCache.Represents Content.str textItem s.1 m

section

variable {B : Type} [DecidableEq B] {saved : String → Data B} {s : MapDataManager B (Content B)}
  {m : LruMap String String} {X : PyError → MapDataManager B (Content B) → Prop}

theorem holdsAs_new {n : Nat} (h : 0 < n) (file : DataFile (LRUCache (Content B) (MapItem B (Content B)))) :
    HoldsAs saved (.new n, file) (.empty n h) :=
  LRUCache.represents_new h

theorem holds_new {n : Nat} (h : 0 < n) (file : DataFile (LRUCache (Content B) (MapItem B (Content B)))) :
    Holds (.new n, file) (.empty n h) :=
  holdsAs_new h file

theorem search_hit (h : HoldsAs saved s m) {p a : String} (hp : m.entries.get? p = some a) :
    Exec.wp (search (.str p)) (fun found s' => found = some [savedItem saved p a] ∧ HoldsAs saved s' (m.get p).2 ∧
      s'.2 = s.2) X s := by
  obtain ⟨hfound, hrep⟩ := LRUCache.Represents.getitem_hit str_injective h hp
  have hsearch : search (.str p) s = some (.ok (some [savedItem saved p a]), ((s.1.getitem (.str p)).2, s.2)) := by
    simp only [search, Exec.total, hfound, Option.toList]
  rw [Exec.wp_of_ok hsearch]
  exact ⟨rfl, hrep, rfl⟩

theorem search_miss (h : HoldsAs saved s m) {p : String} (hp : m.entries.get? p = none) :
    Exec.wp (search (.str p)) (fun found s' => found = some [] ∧ s' = s) X s := by
  have hfound := LRUCache.Represents.getitem_miss h hp
  have hsearch : search (.str p) s = some (.ok (some []), s) := by
    simp only [search, Exec.total, hfound, Option.toList]
  rw [Exec.wp_of_ok hsearch]
  exact ⟨rfl, rfl⟩

theorem save_text (h : HoldsAs saved s m) (p a : String) :
    Exec.wp (save (.plain (.str p)) (saved a) (.str p) none)
      (fun _ s' => HoldsAs saved s' (m.put p a) ∧ s'.2 = s.2) X s :=
  LRUCache.Represents.setitem str_injective h p a

end

end MapDataManager

end GptCache
