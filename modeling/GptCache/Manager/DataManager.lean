/-
`SSDataManager` (gptcache/manager/data_manager.py) with the in-memory
eviction index it makes when it is given none.

Its methods run on the index's state and the stores. `_clear` is the index's
`on_evict`, so an insertion that overflows deletes rows and vectors while the
rows after it are in the stores and not in the index yet.
-/
import GptCache.Eviction.Manager
import GptCache.Manager.Stores

namespace GptCache

variable {B E S : Type}

/-- `len` of a text; anything else counts nothing. -/
def Content.cost : Content B → Nat
  | .str s => s.length
  | .other _ => 0

/-- What `_answer_cost` adds for an element of a list: a tuple is no text. -/
def AnswerItem.cost : AnswerItem B → Nat
  | .answer a => a.answer.cost
  | .pair _ _ => 0
  | .plain c => c.cost

/-- `_answer_cost`. -/
def answerCost : AnswerArg B → ℚ
  | .str s => (max s.length 1 : Nat)
  | .answer a => (max a.answer.cost 1 : Nat)
  | .items xs => (max (xs.map AnswerItem.cost).sum 1 : Nat)

/-- `normalize`. -/
def normalize (env : Env B E S) (vec : E) : E := env.div vec (env.norm vec)

namespace SSDataManager

variable (env : Env B E S)

/-- `self.o.put`. -/
def putObject (obj : Content B) : Exec PyError (World B E) String :=
  Exec.read >>= fun w =>
  match w.o with
  | none => Exec.raise ⟨.AttributeError, "'NoneType' object has no attribute 'put'"⟩
  | some objs =>
    World.call env fun w =>
      let path := env.path objs.length
      (path, { w with o := some (objs ++ [(path, obj)]) })

/-- The loop of `_process_answer_data`. -/
def processAnswers : List (AnswerItem B) → Exec PyError (World B E) (List (AnswerItem B))
  | [] => pure []
  | .answer ans :: answers =>
    (if ans.answerType = .STR then pure ans
      else putObject env ans.answer >>= fun path => pure ⟨.str path, ans.answerType⟩) >>= fun ans =>
    processAnswers answers >>= fun newAns => pure (.answer ans :: newAns)
  | .pair _ _ :: _ => Exec.raise ⟨.AttributeError, "'tuple' object has no attribute 'answer_type'"⟩
  | .plain (.str _) :: _ => Exec.raise ⟨.AttributeError, "'str' object has no attribute 'answer_type'"⟩
  | .plain (.other _) :: _ => Exec.raise ⟨.AttributeError, ""⟩

/-- `_process_answer_data`; `import_data` does not call it on a string. -/
def processAnswerData : AnswerArg B → Exec PyError (World B E) (AnswerArg B)
  | .str s => processAnswers env (s.toList.map fun c => .plain (.str (String.singleton c))) >>=
      fun xs => pure (.items xs)
  | .answer a => processAnswers env [.answer a] >>= fun xs => pure (.items xs)
  | .items xs => processAnswers env xs >>= fun xs => pure (.items xs)

/-- `self.o.put(requests.get(dep.data).content)` for the images among the
dependencies. The path goes to an attribute of the dependency's type, which
nothing reads. -/
def storeDeps : List QuestionDep → Exec PyError (World B E) Unit :=
  Exec.forEach fun dep =>
    if dep.depType = .IMAGE_URL then
      Exec.read >>= fun w =>
      if w.o.isNone then Exec.raise ⟨.AttributeError, "'NoneType' object has no attribute 'put'"⟩
      else
        match env.download dep.data with
        | .error err => Exec.raise err
        | .ok content => putObject env (.other content) >>= fun _ => pure ()
    else pure ()

/-- `_process_question_data`. -/
def processQuestionData : QuestionArg → Exec PyError (World B E) Question
  | .str s => pure ⟨s, none⟩
  | .question q =>
    match q.deps with
    | none => pure q
    | some deps => storeDeps env deps >>= fun _ => pure q

/-- A question, its answers, its normalized embedding and its session. -/
abbrev Entry (B E : Type) : Type := QuestionArg × AnswerArg B × E × Option String

/-- The `CacheData` `import_data` makes of an entry. -/
def cacheData : Entry B E → Exec PyError (World B E) (CacheData B E)
  | (question, answers, embeddingData, sessionId) =>
    Exec.read >>= fun w =>
    (match w.o, answers with
      | none, answers => pure answers
      | some _, .str s => pure (.str s)
      | some _, answers => processAnswerData env answers) >>= fun ans =>
    processQuestionData env question >>= fun q =>
    pure (.init (.question q) ans (some (env.float32 embeddingData)) sessionId)

def cacheDatas : List (Entry B E) → Exec PyError (World B E) (List (CacheData B E))
  | [] => pure []
  | entry :: entries =>
    cacheData env entry >>= fun data => cacheDatas entries >>= fun datas => pure (data :: datas)

/-- The `CacheData`s of the entries, where the answer column takes their
answers. Else the insertion raises: the exception is that of `batch_insert`,
which is one transaction and leaves no row. -/
def insertable (entries : List (Entry B E)) : Exec PyError (World B E) (List (CacheData B E)) :=
  cacheDatas env entries >>= fun datas =>
  if datas.all fun data => data.answers.all fun ans => (env.kept ans.answer).isSome then pure datas
  else Exec.raise ⟨.StorageError, ""⟩

/-- The cost `import_data` gives the index for an entry. -/
def importCost (data : CacheData B E) : ℚ := answerCost (.items (data.answers.map .answer))

variable {σ α : Type} (e : MemoryCacheEviction σ Nat α (World B E))

/-- `import_data`. -/
def importData (fuel : Nat) (questions : List QuestionArg) (answers : List (AnswerArg B)) (embeddingDatas : List E)
    (sessionIds : List (Option String)) : Exec PyError (σ × World B E) Unit :=
  if questions.length ≠ answers.length ∨ questions.length ≠ embeddingDatas.length ∨
      questions.length ≠ sessionIds.length then
    Exec.raise ⟨.ParamError, "Make sure that all parameters have the same length"⟩
  else
    let normalized := embeddingDatas.map (normalize env)
    Exec.onSnd (insertable env (questions.zip (answers.zip (normalized.zip sessionIds)))) >>= fun datas =>
    Exec.onSnd (World.call env fun w =>
      let (ids, s) := w.s.batchInsert datas
      (ids, { w with s := s, imported := ids.zip embeddingDatas ++ w.imported })) >>= fun ids =>
    Exec.onSnd (World.call env fun w => ((), { w with v := w.v ++ ids.zip normalized })) >>= fun _ =>
    e.put fuel ids (some (datas.map importCost))

/-- `save`. -/
def save (fuel : Nat) (question : QuestionArg) (answer : AnswerArg B) (embeddingData : E) (session : Option String) :
    Exec PyError (σ × World B E) Unit :=
  importData env e fuel [question] [answer] [embeddingData] [session]

/-! ## Reading -/

/-- `self.o.get`: what is kept at a path, where there is something. -/
def getObject (path : Content B) : Exec PyError (World B E) (Option (Content B)) :=
  Exec.read >>= fun w =>
  match w.o with
  | none => Exec.raise ⟨.AttributeError, "'NoneType' object has no attribute 'get'"⟩
  | some objs =>
    World.call env fun w =>
      match path with
      | .str p => (objs.lookup p, w)
      | .other _ => (none, w)

/-- The answers of an entry, the objects among them loaded. -/
def loadAnswers : List (Answer B) → Exec PyError (World B E) (List (Option (Content B) × DataType))
  | [] => pure []
  | ans :: answers =>
    (if ans.answerType = .STR then pure (some ans.answer) else getObject env ans.answer) >>= fun answer =>
    loadAnswers answers >>= fun loaded => pure ((answer, ans.answerType) :: loaded)

/-- `list_sessions(key=id)`. The key 0 is none, and the names it answers then have no `session_id`. -/
def listSessionsOf (id : Nat) : Exec PyError (World B E) (List SessionRow) :=
  World.call env (fun w => (w.s.listSessions none (some id), w)) >>= fun res =>
  if id = 0 ∧ res ≠ [] then Exec.raise ⟨.AttributeError, "'str' object has no attribute 'session_id'"⟩
  else pure res

/-- A session as `get_scalar_data` uses it. -/
structure HitCheck (B : Type) where
  name : String
  checkHitFunc : String → List String → List String → Content B → Bool

/-- `check_hit_session` (gptcache/processor/check_hit.py). -/
def checkHitSession (curSessionId : String) (cacheSessionIds _cacheQuestions : List String) (_cacheAnswer : Content B) :
    Bool :=
  decide (curSessionId ∉ cacheSessionIds)

/-- Whether the session lets an entry through. -/
def checkHit (id : Nat) (data : StoredData B E) : Option (HitCheck B) → Exec PyError (World B E) Bool
  | none => pure true
  | some session =>
    match data.answers with
    | [] => Exec.raise ⟨.IndexError, "list index out of range"⟩
    | ans :: _ =>
      listSessionsOf env id >>= fun resList =>
      pure (session.checkHitFunc session.name (resList.map SessionRow.sessionId)
        (resList.map SessionRow.sessionQuestion) ans.answer)

/-- What `get_scalar_data` returns of an entry. -/
structure ScalarData (B E : Type) where
  question : QuestionArg
  answers : List (Option (Content B) × DataType)
  embeddingData : E
  sessionIds : List String

/-- `self.s.get_data_by_id`: the answers as the column they are in gives them back. -/
def storedData (id : Nat) : Exec PyError (World B E) (Except PyError (Option (StoredData B E))) :=
  World.call env fun w => ((w.s.getDataById id).map fun found => found.map fun data =>
    { data with answers := data.answers.map env.rowAnswer }, w)

/-- `get_scalar_data`, with the id of the search result it is given. -/
def getScalarData (id : Nat) (session : Option (HitCheck B)) : Exec PyError (World B E) (Option (ScalarData B E)) :=
  storedData env id >>= fun found =>
  Exec.ofExcept found >>= fun cacheData =>
  match cacheData with
  | none => pure none
  | some data =>
    checkHit env id data session >>= fun hit =>
    if hit then
      loadAnswers env data.answers >>= fun answers =>
      pure (some ⟨data.question, answers, data.embeddingData, data.sessionIds⟩)
    else pure none

/-- `add_session`, with the id of the search result it is given. -/
def addSession (id : Nat) (sessionId preEmbeddingData : String) : Exec PyError (World B E) Unit :=
  World.call env fun w => ((), { w with s := w.s.addSession id sessionId preEmbeddingData })

/-- `hit_cache_callback`, with the id of the search result it is given. -/
def hitCacheCallback (id : Nat) : Exec PyError (σ × World B E) Unit := e.get id >>= fun _ => pure ()

/-- `__init__` from where the index is there, empty: a new `EvictionManager`,
and the ids of the live rows into the index. -/
def init (fuel : Nat) : Exec PyError (σ × World B E) Unit :=
  Exec.modify (fun s => (s.1, { s.2 with deleteCount := 0 })) >>= fun _ =>
  Exec.onSnd (World.call env fun w => (w.s.getIds false, w)) >>= fun ids =>
  e.put fuel ids none

/-! ## Runs -/

inductive Op (B E : Type) where
  | importData (questions : List QuestionArg) (answers : List (AnswerArg B)) (embeddingDatas : List E)
      (sessionIds : List (Option String))
  | hit (id : Nat)

/-- One call of the manager; the state is kept where it raises. -/
def opResult (fuel : Nat) (s : σ × World B E) : Op B E → Option (σ × World B E)
  | .importData questions answers embeddingDatas sessionIds =>
    (importData env e fuel questions answers embeddingDatas sessionIds s).map Prod.snd
  | .hit id => (hitCacheCallback e id s).map Prod.snd

def runOps (fuel : Nat) : σ × World B E → List (Op B E) → Option (σ × World B E)
  | s, [] => some s
  | s, op :: ops =>
    match opResult env e fuel s op with
    | none => none
    | some s' => runOps fuel s' ops

/-- A process: it opens a manager over the stores and calls it. -/
structure Process (B E : Type) where
  policy : Policy
  maxSize : Nat
  cleanSize : Nat
  draws : Nat → Nat
  ops : List (Op B E)

/-- The manager a process ends with. -/
structure Manager (B E α : Type) where
  policy : Policy
  e : MemoryCacheEviction (policy.State Nat α) Nat α (World B E)
  index : policy.State Nat α

/-- The keys its index tracks. -/
def Manager.tracked {α : Type} (m : Manager B E α) (id : Nat) : Bool := (m.e.cls.cache m.index).data.contains id

end SSDataManager

def Policy.name : Policy → String
  | .LRU => "LRU"
  | .LFU => "LFU"
  | .FIFO => "FIFO"
  | .RR => "RR"
  | .GDSF => "GDSF"

@[simp] theorem Policy.ofString_name (policy : Policy) : Policy.ofString policy.name = .ok policy := by
  cases policy <;> decide +kernel

namespace SSDataManager

/-- An id that is not live is read as nothing. -/
theorem getScalarData_none {env : Env B E S} (hf : ∀ n, env.fails n = false) {w : World B E} {id : Nat}
    (h : id ∉ w.s.getIds false) (session : Option (HitCheck B)) :
    getScalarData env id session w = some (.ok none, { w with calls := w.calls + 1 }) := by
  have hread : storedData env id w = some (.ok (.ok none), { w with calls := w.calls + 1 }) := by
    simp [storedData, World.call, Exec.total, hf, SQLStorage.getDataById_eq_none h, Except.map]
  unfold getScalarData
  exact Exec.bind_of_ok _ hread

/-- What a process does: `SSDataManager(s, v, o, None, max_size, clean_size,
policy)`, then its calls. -/
def Process.run {α : Type} (env : Env B E S) (fuel : Nat) (p : Process B E) (w : World B E) :
    Option (Except PyError (Manager B E α) × World B E) :=
  match EvictionBase.get p.draws "memory" p.policy.name p.maxSize (some p.cleanSize) (World.clear env)
      (fun _ : Value α => 1) with
  | .error err => some (.error err, w)
  | .ok (.memory policy e index) =>
    match init env e fuel (index, w) with
    | none => none
    | some (.error err, s) => some (.error err, s.2)
    | some (.ok (), s) => (runOps env e fuel s p.ops).map fun s => (.ok ⟨policy, e, s.1⟩, s.2)
  | .ok _ => some (.error ⟨.AttributeError, ""⟩, w)

/-- One process after another over the same stores. -/
def runs (α : Type) (env : Env B E S) (fuel : Nat) : List (Process B E) → World B E → Option (World B E)
  | [], w => some w
  | p :: ps, w =>
    match Process.run (α := α) env fuel p w with
    | none => none
    | some (_, w') => runs α env fuel ps w'

end SSDataManager

end GptCache
