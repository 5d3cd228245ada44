/-
`ChatCompletion` (gptcache/adapter/openai.py), from `create` and `acreate` to
the last chunk its caller draws.

A call does not run to its end at once. `acreate` lets others run while it
awaits the model, and a stream does nothing until its caller asks for the next
chunk. `Stage` is how far a call got, `start` what it does until others may
run, `resume` its next turn after that; `program` is the calls of one cache as
they take turns. `acreate_eq` says that an `acreate` that gets its turn at
once is `aadapt`.
-/
import GptCache.Lib.Interleaved
import GptCache.Adapter.StreamSave

namespace GptCache.ChatCompletion

open Caches (onOutside)

/-- A message of a request. -/
abbrev Message := Dict String String

/-- What `_construct_resp_from_cache` builds; its `usage` is three zeros. -/
structure CachedResponse (B : Type) where
  content : Content B
  savedToken : List Nat
  created : Int
  gptcache : Bool := true
  role : String := "assistant"
  finishReason : String := "stop"
  index : Nat := 0
  completionTokens : Nat := 0
  promptTokens : Nat := 0
  totalTokens : Nat := 0
  object : String := "chat.completion"

/-- The Python objects a call builds and reads. -/
structure Objects (B : Type) where
  /-- The list that `_construct_stream_resp_from_cache` builds. -/
  streamResponse : Int → String → List Nat → B
  /-- What is iterated over, where it is a list of chunks. -/
  chunks : B → Option (List (Chunk B))
  response : CachedResponse B → B
  /-- What it builds of an answer that is not a text. -/
  replay : Int → B → List Nat → B
  /-- `get_message_from_openai_answer`. -/
  message : B → Except PyError (Content B)
  /-- The value of `messages`, where it is a list of messages. -/
  messages : B → Option (List Message)
  chunks_streamResponse : ∀ created text savedToken,
    chunks (streamResponse created text savedToken) = some (constructStreamRespFromCache created text savedToken)
  chunks_response : ∀ r, chunks (response r) = none
  message_response : ∀ r, message (response r) = .ok r.content

/-- The class, and what it uses: `cache_args`, the two handlers, the cache's
`enable_token_counter`, `token_counter`, and the clock. -/
structure Settings (B D X : Type) where
  objects : Objects B
  cacheArgs : Kwargs B
  llmHandler : EntryPoint → Kwargs B → Exec PyError X (Option (Response B (Caches D X)))
  enableTokenCounter : Bool
  tokenCounter : String → Nat
  now : Int

variable {B E R D X : Type}

/-- `BaseCacheLLM.fill_base_args`. -/
def fillBaseArgs (cacheArgs kwargs : Kwargs B) : Kwargs B :=
  cacheArgs.entries.foldl (fun kwargs e => if kwargs.contains e.1 then kwargs else kwargs.set e.1 e.2) kwargs

@[simp] theorem fillBaseArgs_empty (kwargs : Kwargs B) : fillBaseArgs .empty kwargs = kwargs := rfl

/-- `data.get("messages")`. -/
def getMessages (objects : Objects B) (data : Kwargs B) : Except PyError (List Message) :=
  match data.get? "messages" with
  | some (.other b) =>
    match objects.messages b with
    | some messages => .ok messages
    | none => .error ⟨.TypeError, "object is not subscriptable"⟩
  | _ => .error ⟨.TypeError, "'NoneType' object is not subscriptable"⟩

/-- `last_content` (gptcache/processor/pre.py). -/
def lastContent (objects : Objects B) (data : Kwargs B) : Except PyError (Content B) := do
  let messages ← getMessages objects data
  match messages.getLast? with
  | none => .error ⟨.IndexError, "list index out of range"⟩
  | some message =>
    match message.get? "content" with
    | none => .error ⟨.KeyError, "'content'"⟩
    | some content => .ok (.str content)

/-- `_num_tokens_from_messages`. -/
def numTokensFromMessages (tokenCounter : String → Nat) (messages : List Message) : Nat :=
  messages.foldl (fun numTokens message => message.entries.foldl
    (fun numTokens e => numTokens + tokenCounter e.2 + if e.1 = "name" then 1 else 0) (numTokens + 3)) 0 + 3

variable (rt : Runtime B X) (settings : Settings B D X)

/-- `cache_data_convert` of a call with these `kwargs`. -/
def cacheDataConvert (e : EntryPoint) (kwargs : Kwargs B) (cacheData : Content B) : Option (Response B (Caches D X)) :=
  let savedToken := if settings.enableTokenCounter then
      [numTokensFromMessages settings.tokenCounter ((getMessages settings.objects kwargs).toOption.getD []),
        settings.tokenCounter cacheData.text]
    else [0, 0]
  if ((kwargs.get? "stream").getD (.bool false)).truthy rt then
    match cacheData with
    | .other b => some (.plain (settings.objects.replay settings.now b savedToken))
    | .str text =>
      match e with
      | .adapt => some (.plain (settings.objects.streamResponse settings.now text savedToken))
      | .aadapt => some (.asyncGenerator (.iter (constructStreamRespFromCache settings.now text savedToken)))
  else some (.plain (settings.objects.response
    ⟨cacheData, savedToken, settings.now, true, "assistant", "stop", 0, 0, 0, 0,
    "chat.completion"⟩))

def callbacks (e : EntryPoint) (kwargs : Kwargs B) : AsyncCallbacks B (Data B) D X (Response B (Caches D X)) :=
  chatCompletion rt (settings.llmHandler e) (cacheDataConvert rt settings e kwargs) settings.objects.message

/-! ## Calls -/

/-- How far a call got. -/
inductive Stage (B E R D X : Type) where
  /-- `aadapt` awaits the model, which is to answer `llmData`. -/
  | awaiting (l : LookUp B E R) (llmData : Option (Response B (Caches D X)))
  /-- Its caller has a response that is not a stream. -/
  | returned (response : Option B)
  /-- Its caller has drawn some chunks of a stream. -/
  | streaming (drawn : List (Chunk B)) (left : ChunkStream B (Caches D X))
  /-- Its caller has read the stream to its end. -/
  | ended (drawn : List (Chunk B))
  | raised (e : PyError)
  /-- Its last step does not return. -/
  | running

/-- A call that was made, by its `kwargs`. -/
structure Call (B E R D X : Type) where
  entry : EntryPoint
  kwargs : Kwargs B
  stage : Stage B E R D X

/-- The caller gets `response`; what it can iterate over is a stream. -/
def received (objects : Objects B) : Option (Response B (Caches D X)) → Stage B E R D X
  | none => .returned none
  | some (.plain b) =>
    match objects.chunks b with
    | none => .returned (some b)
    | some chunks => .streaming [] (.iter chunks)
  | some (.iterator it) | some (.asyncGenerator it) => .streaming [] it

section

variable [DecidableEq B] [DecidableEq E] (place : Nat) (c : Core.Cache B E R (Data B) D)
  (nexts : List (Core.Cache B E R (Data B) D))

def create (kwargs : Kwargs B) : Exec PyError (Caches D X) (Option (Response B (Caches D X))) :=
  adapt rt (callbacks rt settings .adapt (fillBaseArgs settings.cacheArgs kwargs)).toCallbacks place c nexts
    (fillBaseArgs settings.cacheArgs kwargs)

def acreate (kwargs : Kwargs B) : Exec PyError (Caches D X) (Option (Response B (Caches D X))) :=
  aadapt rt place c (callbacks rt settings .aadapt (fillBaseArgs settings.cacheArgs kwargs)) nexts
    (fillBaseArgs settings.cacheArgs kwargs)

/-- A call up to the first point where others may run. -/
def start (kwargs : Kwargs B) : EntryPoint → Exec PyError (Caches D X) (Stage B E R D X)
  | .adapt => do
    let response ← create rt settings place c nexts kwargs
    pure (received settings.objects response)
  | .aadapt => do
    let kwargs := fillBaseArgs settings.cacheArgs kwargs
    let l ← alookUp rt place c kwargs
    match l.message with
    | some m => pure (received settings.objects (cacheDataConvert rt settings .aadapt kwargs m))
    | none =>
      match nexts with
      | _ :: _ => Exec.raise ⟨.NameError, "name 'search_only_flag' is not defined"⟩
      | [] => do
        let llmData ← onOutside (settings.llmHandler .aadapt l.kwargs)
        pure (.awaiting l llmData)

/-- Its next turn: the model has answered, or the caller asks for a chunk. -/
def resume (kwargs : Kwargs B) : Stage B E R D X → Exec PyError (Caches D X) (Stage B E R D X)
  | .awaiting l llmData => do
    let response ← aupdateCache place c
      (callbacks rt settings .aadapt (fillBaseArgs settings.cacheArgs kwargs)) l.request
      l.key llmData l.kwargs
    pure (received settings.objects response)
  | .streaming drawn left => do
    let (item, left) ← left.next
    match item with
    | some chunk => pure (.streaming (drawn ++ [chunk]) left)
    | none => pure (.ended drawn)
  | stage => pure stage

/-- The stage a step ends in. -/
def settle (m : Exec PyError (Caches D X) (Stage B E R D X)) (s : Caches D X) : Stage B E R D X × Caches D X :=
  match m s with
  | none => (.running, s)
  | some (.error e, s') => (.raised e, s')
  | some (.ok stage, s') => (stage, s')

omit [DecidableEq B] [DecidableEq E] in
/-- A step that returns, as a call takes it. -/
theorem settle_of_wp {m : Exec PyError (Caches D X) (Stage B E R D X)} {Q : Stage B E R D X → Caches D X → Prop}
    {s : Caches D X} (h : Exec.wp m Q (fun _ _ => False) s) : Q (settle m s).1 (settle m s).2 := by
  obtain ⟨stage, s', hm, hQ⟩ := Exec.wp_returns_ok h
  rwa [settle, hm]

/-- The calls of `create` and `acreate` on a cache. -/
def program : Pool.Program (Caches D X) (Call B E R D X) (EntryPoint × Kwargs B) where
  start a s :=
    let r := settle (start rt settings place c nexts a.2 a.1) s
    (⟨a.1, a.2, r.1⟩, r.2)
  next call s :=
    let r := settle (resume rt settings place c call.kwargs call.stage) s
    ({ call with stage := r.1 }, r.2)

/-- **An `acreate` that is resumed at once** does what `aadapt` does. -/
theorem acreate_eq (kwargs : Kwargs B) :
    (acreate rt settings place c nexts kwargs >>= fun response => pure (received settings.objects response)) =
      start rt settings place c nexts kwargs .aadapt >>= fun stage =>
        match stage with
        | .awaiting l llmData => resume rt settings place c kwargs (.awaiting l llmData)
        | stage => pure stage := by
  have hreceived : ∀ response : Option (Response B (Caches D X)),
      (match (received settings.objects response : Stage B E R D X) with
        | .awaiting l llmData => resume rt settings place c kwargs (.awaiting l llmData)
        | stage => pure stage) = (pure (received settings.objects response) :
            Exec PyError (Caches D X) (Stage B E R D X)) := by
    intro response
    rcases response with _ | b | it | it
    · rfl
    · simp only [received]
      cases settings.objects.chunks b <;> rfl
    · rfl
    · rfl
  rw [acreate, aadapt_eq_alookUp, start, Exec.bind_assoc, Exec.bind_assoc]
  congr 1
  funext l
  cases l.message with
  | some m =>
    simp only [Exec.pure_bind, hreceived]
    rfl
  | none =>
    cases nexts with
    | cons _ _ => rfl
    | nil =>
      simp only [Exec.bind_assoc, Exec.pure_bind, resume]
      rfl

end

end GptCache.ChatCompletion
