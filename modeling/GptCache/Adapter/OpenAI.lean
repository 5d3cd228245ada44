/-
`ChatCompletion` (gptcache/adapter/openai.py): what it saves of a response of
the model, and what it makes of a saved text.

A streamed response is saved by a hook around it, which adds up the contents
of the chunks as the caller draws them and saves the sum after the last one.
-/
import GptCache.Adapter.Adapt
import GptCache.Lib.Generator

namespace GptCache

/-! ## Chunks -/

/-- The `content` of a delta. -/
inductive DeltaContent where
  | absent
  | null
  | str (s : String)
  deriving DecidableEq, Repr

structure Delta where
  role : Option String := none
  content : DeltaContent := .absent
  deriving DecidableEq, Repr

structure Choice where
  delta : Delta
  finishReason : Option String := none
  index : Nat := 0
  deriving DecidableEq, Repr

/-- A chunk of a streamed response; `others` are the fields nothing here reads. -/
structure Chunk (B : Type) where
  choices : List Choice
  created : Int
  object : String := "chat.completion.chunk"
  gptcache : Bool := false
  savedToken : Option (List Nat) := none
  others : List (String × B) := []
  deriving DecidableEq, Repr

variable {B σ : Type}

/-- `get_stream_message_from_openai_answer` (gptcache/utils/response.py); `none` is null. -/
def getStreamMessageFromOpenaiAnswer (openaiData : Chunk B) : Except PyError (Option String) :=
  match openaiData.choices with
  | [] => .error ⟨.IndexError, "list index out of range"⟩
  | choice :: _ =>
    match choice.delta.content with
    | .absent => .ok (some "")
    | .null => .ok none
    | .str s => .ok (some s)

/-- `total_answer += get_stream_message_from_openai_answer(item)`. -/
def addAnswer (totalAnswer : String) (item : Chunk B) : Except PyError String :=
  match getStreamMessageFromOpenaiAnswer item with
  | .error e => .error e
  | .ok none => .error ⟨.TypeError, "can only concatenate str (not \"NoneType\") to str"⟩
  | .ok (some text) => .ok (totalAnswer ++ text)

/-! ## Responses -/

/-- A stream of chunks: the model's, or one with hooks around it. -/
abbrev ChunkStream (B σ : Type) := Generator PyError σ (Chunk B) String

/-- What a call of the model answers, and what a caller gets. -/
inductive Response (B σ : Type) where
  | plain (b : B)
  | iterator (it : ChunkStream B σ)
  | asyncGenerator (it : ChunkStream B σ)

/-- `hook_openai_data(it)`, the same for both kinds of stream. -/
def hookOpenaiData (updateCacheFunc : Data B → Exec PyError σ Unit) (it : ChunkStream B σ) : ChunkStream B σ :=
  .hook it "" addAnswer fun totalAnswer => updateCacheFunc (.answers (.answer ⟨.str totalAnswer, .STR⟩))

/-- `ChatCompletion._update_cache_callback`; `message` is `get_message_from_openai_answer`. -/
def updateCacheCallback (message : B → Except PyError (Content B)) (llmData : Response B σ)
    (updateCacheFunc : Data B → Exec PyError σ Unit) : Exec PyError σ (Option (Response B σ)) :=
  match llmData with
  | .asyncGenerator it => pure (some (.asyncGenerator (hookOpenaiData updateCacheFunc it)))
  | .plain b => do
    let content ← Exec.ofExcept (message b)
    updateCacheFunc (.answers (.answer ⟨content, .STR⟩))
    pure (some (.plain b))
  | .iterator it => pure (some (.iterator (hookOpenaiData updateCacheFunc it)))

/-- `_construct_stream_resp_from_cache`, at the time `created`. -/
def constructStreamRespFromCache (created : Int) (returnMessage : String) (savedToken : List Nat) : List (Chunk B) :=
  [{ choices := [{ delta := { role := some "assistant" } }], created := created },
    { choices := [{ delta := { content := .str returnMessage } }], created := created },
    { gptcache := true, choices := [{ delta := {}, finishReason := some "stop" }], created := created,
      savedToken := some savedToken }]

/-! ## The sum of the contents -/

/-- The text of a chunk, where it has one. -/
def Chunk.text (chunk : Chunk B) : String :=
  match getStreamMessageFromOpenaiAnswer chunk with
  | .ok (some s) => s
  | _ => ""

/-- The `content` of the first choice is null. -/
def Chunk.IsNull (chunk : Chunk B) : Prop := getStreamMessageFromOpenaiAnswer chunk = .ok none

/-- The texts of the chunks, one after the other. -/
def contents (chunks : List (Chunk B)) : String := chunks.foldl (fun total chunk => total ++ chunk.text) ""

/-- What the hook saves for `chunks`. -/
def savedAnswer (chunks : List (Chunk B)) : Data B := .answers (.answer ⟨.str (contents chunks), .STR⟩)

/-- The chunk has a text to add. -/
def Chunk.Readable (chunk : Chunk B) : Prop := chunk.choices ≠ [] ∧ ¬ chunk.IsNull

theorem addAnswer_text {chunk : Chunk B} (h : chunk.Readable) (total : String) :
    addAnswer total chunk = .ok (total ++ chunk.text) := by
  obtain ⟨hchoices, hnull⟩ := h
  unfold Chunk.IsNull at hnull
  unfold addAnswer Chunk.text
  unfold getStreamMessageFromOpenaiAnswer at hnull ⊢
  cases hc : chunk.choices with
  | nil => exact absurd hc hchoices
  | cons choice choices =>
    simp only [hc] at hnull ⊢
    cases hd : choice.delta.content with
    | absent => rfl
    | null => simp [hd] at hnull
    | str s => rfl

theorem addAnswer_unreadable {chunk : Chunk B} (h : ¬ chunk.Readable) (total : String) :
    ∃ e, addAnswer total chunk = .error e := by
  unfold addAnswer
  cases hc : chunk.choices with
  | nil => exact ⟨_, by unfold getStreamMessageFromOpenaiAnswer; rw [hc]⟩
  | cons choice choices =>
    have hnull : chunk.IsNull := by
      by_contra hnot
      exact h ⟨by simp [hc], hnot⟩
    unfold Chunk.IsNull at hnull
    exact ⟨_, by rw [hnull]⟩

theorem addAnswers_text : ∀ {chunks : List (Chunk B)}, (∀ chunk ∈ chunks, chunk.Readable) →
    ∀ total : String, chunks.foldlM addAnswer total = .ok (chunks.foldl (fun total chunk => total ++ chunk.text) total)
  | [], _, _ => rfl
  | chunk :: chunks, h, total => by
    obtain ⟨hchunk, h⟩ := List.forall_mem_cons.mp h
    rw [List.foldlM_cons, addAnswer_text hchunk]
    exact addAnswers_text h _

/-- One chunk without a text, a null content say, and there is no sum. -/
theorem addAnswers_unreadable : ∀ {chunks : List (Chunk B)} {chunk : Chunk B}, chunk ∈ chunks → ¬ chunk.Readable →
    ∀ total : String, ∃ e, chunks.foldlM addAnswer total = .error e
  | first :: chunks, chunk, hmem, h, total => by
    rw [List.foldlM_cons]
    cases hadd : addAnswer total first with
    | error e => exact ⟨e, rfl⟩
    | ok total' =>
      rcases List.mem_cons.mp hmem with rfl | hmem
      · obtain ⟨e, herror⟩ := addAnswer_unreadable h total
        simp [hadd] at herror
      · exact addAnswers_unreadable hmem h total'

/-! ## Streaming -/

/-- What is promised of the stream a caller gets for `chunks`: as far as these
are drawn they are yielded as they are and nothing is saved; the call after
the last one saves their text, and it is the only one. -/
structure Transparent (chunks : List (Chunk B)) (updateCacheFunc : Data B → Exec PyError σ Unit) (it : ChunkStream B σ)
    (s : σ) : Prop where
  drawn : ∀ n ≤ chunks.length, ∃ it', it.pulls n s = some (.ok ((chunks.take n).map some, it'), s)
  ended : ∀ n, ∃ it', it.pulls (chunks.length + 1 + n) s =
    (updateCacheFunc (savedAnswer chunks) >>= fun _ =>
      pure (chunks.map some ++ List.replicate (n + 1) none, it')) s

/-- The stream for the caller, call by call. -/
theorem hookOpenaiData_yields {chunks : List (Chunk B)} (updateCacheFunc : Data B → Exec PyError σ Unit)
    (h : ∀ chunk ∈ chunks, chunk.Readable) :
    Generator.Yields (hookOpenaiData updateCacheFunc (.iter chunks)) chunks
      (pure () >>= fun _ => updateCacheFunc (savedAnswer chunks)) :=
  (Generator.yields_iter chunks).hook (addAnswers_text h "")

theorem hookOpenaiData_raises {chunks : List (Chunk B)} (updateCacheFunc : Data B → Exec PyError σ Unit)
    {chunk : Chunk B} (hmem : chunk ∈ chunks) (h : ¬ chunk.Readable) :
    Generator.Raises (hookOpenaiData updateCacheFunc (.iter chunks)) chunks := by
  obtain ⟨e, herror⟩ := addAnswers_unreadable hmem h ""
  exact (Generator.yields_iter chunks).hook_raises herror

theorem hookOpenaiData_transparent {chunks : List (Chunk B)} (updateCacheFunc : Data B → Exec PyError σ Unit)
    (h : ∀ chunk ∈ chunks, chunk.Readable) (s : σ) :
    Transparent chunks updateCacheFunc (hookOpenaiData updateCacheFunc (.iter chunks)) s := by
  have hyields := hookOpenaiData_yields updateCacheFunc h
  refine ⟨fun n hn => ?_, fun n => ?_⟩
  · obtain ⟨it', hpulls⟩ := hyields.pulls_take hn
    exact ⟨it', congrFun hpulls s⟩
  · obtain ⟨it', hpulls⟩ := hyields.pulls_all n
    exact ⟨it', congrFun hpulls s⟩

theorem hookOpenaiData_not_transparent {chunks : List (Chunk B)} (updateCacheFunc : Data B → Exec PyError σ Unit)
    {chunk : Chunk B} (hmem : chunk ∈ chunks) (hunreadable : ¬ chunk.Readable) (s : σ) :
    ¬ Transparent chunks updateCacheFunc (hookOpenaiData updateCacheFunc (.iter chunks)) s := by
  intro h
  obtain ⟨n, e, hn, hraise⟩ := (hookOpenaiData_raises updateCacheFunc hmem hunreadable).pulls
  obtain ⟨it', hpulls⟩ := h.drawn n hn
  rw [hraise] at hpulls
  exact absurd hpulls Exec.raise_ok

/-- A saved text, replayed. -/
theorem contents_constructStreamRespFromCache (created : Int) (text : String) (savedToken : List Nat) :
    contents (constructStreamRespFromCache created text savedToken : List (Chunk B)) = text := by
  simp [contents, constructStreamRespFromCache, Chunk.text, getStreamMessageFromOpenaiAnswer]

/-- The stream in a response. -/
def Response.stream : Response B σ → Option (ChunkStream B σ)
  | .plain _ => none
  | .iterator it => some it
  | .asyncGenerator it => some it

/-- The same kind of response, over another stream. -/
def Response.withStream : Response B σ → ChunkStream B σ → Response B σ
  | .plain b, _ => .plain b
  | .iterator _, it => .iterator it
  | .asyncGenerator _, it => .asyncGenerator it

/-- A streamed response over `chunks`: the caller gets a stream of the same
kind that is transparent, and nothing has been saved yet; what that saves can
be replayed. -/
structure Streamed (message : B → Except PyError (Content B)) (llmData : Response B σ) (chunks : List (Chunk B))
    (updateCacheFunc : Data B → Exec PyError σ Unit) (s : σ) : Prop where
  hooked : ∃ it, updateCacheCallback message llmData updateCacheFunc s = some (.ok (some (llmData.withStream it)), s) ∧
    Transparent chunks updateCacheFunc it s
  replayed : ∀ created savedToken,
    contents (constructStreamRespFromCache created (contents chunks) savedToken : List (Chunk B)) = contents chunks

theorem updateCacheCallback_stream {message : B → Except PyError (Content B)} {llmData : Response B σ}
    {it : ChunkStream B σ} (h : llmData.stream = some it) (updateCacheFunc : Data B → Exec PyError σ Unit) :
    updateCacheCallback message llmData updateCacheFunc =
      pure (some (llmData.withStream (hookOpenaiData updateCacheFunc it))) := by
  cases llmData with
  | plain b => cases h
  | iterator it => cases h; rfl
  | asyncGenerator it => cases h; rfl

theorem Response.withStream_self {llmData : Response B σ} {it : ChunkStream B σ} (h : llmData.stream = some it) :
    llmData.withStream it = llmData := by
  cases llmData with
  | plain b => rfl
  | iterator it => cases h; rfl
  | asyncGenerator it => cases h; rfl

theorem Response.stream_withStream {llmData : Response B σ} {it it' : ChunkStream B σ} (h : llmData.stream = some it) :
    (llmData.withStream it').stream = some it' := by
  cases llmData with
  | plain b => cases h
  | iterator it => rfl
  | asyncGenerator it => rfl

theorem Response.withStream_withStream (llmData : Response B σ) (it it' : ChunkStream B σ) :
    (llmData.withStream it).withStream it' = llmData.withStream it' := by
  cases llmData <;> rfl

theorem Response.withStream_inj {llmData : Response B σ} {it it₁ it₂ : ChunkStream B σ} (h : llmData.stream = some it)
    (heq : llmData.withStream it₁ = llmData.withStream it₂) : it₁ = it₂ := by
  cases llmData with
  | plain b => cases h
  | iterator it => exact Response.iterator.inj heq
  | asyncGenerator it => exact Response.asyncGenerator.inj heq

/-- **Streaming**: what is promised of a stream holds of it where, and only
where, none of its contents is null. -/
theorem streamed_iff (message : B → Except PyError (Content B)) {llmData : Response B σ} {chunks : List (Chunk B)}
    (updateCacheFunc : Data B → Exec PyError σ Unit) (s : σ) (hstream : llmData.stream = some (.iter chunks))
    (hchoices : ∀ chunk ∈ chunks, chunk.choices ≠ []) :
    Streamed message llmData chunks updateCacheFunc s ↔ ∀ chunk ∈ chunks, ¬ chunk.IsNull := by
  constructor
  · intro h chunk hmem hnull
    obtain ⟨it, hcallback, htransparent⟩ := h.hooked
    rw [updateCacheCallback_stream hstream] at hcallback
    obtain ⟨heq, -⟩ := Exec.pure_ok.mp hcallback
    obtain rfl := Response.withStream_inj hstream (Option.some.inj heq)
    exact hookOpenaiData_not_transparent updateCacheFunc hmem (fun hreadable => hreadable.2 hnull) s htransparent
  · intro h
    refine ⟨⟨hookOpenaiData updateCacheFunc (.iter chunks), ?_, ?_⟩, ?_⟩
    · rw [updateCacheCallback_stream hstream]
      rfl
    · exact hookOpenaiData_transparent updateCacheFunc (fun chunk hmem => ⟨hchoices chunk hmem, h chunk hmem⟩) s
    · intro created savedToken
      exact contents_constructStreamRespFromCache created (contents chunks) savedToken

/-- A chunk with one choice and this `delta`. -/
def deltaChunk (delta : Delta) : Chunk Unit := { choices := [{ delta := delta }], created := 0 }

/-- What is saved, in order. -/
def saving (data : Data Unit) : Exec PyError (List (Data Unit)) Unit := .modify (· ++ [data])

/-- A role, then a content, then the end. -/
theorem streamed_iff_hello :
    (∀ chunk ∈ [deltaChunk { role := some "assistant" }, deltaChunk { content := .str "hello" }, deltaChunk {}],
      chunk.choices ≠ []) ∧
    Streamed (σ := List (Data Unit)) (fun _ => .ok (.str ""))
      (.iterator (.iter [deltaChunk { role := some "assistant" }, deltaChunk { content := .str "hello" },
        deltaChunk {}]))
      [deltaChunk { role := some "assistant" }, deltaChunk { content := .str "hello" }, deltaChunk {}] saving [] := by
  have hchoices : ∀ chunk ∈ [deltaChunk { role := some "assistant" }, deltaChunk { content := .str "hello" },
      deltaChunk {}], chunk.choices ≠ [] := by simp [deltaChunk]
  refine ⟨hchoices, (streamed_iff (fun _ => .ok (.str "")) saving [] rfl hchoices).mpr ?_⟩
  simp [deltaChunk, Chunk.IsNull, getStreamMessageFromOpenaiAnswer]

/-- A role with a null content, as the model may send it first: the first draw raises. -/
theorem null_content_raises :
    ((hookOpenaiData saving (.iter [deltaChunk { role := some "assistant", content := .null },
        deltaChunk { content := .str "hello" }])).pulls 1 []).map (fun p => p.1.toOption.isSome) = some false ∧
    ¬ Streamed (fun _ => .ok (.str ""))
      (.iterator (.iter [deltaChunk { role := some "assistant", content := .null },
        deltaChunk { content := .str "hello" }]))
      [deltaChunk { role := some "assistant", content := .null }, deltaChunk { content := .str "hello" }]
      saving [] := by
  refine ⟨rfl, fun h => ?_⟩
  obtain ⟨it, hcallback, htransparent⟩ := h.hooked
  obtain ⟨heq, -⟩ := Exec.pure_ok.mp hcallback
  obtain rfl := Response.iterator.inj (Option.some.inj heq)
  have hmem : deltaChunk { role := some "assistant", content := .null } ∈
    [deltaChunk { role := some "assistant", content := .null }, deltaChunk { content := .str "hello" }] := by simp
  exact hookOpenaiData_not_transparent saving hmem (fun hreadable => hreadable.2 rfl) [] htransparent

end GptCache
