/-
The context processors (gptcache/processor/context): objects that live as long
as the cache and turn each request into what is stored and what is embedded.

Two of them add to what earlier requests left in them. `told` is what a
history of requests leaves, and `key_eq_iff` says when two histories lead to
the same key for the same request: always for the summarization processor,
which starts from the request alone, and for the others exactly when the
histories left the same text (or the request raises).
-/
import GptCache.Lib.Dict
import GptCache.Processor.Summarize

namespace GptCache

/-- A message of a chat: its texts, or other objects, under `"role"` and `"content"`. -/
abbrev Message (B : Type) := Dict String (Content B)

/-- The request data, as far as a context processor reads them. -/
structure ChatRequest (B : Type) where
  messages : Option (List (Message B))

variable {B σ T : Type}

/-- `message[key]`. -/
def Message.field (message : Message B) (key : String) : Except PyError (Content B) :=
  match message.get? key with
  | some c => .ok c
  | none => .error ⟨.KeyError, "'" ++ key ++ "'"⟩

/-- `data["messages"]`. -/
def ChatRequest.getMessages (data : ChatRequest B) : Except PyError (List (Message B)) :=
  match data.messages with
  | some ms => .ok ms
  | none => .error ⟨.KeyError, "'messages'"⟩

/-- `f"{query['role']}: {query['content']} \n"`. -/
def Message.line (str : B → String) (query : Message B) : Except PyError String :=
  match query.field "role", query.field "content" with
  | .error e, _ => .error e
  | _, .error e => .error e
  | .ok role, .ok content => .ok (role.toStr str ++ ": " ++ content.toStr str ++ " \n")

/-- `query["content"]`, to be added to a text. -/
def Message.plain (query : Message B) : Except PyError String :=
  match query.field "content" with
  | .error e => .error e
  | .ok (.str s) => .ok s
  | .ok (.other _) => .error ⟨.TypeError, ""⟩

structure ContextProcess (B σ : Type) where
  init : σ
  formatAllContent : ChatRequest B → Exec PyError σ Unit
  processAllContent : Exec PyError σ (String × String)

/-- `pre_process`: the pair of what is stored and what is embedded. -/
def ContextProcess.preProcess (p : ContextProcess B σ) (data : ChatRequest B) : Exec PyError σ (String × String) := do
  p.formatAllContent data
  p.processAllContent

/-! ## The processors -/

structure ConcatContext where
  content : String := ""
  concatContent : String := ""
  deriving DecidableEq

def ConcatContext.add (str : B → String) (query : Message B) : Exec PyError ConcatContext Unit := do
  let line ← Exec.ofExcept (query.line str)
  Exec.modify fun s => { s with content := s.content ++ line }
  let plain ← Exec.ofExcept query.plain
  Exec.modify fun s => { s with concatContent := s.concatContent ++ plain }

def concatContextProcess (str : B → String) : ContextProcess B ConcatContext where
  init := {}
  formatAllContent data := do
    let messages ← Exec.ofExcept data.getMessages
    Exec.forEach (ConcatContext.add str) messages
  processAllContent := do
    let s ← Exec.read
    pure (s.content, s.concatContent)

def addLine (str : B → String) (query : Message B) : Exec PyError String Unit := do
  let line ← Exec.ofExcept (query.line str)
  Exec.modify fun content => content ++ line

/-- `sc` is the selective-context model, at the processor's ratio and level. -/
def selectiveContextProcess (str : B → String) (sc : String → String) : ContextProcess B String where
  init := ""
  formatAllContent data := do
    let messages ← Exec.ofExcept data.getMessages
    Exec.forEach (addLine str) messages
  processAllContent := do
    let content ← Exec.read
    pure (content, sc content)

/-- `serialize_content`. -/
def serializeContent (str : B → String) : List (Message B) → Except PyError String
  | [] => .ok ""
  | message :: messages =>
    match message.field "role", message.field "content", serializeContent str messages with
    | .error e, _, _ => .error e
    | _, .error e, _ => .error e
    | _, _, .error e => .error e
    | .ok role, .ok content, .ok rest =>
      .ok ("[#RS]" ++ role.toStr str ++ "[#RE][#CS]" ++ content.toStr str ++ "[#CE]" ++ rest)

/-- The processor of the summarizing model; the `result` it puts together is the state of `summarizeToSentence`. -/
def summarizationContextProcess (str : B → String) (fuel : Nat) (s : Summarizer T) (tokenizer : Tokenizer T)
    (targetLength : Nat) : ContextProcess B (List (Message B)) where
  init := []
  formatAllContent data := do
    let messages ← Exec.ofExcept data.getMessages
    Exec.modify fun _ => messages
  processAllContent := do
    let content ← Exec.read
    let contents ← Exec.ofExcept (content.mapM (·.field "content"))
    let result ← Exec.ofResult (((summarizeToSentence fuel s tokenizer contents targetLength) "").map
      fun (r, result) => r.map fun _ => result)
    let saveContent ← Exec.ofExcept (serializeContent str content)
    pure (saveContent, result)

/-! ## Histories -/

namespace ContextProcess

/-- The processor's state after a history of requests, each of which returned or raised. -/
def after (p : ContextProcess B σ) : List (ChatRequest B) → σ → Option σ
  | [], s => some s
  | data :: history, s =>
    match p.preProcess data s with
    | none => none
    | some (_, s') => after p history s'

/-- What a request after a history gets from `pre_process`. -/
def key (p : ContextProcess B σ) (history : List (ChatRequest B)) (data : ChatRequest B) :
    Option (Except PyError (String × String)) :=
  (p.after history p.init).bind fun s => (p.preProcess data s).map Prod.fst

end ContextProcess

inductive ContextKind where
  | concat
  | selective
  | summarization
  deriving DecidableEq

/-- What the processors use from outside: how other objects are written, and the models. -/
structure ContextModels (B T : Type) where
  str : B → String
  sc : String → String
  fuel : Nat
  summarizer : Summarizer T
  tokenizer : Tokenizer T
  targetLength : Nat

abbrev ContextKind.State (B : Type) : ContextKind → Type
  | .concat => ConcatContext
  | .selective => String
  | .summarization => List (Message B)

def ContextKind.process (x : ContextModels B T) : (k : ContextKind) → ContextProcess B (k.State B)
  | .concat => concatContextProcess x.str
  | .selective => selectiveContextProcess x.str x.sc
  | .summarization => summarizationContextProcess x.str x.fuel x.summarizer x.tokenizer x.targetLength

/-! ## What a request adds -/

/-- What `format_all_content` adds to the texts, and the error it stops with, if any. -/
structure Told where
  content : String
  concatContent : String
  raised : Option PyError

/-- What messages add. Only the concat processor (`plain`) adds the bare contents too. -/
def tellMessages (str : B → String) (plain : Bool) : List (Message B) → Told
  | [] => ⟨"", "", none⟩
  | query :: queries =>
    match query.line str, if plain then query.plain else .ok "" with
    | .error e, _ => ⟨"", "", some e⟩
    | .ok line, .error e => ⟨line, "", some e⟩
    | .ok line, .ok text =>
      let rest := tellMessages str plain queries
      ⟨line ++ rest.content, text ++ rest.concatContent, rest.raised⟩

def tellRequest (str : B → String) (plain : Bool) (data : ChatRequest B) : Told :=
  match data.getMessages with
  | .error e => ⟨"", "", some e⟩
  | .ok messages => tellMessages str plain messages

/-- What a history of requests adds: the lines of its messages, and, for the
concat processor, their contents. -/
def tellHistory (str : B → String) (plain : Bool) : List (ChatRequest B) → String × String
  | [] => ("", "")
  | data :: history =>
    let told := tellRequest str plain data
    let rest := tellHistory str plain history
    (told.content ++ rest.1, told.concatContent ++ rest.2)

/-- The outcome of a computation that stops with `raised`. -/
def outcome (raised : Option PyError) : Except PyError Unit :=
  match raised with
  | none => .ok ()
  | some e => .error e

/-- A processor whose state only grows: by what each request tells, and what it
answers shows all of it. -/
structure Accumulates (p : ContextProcess B σ) (str : B → String) (plain : Bool) (texts answer : σ → String × String) :
    Prop where
  init : texts p.init = ("", "")
  request : ∀ data s, ∃ s',
    p.preProcess data s = some ((outcome (tellRequest str plain data).raised).map fun _ => answer s', s') ∧
      texts s' = ((texts s).1 ++ (tellRequest str plain data).content,
        (texts s).2 ++ (tellRequest str plain data).concatContent)
  shows : ∀ s s', answer s = answer s' ↔ texts s = texts s'

namespace Accumulates

variable {p : ContextProcess B σ} {str : B → String} {plain : Bool} {texts answer : σ → String × String}

theorem history (h : Accumulates p str plain texts answer) : ∀ (history : List (ChatRequest B)) (s : σ),
    ∃ s', p.after history s = some s' ∧
      texts s' = ((texts s).1 ++ (tellHistory str plain history).1, (texts s).2 ++ (tellHistory str plain history).2)
  | [], s => ⟨s, rfl, by simp [tellHistory]⟩
  | data :: history, s => by
    obtain ⟨s₁, hrequest, htexts₁⟩ := h.request data s
    obtain ⟨s₂, hafter, htexts₂⟩ := h.history history s₁
    refine ⟨s₂, by simp only [ContextProcess.after, hrequest, hafter], ?_⟩
    simp only [htexts₂, htexts₁, tellHistory, String.append_assoc]

/-- The key of a request that does not raise shows the whole history. -/
theorem key_shows (h : Accumulates p str plain texts answer) (history₁ history₂ : List (ChatRequest B))
    (data : ChatRequest B) : p.key history₁ data = p.key history₂ data ↔
      (tellRequest str plain data).raised ≠ none ∨ tellHistory str plain history₁ = tellHistory str plain history₂ := by
  obtain ⟨s₁, hafter₁, htexts₁⟩ := h.history history₁ p.init
  obtain ⟨s₂, hafter₂, htexts₂⟩ := h.history history₂ p.init
  obtain ⟨s₁', hrequest₁, htexts₁'⟩ := h.request data s₁
  obtain ⟨s₂', hrequest₂, htexts₂'⟩ := h.request data s₂
  simp only [h.init, String.empty_append, Prod.mk.eta] at htexts₁ htexts₂
  simp only [ContextProcess.key, hafter₁, hafter₂, Option.bind_some, hrequest₁, hrequest₂, Option.map_some,
    Option.some.injEq]
  cases (tellRequest str plain data).raised with
  | some e => simp [outcome, Except.map]
  | none =>
    simp only [outcome, Except.map, Except.ok.injEq, ne_eq, not_true_eq_false, false_or]
    rw [h.shows, htexts₁', htexts₂', htexts₁, htexts₂, Prod.mk.injEq, String.append_left_inj,
      String.append_left_inj, Prod.ext_iff]

end Accumulates

section

variable (str : B → String)

theorem concat_messages : ∀ (messages : List (Message B)) (s : ConcatContext),
    Exec.forEach (ConcatContext.add str) messages s = some (outcome (tellMessages str true messages).raised,
      ⟨s.content ++ (tellMessages str true messages).content,
        s.concatContent ++ (tellMessages str true messages).concatContent⟩)
  | [], s => by simp [tellMessages, outcome, pure, Exec.ret]
  | query :: queries, s => by
    rcases hline : query.line str with e | line
    · simp [ConcatContext.add, hline, tellMessages, outcome, bind, Exec.andThen, Exec.raise]
    · rcases hplain : query.plain with e | text
      · simp [ConcatContext.add, hline, hplain, tellMessages, outcome, bind, pure, Exec.andThen, Exec.ret,
          Exec.raise, Exec.modify]
      · have hrest := concat_messages queries ⟨s.content ++ line, s.concatContent ++ text⟩
        simp [ConcatContext.add, hline, hplain, tellMessages, bind, pure, Exec.andThen, Exec.ret, Exec.modify,
          hrest, String.append_assoc]

theorem concat_accumulates :
    Accumulates (concatContextProcess str) str true (fun s => (s.content, s.concatContent))
      fun s => (s.content, s.concatContent) where
  init := rfl
  shows _ _ := Iff.rfl
  request data s := by
    refine ⟨⟨s.content ++ (tellRequest str true data).content,
      s.concatContent ++ (tellRequest str true data).concatContent⟩, ?_, rfl⟩
    rcases hmessages : data.getMessages with e | messages
    · simp [ContextProcess.preProcess, concatContextProcess, hmessages, tellRequest, outcome, Except.map, bind,
        Exec.andThen, Exec.raise]
    · have htold := concat_messages str messages s
      cases hraised : (tellMessages str true messages).raised <;>
        simp [ContextProcess.preProcess, concatContextProcess, hmessages, tellRequest, hraised, htold, outcome,
          Except.map, bind, pure, Exec.andThen, Exec.ret, Exec.read]

theorem selective_messages : ∀ (messages : List (Message B)) (content : String),
    Exec.forEach (addLine str) messages content = some (outcome (tellMessages str false messages).raised,
      content ++ (tellMessages str false messages).content)
  | [], content => by simp [tellMessages, outcome, pure, Exec.ret]
  | query :: queries, content => by
    rcases hline : query.line str with e | line
    · simp [addLine, hline, tellMessages, outcome, bind, Exec.andThen, Exec.raise]
    · have hrest := selective_messages queries (content ++ line)
      simp [addLine, hline, tellMessages, bind, pure, Exec.andThen, Exec.ret, Exec.modify, hrest,
        String.append_assoc]

/-- The selective processor keeps no bare contents. -/
theorem selective_concatContent : ∀ messages : List (Message B), (tellMessages str false messages).concatContent = ""
  | [] => rfl
  | query :: queries => by
    rcases hline : query.line str with e | line
    · simp [tellMessages, hline]
    · simp [tellMessages, hline, selective_concatContent queries]

theorem selective_accumulates (sc : String → String) :
    Accumulates (selectiveContextProcess str sc) str false (fun content => (content, ""))
      fun content => (content, sc content) where
  init := rfl
  shows s s' := by
    simp only [Prod.mk.injEq, and_true, and_iff_left_iff_imp]
    intro h
    rw [h]
  request data content := by
    refine ⟨content ++ (tellRequest str false data).content, ?_, ?_⟩
    · rcases hmessages : data.getMessages with e | messages
      · simp [ContextProcess.preProcess, selectiveContextProcess, hmessages, tellRequest, outcome, Except.map, bind,
          Exec.andThen, Exec.raise]
      · have htold := selective_messages str messages content
        cases hraised : (tellMessages str false messages).raised <;>
          simp [ContextProcess.preProcess, selectiveContextProcess, hmessages, tellRequest, hraised, htold, outcome,
            Except.map, bind, pure, Exec.andThen, Exec.ret, Exec.read]
    · rcases hmessages : data.getMessages with e | messages <;>
        simp [tellRequest, hmessages, selective_concatContent]

/-- The summarization processor starts from the request alone. -/
theorem summarization_forgets (fuel : Nat) (s : Summarizer T) (tokenizer : Tokenizer T) (targetLength : Nat)
    (data : ChatRequest B) (content content' : List (Message B)) :
    let p := summarizationContextProcess str fuel s tokenizer targetLength
    (p.preProcess data content).map Prod.fst = (p.preProcess data content').map Prod.fst := by
  intro p
  have hoverwrites : ∀ c, p.preProcess data c =
      match data.getMessages with
      | .error e => some (.error e, c)
      | .ok messages => p.processAllContent messages := by
    intro c
    simp only [p, ContextProcess.preProcess, summarizationContextProcess]
    cases data.getMessages <;> rfl
  rw [hoverwrites, hoverwrites]
  cases data.getMessages <;> rfl

end

/-- **When the key depends on the request alone.** Two histories of requests
that came to an end lead to the same outcome of `pre_process` for the same
request data if and only if the processor is the summarization processor, or
the request raises, or both histories told the processor the same text. -/
theorem key_eq_iff (x : ContextModels B T) (k : ContextKind) (history₁ history₂ : List (ChatRequest B))
    (data : ChatRequest B) (hend₁ : ((k.process x).after history₁ (k.process x).init).isSome = true)
    (hend₂ : ((k.process x).after history₂ (k.process x).init).isSome = true) :
    (k.process x).key history₁ data = (k.process x).key history₂ data ↔
      k = .summarization ∨ (tellRequest x.str (k = .concat) data).raised ≠ none ∨
        tellHistory x.str (k = .concat) history₁ = tellHistory x.str (k = .concat) history₂ := by
  cases k with
  | concat => simpa [ContextKind.process] using (concat_accumulates x.str).key_shows history₁ history₂ data
  | selective => simpa [ContextKind.process] using (selective_accumulates x.str x.sc).key_shows history₁ history₂ data
  | summarization =>
    obtain ⟨s₁, hs₁⟩ := Option.isSome_iff_exists.mp hend₁
    obtain ⟨s₂, hs₂⟩ := Option.isSome_iff_exists.mp hend₂
    simp only [true_or, iff_true]
    rw [ContextProcess.key, ContextProcess.key, hs₁, hs₂]
    exact summarization_forgets x.str x.fuel x.summarizer x.tokenizer x.targetLength data s₁ s₂

/-- A chat of one message of a user. -/
def say (content : String) : ChatRequest Unit :=
  ⟨some [(Dict.empty.set "role" (.str "user")).set "content" (.str content)]⟩

/-- Tokens are characters, and a summary is the beginning of the text. -/
def characterModels : ContextModels Unit Char where
  str _ := "None"
  sc content := content
  fuel := 2
  summarizer := ⟨String.toList, String.ofList, fun text _ maxLength => .ok (String.ofList (text.toList.take maxLength))⟩
  tokenizer := ⟨String.toList, 1024⟩
  targetLength := 512

theorem key_eq_iff_summarization :
    (ContextKind.summarization.process characterModels).key [] (say "b") =
      (ContextKind.summarization.process characterModels).key [say "a"] (say "b") :=
  (key_eq_iff characterModels .summarization [] [say "a"] (say "b") rfl (by decide +kernel)).mpr (.inl rfl)

/-- The same question gets another key once somebody else has asked something. -/
theorem earlier_request_leaks :
    (ContextKind.concat.process characterModels).key [] (say "b") = some (.ok ("user: b \n", "b")) ∧
      (ContextKind.concat.process characterModels).key [say "a"] (say "b") =
        some (.ok ("user: a \nuser: b \n", "ab")) ∧
      (ContextKind.concat.process characterModels).key [] (say "b") ≠
        (ContextKind.concat.process characterModels).key [say "a"] (say "b") ∧
      (ContextKind.selective.process characterModels).key [] (say "b") ≠
        (ContextKind.selective.process characterModels).key [say "a"] (say "b") := by
  have hconcat : (ContextKind.concat.process characterModels).key [] (say "b") = some (.ok ("user: b \n", "b")) := by
    rfl
  have hconcat' : (ContextKind.concat.process characterModels).key [say "a"] (say "b") =
      some (.ok ("user: a \nuser: b \n", "ab")) := by
    rfl
  have hselective : (ContextKind.selective.process characterModels).key [] (say "b") =
      some (.ok ("user: b \n", "user: b \n")) := by
    rfl
  have hselective' : (ContextKind.selective.process characterModels).key [say "a"] (say "b") =
      some (.ok ("user: a \nuser: b \n", "user: a \nuser: b \n")) := by
    rfl
  refine ⟨hconcat, hconcat', ?_, ?_⟩
  · rw [hconcat, hconcat']
    decide +kernel
  · rw [hselective, hselective']
    decide +kernel

end GptCache
