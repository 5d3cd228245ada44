/-
`concat_all_queries` (gptcache/processor/pre.py): the last messages of a
conversation as one text, without those whose role is skipped.

A line gets its line feed unless its message is the last of the window, and
whether it is skipped is asked after that. So the text is the kept lines
joined, and a line feed more where the window ends in a skipped message
(`written_eq`): the key of a conversation depends on what it was to be
independent of (`concat_all_queries_iff`).
-/
import GptCache.Adapter.Adapt
import GptCache.Processor.Context

namespace GptCache

variable {B : Type}

/-- `message["role"] in skip_list`. -/
def Content.isIn (skipList : List String) : Content B → Bool
  | .str s => s ∈ skipList
  | .other _ => false

section

variable (upper : String → String) (str : B → String)

/-- `f'{message["role"].upper()}: {message["content"]}'`, of which only a text has an upper case. -/
def Message.upperLine (role : Content B) (message : Message B) : Except PyError String :=
  match role with
  | .other _ => .error ⟨.AttributeError, ""⟩
  | .str role =>
    match message.field "content" with
    | .error err => .error err
    | .ok content => .ok (upper role ++ ": " ++ content.toStr str)

/-- The loop from message `i` of `len` on. -/
def concatLoop (skipList : List String) (len : Nat) : Nat → List (Message B) → String → Except PyError String
  | _, [], s => .ok s
  | i, message :: messages, s =>
    match message.field "role" with
    | .error err => .error err
    | .ok role =>
      if role.isIn skipList then concatLoop skipList len (i + 1) messages s
      else
        match message.upperLine upper str role with
        | .error err => .error err
        | .ok line =>
          if i = len - 1 then concatLoop skipList len (i + 1) messages (s ++ line)
          else concatLoop skipList len (i + 1) messages (s ++ (line ++ "\n"))

/-- `concat_all_queries`, with the configuration it is called with. -/
def concatAllQueries (cacheConfig : Option Config) (data : ChatRequest B) : Except PyError String :=
  match cacheConfig with
  | none => .error ⟨.AttributeError, "'NoneType' object has no attribute 'skip_list'"⟩
  | some config =>
    match config.contextLen with
    | none => .error ⟨.TypeError, "unsupported operand type(s) for *: 'NoneType' and 'int'"⟩
    | some contextLen =>
      match data.messages with
      | none => .error ⟨.TypeError, "object of type 'NoneType' has no len()"⟩
      | some messages =>
        let length := min (contextLen * 2) messages.length
        let messages := messages.drop (messages.length - length)
        concatLoop upper str config.skipList messages.length 0 messages ""

end

/-! ## Conversations -/

/-- A message that has a role and a content. -/
structure Turn (B : Type) where
  message : Message B
  role : String
  content : Content B
  hasRole : message.get? "role" = some (.str role)
  hasContent : message.get? "content" = some content

def Turn.of (role : String) (content : Content B) : Turn B where
  message := (Dict.empty.set "role" (.str role)).set "content" content
  role := role
  content := content
  hasRole := by simp [Dict.get?_set]
  hasContent := by simp

variable (upper : String → String) (str : B → String) (skipList : List String)

/-- `ROLE: content`. -/
def Turn.line (t : Turn B) : String := upper t.role ++ ": " ++ t.content.toStr str

def Turn.kept (t : Turn B) : Bool := t.role ∉ skipList

/-- The last `2 * context_len` messages. -/
def window (contextLen : Nat) (turns : List (Turn B)) : List (Turn B) := turns.drop (turns.length - contextLen * 2)

/-- The lines of the messages that are not skipped. -/
def keptLines (turns : List (Turn B)) : List String := (turns.filter (Turn.kept skipList)).map (Turn.line upper str)

/-- There is a line, and a skipped message comes last. -/
def endsSkipped (turns : List (Turn B)) : Bool :=
  turns.any (Turn.kept skipList) && turns.getLast?.any fun t => !t.kept skipList

/-- What the loop adds for the messages that are left. -/
def written : List (Turn B) → String
  | [] => ""
  | t :: ts => (if t.kept skipList then t.line upper str ++ (if ts = [] then "" else "\n") else "") ++ written ts

theorem loop_written (len : Nat) : ∀ (ts : List (Turn B)) {i : Nat} (s : String), i + ts.length = len →
    concatLoop upper str skipList len i (ts.map Turn.message) s = .ok (s ++ written upper str skipList ts)
  | [], i, s, _ => by rw [List.map_nil, concatLoop, written, String.append_empty]
  | t :: ts, i, s, hlen => by
    rw [List.length_cons] at hlen
    have hrole : t.message.field "role" = .ok (.str t.role) := by rw [Message.field, t.hasRole]
    have hline : t.message.upperLine upper str (.str t.role) = .ok (t.line upper str) := by
      simp only [Message.upperLine, Message.field, t.hasContent]
      rfl
    have ih := fun s => loop_written len ts (i := i + 1) s (by omega)
    simp only [List.map_cons, concatLoop, hrole, hline, ih, Content.isIn, written, Turn.kept]
    by_cases hskip : t.role ∈ skipList
    · simp [hskip]
    · have hlast : i = len - 1 ↔ ts = [] := by
        rw [← List.length_eq_zero_iff]
        omega
      by_cases hts : ts = []
      · simp [hskip, hlast.mpr hts, hts, written]
      · have hi : ¬ i = len - 1 := fun h => hts (hlast.mp h)
        simp [hskip, hi, hts, String.append_assoc]

theorem keptLines_eq_nil {ts : List (Turn B)} : keptLines upper str skipList ts = [] ↔
    ts.any (Turn.kept skipList) = false := by
  simp [keptLines]

/-- It is the join of the kept lines, and a line feed where the last message is skipped. -/
theorem written_eq : ∀ ts : List (Turn B), written upper str skipList ts =
    "\n".intercalate (keptLines upper str skipList ts) ++ (if endsSkipped skipList ts then "\n" else "")
  | [] => rfl
  | t :: ts => by
    have ih := written_eq ts
    rw [written, ih]
    cases ts with
    | nil => cases hkept : t.kept skipList <;> simp [keptLines, endsSkipped, hkept]
    | cons u us =>
      have hends : endsSkipped skipList (t :: u :: us) =
          ((t.kept skipList || (u :: us).any (Turn.kept skipList)) && (u :: us).getLast?.any
            fun t => !t.kept skipList) := by
        simp [endsSkipped]
      rw [hends]
      cases hkept : t.kept skipList with
      | false =>
        have hsame : keptLines upper str skipList (t :: u :: us) = keptLines upper str skipList (u :: us) := by
          simp [keptLines, hkept]
        rw [hsame]
        simp [endsSkipped]
      | true =>
        have hmore : keptLines upper str skipList (t :: u :: us) =
            t.line upper str :: keptLines upper str skipList (u :: us) := by
          simp [keptLines, hkept]
        rw [hmore]
        cases hrest : keptLines upper str skipList (u :: us) with
        | nil =>
          -- none of the others is kept, so the last is not
          have hnone := (keptLines_eq_nil upper str skipList).mp hrest
          have hlast : ((u :: us).getLast?.any fun t => !t.kept skipList) = true := by
            rw [List.getLast?_eq_some_getLast (List.cons_ne_nil u us), Option.any_some, Bool.not_eq_true']
            exact Bool.eq_false_iff.mpr (List.any_eq_false.mp hnone _ (List.getLast_mem _))
          rw [endsSkipped, hnone, hlast]
          simp
        | cons l ls =>
          have hsome : (u :: us).any (Turn.kept skipList) = true := by
            rw [← Bool.not_eq_false, ← keptLines_eq_nil upper str skipList, hrest]
            exact List.cons_ne_nil l ls
          rw [endsSkipped, hsome]
          simp [String.append_assoc]

/-- The text of a conversation under a configuration with this context length. -/
def conversationKey (config : Config) (contextLen : Nat) (turns : List (Turn B)) : Except PyError String :=
  concatAllQueries upper str (some { config with contextLen := some contextLen }) ⟨some (turns.map Turn.message)⟩

theorem conversationKey_eq (config : Config) (contextLen : Nat) (turns : List (Turn B)) :
    conversationKey upper str config contextLen turns =
      .ok ("\n".intercalate (keptLines upper str config.skipList (window contextLen turns)) ++
        if endsSkipped config.skipList (window contextLen turns) then "\n" else "") := by
  have hstart : (turns.map Turn.message).length - min (contextLen * 2) (turns.map Turn.message).length =
      turns.length - contextLen * 2 := by
    rw [List.length_map]
    omega
  have hwindow : (turns.map Turn.message).drop (turns.length - contextLen * 2) =
      (window contextLen turns).map Turn.message := List.map_drop.symm
  simp only [conversationKey, concatAllQueries, hstart, hwindow]
  rw [loop_written upper str config.skipList _ _ "" (by rw [Nat.zero_add, List.length_map]),
    String.empty_append, written_eq]

/-- It is the lines of the messages kept, and nothing else. -/
def JoinsCleanly (config : Config) (contextLen : Nat) (turns : List (Turn B)) : Prop :=
  conversationKey upper str config contextLen turns =
    .ok ("\n".intercalate (keptLines upper str config.skipList (window contextLen turns)))

theorem feed_eq_iff (s : String) (b b' : Bool) :
    s ++ (if b then "\n" else "") = s ++ (if b' then "\n" else "") ↔ b = b' := by
  rw [String.append_right_inj]
  cases b <;> cases b' <;> decide

theorem joinsCleanly_iff (config : Config) (contextLen : Nat) (turns : List (Turn B)) :
    JoinsCleanly upper str config contextLen turns ↔ endsSkipped config.skipList (window contextLen turns) = false := by
  have hfeed := feed_eq_iff ("\n".intercalate (keptLines upper str config.skipList (window contextLen turns)))
    (endsSkipped config.skipList (window contextLen turns)) false
  rw [if_neg Bool.false_ne_true, String.append_empty] at hfeed
  rw [JoinsCleanly, conversationKey_eq, Except.ok.injEq, hfeed]

/-- **The text of a conversation** is a clean join just where nothing is kept
or the last message of the window is. Two conversations with the same lines
kept have the same text just where both end in a skipped message or neither. -/
theorem concat_all_queries_iff (config : Config) (contextLen : Nat) (turns turns' : List (Turn B)) :
    (JoinsCleanly upper str config contextLen turns ↔ endsSkipped config.skipList (window contextLen turns) = false) ∧
    (keptLines upper str config.skipList (window contextLen turns) =
        keptLines upper str config.skipList (window contextLen turns') →
      (conversationKey upper str config contextLen turns = conversationKey upper str config contextLen turns' ↔
        endsSkipped config.skipList (window contextLen turns) = endsSkipped config.skipList
          (window contextLen turns'))) := by
  refine ⟨joinsCleanly_iff upper str config contextLen turns, fun hsame => ?_⟩
  rw [conversationKey_eq, conversationKey_eq, Except.ok.injEq, hsame]
  exact feed_eq_iff _ _ _

def user (content : String) : Turn Empty := .of "user" (.str content)

def system (content : String) : Turn Empty := .of "system" (.str content)

/-- A skipped message before the kept one makes no difference. -/
theorem concat_all_queries_before :
    conversationKey String.toUpper Empty.elim {} 1 [system "bar", user "foo"] =
      conversationKey String.toUpper Empty.elim {} 1 [user "foo"] :=
  ((concat_all_queries_iff String.toUpper Empty.elim {} 1 [system "bar", user "foo"] [user "foo"]).2
    (by decide +kernel)).mpr (by decide +kernel)

/-- Behind it it adds a line feed. -/
theorem line_feed_left :
    conversationKey String.toUpper Empty.elim {} 1 [user "foo", system "bar"] = .ok "USER: foo\n" ∧
    conversationKey String.toUpper Empty.elim {} 1 [user "foo"] = .ok "USER: foo" ∧
    ¬ JoinsCleanly String.toUpper Empty.elim {} 1 [user "foo", system "bar"] := by
  refine ⟨by decide +kernel, by decide +kernel, fun h => ?_⟩
  rw [joinsCleanly_iff] at h
  exact absurd h (by decide +kernel)

end GptCache
