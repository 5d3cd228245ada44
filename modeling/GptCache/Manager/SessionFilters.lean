/-
`list_sessions` with two filters, a session's name and a question's id, over
the scalar stores that keep rows of both: which rows each store lists
(`list_sessions_filters`).

Each store builds its query in its own way, and only MongoDB's asks for both.
SQL stops at the name and Redis at the key: the query it makes of the two is
made and not returned.
-/
import GptCache.Manager.MongoStorage
import GptCache.Manager.RedisStorage
import GptCache.Manager.Sessions

namespace GptCache

variable {B E R : Type}

/-- The id of a question: the stores count from 1. -/
abbrev QuestionKey := { key : Nat // key ≠ 0 }

/-- Whether a row of session `name` and question `questionId` is asked for. -/
def askedFor (sessionId : Option SessionName) (key : Option QuestionKey) (name : String) (questionId : Nat) : Bool :=
  sessionId.all (name = ·.1) && key.all (questionId = ·.1)

theorem filter_eq_filter_iff {rows : List R} {p q : R → Bool} :
    rows.filter p = rows.filter q ↔ ∀ r ∈ rows, p r = q r := by
  refine ⟨fun h r hr => ?_, List.filter_congr⟩
  have hmem : r ∈ rows.filter p ↔ r ∈ rows.filter q := by rw [h]
  simpa only [List.mem_filter, hr, true_and, Bool.coe_iff_coe] using hmem

theorem SessionName.filter_map (sessionId : Option SessionName) :
    (sessionId.map Subtype.val).filter (· ≠ "") = sessionId.map Subtype.val := by
  cases sessionId with
  | none => rfl
  | some name => simp [Option.filter, name.2]

theorem QuestionKey.filter_map (key : Option QuestionKey) :
    (key.map Subtype.val).filter (· ≠ 0) = key.map Subtype.val := by
  cases key with
  | none => rfl
  | some k => simp [Option.filter, k.2]

/-! ## SQL -/

namespace SQLStorage

/-- Exactly the rows asked for are listed. -/
def Filters (sessionId : Option SessionName) (key : Option QuestionKey) (s : SQLStorage B E) : Prop :=
  s.listSessions (sessionId.map Subtype.val) (key.map Subtype.val) =
    s.session.filter fun r => askedFor sessionId key r.sessionId r.questionId

/-- Given both, it does not look at the key. -/
theorem filters_iff (sessionId : Option SessionName) (key : Option QuestionKey) (s : SQLStorage B E) :
    s.Filters sessionId key ↔ ∀ name ∈ sessionId, ∀ k ∈ key, ∀ r ∈ s.session,
      r.sessionId = name.1 → r.questionId = k.1 := by
  unfold Filters listSessions
  cases sessionId with
  | none =>
    cases key with
    | none => simp [askedFor]
    | some k => simp [askedFor, k.2]
  | some name =>
    have hname : (Option.some name.1).any (· ≠ "") = true := by simpa using name.2
    rw [Option.map_some, if_pos hname, filter_eq_filter_iff]
    cases key with
    | none => simp [askedFor]
    | some k => simp [askedFor]

end SQLStorage

/-! ## Redis -/

namespace RedisCacheStorage

variable (om : RedisOm)

def Filters (sessionId : Option SessionName) (key : Option QuestionKey) (s : RedisCacheStorage E) : Prop :=
  listSessions om (sessionId.map Subtype.val) (key.map Subtype.val) s =
    some (.ok (s.session.filter fun r => askedFor sessionId key r.sessionId r.questionId), s)

/-- A key decides, whatever name comes with it. -/
theorem listSessions_key (sessionId : Option String) (k : QuestionKey) (s : RedisCacheStorage E) :
    listSessions om sessionId (some k.1) s = some (.ok (s.session.filter fun r => r.questionId = k.1), s) := by
  have hkey : (some k.1).filter (· ≠ 0) = some k.1 := QuestionKey.filter_map (some k)
  rw [listSessions, Exec.read_bind, hkey]
  rfl

theorem listSessions_name (name : SessionName) (s : RedisCacheStorage E) :
    listSessions om (some name.1) none s =
      some (.ok (s.session.filter fun r => om.matchesTag name.1 r.sessionId), s) := by
  have hname : (some name.1).filter (· ≠ "") = some name.1 := SessionName.filter_map (some name)
  rw [listSessions, Exec.read_bind, hname]
  rfl

/-- Given both, it does not look at the name; given a name alone, it finds
what the search takes for it. -/
theorem filters_iff (sessionId : Option SessionName) (key : Option QuestionKey) (s : RedisCacheStorage E) :
    Filters om sessionId key s ↔ ∀ name ∈ sessionId,
      (∀ k ∈ key, ∀ r ∈ s.session, r.questionId = k.1 → r.sessionId = name.1) ∧
      (key = none → ∀ r ∈ s.session, om.matchesTag name.1 r.sessionId = true ↔ r.sessionId = name.1) := by
  have hret : ∀ rows rows' : List RedisSession,
      (some (.ok rows, s) : Option (Except PyError (List RedisSession) × RedisCacheStorage E)) = some (.ok rows', s) ↔
        rows = rows' := by simp
  unfold Filters
  cases key with
  | some k =>
    rw [Option.map_some, listSessions_key, hret, filter_eq_filter_iff]
    cases sessionId with
    | none => simp [askedFor]
    | some name => simp [askedFor]
  | none =>
    cases sessionId with
    | none => simp [askedFor, listSessions, Exec.read_bind]; rfl
    | some name =>
      rw [Option.map_some, Option.map_none, listSessions_name, hret, filter_eq_filter_iff]
      have hasked : ∀ r : RedisSession,
          om.matchesTag name.1 r.sessionId = askedFor (some name) none r.sessionId r.questionId ↔
            (om.matchesTag name.1 r.sessionId = true ↔ r.sessionId = name.1) := by
        intro r
        rw [Bool.eq_iff_iff]
        simp [askedFor]
      simp [hasked]

end RedisCacheStorage

/-! ## MongoDB -/

namespace MongoStorage

def Filters (sessionId : Option SessionName) (key : Option QuestionKey) (s : MongoStorage E) : Prop :=
  listSessions (sessionId.map Subtype.val) (key.map Subtype.val) s =
    some (.ok (s.session.filter fun r => askedFor sessionId key r.sessionId r.questionId), s)

theorem filters (sessionId : Option SessionName) (key : Option QuestionKey) (s : MongoStorage E) :
    s.Filters sessionId key := by
  have hasked : ∀ r : MongoSession, ((sessionId.map Subtype.val).all (· = r.sessionId) &&
      (key.map Subtype.val).all (· = r.questionId)) = askedFor sessionId key r.sessionId r.questionId := by
    intro r
    unfold askedFor
    rw [Option.all_map, Option.all_map]
    congr 2 <;> funext x <;> exact decide_eq_decide.mpr eq_comm
  unfold Filters listSessions
  rw [Exec.read_bind, SessionName.filter_map, QuestionKey.filter_map, List.filter_congr fun r _ => hasked r]
  rfl

end MongoStorage

/-- **The filters of `list_sessions`**: MongoDB lists the rows that pass both.
Of two filters SQL drops the key and Redis the name, so each lists the rows
asked for where the other filter would leave out none of those it lists. -/
theorem list_sessions_filters (sessionId : Option SessionName) (key : Option QuestionKey) :
    (∀ s : SQLStorage B E, s.Filters sessionId key ↔ ∀ name ∈ sessionId, ∀ k ∈ key, ∀ r ∈ s.session,
      r.sessionId = name.1 → r.questionId = k.1) ∧
    (∀ (om : RedisOm) (s : RedisCacheStorage E), RedisCacheStorage.Filters om sessionId key s ↔ ∀ name ∈ sessionId,
      (∀ k ∈ key, ∀ r ∈ s.session, r.questionId = k.1 → r.sessionId = name.1) ∧
      (key = none → ∀ r ∈ s.session, om.matchesTag name.1 r.sessionId = true ↔ r.sessionId = name.1)) ∧
    ∀ s : MongoStorage E, s.Filters sessionId key :=
  ⟨fun s => SQLStorage.filters_iff sessionId key s, fun om s => RedisCacheStorage.filters_iff om sessionId key s,
    fun s => MongoStorage.filters sessionId key s⟩

def firstQuestion : QuestionKey := ⟨1, by decide⟩

/-- Two questions of one session, and two sessions of one question. -/
def overlapping : SQLStorage Empty Unit :=
  ((SQLStorage.empty.addSession 1 "one" "q").addSession 2 "one" "r").addSession 1 "two" "q"

def redisOverlapping : RedisCacheStorage Unit :=
  { RedisCacheStorage.empty with session := [⟨1, "one", "q"⟩, ⟨2, "one", "r"⟩, ⟨1, "two", "q"⟩] }

/-- Asked for session one and question one, of which there is one row, SQL
also lists the session's other question and Redis the question's other session. -/
theorem filter_dropped :
    (overlapping.Reachable ∧
      (overlapping.listSessions (some "one") (some 1)).map (fun r => (r.sessionId, r.questionId)) =
      [("one", 1), ("one", 2)] ∧ ¬ overlapping.Filters (some one) (some firstQuestion)) ∧
    ((RedisCacheStorage.addSession 1 "one" "q" >>= fun _ => RedisCacheStorage.addSession 2 "one" "r" >>= fun _ =>
        RedisCacheStorage.addSession 1 "two" "q") .empty = some (.ok (), redisOverlapping) ∧
      RedisCacheStorage.listSessions .exact (some "one") (some 1) redisOverlapping =
        some (.ok [⟨1, "one", "q"⟩, ⟨1, "two", "q"⟩], redisOverlapping) ∧
      ¬ RedisCacheStorage.Filters .exact (some one) (some firstQuestion) redisOverlapping) := by
  refine ⟨⟨.addSession (.addSession (.addSession .empty 1 "one" "q") 2 "one" "r") 1 "two" "q", by decide, ?_⟩, rfl,
    rfl, ?_⟩
  · rw [SQLStorage.filters_iff]
    intro h
    exact absurd (h one rfl firstQuestion rfl ⟨2, 2, "one", "r"⟩ (.tail _ (.head _)) rfl) (by decide)
  · rw [RedisCacheStorage.filters_iff]
    intro h
    exact absurd ((h one rfl).1 firstQuestion rfl ⟨1, "two", "q"⟩ (.tail _ (.tail _ (.head _))) rfl) (by decide)

end GptCache
