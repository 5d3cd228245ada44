/-
`SSDataManager.delete_session`, which `Session.drop` calls, over each of the
scalar stores.

The data manager lists the session's rows, takes the `id` of each and hands
these to the store's `delete_session`. What a row has as `id` and what the
store takes its keys for is another matter in each store, so what is dropped is
said for each of them (`delete_session_drops`).
-/
import GptCache.Manager.DynamoStorage
import GptCache.Manager.MongoStorage
import GptCache.Manager.RedisStorage

namespace GptCache

variable {B E S Row Key R : Type}

/-- The name of a session: `Session.__init__` leaves none empty. -/
abbrev SessionName := { name : String // name ≠ "" }

/-- What `SSDataManager.delete_session` uses of a scalar store. -/
structure SessionStore (S Row Key : Type) where
  /-- `list_sessions`, with no key. -/
  listSessions : Option String → Exec PyError S (List Row)
  /-- The attribute `id` of what is listed. -/
  id : Row → Except PyError Key
  deleteSession : List Key → Exec PyError S Unit

/-- `SSDataManager.delete_session`. -/
def SSDataManager.deleteSession (st : SessionStore S Row Key) (sessionId : SessionName) : Exec PyError S Unit :=
  st.listSessions (some sessionId.1) >>= fun res =>
  Exec.ofExcept (res.mapM st.id) >>= fun keys =>
  st.deleteSession keys

theorem SSDataManager.deleteSession_of_ids {st : SessionStore S Row Key} {sessionId : SessionName}
    {s : S} {res : List Row} {keys : List Key} (hlist : st.listSessions (some sessionId.1) s = some (.ok res, s))
    (hids : res.mapM st.id = .ok keys) : deleteSession st sessionId s = st.deleteSession keys s := by
  rw [deleteSession, Exec.bind_of_ok _ hlist, hids]
  rfl

theorem SSDataManager.deleteSession_of_no_id {st : SessionStore S Row Key} {sessionId : SessionName} {s : S} {row : Row}
    {res : List Row} {err : PyError} (hlist : st.listSessions (some sessionId.1) s = some (.ok (row :: res), s))
    (hid : st.id row = .error err) : deleteSession st sessionId s = some (.error err, s) := by
  rw [deleteSession, Exec.bind_of_ok _ hlist, List.mapM_cons, hid]
  rfl

/-- The rows of one session are removed, and all others are left. -/
def SessionStore.Drops (st : SessionStore S Row Key) (rows : S → List R) (isOf : String → R → Bool)
    (sessionId : SessionName) (s : S) : Prop :=
  ∃ s', SSDataManager.deleteSession st sessionId s = some (.ok (), s') ∧
    rows s' = (rows s).filter fun r => !isOf sessionId.1 r

theorem SessionStore.not_drops_of_error {st : SessionStore S Row Key} {rows : S → List R} {isOf : String → R → Bool}
    {sessionId : SessionName} {s s' : S} {err : PyError}
    (h : SSDataManager.deleteSession st sessionId s = some (.error err, s')) : ¬ st.Drops rows isOf sessionId s := by
  intro ⟨t, hret, _⟩
  rw [h] at hret
  cases hret

theorem SessionStore.drops_of_ok {st : SessionStore S Row Key} {rows : S → List R} {isOf : String → R → Bool}
    {sessionId : SessionName} {s s' : S} (h : SSDataManager.deleteSession st sessionId s = some (.ok (), s')) :
    st.Drops rows isOf sessionId s ↔ rows s' = (rows s).filter fun r => !isOf sessionId.1 r := by
  refine ⟨fun ⟨t, hret, hrows⟩ => ?_, fun hrows => ⟨s', h, hrows⟩⟩
  rw [h] at hret
  cases hret
  exact hrows

/-- Nothing is removed just where there is nothing to remove. -/
theorem filter_not_eq_self {rows : List R} {p : R → Bool} :
    rows = (rows.filter fun r => !p r) ↔ ∀ r ∈ rows, p r = false := by
  rw [eq_comm, List.filter_eq_self]
  simp only [Bool.not_eq_true']

/-! ## SQL -/

namespace SQLStorage

/-- The stores its methods make of an empty one. -/
inductive Reachable : SQLStorage B E → Prop
  | empty : Reachable empty
  | batchInsert {s : SQLStorage B E} (h : Reachable s) (allData : List (CacheData B E)) :
      Reachable (s.batchInsert allData).2
  | markDeleted {s : SQLStorage B E} (h : Reachable s) (keys : List Nat) : Reachable (s.markDeleted keys)
  | clearDeletedData {s : SQLStorage B E} (h : Reachable s) : Reachable s.clearDeletedData
  | addSession {s : SQLStorage B E} (h : Reachable s) (questionId : Nat) (sessionId sessionQuestion : String) :
      Reachable (s.addSession questionId sessionId sessionQuestion)
  | deleteSession {s : SQLStorage B E} (h : Reachable s) (keys : List Nat) : Reachable (s.deleteSession keys)

def sessions : SessionStore (SQLStorage B E) SessionRow Nat where
  listSessions sessionId := Exec.read >>= fun s => pure (s.listSessions sessionId none)
  id r := .ok r.id
  deleteSession keys := Exec.modify fun s => s.deleteSession keys

def sessionIds (s : SQLStorage B E) : List Nat := s.session.map SessionRow.id

theorem insert_sessionIds {s : SQLStorage B E} (h : s.sessionIds.Pairwise (· < ·)) (data : CacheData B E) :
    (s.insert data).2.sessionIds.Pairwise (· < ·) := by
  unfold sessionIds insert at *
  dsimp only
  split
  · exact h
  · split
    · exact h
    · rw [List.map_append]
      exact nextId_ascending h

theorem batchInsert_sessionIds (allData : List (CacheData B E)) {s : SQLStorage B E}
    (h : s.sessionIds.Pairwise (· < ·)) :
    (s.batchInsert allData).2.sessionIds.Pairwise (· < ·) := by
  induction allData generalizing s with
  | nil => exact h
  | cons data allData ih => exact ih (insert_sessionIds h data)

/-- No two session rows have one id. -/
theorem Reachable.sessionIds_ascending {s : SQLStorage B E} (h : s.Reachable) : s.sessionIds.Pairwise (· < ·) := by
  induction h with
  | empty => exact List.Pairwise.nil
  | batchInsert _ allData ih => exact batchInsert_sessionIds allData ih
  | markDeleted _ _ ih => exact ih
  | clearDeletedData _ ih => exact ih.sublist (List.filter_sublist.map _)
  | addSession _ _ _ _ ih =>
    unfold sessionIds SQLStorage.addSession
    rw [List.map_append]
    exact nextId_ascending ih
  | deleteSession _ _ ih => exact ih.sublist (List.filter_sublist.map _)

/-- The session's rows are removed, and no others. -/
def DropsSession (sessionId : SessionName) (s : SQLStorage B E) : Prop :=
  sessions.Drops SQLStorage.session (fun name r => r.sessionId = name) sessionId s

theorem dropsSession {s : SQLStorage B E} (h : s.Reachable) (sessionId : SessionName) : DropsSession sessionId s := by
  obtain ⟨name, hname⟩ := sessionId
  have hlist : s.listSessions (some name) none = s.session.filter fun r => r.sessionId = name := by
    simp [listSessions, hname]
  have hret : SSDataManager.deleteSession sessions ⟨name, hname⟩ s = some (.ok (), s.deleteSession
      ((s.session.filter fun r => r.sessionId = name).map SessionRow.id)) := by
    refine SSDataManager.deleteSession_of_ids ?_ List.mapM_pure
    rw [← hlist]
    rfl
  refine (SessionStore.drops_of_ok hret).mpr (List.filter_congr fun r hr => ?_)
  have hkeys : r.id ∈ (s.session.filter fun r => r.sessionId = name).map SessionRow.id ↔ r.sessionId = name := by
    refine ⟨fun hmem => ?_, fun hr' => List.mem_map_of_mem (List.mem_filter.mpr ⟨hr, by simpa using hr'⟩)⟩
    obtain ⟨r', hr', hid⟩ := List.mem_map.mp hmem
    obtain ⟨hr', hof⟩ := List.mem_filter.mp hr'
    have hnodup : s.sessionIds.Nodup := h.sessionIds_ascending.imp Nat.ne_of_lt
    rw [← List.inj_on_of_nodup_map hnodup hr' hr hid]
    simpa using hof
  simp only [hkeys, decide_not]

end SQLStorage

/-! ## Redis -/

namespace RedisCacheStorage

variable (om : RedisOm)

/-- A session document has a `pk` and no `id`. -/
def sessions : SessionStore (RedisCacheStorage E) RedisSession Nat where
  listSessions sessionId := listSessions om sessionId none
  id _ := .error ⟨.AttributeError, "'Sessions' object has no attribute 'id'"⟩
  deleteSession := deleteSession om

theorem findIn_nil_error {err : PyError} (h : om.emptyIn = some err) :
    (findIn om [] : Exec PyError (RedisCacheStorage E) Unit) = Exec.raise err := by
  unfold findIn
  rw [h]

theorem findIn_nil (h : om.emptyIn = none) : (findIn om [] : Exec PyError (RedisCacheStorage E) Unit) = pure () := by
  unfold findIn
  rw [h]

def DropsSession (sessionId : SessionName) (s : RedisCacheStorage E) : Prop :=
  (sessions om).Drops RedisCacheStorage.session (fun name r => r.sessionId = name) sessionId s

/-- A session is dropped where no query finds a row of it and there is none. -/
theorem dropsSession_iff (sessionId : SessionName) (s : RedisCacheStorage E) :
    DropsSession om sessionId s ↔
      om.emptyIn = none ∧ ∀ r ∈ s.session, om.matchesTag sessionId.1 r.sessionId = false ∧
        r.sessionId ≠ sessionId.1 := by
  obtain ⟨name, hname⟩ := sessionId
  have hlist : (sessions om).listSessions (some name) s =
      some (.ok (s.session.filter fun r => om.matchesTag name r.sessionId), s) := by
    simp [sessions, listSessions, Exec.read_bind, Option.filter, hname]
    rfl
  cases hfound : s.session.filter fun r => om.matchesTag name r.sessionId with
  | cons row res =>
    rw [hfound] at hlist
    refine iff_of_false (SessionStore.not_drops_of_error (SSDataManager.deleteSession_of_no_id hlist rfl))
      fun ⟨_, hnone⟩ => ?_
    have hrow : row ∈ s.session.filter fun r => om.matchesTag name r.sessionId := hfound ▸ List.mem_cons_self
    obtain ⟨hmem, hmatches⟩ := List.mem_filter.mp hrow
    rw [(hnone row hmem).1] at hmatches
    cases hmatches
  | nil =>
    rw [hfound] at hlist
    have hret : SSDataManager.deleteSession (sessions om) ⟨name, hname⟩ s = deleteSession om [] s :=
      SSDataManager.deleteSession_of_ids hlist rfl
    have hnomatch : ∀ r ∈ s.session, om.matchesTag name r.sessionId = false := by
      simpa using List.filter_eq_nil_iff.mp hfound
    cases hempty : om.emptyIn with
    | some err =>
      have herror : SSDataManager.deleteSession (sessions om) ⟨name, hname⟩ s = some (.error err, s) := by
        rw [hret, deleteSession, findIn_nil_error om hempty]
        rfl
      exact iff_of_false (SessionStore.not_drops_of_error herror) fun h => Option.some_ne_none err h.1
    | none =>
      have hok : SSDataManager.deleteSession (sessions om) ⟨name, hname⟩ s =
          some (.ok (), { s with session := s.session.filter fun r => r.questionId ∉ [] }) := by
        rw [hret, deleteSession, findIn_nil om hempty]
        rfl
      have hkept : (s.session.filter fun r => r.questionId ∉ []) = s.session := List.filter_eq_self.mpr (by simp)
      rw [DropsSession, SessionStore.drops_of_ok hok, hkept, filter_not_eq_self]
      simp only [decide_eq_false_iff_not, true_and]
      exact forall₂_congr fun r hr => by simp [hnomatch r hr]

end RedisCacheStorage

/-! ## MongoDB -/

namespace MongoStorage

variable (me : Mongoengine)

def sessions : SessionStore (MongoStorage E) MongoSession (Option Nat) where
  listSessions sessionId := listSessions sessionId none
  id r := .ok (me.autoId r)
  deleteSession := deleteSession

def DropsSession (sessionId : SessionName) (s : MongoStorage E) : Prop :=
  (sessions me).Drops MongoStorage.session (fun name r => r.sessionId = name) sessionId s

/-- Where the rows' `id` is never set, nothing is ever removed. -/
theorem dropsSession_iff (hid : ∀ r, me.autoId r = none) (sessionId : SessionName) (s : MongoStorage E) :
    DropsSession me sessionId s ↔ ∀ r ∈ s.session, r.sessionId ≠ sessionId.1 := by
  obtain ⟨name, hname⟩ := sessionId
  have hlist : (sessions me).listSessions (some name) s =
      some (.ok (s.session.filter fun r => name = r.sessionId), s) := by
    have hfound : (s.session.filter fun r => ((some name).filter (· ≠ "")).all (· = r.sessionId) &&
        ((none : Option Nat).filter (· ≠ 0)).all (· = r.questionId)) = s.session.filter fun r => name = r.sessionId :=
      List.filter_congr fun r _ => by simp [Option.filter, hname]
    rw [← hfound]
    rfl
  have hkept : (s.session.filter fun r =>
      some r.questionId ∉ (s.session.filter fun r => name = r.sessionId).map me.autoId) = s.session :=
    List.filter_eq_self.mpr (by simp [hid])
  have hok : SSDataManager.deleteSession (sessions me) ⟨name, hname⟩ s = some (.ok (), { s with
      session := s.session.filter fun r =>
        some r.questionId ∉ (s.session.filter fun r => name = r.sessionId).map me.autoId }) :=
    SSDataManager.deleteSession_of_ids hlist List.mapM_pure
  rw [DropsSession, SessionStore.drops_of_ok hok, hkept, filter_not_eq_self]
  simp only [decide_eq_false_iff_not, ne_eq]

end MongoStorage

/-! ## DynamoDB -/

namespace DynamoStorage

/-- What is listed are strings. -/
def sessions : SessionStore DynamoStorage String String where
  listSessions sessionId := listSessions sessionId none
  id _ := .error ⟨.AttributeError, "'str' object has no attribute 'id'"⟩
  deleteSession := deleteSession

def sessionRows (s : DynamoStorage) : List DynamoItem := s.items.filter fun i => i.id.startsWith "sessions#"

def DropsSession (sessionId : SessionName) (s : DynamoStorage) : Prop :=
  sessions.Drops sessionRows (fun name i => i.id = sessionKey name) sessionId s

theorem not_dropsSession (sessionId : SessionName) (s : DynamoStorage) : ¬ DropsSession sessionId s := by
  obtain ⟨res, hlist⟩ : ∃ res, sessions.listSessions (some sessionId.1) s = some (.ok res, s) := ⟨_, rfl⟩
  cases res with
  | nil =>
    have hret : SSDataManager.deleteSession sessions sessionId s = deleteSession [] s :=
      SSDataManager.deleteSession_of_ids hlist rfl
    exact SessionStore.not_drops_of_error hret
  | cons row res => exact SessionStore.not_drops_of_error (SSDataManager.deleteSession_of_no_id hlist rfl)

end DynamoStorage

/-- **Dropping a session** works over SQL in every store its methods make. Over
Redis it works where the session has no rows, no name is matched and a query
for any of none can be made; over MongoDB where the session has no rows; over
DynamoDB nowhere. -/
theorem delete_session_drops (sessionId : SessionName) :
    (∀ s : SQLStorage B E, s.Reachable → s.DropsSession sessionId) ∧
    (∀ (om : RedisOm) (s : RedisCacheStorage E), RedisCacheStorage.DropsSession om sessionId s ↔
      om.emptyIn = none ∧ ∀ r ∈ s.session, om.matchesTag sessionId.1 r.sessionId = false ∧ r.sessionId ≠ sessionId.1) ∧
    (∀ me : Mongoengine, (∀ r, me.autoId r = none) → ∀ s : MongoStorage E, MongoStorage.DropsSession me sessionId s ↔
      ∀ r ∈ s.session, r.sessionId ≠ sessionId.1) ∧
    (∀ s : DynamoStorage, ¬ s.DropsSession sessionId) :=
  ⟨fun _ h => SQLStorage.dropsSession h sessionId, fun om s => RedisCacheStorage.dropsSession_iff om sessionId s,
    fun me hid s => MongoStorage.dropsSession_iff me hid sessionId s, fun s =>
      DynamoStorage.not_dropsSession sessionId s⟩

def one : SessionName := ⟨"one", by decide⟩

/-- Two sessions of one question. -/
def twoSessions : SQLStorage Empty Unit := (SQLStorage.empty.addSession 1 "one" "q").addSession 1 "two" "q"

/-- Over SQL one of two sessions is dropped; over MongoDB one that has no rows. -/
theorem delete_session_drops_one :
    twoSessions.DropsSession one ∧
    MongoStorage.DropsSession .unset one (⟨0, [], [], [], [⟨1, "two", "q"⟩]⟩ : MongoStorage Unit) :=
  have h := delete_session_drops (B := Empty) (E := Unit) one
  ⟨h.1 twoSessions (.addSession (.addSession .empty 1 "one" "q") 1 "two" "q"),
    (h.2.2.1 .unset (fun _ => rfl) ⟨0, [], [], [], [⟨1, "two", "q"⟩]⟩).mpr (by decide)⟩

/-- Over the other stores a session with one row is not dropped: Redis and
DynamoDB raise, and MongoDB leaves the row where it is. -/
theorem session_left :
    (∃ s s' : RedisCacheStorage Unit, RedisCacheStorage.addSession 1 "one" "q" .empty = some (.ok (), s) ∧
      SSDataManager.deleteSession (RedisCacheStorage.sessions .exact) one s =
        some (.error ⟨.AttributeError, "'Sessions' object has no attribute 'id'"⟩, s') ∧
      ¬ RedisCacheStorage.DropsSession .exact one s) ∧
    (∃ s s' : MongoStorage Unit, MongoStorage.addSession 1 "one" "q" .empty = some (.ok (), s) ∧
      SSDataManager.deleteSession (MongoStorage.sessions .unset) one s = some (.ok (), s') ∧
      s'.session = [⟨1, "one", "q"⟩] ∧ ¬ MongoStorage.DropsSession .unset one s) ∧
    ∃ s s' : DynamoStorage, DynamoStorage.addSession "1" "one" "q" ⟨[]⟩ = some (.ok (), s) ∧
      SSDataManager.deleteSession DynamoStorage.sessions one s =
        some (.error ⟨.AttributeError, "'str' object has no attribute 'id'"⟩, s') ∧
      ¬ s.DropsSession one := by
  refine ⟨⟨_, _, rfl, rfl, ?_⟩, ⟨_, _, rfl, rfl, rfl, ?_⟩, _, _, rfl, rfl, DynamoStorage.not_dropsSession _ _⟩
  · exact SessionStore.not_drops_of_error rfl
  · rw [MongoStorage.dropsSession_iff _ fun _ => rfl]
    decide

end GptCache
