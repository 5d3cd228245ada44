/-
Runs of a `MapDataManager`, over any number of processes, and dropping a
session from the store one of them reached (gptcache/manager/data_manager.py,
`MapDataManager.list_sessions`, `delete_session`).

Asked for the entries of a session, `list_sessions` also gives the names of
the sessions of the other entries. `delete_session` looks all of them up.
-/
import Mathlib.Data.List.Dedup
import GptCache.Manager.MapDataManager

namespace GptCache.MapDataManager

variable {B E : Type} [DecidableEq E]

/-! ## Runs -/

/-- What fills the map and what reads it. -/
inductive Call (B E : Type) where
  | save (question : Asked B) (answer : Data B) (embeddingData : E) (session : Option (Session B))
  | importData (questions : List (Asked B)) (answers : List (Data B)) (embeddingDatas : List E)
      (sessionIds : List (Option String))
  | search (embeddingData : E)

/-- A call's result is that of its search. -/
def Call.run : Call B E → Exec PyError (MapDataManager B E) (Option (List (MapItem B E)))
  | .save question answer embeddingData session => do
    MapDataManager.save question answer embeddingData session
    pure none
  | .importData questions answers embeddingDatas sessionIds => do
    MapDataManager.importData questions answers embeddingDatas sessionIds
    pure none
  | .search embeddingData => MapDataManager.search embeddingData

/-- Everything a process does with its data manager. -/
inductive Op (B E : Type) where
  | call (c : Call B E)
  | addSession (item : MapItem B E) (sessionId : String)
  | listSessions (sessionId : Option String)
  | deleteSession (sessionId : String)
  | flush

section

variable (name : String → E) (order : List E → List E)

def Op.run : Op B E → Exec PyError (MapDataManager B E) Unit
  | .call c => c.run >>= fun _ => pure ()
  | .addSession item sessionId => MapDataManager.addSession item sessionId
  | .listSessions sessionId => MapDataManager.listSessions name order sessionId >>= fun _ => pure ()
  | .deleteSession sessionId => MapDataManager.deleteSession name order sessionId
  | .flush => MapDataManager.flush

/-- The stores that processes reach, each on the file the one before it left.
An operation that raises leaves what it has changed. -/
inductive Reachable : MapDataManager B E → Prop where
  | opened (maxSize : ℚ) (path : String) (permitted : Bool) : Reachable (.new maxSize, ⟨path, permitted, none⟩)
  | op {m m' : MapDataManager B E} {r : Except PyError Unit} (op : Op B E) (reached : Reachable m)
      (ran : op.run name order m = some (r, m')) : Reachable m'
  | reopened {m m' : MapDataManager B E} (maxSize : ℚ) (reached : Reachable m) (ran : init maxSize m.2 = .ok m') :
      Reachable m'

variable {name order}

theorem Reachable.after {m : MapDataManager B E} (op : Op B E) (h : Reachable name order m) :
    Reachable name order ((op.run name order).after m) := by
  unfold Exec.after
  cases hrun : op.run name order m with
  | none => exact h
  | some result => exact .op op h hrun

/-- What every operation keeps of the map, and a new map has, holds of every
map that is reached. -/
theorem Reachable.holds {P : LRUCache E (MapItem B E) → Prop} (hnew : ∀ maxSize, P (.new maxSize))
    (hop : ∀ op : Op B E, Exec.Within (Exec.Carries fun m => P m.1 ∧ ∀ data ∈ m.2.content, P data) (op.run name order))
    {m : MapDataManager B E} (h : Reachable name order m) : P m.1 ∧ ∀ data ∈ m.2.content, P data := by
  induction h with
  | opened maxSize path permitted => exact ⟨hnew maxSize, fun data hdata => by cases hdata⟩
  | op op _ ran ih => exact hop op _ _ _ ran ih
  | @reopened m m' maxSize _ ran ih =>
    unfold init at ran
    split at ran
    · cases ran
      exact ⟨hnew maxSize, ih.2⟩
    · rename_i data hdata
      split at ran
      · cases ran
        exact ⟨ih.2 data hdata, ih.2⟩
      · cases ran

end

/-! ## Listing -/

/-- `m'` is `m` with its keys in another order of use. -/
structure Reordered (m m' : MapDataManager B E) (book : List E) : Prop where
  data : m'.1.base.data = m.1.base.data
  maxsize : m'.1.base.maxsize = m.1.base.maxsize
  getsizeof : m'.1.base.getsizeof = m.1.base.getsizeof
  book : m'.1.book = book
  file : m'.2 = m.2

omit [DecidableEq E] in
theorem Reordered.trans {m m' m'' : MapDataManager B E} {book book' : List E} (h : Reordered m m' book)
    (h' : Reordered m' m'' book') : Reordered m m'' book' :=
  ⟨h'.data.trans h.data, h'.maxsize.trans h.maxsize, h'.getsizeof.trans h.getsizeof, h'.book, h'.file.trans h.file⟩

theorem getitem_ok {m : MapDataManager B E} {k : E} {item : MapItem B E} (h : m.1.base.data.get? k = some item) :
    ∃ m', getitem k m = some (.ok item, m') ∧ Reordered m m' (moveToEnd m.1.book k) := by
  refine ⟨(⟨m.1.base.read k, moveToEnd m.1.book k⟩, m.2), ?_, ⟨rfl, rfl, rfl, rfl, rfl⟩⟩
  simp only [getitem, LRUCache.getitem, LRUCache.cacheClass, Bookkeeping.cacheClass, Bookkeeping.getitem, Exec.total, h]
  rfl

theorem getitem_error {m : MapDataManager B E} {k : E} (h : m.1.base.data.get? k = none) :
    getitem k m = some (.error ⟨.KeyError, ""⟩, m) := by
  simp only [getitem, LRUCache.getitem, LRUCache.cacheClass, Bookkeeping.cacheClass, Bookkeeping.getitem, Exec.total, h]

theorem moveToEnd_idem (order : List E) (k : E) : moveToEnd (moveToEnd order k) k = moveToEnd order k := by
  simp [moveToEnd]

/-- What `list_sessions` finds for an entry. -/
def listed (name : String → E) (sessionId : Option String) (k : E) (item : MapItem B E) : List E :=
  if ∃ s ∈ sessionId, s ≠ "" ∧ s ∈ item.sessionIds then [k] else item.sessionIds.map name

/-- Reading `k` again leaves the order as it is. -/
theorem getitem_again {m m' : MapDataManager B E} {k : E} {item : MapItem B E} (h : m.1.base.data.get? k = some item)
    (hm' : Reordered m m' (moveToEnd m.1.book k)) :
    ∃ m'', getitem k m' = some (.ok item, m'') ∧ Reordered m m'' (moveToEnd m.1.book k) := by
  obtain ⟨m'', hrun, hm''⟩ := getitem_ok (m := m') (by rw [hm'.data]; exact h)
  rw [hm'.book, moveToEnd_idem] at hm''
  exact ⟨m'', hrun, hm'.trans hm''⟩

theorem sessionNames_ok (name : String → E) {m m' : MapDataManager B E} {k : E} {item : MapItem B E}
    (h : m.1.base.data.get? k = some item) (hm' : m' = m ∨ Reordered m m' (moveToEnd m.1.book k)) :
    ∃ m'', sessionNames name k m' = some (.ok (item.sessionIds.map name), m'') ∧
      Reordered m m'' (moveToEnd m.1.book k) := by
  obtain ⟨m₁, hrun, hm₁⟩ : ∃ m₁, getitem k m' = some (.ok item, m₁) ∧ Reordered m m₁ (moveToEnd m.1.book k) := by
    rcases hm' with rfl | hm'
    · exact getitem_ok h
    · exact getitem_again h hm'
  rw [sessionNames, Exec.bind_of_ok _ hrun]
  by_cases hlen : 0 < item.sessionIds.length
  · obtain ⟨m₂, hrun, hm₂⟩ := getitem_again h hm₁
    rw [if_pos hlen, Exec.bind_of_ok _ hrun]
    exact ⟨m₂, rfl, hm₂⟩
  · have hnil : item.sessionIds = [] := List.length_eq_zero_iff.mp (by omega)
    rw [if_neg hlen, hnil]
    exact ⟨m₁, rfl, hm₁⟩

theorem listEntry_ok (name : String → E) (sessionId : Option String) {m : MapDataManager B E} {k : E}
    {item : MapItem B E} (h : m.1.base.data.get? k = some item) :
    ∃ m', listEntry name sessionId k m = some (.ok (listed name sessionId k item), m') ∧
      Reordered m m' (moveToEnd m.1.book k) := by
  unfold listEntry listed inSession
  cases hs : sessionId.filter (· ≠ "") with
  | none =>
    have hno : ¬ ∃ s ∈ sessionId, s ≠ "" ∧ s ∈ item.sessionIds := by
      rintro ⟨s, rfl, hne, -⟩
      simp [Option.filter, hne] at hs
    rw [if_neg hno]
    exact sessionNames_ok name h (.inl rfl)
  | some s =>
    obtain ⟨rfl, hne⟩ : sessionId = some s ∧ s ≠ "" := by simpa [Option.filter_eq_some_iff] using hs
    obtain ⟨m₁, hrun, hm₁⟩ := getitem_ok h
    rw [Exec.bind_assoc, Exec.bind_of_ok _ hrun, Exec.pure_bind]
    by_cases hmem : s ∈ item.sessionIds
    · rw [if_pos (decide_eq_true hmem), if_pos ⟨s, rfl, hne, hmem⟩]
      exact ⟨m₁, rfl, hm₁⟩
    · have hno : ¬ ∃ s' ∈ some s, s' ≠ "" ∧ s' ∈ item.sessionIds := by
        rintro ⟨_, ⟨⟩, -, h⟩
        exact hmem h
      rw [if_neg (by simpa using hmem), if_neg hno]
      exact sessionNames_ok name h (.inr hm₁)

/-- What `list_sessions` finds for a key. -/
def listedAt (name : String → E) (sessionId : Option String) (d : Dict E (MapItem B E)) (k : E) : List E :=
  (d.get? k).elim [] (listed name sessionId k)

theorem collect_listEntry (name : String → E) (sessionId : Option String) : ∀ {ks : List E} {m : MapDataManager B E},
    (∀ k ∈ ks, m.1.base.data.contains k = true) →
    ∃ m', Exec.collect (listEntry name sessionId) ks m =
      some (.ok (ks.map (listedAt name sessionId m.1.base.data)), m') ∧
      Reordered m m' (ks.foldl moveToEnd m.1.book)
  | [], m, _ => ⟨m, rfl, ⟨rfl, rfl, rfl, rfl, rfl⟩⟩
  | k :: ks, m, hks => by
    obtain ⟨item, hitem⟩ := Dict.contains_eq_true.mp (hks k (by simp))
    obtain ⟨m₁, hrun, hm₁⟩ := listEntry_ok name sessionId hitem
    obtain ⟨m₂, hrest, hm₂⟩ := collect_listEntry name sessionId
      (show ∀ k' ∈ ks, m₁.1.base.data.contains k' = true from fun k' hk' => by
        rw [hm₁.data]; exact hks k' (by simp [hk']))
    rw [hm₁.data] at hrest
    rw [hm₁.book] at hm₂
    refine ⟨m₂, ?_, hm₁.trans hm₂⟩
    have hat : listedAt name sessionId m.1.base.data k = listed name sessionId k item := by simp [listedAt, hitem]
    rw [Exec.collect, Exec.bind_of_ok _ hrun, Exec.bind_of_ok _ hrest, List.map_cons, hat]
    rfl

/-- Listing reads the keys in the order in which they were first stored. -/
theorem listSessions_ok (name : String → E) (order : List E → List E) (sessionId : Option String)
    (m : MapDataManager B E) :
    ∃ m', listSessions name order sessionId m =
        some (.ok (order (m.1.base.data.keys.flatMap (listedAt name sessionId m.1.base.data)).dedup), m') ∧
      Reordered m m' (m.1.base.data.keys.foldl moveToEnd m.1.book) := by
  obtain ⟨m', hrun, hm'⟩ := collect_listEntry name sessionId (m := m) fun k hk => Dict.mem_keys.mp hk
  refine ⟨m', ?_, hm'⟩
  rw [listSessions, Exec.read_bind, Exec.bind_of_ok _ hrun, List.flatMap_def]
  rfl

/-! ## Taking a session out of one entry -/

/-- What is left of an entry without the session: nothing, if it was in no other. -/
def left (s : String) (item : MapItem B E) : Option (MapItem B E) :=
  if item.sessionIds.erase s = [] then none else some { item with sessionIds := item.sessionIds.erase s }

theorem removeSession_ok {m : MapDataManager B E} {k : E} {s : String} {item : MapItem B E}
    (h : m.1.base.data.get? k = some item) (hs : s ∈ item.sessionIds) :
    ∃ m', removeSession s k m = some (.ok (), m') ∧ m'.2 = m.2 ∧
      ∀ k', m'.1.base.data.get? k' = if k' = k then left s item else m.1.base.data.get? k' := by
  obtain ⟨m₁, hrun₁, hm₁⟩ := getitem_ok h
  let item' : MapItem B E := { item with sessionIds := item.sessionIds.erase s }
  let m₂ : MapDataManager B E := ({ m₁.1 with base := { m₁.1.base with data := m₁.1.base.data.set k item' } }, m₁.2)
  have hitem' : m₂.1.base.data.get? k = some item' := Dict.get?_set_self _ _ _
  obtain ⟨m₃, hrun₃, hm₃⟩ := getitem_ok hitem'
  have hget : ∀ k', m₃.1.base.data.get? k' = if k' = k then some item' else m.1.base.data.get? k' := by
    intro k'
    rw [hm₃.data, Dict.get?_set, hm₁.data]
  have hfile : m₃.2 = m.2 := hm₃.file.trans hm₁.file
  have hset : (Exec.modify fun m => ({ m.1 with base := { m.1.base with data := m.1.base.data.set k item' } }, m.2) :
      Exec PyError (MapDataManager B E) Unit) m₁ = some (.ok (), m₂) := rfl
  rw [removeSession, Exec.bind_of_ok _ hrun₁, if_pos hs, Exec.bind_of_ok _ hset, Exec.bind_of_ok _ hrun₃]
  by_cases hnil : item.sessionIds.erase s = []
  · have hlen : item'.sessionIds.length = 0 := List.length_eq_zero_iff.mpr hnil
    rw [if_pos hlen]
    refine ⟨_, rfl, hfile, fun k' => ?_⟩
    show (m₃.1.base.data.erase k).get? k' = _
    rw [Dict.get?_erase, hget, left, if_pos hnil]
    by_cases hk : k' = k
    · rw [if_pos hk, if_pos hk]
    · rw [if_neg hk, if_neg hk, if_neg hk]
  · have hlen : ¬ item'.sessionIds.length = 0 := fun hlen => hnil (List.length_eq_zero_iff.mp hlen)
    rw [if_neg hlen]
    refine ⟨_, rfl, hfile, fun k' => ?_⟩
    rw [hget, left, if_neg hnil]

theorem removeSession_error {m : MapDataManager B E} {k : E} {s : String}
    (h : ∀ item, m.1.base.data.get? k = some item → s ∉ item.sessionIds) :
    ∃ e m', removeSession s k m = some (.error e, m') ∧ m'.2 = m.2 ∧ m'.1.base.data = m.1.base.data := by
  cases hget : m.1.base.data.get? k with
  | none =>
    exact ⟨_, m, by rw [removeSession, Exec.bind_of_error _ (getitem_error hget)], rfl, rfl⟩
  | some item =>
    obtain ⟨m₁, hrun, hm₁⟩ := getitem_ok hget
    refine ⟨⟨.KeyError, "'" ++ s ++ "'"⟩, m₁, ?_, hm₁.file, hm₁.data⟩
    rw [removeSession, Exec.bind_of_ok _ hrun, if_neg (h item hget)]
    rfl

/-- The entry of `k` is in the session. -/
def InSession (d : Dict E (MapItem B E)) (s : String) (k : E) : Prop :=
    ∃ item, d.get? k = some item ∧ s ∈ item.sessionIds

/-- A visit to one key is about its entry alone, so the keys are visited
without an error if all were of the session before. -/
theorem forEach_removeSession {s : String} : ∀ {ks : List E} {m : MapDataManager B E}, ks.Nodup →
    (∀ k ∈ ks, InSession m.1.base.data s k) →
    ∃ m', Exec.forEach (removeSession s) ks m = some (.ok (), m') ∧
      ∀ k, m'.1.base.data.get? k = if k ∈ ks then (m.1.base.data.get? k).bind (left s) else m.1.base.data.get? k
  | [], m, _, _ => ⟨m, rfl, fun k => by simp⟩
  | k :: ks, m, hnodup, hks => by
    rw [List.nodup_cons] at hnodup
    obtain ⟨item, hitem, hs⟩ := hks k (by simp)
    obtain ⟨m₁, hrun, -, hm₁⟩ := removeSession_ok hitem hs
    have hother : ∀ k' ∈ ks, k' ≠ k := fun k' hk' heq => hnodup.1 (heq ▸ hk')
    have hrest : ∀ k' ∈ ks, InSession m₁.1.base.data s k' := by
      intro k' hk'
      obtain ⟨item', hitem', hs'⟩ := hks k' (by simp [hk'])
      exact ⟨item', by rw [hm₁, if_neg (hother k' hk'), hitem'], hs'⟩
    obtain ⟨m₂, hrun₂, hm₂⟩ := forEach_removeSession hnodup.2 hrest
    refine ⟨m₂, by rw [Exec.forEach_cons, Exec.bind_of_ok _ hrun, hrun₂], fun k' => ?_⟩
    rw [hm₂, hm₁]
    by_cases hk : k' = k
    · subst hk
      rw [if_neg hnodup.1, if_pos rfl, if_pos (by simp), hitem, Option.bind_some]
    · simp only [hk, if_false, List.mem_cons, false_or]

/-- A visited key that was not of the session raises. -/
theorem forEach_removeSession_ok {s : String} : ∀ {ks : List E} {m m' : MapDataManager B E}, ks.Nodup →
    Exec.forEach (removeSession s) ks m = some (.ok (), m') → ∀ k ∈ ks, InSession m.1.base.data s k
  | [], _, _, _, _ => by simp
  | k :: ks, m, m', hnodup, hrun => by
    rw [List.nodup_cons] at hnodup
    obtain ⟨_, m₁, hfirst, hrest⟩ := Exec.bind_ok.mp hrun
    have hin : InSession m.1.base.data s k := by
      by_contra hnot
      obtain ⟨e, m₂, herror, -⟩ := removeSession_error (m := m) (k := k) (s := s) fun item hitem hs =>
        hnot ⟨item, hitem, hs⟩
      rw [herror] at hfirst
      cases hfirst
    obtain ⟨item, hitem, hs⟩ := hin
    obtain ⟨m₂, hok, -, hm₂⟩ := removeSession_ok hitem hs
    rw [hok] at hfirst
    cases hfirst
    intro k' hk'
    rcases List.mem_cons.mp hk' with rfl | hk'
    · exact ⟨item, hitem, hs⟩
    · obtain ⟨item', hitem', hs'⟩ := forEach_removeSession_ok hnodup.2 hrest k' hk'
      rw [hm₂, if_neg fun heq : k' = k => hnodup.1 (heq ▸ hk')] at hitem'
      exact ⟨item', hitem', hs'⟩

/-! ## Session sets are sets -/

/-- No set lists a name twice. -/
def SetsDistinct (s : LRUCache E (MapItem B E)) : Prop :=
  ∀ k item, s.base.data.get? k = some item → item.sessionIds.Nodup

theorem SetsDistinct.set {s s' : LRUCache E (MapItem B E)} (h : SetsDistinct s) {k : E} {item : MapItem B E}
    (hitem : item.sessionIds.Nodup) (hs' : s'.base.data = s.base.data.set k item) : SetsDistinct s' := by
  intro k' item' hget
  rw [hs', Dict.get?_set] at hget
  by_cases hk : k' = k
  · rw [if_pos hk, Option.some.injEq] at hget
    exact hget ▸ hitem
  · rw [if_neg hk] at hget
    exact h k' item' hget

theorem SetsDistinct.erase {s s' : LRUCache E (MapItem B E)} (h : SetsDistinct s) {k : E}
    (hs' : s'.base.data = s.base.data.erase k) : SetsDistinct s' := by
  intro k' item' hget
  rw [hs', Dict.get?_erase] at hget
  by_cases hk : k' = k
  · rw [if_pos hk] at hget
    cases hget
  · rw [if_neg hk] at hget
    exact h k' item' hget

/-- So in the map and in its file. -/
def Distinct (m : MapDataManager B E) : Prop := SetsDistinct m.1 ∧ ∀ data ∈ m.2.content, SetsDistinct data

theorem within_popitem : Exec.Within (Exec.Carries Distinct)
    ((LRUCache.cacheClass E (MapItem B E)).popitemSelf : Exec PyError (MapDataManager B E) Unit) := by
  refine .total fun m hm => ?_
  simp only [LRUCache.cacheClass, Bookkeeping.cacheClass, Bookkeeping.popitem, ordered]
  cases m.1.book.head? with
  | none => exact hm
  | some k =>
    cases hget : m.1.base.data.get? k with
    | none =>
      simp only [hget]
      exact hm
    | some item =>
      simp only [hget]
      exact ⟨hm.1.erase rfl, hm.2⟩

theorem within_setitem (k : E) {item : MapItem B E} (hitem : item.sessionIds.Nodup) :
    Exec.Within (Exec.Carries Distinct) (LRUCache.setitem k item : Exec PyError (MapDataManager B E) Unit) := by
  intro m r m' hrun
  have hclass : ∀ fuel, Exec.Within (Exec.Carries Distinct)
      ((LRUCache.cacheClass E (MapItem B E)).setitem (LRUCache.cacheClass E (MapItem B E)).popitemSelf fuel k item :
        Exec PyError (MapDataManager B E) Unit) := fun fuel =>
    .bind .read fun _ => .ite (.raise _) (.bind (.ite (.loop within_popitem fuel) (.pure ()))
      fun _ => .modify fun m hm => ⟨hm.1.set hitem rfl, hm.2⟩)
  exact hclass _ m r m' hrun

theorem within_removeSession (s : String) (k : E) :
    Exec.Within (Exec.Carries Distinct) (removeSession s k : Exec PyError (MapDataManager B E) Unit) := by
  intro m r m' hrun hm
  by_cases hin : InSession m.1.base.data s k
  · obtain ⟨item, hitem, hs⟩ := hin
    obtain ⟨m₁, hok, hfile, hget⟩ := removeSession_ok hitem hs
    rw [hok] at hrun
    cases hrun
    refine ⟨fun k' item' hget' => ?_, hfile ▸ hm.2⟩
    rw [hget] at hget'
    by_cases hk : k' = k
    · rw [if_pos hk, left] at hget'
      split at hget'
      · cases hget'
      · cases hget'
        exact (hm.1 k item hitem).erase s
    · rw [if_neg hk] at hget'
      exact hm.1 k' item' hget'
  · obtain ⟨e, m₁, herror, hfile, hdata⟩ := removeSession_error (m := m) (k := k) (s := s)
      fun item hitem hs => hin ⟨item, hitem, hs⟩
    rw [herror] at hrun
    cases hrun
    exact ⟨fun k' item' hget => hm.1 k' item' (hdata ▸ hget), hfile ▸ hm.2⟩

theorem within_listSessions (name : String → E) (order : List E → List E) (sessionId : Option String) :
    Exec.Within (Exec.Carries Distinct)
      (listSessions name order sessionId : Exec PyError (MapDataManager B E) (List E)) := by
  intro m r m' hrun hm
  obtain ⟨m₁, hok, hm₁⟩ := listSessions_ok name order sessionId m
  rw [hok] at hrun
  cases hrun
  exact ⟨fun k item hget => hm.1 k item (hm₁.data ▸ hget), hm₁.file ▸ hm.2⟩

variable (name : String → E) (order : List E → List E)

theorem Op.within_distinct : ∀ op : Op B E, Exec.Within (Exec.Carries Distinct) (op.run name order)
  | .call (.save question answer embeddingData session) =>
    .bind (.bind (within_setitem _ (by cases session <;> simp)) fun _ => .pure _) fun _ => .pure _
  | .call (.importData questions answers embeddingDatas sessionIds) =>
    .bind (.bind (.ite (.raise _) (.forEach
      (fun row => within_setitem _ (by cases row.2.2.2.filter (· ≠ "") <;> simp)) _))
      fun _ => .pure _) fun _ => .pure _
  | .call (.search embeddingData) => by
    refine .bind (.total fun m hm => ?_) fun _ => .pure _
    have hdata : (m.1.getitem embeddingData).2.base.data = m.1.base.data := by
      simp only [LRUCache.getitem, LRUCache.cacheClass, Bookkeeping.cacheClass, Bookkeeping.getitem]
      cases m.1.base.data.get? embeddingData <;> rfl
    exact ⟨fun k item hget => hm.1 k item (hdata ▸ hget), hm.2⟩
  | .addSession item sessionId => by
    refine .modify fun m hm => ?_
    cases hget : m.1.base.data.get? item.embeddingData with
    | none => exact hm
    | some stored =>
      have hinsert := (hm.1 _ stored hget).insert (a := sessionId)
      exact ⟨SetsDistinct.set hm.1 hinsert rfl, hm.2⟩
  | .listSessions sessionId => .bind (within_listSessions name order sessionId) fun _ => .pure _
  | .deleteSession sessionId => .bind (within_listSessions name order _) fun _ =>
      .forEach (within_removeSession sessionId) _
  | .flush => by
    refine .modify fun m hm => ?_
    by_cases hp : m.2.permitted = true
    · rw [if_pos hp]
      exact ⟨hm.1, fun data hdata => Option.some.inj hdata ▸ hm.1⟩
    · rw [if_neg hp]
      exact hm

theorem new_setsDistinct (maxSize : ℚ) : SetsDistinct (.new maxSize : LRUCache E (MapItem B E)) := by
  intro k item hget
  cases hget

/-! ## Dropping a session -/

variable {name order}

/-- What is listed for a session: its keys, and the names of the sessions of the other entries. -/
theorem mem_listed {d : Dict E (MapItem B E)} {s : String} (hs : s ≠ "") {e : E} :
    e ∈ (d.keys.flatMap (listedAt name (some s) d)).dedup ↔ InSession d s e ∨
      ∃ k item, d.get? k = some item ∧ s ∉ item.sessionIds ∧ ∃ x ∈ item.sessionIds, e = name x := by
  rw [List.mem_dedup, List.mem_flatMap]
  constructor
  · intro hfound
    obtain ⟨k, hk, he⟩ := hfound
    obtain ⟨item, hitem⟩ := Dict.contains_eq_true.mp (Dict.mem_keys.mp hk)
    rw [listedAt, hitem, Option.elim_some, listed] at he
    by_cases hmem : s ∈ item.sessionIds
    · rw [if_pos ⟨s, rfl, hs, hmem⟩, List.mem_singleton] at he
      exact .inl ⟨item, he ▸ hitem, hmem⟩
    · rw [if_neg fun ⟨_, heq, _, hin⟩ => hmem (Option.some.inj heq ▸ hin), List.mem_map] at he
      obtain ⟨x, hx, rfl⟩ := he
      exact .inr ⟨k, item, hitem, hmem, x, hx, rfl⟩
  · have hat : ∀ {k item}, d.get? k = some item → k ∈ d.keys ∧
        listedAt name (some s) d k = listed name (some s) k item :=
      fun hitem => ⟨Dict.mem_keys.mpr (Dict.contains_eq_true.mpr ⟨_, hitem⟩), by rw [listedAt, hitem, Option.elim_some]⟩
    rintro (⟨item, hitem, hmem⟩ | ⟨k, item, hitem, hmem, x, hx, rfl⟩)
    · refine ⟨e, (hat hitem).1, ?_⟩
      rw [(hat hitem).2, listed, if_pos ⟨s, rfl, hs, hmem⟩]
      exact List.mem_singleton_self e
    · refine ⟨k, (hat hitem).1, ?_⟩
      rw [(hat hitem).2, listed, if_neg fun ⟨_, heq, _, hin⟩ => hmem (Option.some.inj heq ▸ hin)]
      exact List.mem_map_of_mem hx

/-- The entries `d` became `d'` when the session was dropped. -/
structure SessionDropped (s : String) (d d' : Dict E (MapItem B E)) : Prop where
  /-- No entry is in the session. -/
  gone : ∀ k item, d'.get? k = some item → s ∉ item.sessionIds
  /-- The entries that were in it alone are removed, and no others. -/
  removed : ∀ k, (d.contains k = true ∧ d'.contains k = false) ↔ ∃ item, d.get? k = some item ∧ item.sessionIds = [s]
  /-- An entry is what it was, out of the session. -/
  kept : ∀ k item, d'.get? k = some item →
    ∃ before, d.get? k = some before ∧ item = { before with sessionIds := before.sessionIds.erase s }

omit [DecidableEq E] in
theorem left_eq_none {s : String} {item : MapItem B E} (hs : s ∈ item.sessionIds) :
    left s item = none ↔ item.sessionIds = [s] := by
  unfold left
  constructor
  · intro h
    have hnil : item.sessionIds.erase s = [] := by
      by_contra hne
      rw [if_neg hne] at h
      cases h
    have hlen := List.length_erase_of_mem hs
    obtain ⟨x, hx⟩ := List.length_eq_one_iff.mp (show item.sessionIds.length = 1 by
      have hpos := List.length_pos_of_mem hs
      rw [hnil, List.length_nil] at hlen
      omega)
    rw [hx, List.mem_singleton] at hs
    rw [hx, hs]
  · intro h
    rw [if_pos (by simp [h])]

theorem SessionDropped.of_left {s : String} {d d' : Dict E (MapItem B E)}
    (hdistinct : ∀ k item, d.get? k = some item → item.sessionIds.Nodup)
    (hin : ∀ k, InSession d s k → d'.get? k = (d.get? k).bind (left s))
    (hout : ∀ k, ¬ InSession d s k → d'.get? k = d.get? k) : SessionDropped s d d' := by
  have hkept : ∀ k item, d'.get? k = some item →
      ∃ before, d.get? k = some before ∧ item = { before with sessionIds := before.sessionIds.erase s } := by
    intro k item hget
    by_cases hk : InSession d s k
    · have hleft := hin k hk
      obtain ⟨before, hbefore, -⟩ := hk
      rw [hleft, hbefore, Option.bind_some, left] at hget
      split at hget
      · cases hget
      · cases hget
        exact ⟨before, hbefore, rfl⟩
    · rw [hout k hk] at hget
      exact ⟨item, hget, by rw [List.erase_of_not_mem fun hmem => hk ⟨item, hget, hmem⟩]⟩
  refine ⟨fun k item hget => ?_, fun k => ?_, hkept⟩
  · obtain ⟨before, hbefore, rfl⟩ := hkept k item hget
    exact (hdistinct k before hbefore).not_mem_erase
  · by_cases hk : InSession d s k
    · have hleft := hin k hk
      obtain ⟨before, hbefore, hmem⟩ := hk
      rw [Dict.contains_eq_false, hleft, hbefore, Option.bind_some, left_eq_none hmem]
      exact ⟨fun h => ⟨before, rfl, h.2⟩, fun ⟨item, heq, h⟩ =>
        ⟨Dict.contains_eq_true.mpr ⟨before, hbefore⟩, Option.some.inj heq ▸ h⟩⟩
    · refine iff_of_false (fun h => ?_) fun ⟨item, hitem, h⟩ => hk ⟨item, hitem, by simp [h]⟩
      obtain ⟨item, hitem⟩ := Dict.contains_eq_true.mp h.1
      rw [Dict.contains_eq_false, hout k hk, hitem] at h
      cases h.2

/-- Dropping a session from a store that processes can reach does what it is
to do exactly when the names of the sessions of the entries outside of it are
all keys of entries in it. -/
theorem deleteSession_drops_iff (horder : ∀ xs, (order xs).Perm xs) {m : MapDataManager B E}
    (h : Reachable name order m) {s : String} (hs : s ≠ "") :
    (∃ m', deleteSession name order s m = some (.ok (), m') ∧ SessionDropped s m.1.base.data m'.1.base.data) ↔
      ∀ k item, m.1.base.data.get? k = some item → s ∉ item.sessionIds →
        ∀ x ∈ item.sessionIds, InSession m.1.base.data s (name x) := by
  have hdistinct := (h.holds new_setsDistinct (Op.within_distinct name order)).1
  obtain ⟨m₁, hlist, hm₁⟩ := listSessions_ok name order (some s) m
  let d := m.1.base.data
  let keys := order (d.keys.flatMap (listedAt name (some s) d)).dedup
  have hkeys : keys.Nodup := (horder _).nodup_iff.mpr (List.nodup_dedup _)
  have hmem : ∀ e, e ∈ keys ↔ InSession d s e ∨
      ∃ k item, d.get? k = some item ∧ s ∉ item.sessionIds ∧ ∃ x ∈ item.sessionIds, e = name x :=
    fun e => (horder _).mem_iff.trans (mem_listed hs)
  have hdata : m₁.1.base.data = d := hm₁.data
  rw [deleteSession, Exec.bind_of_ok _ hlist]
  constructor
  · intro hdrops k item hitem hnot x hx
    obtain ⟨m', hrun, -⟩ := hdrops
    have hvisited := forEach_removeSession_ok hkeys hrun (name x)
        ((hmem _).mpr (.inr ⟨k, item, hitem, hnot, x, hx, rfl⟩))
    rwa [hdata] at hvisited
  · intro hnames
    have hin : ∀ e ∈ keys, InSession d s e := by
      intro e he
      rcases (hmem e).mp he with hin | ⟨k, item, hitem, hnot, x, hx, rfl⟩
      · exact hin
      · exact hnames k item hitem hnot x hx
    obtain ⟨m', hrun, hm'⟩ := forEach_removeSession hkeys (m := m₁) (by rw [hdata]; exact hin)
    rw [hdata] at hm'
    refine ⟨m', hrun, .of_left hdistinct (fun k hk => ?_) fun k hk => ?_⟩
    · rw [hm', if_pos ((hmem k).mpr (.inl hk))]
    · rw [hm', if_neg fun he => hk (hin k he)]

/-- Three questions: of the sessions of the others, one is named as the question in the session `a`. -/
def namedAlike : MapDataManager Unit String :=
  ((Op.call (.importData [.plain (.str "q1"), .plain (.str "q2"), .plain (.str "q3")]
    [.answers (.str "a1"), .answers (.str "a2"), .answers (.str "a3")] ["q1", "q2", "q3"]
    [some "a", some "q1", none])).run id id).after (.new 10, ⟨"data_map.txt", true, none⟩)

theorem deleteSession_drops_iff_twoSessions : ∃ m', deleteSession id id "a" namedAlike = some (.ok (), m') ∧
    SessionDropped "a" namedAlike.1.base.data m'.1.base.data := by
  have hreachable : Reachable id id namedAlike := .after _ (.opened 10 "data_map.txt" true)
  refine (deleteSession_drops_iff (fun _ => .refl _) hreachable (by decide)).mpr fun k item hitem hnot x hx => ?_
  have heval : namedAlike.1.base.data.entries.all (fun e => e.2.sessionIds.all fun x =>
      decide ("a" ∈ e.2.sessionIds) || decide (x = "q1")) = true := by decide +kernel
  have hmem : (k, item) ∈ namedAlike.1.base.data.entries := Dict.mem_entries.mpr hitem
  obtain rfl : x = "q1" := by
    have hx' := List.all_eq_true.mp (List.all_eq_true.mp heval _ hmem) x hx
    simpa [hnot] using hx'
  have hnamed : (namedAlike.1.base.data.get? "q1").any (fun item => decide ("a" ∈ item.sessionIds)) = true := by
    decide +kernel
  obtain ⟨item', hitem', hin⟩ := (Option.any_eq_true _ _).mp hnamed
  exact ⟨item', hitem', of_decide_eq_true hin⟩

/-- Two questions, each asked in a session of its own. -/
def twoSessions : MapDataManager Unit String :=
  ((Op.call (.importData [.plain (.str "q1"), .plain (.str "q2")] [.answers (.str "a1"), .answers (.str "a2")]
    ["q1", "q2"] [some "a", some "b"])).run id id).after (.new 10, ⟨"data_map.txt", true, none⟩)

theorem twoSessions_reachable : Reachable id id twoSessions := .after _ (.opened 10 "data_map.txt" true)

/-- The name of the other session is no key. -/
theorem deleteSession_raises : Reachable id id twoSessions ∧
    (deleteSession id id "a" twoSessions).map Prod.fst = some (.error ⟨.KeyError, ""⟩) :=
  ⟨twoSessions_reachable, by decide +kernel⟩

end GptCache.MapDataManager
