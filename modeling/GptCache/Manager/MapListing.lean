/-
Listing the sessions of a `MapDataManager` within a run of saves, imports and
searches (gptcache/manager/data_manager.py, `MapDataManager.list_sessions`).

Listing reads every entry, so it makes the order of use the order in which
the keys were first stored. Where these are one order it changes nothing that
a later call can tell.
-/
import GptCache.Manager.MapSessions

namespace GptCache.MapDataManager

variable {B E : Type} [DecidableEq E]

/-- A call, or a listing of the sessions or of a session's entries in between. -/
inductive Step (B E : Type) where
  | call (c : Call B E)
  | list (sessionId : Option String)

def Step.isCall : Step B E → Bool
  | .call _ => true
  | .list _ => false

/-- What a call returns or raises; a search returns what it has found. -/
abbrev CallResult (B E : Type) := Option (Except PyError (Option (List (MapItem B E))))

section

variable (name : String → E) (order : List E → List E)

/-- The results of the calls of a run. -/
def results : List (Step B E) → MapDataManager B E → List (CallResult B E)
  | [], _ => []
  | .call c :: steps, m => (c.run m).map Prod.fst :: results steps (c.run.after m)
  | .list sessionId :: steps, m => results steps ((listSessions name order sessionId).after m)

/-- The keys were last used in the order in which they were first stored. -/
def UsedAsStored (m : MapDataManager B E) : Prop := m.1.book = m.1.base.data.keys

/-- So wherever a run lists. -/
def ListedAsStored : List (Step B E) → MapDataManager B E → Prop
  | [], _ => True
  | .call c :: steps, m => ListedAsStored steps (c.run.after m)
  | .list sessionId :: steps, m => UsedAsStored m ∧ ListedAsStored steps ((listSessions name order sessionId).after m)

end

/-! ## What a call can tell of the map -/

/-- The map without the record of what happened to its keys. -/
def forget (m : MapDataManager B E) : MapDataManager B E := (⟨{ m.1.base with history := [] }, m.1.book⟩, m.2)

omit [DecidableEq E] in
theorem Reordered.forget {m m' : MapDataManager B E} (h : Reordered m m' m.1.book) : m'.forget = m.forget := by
  obtain ⟨⟨⟨maxsize, getsizeof, data, history⟩, book⟩, file⟩ := m'
  obtain ⟨rfl, rfl, rfl, rfl, rfl⟩ := h
  rfl

/-- The map with older events behind those of its record. -/
def withRecord (es : List (Event E (MapItem B E))) (m : MapDataManager B E) : MapDataManager B E :=
  (⟨{ m.1.base with history := m.1.base.history ++ es }, m.1.book⟩, m.2)

/-- A computation adds to the record and does not read it. -/
abbrev Unrecorded (es : List (Event E (MapItem B E))) {α : Type} (m : Exec PyError (MapDataManager B E) α) : Prop :=
  Exec.Maps (fun _ => True) (withRecord es) m m

variable {es : List (Event E (MapItem B E))}

omit [DecidableEq E] in
theorem total_unrecorded {α : Type} {f : MapDataManager B E → Except PyError α × MapDataManager B E}
    (h : ∀ m, f (m.withRecord es) = ((f m).1, (f m).2.withRecord es)) : Unrecorded es (Exec.total f) := by
  intro m _
  refine ⟨?_, fun _ _ _ => trivial⟩
  simp only [Exec.total, h]
  rfl

theorem popitem_unrecorded :
    Unrecorded es ((LRUCache.cacheClass E (MapItem B E)).popitemSelf : Exec PyError (MapDataManager B E) Unit) := by
  refine total_unrecorded fun m => ?_
  simp only [LRUCache.cacheClass, Bookkeeping.cacheClass, Bookkeeping.popitem, ordered, withRecord]
  cases m.1.book.head? with
  | none => rfl
  | some k =>
    cases hget : m.1.base.data.get? k with
    | none => simp only [hget]
    | some item =>
      simp only [hget]
      rfl

omit [DecidableEq E] in
theorem Unrecorded.forEach {α : Type} {body : α → Exec PyError (MapDataManager B E) Unit}
    (h : ∀ x, Unrecorded es (body x)) :
    ∀ xs, Unrecorded es (Exec.forEach body xs)
  | [] => .ret ()
  | x :: xs => (h x).bind fun _ => forEach h xs

theorem setitem_unrecorded (k : E) (item : MapItem B E) :
    Unrecorded es (LRUCache.setitem k item : Exec PyError (MapDataManager B E) Unit) := by
  intro m hm
  have hstore : Unrecorded es (Exec.modify fun m => ((LRUCache.cacheClass E (MapItem B E)).store m.1 k item, m.2) :
      Exec PyError (MapDataManager B E) Unit) := .modify fun m _ => ⟨rfl, trivial⟩
  have hloop : Unrecorded es (Exec.loop (fun s => s.1.base.overflows (m.1.base.getsizeof item))
      (LRUCache.cacheClass E (MapItem B E)).popitemSelf (m.1.base.data.len + 1) :
        Exec PyError (MapDataManager B E) Unit) :=
    .loop (fun _ _ => rfl) popitem_unrecorded _
  have hbody : Unrecorded es
      (if m.1.base.maxsize < m.1.base.getsizeof item then Exec.raise ⟨.ValueError, "value too large"⟩
      else (if m.1.base.needsRoom k (m.1.base.getsizeof item) then
          Exec.loop (fun s => s.1.base.overflows (m.1.base.getsizeof item))
            (LRUCache.cacheClass E (MapItem B E)).popitemSelf (m.1.base.data.len + 1) else pure ()) >>= fun _ =>
        Exec.modify fun m => ((LRUCache.cacheClass E (MapItem B E)).store m.1 k item, m.2) :
        Exec PyError (MapDataManager B E) Unit) := by
    split
    · exact .raise _
    · refine .bind ?_ fun _ => hstore
      split
      · exact hloop
      · exact .ret _
  exact hbody m hm

theorem search_unrecorded (k : E) :
    Unrecorded es (search k : Exec PyError (MapDataManager B E) (Option (List (MapItem B E)))) := by
  refine total_unrecorded fun m => ?_
  simp only [LRUCache.getitem, LRUCache.cacheClass, Bookkeeping.cacheClass, Bookkeeping.getitem, withRecord]
  cases m.1.base.data.get? k <;> rfl

theorem Call.run_unrecorded : ∀ c : Call B E, Unrecorded es c.run
  | .save question answer embeddingData session => .bind (setitem_unrecorded _ _) fun _ => .ret _
  | .importData questions answers embeddingDatas sessionIds => by
    refine .bind ?_ fun _ => .ret _
    unfold MapDataManager.importData
    split
    · exact .raise _
    · refine Unrecorded.forEach (fun row => ?_) _
      exact setitem_unrecorded _ _
  | .search embeddingData => search_unrecorded embeddingData

/-- Where two maps differ in the record only, a call has one result and leaves two such maps. -/
theorem Call.run_forget (c : Call B E) {m m' : MapDataManager B E} (h : m.forget = m'.forget) :
    (c.run m).map Prod.fst = (c.run m').map Prod.fst ∧ (c.run.after m).forget = (c.run.after m').forget := by
  have hbare : ∀ m : MapDataManager B E, (c.run m).map Prod.fst = (c.run m.forget).map Prod.fst ∧
      (c.run.after m).forget = (c.run.after m.forget).forget := by
    intro m
    have hunrecorded : Unrecorded m.1.base.history c.run := c.run_unrecorded
    have hrun := (hunrecorded m.forget trivial).1
    have hself : m.forget.withRecord m.1.base.history = m := rfl
    rw [hself] at hrun
    unfold Exec.after
    rw [hrun]
    cases c.run m.forget <;> exact ⟨rfl, rfl⟩
  rw [(hbare m).1, (hbare m).2, h, ← (hbare m').1, ← (hbare m').2]
  exact ⟨rfl, rfl⟩

/-! ## Listing -/

variable {name : String → E} {order : List E → List E}

theorem foldl_moveToEnd_self : ∀ {before ks : List E}, (before ++ ks).Nodup →
    List.foldl moveToEnd (ks ++ before) ks = before ++ ks
  | before, [], _ => by simp
  | before, k :: ks, h => by
    have hother : (ks ++ before).filter (fun k' => k' ≠ k) = ks ++ before := by
      refine List.filter_eq_self.mpr fun k' hk' => decide_eq_true fun heq => ?_
      rw [List.nodup_append, List.nodup_cons] at h
      subst heq
      rcases List.mem_append.mp hk' with hk' | hk'
      · exact h.2.1.1 hk'
      · exact h.2.2 k' hk' k' (by simp) rfl
    have hmove : moveToEnd (k :: ks ++ before) k = ks ++ (before ++ [k]) := by
      rw [moveToEnd, List.cons_append, List.filter_cons_of_neg (by simp), hother, List.append_assoc]
    rw [List.foldl_cons, hmove, foldl_moveToEnd_self (by simpa using h), List.append_assoc, List.singleton_append]

theorem listSessions_forget {m : MapDataManager B E} (h : UsedAsStored m) (sessionId : Option String) :
    ((listSessions name order sessionId).after m).forget = m.forget := by
  obtain ⟨m', hrun, hm'⟩ := listSessions_ok name order sessionId m
  have hnodup : ([] ++ m.1.base.data.keys).Nodup := m.1.base.data.nodup_keys
  have hself := foldl_moveToEnd_self hnodup
  rw [List.append_nil, List.nil_append] at hself
  rw [h, hself, ← h] at hm'
  rw [Exec.after, hrun]
  exact hm'.forget

theorem results_forget : ∀ {steps : List (Step B E)} {m m' : MapDataManager B E}, m.forget = m'.forget →
    ListedAsStored name order steps m → results name order steps m = results name order (steps.filter Step.isCall) m'
  | [], _, _, _, _ => rfl
  | .call c :: steps, m, m', h, hlisted => by
    obtain ⟨hresult, hafter⟩ := c.run_forget h
    rw [List.filter_cons_of_pos rfl, results, results, hresult, results_forget hafter hlisted]
  | .list sessionId :: steps, m, m', h, hlisted => by
    have hsame : ((listSessions name order sessionId).after m).forget = m.forget :=
      listSessions_forget hlisted.1 sessionId
    rw [List.filter_cons_of_neg (by simp [Step.isCall]), results, results_forget (hsame.trans h) hlisted.2]

/-- Listings change no result of a run in which each comes when the keys were
last used in the order in which they were first stored. -/
theorem results_list {steps : List (Step B E)} {m : MapDataManager B E} (h : ListedAsStored name order steps m) :
    results name order steps m = results name order (steps.filter Step.isCall) m :=
  results_forget rfl h

/-! ## A listing between two uses -/

/-- A map for two entries, and no file. -/
def forTwo : MapDataManager Unit String := (.new 2, ⟨"data_map.txt", true, none⟩)

def put (prompt : String) : Step Unit String := .call (.save (.plain (.str prompt)) (.answers (.str "a")) prompt none)

/-- How many entries the searches found. -/
def found : CallResult Unit String → Option Nat
  | some (.ok (some items)) => some items.length
  | _ => none

theorem results_list_forTwo : results id id [put "x", put "y", .list none, .call (.search "x")] forTwo =
    results id id ([put "x", put "y", .list none, .call (.search "x")].filter Step.isCall) forTwo := by
  refine results_list ?_
  show UsedAsStored _ ∧ True
  exact ⟨by unfold UsedAsStored; decide +kernel, trivial⟩

/-- `"x"` was used last when the sessions were listed, and is evicted instead of `"y"`. -/
theorem list_evicts :
    results id id [put "x", put "y", .call (.search "x"), .list none, put "z", .call (.search "x")] forTwo ≠
      results id id ([put "x", put "y", .call (.search "x"), .list none, put "z",
        .call (.search "x")].filter Step.isCall)
        forTwo := by
  intro h
  exact absurd (congrArg (List.map found) h) (by decide +kernel)

end GptCache.MapDataManager
