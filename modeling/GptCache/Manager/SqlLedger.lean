/-
`SQLStorage` as a store of entries.

A run keeps beside the tables the ledger of what was inserted, marked and
cleared under the ids the store returned. The tables hold their ledger
(`SQLStorage.Holds`): a row for each entry, its answers and dependencies in
tables of their own, and sessions of entries that are there. What a reader gets
can be read off the ledger (`SQLStorage.ledger_read`).
-/
import GptCache.Lib.Ledger
import GptCache.Manager.Scalar

namespace GptCache

variable {B E : Type}

/-- An entry with its embedding. -/
abbrev WithEmbedding (B E : Type) := { data : CacheData B E // data.embeddingData.isSome = true }

namespace SQLStorage

/-! ## The ids a database draws -/

/-- `_insert`, where the database draws `id` for the question's row and
`sessionRow` for the session's. -/
def insertUnder (s : SQLStorage B E) (id sessionRow : Nat) (data : CacheData B E) : SQLStorage B E where
  ques := s.ques ++ [⟨id, data.question.content, data.embeddingData, 0⟩]
  quesDep := s.quesDep ++ data.question.deps.map fun dep => ⟨id, dep.name, dep.data, dep.depType⟩
  answer := s.answer ++ data.answers.map fun a => ⟨id, a.answer, a.answerType⟩
  session :=
    match data.sessionId with
    | none => s.session
    | some name => if name = "" then s.session else s.session ++ [⟨sessionRow, id, name, data.question.content⟩]

/-- `batch_insert`, where the database draws some id that no row has for each
question. It may be that of a row which was cleared. -/
inductive BatchInserted : SQLStorage B E → List (CacheData B E) → List Nat → SQLStorage B E → Prop
  | nil (s : SQLStorage B E) : BatchInserted s [] [] s
  | cons {s s' : SQLStorage B E} {id : Nat} (hnew : id ∉ s.ids) (sessionRow : Nat) (data : CacheData B E)
      {allData : List (CacheData B E)} {ids : List Nat}
      (hrest : BatchInserted (s.insertUnder id sessionRow data) allData ids s') :
      BatchInserted s (data :: allData) (id :: ids) s'

/-- `batch_insert` over a database that draws the id after the largest. -/
theorem batchInsert_batchInserted : ∀ (allData : List (CacheData B E)) (s : SQLStorage B E),
    BatchInserted s allData (s.batchInsert allData).1 (s.batchInsert allData).2
  | [], s => .nil s
  | data :: allData, s => by
    have hnew : nextId s.ids ∉ s.ids := fun hmem => Nat.lt_irrefl _ (lt_nextId hmem)
    exact .cons hnew (nextId (s.session.map SessionRow.id)) data (batchInsert_batchInserted allData (s.insert data).2)

/-- What calls of the storage make of an empty one. Reading an entry changes
its time stamp only. -/
inductive Run : SQLStorage B E → Ledger Nat (CacheData B E) → Prop
  | empty : Run empty []
  | batchInsert {s s' : SQLStorage B E} {l : Ledger Nat (CacheData B E)} (h : Run s l)
      (allData : List (WithEmbedding B E)) {ids : List Nat} (hdone : BatchInserted s (allData.map Subtype.val) ids s') :
      Run s' (l.insert (ids.zip (allData.map Subtype.val)))
  | markDeleted {s : SQLStorage B E} {l : Ledger Nat (CacheData B E)} (h : Run s l) (keys : List Nat) :
      Run (s.markDeleted keys) (l.mark keys)
  | clearDeletedData {s : SQLStorage B E} {l : Ledger Nat (CacheData B E)} (h : Run s l) :
      Run s.clearDeletedData l.clear
  | addSession {s : SQLStorage B E} {l : Ledger Nat (CacheData B E)} (h : Run s l) {id : Nat}
      (hlive : (l.live id).isSome = true) (row : Nat) (sessionId sessionQuestion : String) :
      Run { s with session := s.session ++ [⟨row, id, sessionId, sessionQuestion⟩] } l
  | deleteSession {s : SQLStorage B E} {l : Ledger Nat (CacheData B E)} (h : Run s l) (keys : List Nat) :
      Run (s.deleteSession keys) l

/-! ## The tables of a ledger -/

def questionRow (e : LedgerEntry Nat (CacheData B E)) : QuestionRow E :=
  ⟨e.key, e.value.question.content, e.value.embeddingData, if e.marked then -1 else 0⟩

def newDeps (id : Nat) (data : CacheData B E) : List DepRow :=
  data.question.deps.map fun dep => ⟨id, dep.name, dep.data, dep.depType⟩

theorem newDeps_owner (id : Nat) (data : CacheData B E) : ∀ r ∈ newDeps id data, r.questionId = id := by
  intro r hr
  obtain ⟨dep, -, rfl⟩ := List.mem_map.mp hr
  rfl

theorem newAnswers_owner (id : Nat) (data : CacheData B E) : ∀ r ∈ newAnswers id data, r.questionId = id :=
  fun _ hr => questionId_of_mem_newAnswers hr

/-- The tables are those of the ledger. -/
structure Holds (s : SQLStorage B E) (l : Ledger Nat (CacheData B E)) : Prop where
  ques : s.ques = l.map questionRow
  answer : s.answer = l.rows newAnswers
  quesDep : s.quesDep = l.rows newDeps
  session : ∀ r ∈ s.session, r.questionId ∈ l.keys
  nodup : l.keys.Nodup
  embedded : ∀ e ∈ l, e.value.embeddingData.isSome = true

theorem empty_holds : Holds (empty : SQLStorage B E) [] :=
  ⟨rfl, rfl, rfl, by simp [empty], List.nodup_nil, by simp⟩

namespace Holds

variable {s : SQLStorage B E} {l : Ledger Nat (CacheData B E)}

theorem ids (h : Holds s l) : s.ids = l.keys := by
  rw [SQLStorage.ids, h.ques, List.map_map]
  rfl

/-- The entries in one of the two states, in the order they were inserted. -/
theorem getIds (h : Holds s l) (deleted : Bool) :
    s.getIds deleted = (l.filter fun e => e.marked = deleted).map LedgerEntry.key := by
  rw [SQLStorage.getIds, h.ques, List.filter_map, List.map_map]
  refine congrArg (List.map _) (List.filter_congr fun e _ => ?_)
  cases hm : e.marked <;> cases deleted <;> simp [questionRow, hm]

theorem getIds_true (h : Holds s l) : s.getIds true = l.markedKeys := by
  rw [h.getIds, Ledger.markedKeys]
  exact congrArg (List.map _) (List.filter_congr fun e _ => by simp)

/-! ## What the calls do to it -/

theorem insertUnder (h : Holds s l) {id : Nat} (hnew : id ∉ s.ids) (sessionRow : Nat) {data : CacheData B E}
    (hdata : data.embeddingData.isSome = true) : Holds (s.insertUnder id sessionRow data) (l.insert [(id, data)]) := by
  have hrows : ∀ {R : Type} (f : Nat → CacheData B E → List R), (l.insert [(id, data)]).rows f =
      l.rows f ++ f id data := by
    intro R f
    rw [Ledger.rows_insert, List.flatMap_singleton]
  refine ⟨?_, ?_, ?_, ?_, ?_, ?_⟩
  · rw [Ledger.insert, List.map_append, ← h.ques]
    rfl
  · rw [hrows, ← h.answer]
    rfl
  · rw [hrows, ← h.quesDep]
    rfl
  · intro r hr
    rw [Ledger.keys_insert, List.mem_append]
    have hold : r ∈ s.session ∨ r.questionId = id := by
      unfold SQLStorage.insertUnder at hr
      dsimp only at hr
      split at hr
      · exact .inl hr
      · split at hr
        · exact .inl hr
        · rcases List.mem_append.mp hr with hr | hr
          · exact .inl hr
          · rw [List.mem_singleton.mp hr]
            exact .inr rfl
    rcases hold with hr | hr
    · exact .inl (h.session r hr)
    · exact .inr (List.mem_singleton.mpr hr)
  · rw [Ledger.keys_insert]
    refine List.nodup_append.mpr ⟨h.nodup, List.nodup_singleton _, fun k hk k' hk' heq => ?_⟩
    rw [heq, List.mem_singleton.mp hk', ← h.ids] at hk
    exact hnew hk
  · intro e he
    rcases List.mem_append.mp he with he | he
    · exact h.embedded e he
    · rw [List.mem_singleton.mp he]
      exact hdata

theorem batchInserted {s s' : SQLStorage B E} {allData : List (CacheData B E)} {ids : List Nat}
    (hdone : BatchInserted s allData ids s') : ∀ {l : Ledger Nat (CacheData B E)}, Holds s l →
    (∀ data ∈ allData, data.embeddingData.isSome = true) → Holds s' (l.insert (ids.zip allData)) := by
  induction hdone with
  | nil s =>
    intro l h _
    rw [List.zip_nil_right, Ledger.insert_nil]
    exact h
  | cons hnew sessionRow data _ ih =>
    intro l h hall
    obtain ⟨hdata, hall⟩ := List.forall_mem_cons.mp hall
    have hrest := ih (h.insertUnder hnew sessionRow hdata) hall
    rw [Ledger.insert_insert] at hrest
    exact hrest

theorem markDeleted (h : Holds s l) (keys : List Nat) : Holds (s.markDeleted keys) (l.mark keys) := by
  refine ⟨?_, ?_, ?_, ?_, ?_, ?_⟩
  · show s.ques.map _ = _
    rw [h.ques]
    exact (Ledger.map_mark l (fun e hk => if_pos hk) fun e hk => if_neg hk).symm
  · rw [Ledger.rows_mark]
    exact h.answer
  · rw [Ledger.rows_mark]
    exact h.quesDep
  · rw [Ledger.keys_mark]
    exact h.session
  · rw [Ledger.keys_mark]
    exact h.nodup
  · intro e he
    obtain ⟨e', he', rfl⟩ := List.mem_map.mp he
    split <;> exact h.embedded e' he'

/-- A key that stays is that of an entry without a mark. -/
theorem mem_keys_clear (h : Holds s l) {id : Nat} : id ∈ l.clear.keys ↔ id ∈ l.keys ∧ id ∉ l.markedKeys := by
  simp only [Ledger.keys, Ledger.clear, List.mem_map, List.mem_filter, Bool.not_eq_true']
  constructor
  · rintro ⟨e, ⟨he, hm⟩, hid⟩
    refine ⟨⟨e, he, hid⟩, fun hmarked => ?_⟩
    rw [← hid, Ledger.mem_markedKeys h.nodup he, hm] at hmarked
    cases hmarked
  · rintro ⟨⟨e, he, hid⟩, hnot⟩
    refine ⟨e, ⟨he, ?_⟩, hid⟩
    rw [← hid, Ledger.mem_markedKeys h.nodup he] at hnot
    simpa using hnot

theorem clearDeletedData (h : Holds s l) : Holds s.clearDeletedData l.clear := by
  have hids := h.getIds_true
  refine ⟨?_, ?_, ?_, ?_, h.nodup.sublist l.keys_clear_sublist, fun e he => h.embedded e (List.mem_of_mem_filter he)⟩
  · rw [clearDeletedData_ques, h.ques, List.filter_map, Ledger.clear]
    refine congrArg (List.map _) (List.filter_congr fun e _ => ?_)
    cases hm : e.marked <;> simp [questionRow, hm]
  · show s.answer.filter _ = _
    rw [h.answer, hids]
    exact Ledger.rows_clear newAnswers_owner h.nodup
  · show s.quesDep.filter _ = _
    rw [h.quesDep, hids]
    exact Ledger.rows_clear newDeps_owner h.nodup
  · intro r hr
    obtain ⟨hr, hkept⟩ := List.mem_filter.mp hr
    rw [hids] at hkept
    exact h.mem_keys_clear.mpr ⟨h.session r hr, of_decide_eq_true hkept⟩

theorem addSession (h : Holds s l) {id : Nat} (hid : id ∈ l.keys) (row : Nat) (sessionId sessionQuestion : String) :
    Holds { s with session := s.session ++ [⟨row, id, sessionId, sessionQuestion⟩] } l := by
  refine ⟨h.ques, h.answer, h.quesDep, fun r hr => ?_, h.nodup, h.embedded⟩
  rcases List.mem_append.mp hr with hr | hr
  · exact h.session r hr
  · rw [List.mem_singleton.mp hr]
    exact hid

theorem deleteSession (h : Holds s l) (keys : List Nat) : Holds (s.deleteSession keys) l :=
  ⟨h.ques, h.answer, h.quesDep, fun r hr => h.session r (List.mem_of_mem_filter hr), h.nodup, h.embedded⟩

/-! ## What is read -/

theorem answersOf (h : Holds s l) {e : LedgerEntry Nat (CacheData B E)} (he : e ∈ l) :
    s.answersOf e.key = e.value.answers := by
  rw [SQLStorage.answersOf, h.answer, Ledger.rows_of_key newAnswers_owner h.nodup he, newAnswers, List.map_map]
  exact List.map_id _

theorem depsOf (h : Holds s l) {e : LedgerEntry Nat (CacheData B E)} (he : e ∈ l) :
    s.depsOf e.key = e.value.question.deps := by
  rw [SQLStorage.depsOf, h.quesDep, Ledger.rows_of_key newDeps_owner h.nodup he, newDeps, List.map_map]
  exact List.map_id _

theorem getDataById_of_live (h : Holds s l) {id : Nat} {data : CacheData B E}
    (hlive : l.live id = some data) {embedding : E} (hembedding : data.embeddingData = some embedding) :
    s.getDataById id = .ok (some {
      question := if data.question.deps = [] then .str data.question.content
        else .question ⟨data.question.content, some data.question.deps⟩
      answers := data.answers
      embeddingData := embedding
      sessionIds := (s.session.filter fun r => r.questionId = id).map SessionRow.sessionId }) := by
  have hmem : (⟨id, data, false⟩ : LedgerEntry Nat (CacheData B E)) ∈ l := (Ledger.live_eq_some h.nodup).mp hlive
  have hfind : (s.ques.find? fun r => decide (r.id = id) && decide (r.deleted = 0)) =
      some (questionRow ⟨id, data, false⟩) := by
    rw [h.ques, List.find?_map, Ledger.find?_of_mem h.nodup hmem (by simp [questionRow]) fun e' hfinds => ?_]
    · rfl
    · simp only [Function.comp, Bool.and_eq_true, decide_eq_true_eq] at hfinds
      exact hfinds.1
  have hdeps : s.depsOf id = data.question.deps := h.depsOf hmem
  have hanswers : s.answersOf id = data.answers := h.answersOf hmem
  unfold getDataById
  rw [hfind]
  simp only [questionRow, hembedding, hdeps, hanswers]

theorem getDataById_of_not_live (h : Holds s l) {id : Nat} (hlive : l.live id = none) :
    s.getDataById id = .ok none := by
  refine getDataById_eq_none fun hid => ?_
  rw [h.getIds] at hid
  obtain ⟨e, he, rfl⟩ := List.mem_map.mp hid
  obtain ⟨he, hm⟩ := List.mem_filter.mp he
  obtain ⟨key, value, marked⟩ := e
  obtain rfl : marked = false := of_decide_eq_true hm
  rw [(Ledger.live_eq_some h.nodup).mpr he] at hlive
  cases hlive

end Holds

theorem Run.holds {s : SQLStorage B E} {l : Ledger Nat (CacheData B E)} (h : Run s l) : Holds s l := by
  induction h with
  | empty => exact empty_holds
  | batchInsert _ allData hdone ih =>
    refine Holds.batchInserted hdone ih fun data hdata => ?_
    obtain ⟨embedded, -, rfl⟩ := List.mem_map.mp hdata
    exact embedded.2
  | markDeleted _ keys ih => exact ih.markDeleted keys
  | clearDeletedData _ ih => exact ih.clearDeletedData
  | addSession _ hlive row sessionId sessionQuestion ih =>
    obtain ⟨data, hdata⟩ := Option.isSome_iff_exists.mp hlive
    exact ih.addSession (List.mem_map_of_mem ((Ledger.live_eq_some ih.nodup).mp hdata)) row sessionId sessionQuestion
  | deleteSession _ keys ih => exact ih.deleteSession keys

/-- The entry of a ledger as the storage hands it out: an entry of a question
without dependencies is one of its text. -/
def Decodes (data : CacheData B E) (stored : StoredData B E) : Prop :=
  stored.question = (if data.question.deps = [] then .str data.question.content
    else .question ⟨data.question.content, some data.question.deps⟩) ∧
  stored.answers = data.answers ∧ some stored.embeddingData = data.embeddingData

/-- What a reader of the storage sees is its ledger, and no row is without its question. -/
structure Implements (s : SQLStorage B E) (l : Ledger Nat (CacheData B E)) : Prop where
  live : ∀ id data, l.live id = some data → ∃ stored, s.getDataById id = .ok (some stored) ∧ Decodes data stored
  notLive : ∀ id, l.live id = none → s.getDataById id = .ok none
  getIds : ∀ deleted, s.getIds deleted = (l.filter fun e => e.marked = deleted).map LedgerEntry.key
  countAll : ∀ state, s.count state true = l.length
  count : ∀ deleted, s.count (if deleted then -1 else 0) false = (l.filter fun e => e.marked = deleted).length
  countOther : ∀ state, state ≠ 0 → state ≠ -1 → s.count state false = 0
  distinct : l.keys.Nodup
  answer : ∀ r ∈ s.answer, r.questionId ∈ s.ids
  quesDep : ∀ r ∈ s.quesDep, r.questionId ∈ s.ids
  session : ∀ r ∈ s.session, r.questionId ∈ s.ids

/-- Rows of a table made from the ledger belong to its keys. -/
theorem owner_mem_keys {R : Type} {f : Nat → CacheData B E → List R} {owner : R → Nat}
    (howner : ∀ id data, ∀ r ∈ f id data, owner r = id) {l : Ledger Nat (CacheData B E)} {r : R} (hr : r ∈ l.rows f) :
    owner r ∈ l.keys := by
  obtain ⟨e, he, hr⟩ := List.mem_flatMap.mp hr
  rw [howner _ _ r hr]
  exact List.mem_map_of_mem he

theorem ledger_read {s : SQLStorage B E} {l : Ledger Nat (CacheData B E)} (h : Run s l) : Implements s l := by
  have hs := h.holds
  have hstate : ∀ deleted : Bool, s.count (if deleted then -1 else 0) false = (s.getIds deleted).length := by
    intro deleted
    simp [SQLStorage.count, SQLStorage.getIds]
  refine ⟨?_, fun id => hs.getDataById_of_not_live, hs.getIds, ?_, ?_, ?_, hs.nodup, ?_, ?_, ?_⟩
  · intro id data hlive
    have hmem := (Ledger.live_eq_some hs.nodup).mp hlive
    obtain ⟨embedding, hembedding⟩ := Option.isSome_iff_exists.mp (hs.embedded _ hmem)
    exact ⟨_, hs.getDataById_of_live hlive hembedding, rfl, rfl, hembedding.symm⟩
  · intro state
    simp [SQLStorage.count, hs.ques]
  · intro deleted
    rw [hstate, hs.getIds, List.length_map]
  · intro state hlive hdeleted
    simp only [SQLStorage.count, Bool.false_eq_true, if_false, List.length_eq_zero_iff, List.filter_eq_nil_iff,
      decide_eq_true_eq, hs.ques, List.mem_map]
    rintro r ⟨e, -, rfl⟩ hr
    cases hm : e.marked <;> simp [questionRow, hm] at hr <;> omega
  · rw [hs.ids, hs.answer]
    exact fun r => owner_mem_keys newAnswers_owner
  · rw [hs.ids, hs.quesDep]
    exact fun r => owner_mem_keys newDeps_owner
  · rw [hs.ids]
    exact hs.session

def plainEntry : WithEmbedding String Nat :=
    ⟨⟨.str "what is a cache", [⟨.str "a store", .STR⟩], some 7, some "s1"⟩, rfl⟩

def depsEntry : WithEmbedding String Nat :=
  ⟨⟨.question ⟨"what is shown", some [⟨"image", "cat.png", .IMAGE_URL⟩]⟩,
    [⟨.str "a cat", .STR⟩, ⟨.str "dog.png", .IMAGE_URL⟩], some 8, none⟩, rfl⟩

/-- Two entries are inserted; the second is deleted and its id drawn again. -/
theorem ledger_read_reused :
    Implements (((empty.batchInsert [plainEntry.1, depsEntry.1]).2.markDeleted [2]).clearDeletedData.batchInsert
      [depsEntry.1]).2
      [⟨1, plainEntry.1, false⟩, ⟨2, depsEntry.1, false⟩] :=
  ledger_read (l := [⟨1, plainEntry.1, false⟩, ⟨2, depsEntry.1, false⟩])
    ((((Run.empty.batchInsert [plainEntry, depsEntry] (batchInsert_batchInserted _ _)).markDeleted
      [2]).clearDeletedData).batchInsert
      [depsEntry] (batchInsert_batchInserted _ _))

end SQLStorage

end GptCache
