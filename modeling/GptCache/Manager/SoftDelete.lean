/-
What a reader gets from a scalar store whose entries are marked deleted first
and cleared later, for the stores over Redis and over MongoDB.

A run keeps beside the store the ledger of what it was told to insert, mark
and clear. A reader should get what the ledger has live under an id, and
nothing for any other id (`Serves`). Each store holds its ledger, as documents
(`RedisCacheStorage.Holds`, `MongoStorage.Holds`), so what it answers can be
read off the ledger: Redis serves entries that are marked as well, and MongoDB
raises wherever there is nothing to serve (`served_iff`).
-/
import Mathlib.Data.List.Find
import GptCache.Lib.Ledger
import GptCache.Manager.MongoStorage
import GptCache.Manager.RedisStorage

namespace GptCache

variable {S E : Type}

/-- The sessions an entry is inserted with: one, or none. -/
def CacheData.sessionNames (data : CacheData Empty E) : List String :=
  match data.sessionId with
  | none => []
  | some name => if name = "" then [] else [name]

/-- An entry as it is read. -/
def CacheData.stored (data : CacheData Empty E) (embedding : E) : StoredData Empty E where
  question := if data.question.deps = [] then .str data.question.content
    else .question ⟨data.question.content, some data.question.deps⟩
  answers := data.answers
  embeddingData := embedding
  sessionIds := data.sessionNames

/-- A scalar store, as far as its entries go. -/
structure EntryStore (S E : Type) where
  batchInsert : List (CacheData Empty E) → Exec PyError S (List Nat)
  getDataById : Nat → Exec PyError S (Option (StoredData Empty E))
  markDeleted : List Nat → Exec PyError S Unit
  clearDeletedData : Exec PyError S Unit

inductive EntryOp (E : Type) where
  | batchInsert (allData : List (CacheData Empty E))
  | getDataById (key : Nat)
  | markDeleted (keys : List Nat)
  | clearDeletedData

namespace EntryStore

variable (st : EntryStore S E)

/-- A call, and what the ledger makes of it: a batch is inserted if its ids were returned. -/
def step (s : S × Ledger Nat (CacheData Empty E)) : EntryOp E → S × Ledger Nat (CacheData Empty E)
  | .batchInsert allData =>
    match st.batchInsert allData s.1 with
    | some (.ok ids, s') => (s', s.2.insert (ids.zip allData))
    | some (.error _, s') => (s', s.2)
    | none => s
  | .getDataById key => ((st.getDataById key).after s.1, s.2)
  | .markDeleted keys => ((st.markDeleted keys).after s.1, s.2.mark keys)
  | .clearDeletedData => (st.clearDeletedData.after s.1, s.2.clear)

def run (s : S) (ops : List (EntryOp E)) : S × Ledger Nat (CacheData Empty E) := ops.foldl st.step (s, [])

/-- `get_data_by_id` answers with the entry that is live, or with `None`. -/
def Serves (s : S) (l : Ledger Nat (CacheData Empty E)) (key : Nat) : Prop :=
  match l.live key with
  | none => st.getDataById key s = some (.ok none, s)
  | some data => ∃ embedding, data.embeddingData = some embedding ∧
      st.getDataById key s = some (.ok (some (data.stored embedding)), s)

/-- What each call keeps holds after a run. -/
theorem run_keeps {J : S → Ledger Nat (CacheData Empty E) → Prop} {s : S} (hinit : J s [])
    (hstep : ∀ s l op, J s l → J (st.step (s, l) op).1 (st.step (s, l) op).2) (ops : List (EntryOp E)) :
    J (st.run s ops).1 (st.run s ops).2 := by
  unfold run
  suffices h : ∀ t : S × Ledger Nat (CacheData Empty E), J t.1 t.2 →
    J (ops.foldl st.step t).1 (ops.foldl st.step t).2 by
    exact h (s, []) hinit
  induction ops with
  | nil => exact fun t ht => ht
  | cons op ops ih => exact fun t ht => ih _ (hstep t.1 t.2 op ht)

/-- What a step keeps follows from what each call keeps. -/
theorem step_keeps {J : S → Ledger Nat (CacheData Empty E) → Prop} {s : S} {l : Ledger Nat (CacheData Empty E)}
    (hbatch : ∀ allData, Exec.wp (st.batchInsert allData) (fun ids s' => J s' (l.insert (ids.zip allData)))
      (fun _ s' => J s' l) s)
    (hget : ∀ key, Exec.wp (st.getDataById key) (fun _ s' => J s' l) (fun _ s' => J s' l) s)
    (hmark : ∀ keys, Exec.wp (st.markDeleted keys) (fun _ s' => J s' (l.mark keys)) (fun _ s' => J s' (l.mark keys)) s)
    (hclear : Exec.wp st.clearDeletedData (fun _ s' => J s' l.clear) (fun _ s' => J s' l.clear) s) (op : EntryOp E) :
    J (st.step (s, l) op).1 (st.step (s, l) op).2 := by
  cases op with
  | batchInsert allData =>
    rcases Exec.wp_returns (hbatch allData) with ⟨ids, s', hm, hJ⟩ | ⟨err, s', hm, hJ⟩
    · simpa only [step, hm] using hJ
    · simpa only [step, hm] using hJ
  | getDataById key => exact Exec.after_of_wp (hget key)
  | markDeleted keys => exact Exec.after_of_wp (hmark keys)
  | clearDeletedData => exact Exec.after_of_wp hclear

end EntryStore

/-! ## Redis -/

namespace RedisCacheStorage

variable (om : RedisOm)

def entries : EntryStore (RedisCacheStorage E) E where
  batchInsert := batchInsert
  getDataById := getDataById
  markDeleted := markDeleted om
  clearDeletedData := clearDeletedData om

/-- The document of an entry, which has an embedding. -/
def document (e : LedgerEntry Nat (CacheData Empty E)) : Option (RedisQuestion E) :=
  e.value.embeddingData.map fun embedding =>
    ⟨e.key, e.value.question.content, if e.marked then -1 else 0, e.value.answers, e.value.question.deps, embedding⟩

def sessionRows (key : Nat) (data : CacheData Empty E) : List RedisSession :=
  data.sessionNames.map fun name => ⟨key, name, data.question.content⟩

/-- The documents are those of the ledger. -/
structure Holds (s : RedisCacheStorage E) (l : Ledger Nat (CacheData Empty E)) : Prop where
  ques : s.ques = l.filterMap document
  session : s.session = l.rows sessionRows
  embedded : ∀ e ∈ l, e.value.embeddingData.isSome = true
  nodup : l.keys.Nodup
  counted : ∀ k ∈ l.keys, k ≤ s.counter

theorem sessionRows_owner (key : Nat) (data : CacheData Empty E) : ∀ r ∈ sessionRows key data, r.questionId = key := by
  intro r hr
  obtain ⟨name, -, rfl⟩ := List.mem_map.mp hr
  rfl

theorem empty_holds : Holds (empty : RedisCacheStorage E) [] :=
  ⟨rfl, rfl, by simp, List.nodup_nil, by simp [Ledger.keys]⟩

/-- What `_insert` queues for an entry. -/
def Queued (item : Nat × CacheData Empty E) (queued : RedisQuestion E × Option RedisSession) : Prop :=
  document ⟨item.1, item.2, false⟩ = some queued.1 ∧ sessionRows item.1 item.2 = queued.2.toList

theorem insert_queued (data : CacheData Empty E) (s : RedisCacheStorage E) :
    Exec.wp (insert data)
      (fun queued s' => s' = { s with counter := s.counter + 1 } ∧ Queued (s.counter + 1, data) queued)
      (fun _ s' => s' = { s with counter := s.counter + 1 }) s := by
  obtain ⟨question, answers, embeddingData, sessionId⟩ := data
  simp only [insert, Exec.wp_bind, Exec.wp_modify, Exec.wp_read]
  cases embeddingData with
  | none => exact rfl
  | some embedding =>
    refine ⟨rfl, rfl, ?_⟩
    unfold sessionRows CacheData.sessionNames
    cases sessionId with
    | none => rfl
    | some name =>
      dsimp only
      split <;> rfl

/-- A batch is queued under the next ids; where it raises, ids were counted up. -/
theorem inserts_queued : ∀ (allData : List (CacheData Empty E)) (s : RedisCacheStorage E),
    Exec.wp (inserts allData)
      (fun queued s' => s' = { s with counter := s.counter + allData.length } ∧
        List.Forall₂ Queued ((List.range' (s.counter + 1) allData.length).zip allData) queued)
      (fun _ s' => ∃ n, s' = { s with counter := s.counter + n }) s
  | [], s => ⟨rfl, .nil⟩
  | data :: allData, s => by
    simp only [inserts, Exec.wp_bind, Exec.wp_pure]
    refine Exec.wp_mono (insert_queued data s) (fun queued s₁ h₁ => ?_) fun _ s' h => ⟨1, h⟩
    obtain ⟨rfl, hqueued⟩ := h₁
    refine Exec.wp_mono (inserts_queued allData _) (fun rest s₂ h₂ => ?_) fun _ s' h => ?_
    · obtain ⟨rfl, hrest⟩ := h₂
      refine ⟨?_, ?_⟩
      · simp only [List.length_cons, Nat.add_comm allData.length, Nat.add_assoc]
      · rw [List.length_cons, List.range'_succ, List.zip_cons_cons]
        exact .cons hqueued hrest
    · obtain ⟨n, rfl⟩ := h
      exact ⟨1 + n, by simp only [Nat.add_assoc]⟩

theorem of_queued {items : List (Nat × CacheData Empty E)} {queued : List (RedisQuestion E × Option RedisSession)}
    (h : List.Forall₂ Queued items queued) :
    queued.map Prod.fst = items.filterMap (fun item => document ⟨item.1, item.2, false⟩) ∧
    queued.filterMap Prod.snd = (items.flatMap fun item => sessionRows item.1 item.2) ∧
    queued.map (fun q => q.1.pk) = items.map Prod.fst ∧
    ∀ item ∈ items, item.2.embeddingData.isSome = true := by
  induction h with
  | nil => exact ⟨rfl, rfl, rfl, by simp⟩
  | @cons item q items queued hfirst _ ih =>
    obtain ⟨hques, hsession, hpks, hembedded⟩ := ih
    obtain ⟨hdoc, hrows⟩ := hfirst
    obtain ⟨embedding, hemb, hq⟩ := Option.map_eq_some_iff.mp hdoc
    refine ⟨?_, ?_, ?_, ?_⟩
    · rw [List.map_cons, List.filterMap_cons, hdoc, hques]
    · rw [List.flatMap_cons, hrows, ← hsession]
      cases hsnd : q.2 with
      | none => rw [List.filterMap_cons_none hsnd, Option.toList_none, List.nil_append]
      | some row => rw [List.filterMap_cons_some hsnd, Option.toList_some, List.singleton_append]
    · rw [List.map_cons, List.map_cons, hpks, ← hq]
    · have hembeddedFirst : item.2.embeddingData = some embedding := hemb
      exact List.forall_mem_cons.mpr ⟨by rw [hembeddedFirst]; rfl, hembedded⟩

/-- A batch that is inserted, and one that is not. -/
theorem batchInsert_holds {s : RedisCacheStorage E} {l : Ledger Nat (CacheData Empty E)} (h : Holds s l)
    (allData : List (CacheData Empty E)) :
    Exec.wp (batchInsert allData) (fun ids s' => Holds s' (l.insert (ids.zip allData))) (fun _ s' => Holds s' l) s := by
  simp only [batchInsert, Exec.wp_bind, Exec.wp_modify, Exec.wp_pure]
  refine Exec.wp_mono (inserts_queued allData s) (fun queued s₁ h₁ => ?_) fun _ s' h₁ => ?_
  · obtain ⟨rfl, hqueued⟩ := h₁
    obtain ⟨hques, hsession, hpks, hembedded⟩ := of_queued hqueued
    have hids : ((List.range' (s.counter + 1) allData.length).zip allData).map Prod.fst =
        List.range' (s.counter + 1) allData.length := List.map_fst_zip (by simp)
    rw [hids] at hpks
    rw [hpks]
    have hkeys : ∀ k ∈ List.range' (s.counter + 1) allData.length, s.counter < k ∧ k ≤ s.counter + allData.length := by
      intro k hk
      rw [List.mem_range'_1] at hk
      omega
    refine ⟨?_, ?_, ?_, ?_, ?_⟩
    · rw [h.ques, hques, Ledger.insert, List.filterMap_append, List.filterMap_map]
      rfl
    · rw [h.session, hsession, Ledger.rows_insert]
    · intro e he
      rcases List.mem_append.mp he with he | he
      · exact h.embedded e he
      · obtain ⟨item, hitem, rfl⟩ := List.mem_map.mp he
        exact hembedded item hitem
    · rw [Ledger.keys_insert, hids, List.nodup_append]
      refine ⟨h.nodup, List.nodup_range', fun k hk k' hk' heq => ?_⟩
      have := h.counted k hk
      have := hkeys k' hk'
      omega
    · intro k hk
      rw [Ledger.keys_insert, hids, List.mem_append] at hk
      rcases hk with hk | hk
      · exact (h.counted k hk).trans (Nat.le_add_right _ _)
      · exact (hkeys k hk).2
  · obtain ⟨n, rfl⟩ := h₁
    exact ⟨h.ques, h.session, h.embedded, h.nodup, fun k hk => (h.counted k hk).trans (Nat.le_add_right _ _)⟩

theorem document_of_embedded {e : LedgerEntry Nat (CacheData Empty E)} (h : e.value.embeddingData.isSome = true) :
    ∃ embedding, e.value.embeddingData = some embedding ∧
      document e = some ⟨e.key, e.value.question.content, if e.marked then -1 else 0, e.value.answers,
        e.value.question.deps, embedding⟩ := by
  obtain ⟨embedding, hembedding⟩ := Option.isSome_iff_exists.mp h
  exact ⟨embedding, hembedding, by rw [document, hembedding]; rfl⟩

/-- The documents that carry the mark are those of the marked entries. -/
theorem markedPks {l : Ledger Nat (CacheData Empty E)} (h : ∀ e ∈ l, e.value.embeddingData.isSome = true) :
    ((l.filterMap document).filter fun q => q.deleted = -1).map RedisQuestion.pk = l.markedKeys := by
  rw [List.filter_filterMap, List.map_filterMap, Ledger.markedKeys, ← List.filterMap_eq_map, List.filterMap_filter]
  refine List.filterMap_congr fun e he => ?_
  obtain ⟨embedding, _, hdoc⟩ := document_of_embedded (h e he)
  rw [hdoc]
  cases e.marked <;> rfl

theorem mark_holds {s : RedisCacheStorage E} {l : Ledger Nat (CacheData Empty E)} (h : Holds s l) (keys : List Nat) :
    Holds { s with ques := s.ques.map fun q => if q.pk ∈ keys then { q with deleted := -1 } else q } (l.mark keys) := by
  refine ⟨?_, ?_, ?_, ?_, ?_⟩
  · show s.ques.map _ = _
    rw [h.ques, List.map_filterMap, Ledger.mark, List.filterMap_map]
    refine List.filterMap_congr fun e he => ?_
    obtain ⟨embedding, hembedding, hdoc⟩ := document_of_embedded (h.embedded e he)
    rw [hdoc, Option.map_some, Function.comp]
    by_cases hk : e.key ∈ keys
    · simp only [hk, if_true, document, hembedding, Option.map_some]
    · simp only [hk, if_false, hdoc]
  · rw [Ledger.rows_mark]
    exact h.session
  · intro e he
    obtain ⟨e', he', rfl⟩ := List.mem_map.mp he
    split <;> exact h.embedded e' he'
  · rw [Ledger.keys_mark]
    exact h.nodup
  · rw [Ledger.keys_mark]
    exact h.counted

theorem clear_holds {s : RedisCacheStorage E} {l : Ledger Nat (CacheData Empty E)} (h : Holds s l) :
    Holds { s with
      ques := s.ques.filter fun q => q.pk ∉ l.markedKeys
      session := s.session.filter fun r => r.questionId ∉ l.markedKeys } l.clear := by
  have hsub : ∀ e ∈ l.clear, e ∈ l := fun e he => List.mem_of_mem_filter he
  refine ⟨?_, ?_, fun e he => h.embedded e (hsub e he), h.nodup.sublist l.keys_clear_sublist, ?_⟩
  · show s.ques.filter _ = _
    rw [h.ques, List.filter_filterMap, Ledger.clear, List.filterMap_filter]
    refine List.filterMap_congr fun e he => ?_
    obtain ⟨embedding, _, hdoc⟩ := document_of_embedded (h.embedded e he)
    have hmarked := Ledger.mem_markedKeys h.nodup he
    rw [hdoc]
    cases hm : e.marked with
    | true => simp [Option.filter, hmarked, hm]
    | false => simp [Option.filter, hmarked, hm]
  · show s.session.filter _ = _
    rw [h.session]
    exact Ledger.rows_clear sessionRows_owner h.nodup
  · exact fun k hk => h.counted k (l.keys_clear_sublist.subset hk)

/-- A query for some values finds what it names, and one for none raises or
finds nothing: either way what is done with the result is done. -/
theorem wp_findIn {Q : Unit → RedisCacheStorage E → Prop} {R : PyError → RedisCacheStorage E → Prop}
    {values : List Nat} {s : RedisCacheStorage E} (hfound : Q () s) (hnone : values = [] → ∀ err, R err s) :
    Exec.wp (findIn om values) Q R s := by
  unfold findIn
  split
  · exact hnone rfl _
  · exact hfound

theorem markDeleted_holds {s : RedisCacheStorage E} {l : Ledger Nat (CacheData Empty E)}
    (h : Holds s l) (keys : List Nat) :
    Exec.wp (markDeleted om keys) (fun _ s' => Holds s' (l.mark keys)) (fun _ s' => Holds s' (l.mark keys)) s := by
  rw [markDeleted, Exec.wp_bind]
  refine wp_findIn om (mark_holds h keys) fun hkeys _ => ?_
  rwa [hkeys, Ledger.mark_nil]

theorem clearDeletedData_holds {s : RedisCacheStorage E} {l : Ledger Nat (CacheData Empty E)} (h : Holds s l) :
    Exec.wp (clearDeletedData om) (fun _ s' => Holds s' l.clear) (fun _ s' => Holds s' l.clear) s := by
  have hpks : (s.ques.filter fun q => q.deleted = -1).map RedisQuestion.pk = l.markedKeys := by
    rw [h.ques, markedPks h.embedded]
  simp only [clearDeletedData, Exec.wp_bind, Exec.wp_read, hpks]
  refine wp_findIn om (clear_holds h) fun hkeys _ => ?_
  rwa [Ledger.clear_of_markedKeys hkeys]

/-- Redis answers with the entry of the ledger, whether it is marked or not. -/
theorem getDataById_eq {s : RedisCacheStorage E} {l : Ledger Nat (CacheData Empty E)} (h : Holds s l) (key : Nat) :
    getDataById key s =
      some (.ok ((l.entry key).bind fun e => e.value.embeddingData.map e.value.stored), s) := by
  have hfind : (s.ques.find? fun q => q.pk = key) = (l.entry key).bind document := by
    rw [h.ques, List.find?_filterMap, Ledger.entry]
    congr 1
    refine List.find?_congr fun e he => ?_
    obtain ⟨embedding, _, hdoc⟩ := document_of_embedded (h.embedded e he)
    rw [hdoc, Option.any_some]
  rw [getDataById, Exec.read_bind, hfind]
  cases hentry : l.entry key with
  | none => rfl
  | some e =>
    obtain ⟨he, rfl⟩ := Ledger.key_of_entry hentry
    obtain ⟨embedding, hembedding, hdoc⟩ := document_of_embedded (h.embedded e he)
    have hsessions : (s.session.filter fun r => r.questionId = e.key).map RedisSession.sessionId =
        e.value.sessionNames := by
      rw [h.session, Ledger.rows_of_key sessionRows_owner h.nodup he, sessionRows, List.map_map]
      exact List.map_id _
    simp only [Option.bind_some, hdoc, hembedding, Option.map_some, hsessions]
    rfl

theorem run_holds (ops : List (EntryOp E)) : Holds ((entries om).run empty ops).1 ((entries om).run empty ops).2 := by
  refine (entries om).run_keeps empty_holds (fun s l op h => ?_) ops
  refine (entries om).step_keeps (batchInsert_holds h) (fun key => ?_) (markDeleted_holds om h)
    (clearDeletedData_holds om h) op
  exact (Exec.wp_of_ok (getDataById_eq h key)).mpr h

/-- Redis serves a reader just where no mark is under the id. -/
theorem serves_iff {s : RedisCacheStorage E} {l : Ledger Nat (CacheData Empty E)} (h : Holds s l) (key : Nat) :
    (entries om).Serves s l key ↔ key ∉ l.markedKeys := by
  have hget : (entries om).getDataById key s =
      some (.ok ((l.entry key).bind fun e => e.value.embeddingData.map e.value.stored), s) := getDataById_eq h key
  unfold EntryStore.Serves Ledger.live
  rw [hget]
  cases hentry : l.entry key with
  | none =>
    have habsent := Ledger.entry_eq_none.mp hentry
    exact iff_of_true rfl fun hmem => habsent (l.markedKeys_sublist.subset hmem)
  | some e =>
    obtain ⟨he, rfl⟩ := Ledger.key_of_entry hentry
    obtain ⟨embedding, hembedding⟩ := Option.isSome_iff_exists.mp (h.embedded e he)
    rw [Ledger.mem_markedKeys h.nodup he]
    obtain ⟨key, data, marked⟩ := e
    dsimp only at hembedding
    cases marked with
    | true => simp [hembedding]
    | false => simp [hembedding]

end RedisCacheStorage

/-! ## MongoDB -/

namespace MongoStorage

variable (me : Mongoengine)

def entries : EntryStore (MongoStorage E) E where
  batchInsert := batchInsert me
  getDataById := getDataById
  markDeleted := markDeleted
  clearDeletedData := clearDeletedData

def questionOf (e : LedgerEntry Nat (CacheData Empty E)) : MongoQuestion E :=
  ⟨e.key, e.value.question.content, e.value.embeddingData, if e.marked then -1 else 0⟩

def answerRows (key : Nat) (data : CacheData Empty E) : List (AnswerRow Empty) :=
  data.answers.map fun a => ⟨key, a.answer, a.answerType⟩

def depRows (key : Nat) (data : CacheData Empty E) : List DepRow :=
  data.question.deps.map fun dep => ⟨key, dep.name, dep.data, dep.depType⟩

def sessionRows (key : Nat) (data : CacheData Empty E) : List MongoSession :=
  data.sessionNames.map fun name => ⟨key, name, data.question.content⟩

/-- The documents are those of the ledger. -/
structure Holds (s : MongoStorage E) (l : Ledger Nat (CacheData Empty E)) : Prop where
  ques : s.ques = l.map questionOf
  answer : s.answer = l.rows answerRows
  quesDep : s.quesDep = l.rows depRows
  session : s.session = l.rows sessionRows
  nodup : l.keys.Nodup
  counted : ∀ k ∈ l.keys, k ≤ s.counter

theorem empty_holds : Holds (empty : MongoStorage E) [] :=
  ⟨rfl, rfl, rfl, rfl, List.nodup_nil, by simp [Ledger.keys]⟩

theorem answerRows_owner (key : Nat) (data : CacheData Empty E) : ∀ r ∈ answerRows key data, r.questionId = key := by
  intro r hr
  obtain ⟨a, -, rfl⟩ := List.mem_map.mp hr
  rfl

theorem depRows_owner (key : Nat) (data : CacheData Empty E) : ∀ r ∈ depRows key data, r.questionId = key := by
  intro r hr
  obtain ⟨dep, -, rfl⟩ := List.mem_map.mp hr
  rfl

theorem sessionRows_owner (key : Nat) (data : CacheData Empty E) : ∀ r ∈ sessionRows key data, r.questionId = key := by
  intro r hr
  obtain ⟨name, -, rfl⟩ := List.mem_map.mp hr
  rfl

theorem wp_insertDocs {α : Type} {docs : List α} {f : MongoStorage E → MongoStorage E} {s : MongoStorage E}
    {Q : Unit → MongoStorage E → Prop} {R : PyError → MongoStorage E → Prop} (hinserted : Q () (f s))
    (hnone : docs = [] → ∀ err, R err s) : Exec.wp (insertDocs me docs f) Q R s := by
  unfold insertDocs
  split
  · exact hnone rfl _
  · exact hinserted

theorem wp_insertDeps {key : Nat} {data : CacheData Empty E} {s : MongoStorage E}
    {Q : Unit → MongoStorage E → Prop} {R : PyError → MongoStorage E → Prop}
    (hinserted : Q () { s with quesDep := s.quesDep ++ depRows key data })
    (hnone : depRows key data = [] → ∀ err, R err s) :
    Exec.wp (insertDeps me key data.question) Q R s := by
  obtain ⟨question, answers, embeddingData, sessionId⟩ := data
  unfold insertDeps depRows at *
  dsimp only at *
  split
  · refine wp_insertDocs me hinserted fun hdeps err => hnone ?_ err
    simp only [QuestionArg.deps, hdeps, Option.getD_some, List.map_nil]
  · rename_i hnodeps
    have hdeps : question.deps = [] := by
      cases question with
      | str text => rfl
      | question q =>
        obtain ⟨content, deps⟩ := q
        cases deps with
        | none => rfl
        | some deps => exact absurd rfl (hnodeps content deps)
    rw [hdeps] at hinserted
    simpa using hinserted

theorem Holds.inserted {s : MongoStorage E} {l : Ledger Nat (CacheData Empty E)} (h : Holds s l)
    (data : CacheData Empty E) :
    Holds { s with
      counter := s.counter + 1
      ques := s.ques ++ [questionOf ⟨s.counter + 1, data, false⟩]
      answer := s.answer ++ answerRows (s.counter + 1) data
      quesDep := s.quesDep ++ depRows (s.counter + 1) data
      session := s.session ++ sessionRows (s.counter + 1) data } (l.insert [(s.counter + 1, data)]) := by
  have hrows : ∀ {R : Type} (f : Nat → CacheData Empty E → List R),
      (l.insert [(s.counter + 1, data)]).rows f = l.rows f ++ f (s.counter + 1) data := by
    intro R f
    rw [Ledger.rows_insert, List.flatMap_singleton]
  refine ⟨?_, ?_, ?_, ?_, ?_, ?_⟩
  · rw [h.ques, Ledger.insert, List.map_append]
    rfl
  · rw [hrows, h.answer]
  · rw [hrows, h.quesDep]
  · rw [hrows, h.session]
  · rw [Ledger.keys_insert, List.nodup_append]
    refine ⟨h.nodup, List.nodup_singleton _, fun k hk k' hk' heq => ?_⟩
    have hle := h.counted k hk
    rw [heq, List.mem_singleton.mp hk'] at hle
    exact absurd hle (Nat.not_succ_le_self _)
  · intro k hk
    rw [Ledger.keys_insert, List.mem_append] at hk
    rcases hk with hk | hk
    · exact (h.counted k hk).trans (Nat.le_succ _)
    · exact (List.mem_singleton.mp hk).le

/-- What an insertion that raises leaves of its entry. -/
def bare (data : CacheData Empty E) : CacheData Empty E := { data with answers := [], sessionId := none }

/-- An entry that is inserted, and what is left of one that is not. -/
theorem insert_holds {s : MongoStorage E} {l : Ledger Nat (CacheData Empty E)} (h : Holds s l)
    (data : CacheData Empty E) :
    Exec.wp (insert me data) (fun id s' => Holds s' (l.insert [(id, data)]))
      (fun _ s' => ∃ item, Holds s' (l.insert [item])) s := by
  have hbare := h.inserted (bare data)
  have hnone : answerRows (s.counter + 1) (bare data) = [] ∧ sessionRows (s.counter + 1) (bare data) = [] := ⟨rfl, rfl⟩
  rw [hnone.1, hnone.2, List.append_nil, List.append_nil] at hbare
  simp only [insert, Exec.wp_bind, Exec.wp_modify, Exec.wp_read, Exec.wp_pure]
  refine wp_insertDeps me (wp_insertDocs me ?_ fun _ _ => ⟨_, hbare⟩) fun hdeps _ => ⟨(s.counter + 1, bare data), ?_⟩
  · have hwhole := h.inserted data
    obtain ⟨question, answers, embeddingData, sessionId⟩ := data
    simp only [sessionRows, CacheData.sessionNames] at hwhole
    cases sessionId with
    | none =>
      rw [List.map_nil, List.append_nil] at hwhole
      exact hwhole
    | some name =>
      by_cases hname : name = ""
      · simp only [hname, if_true, List.map_nil, List.append_nil] at hwhole ⊢
        exact hwhole
      · simp only [hname, if_false] at hwhole ⊢
        exact hwhole
  · have hnodeps : depRows (s.counter + 1) (bare data) = [] := hdeps
    rw [hnodeps, List.append_nil] at hbare
    exact hbare

/-- A batch that is inserted, and what is left of one that is not. -/
theorem batchInsert_holds : ∀ (allData : List (CacheData Empty E)) {s : MongoStorage E}
    {l : Ledger Nat (CacheData Empty E)}, Holds s l →
    Exec.wp (batchInsert me allData) (fun ids s' => Holds s' (l.insert (ids.zip allData)))
      (fun _ s' => ∃ items, Holds s' (l.insert items)) s
  | [], s, l, h => by
    rw [batchInsert, Exec.wp_pure, List.zip_nil_right, Ledger.insert_nil]
    exact h
  | data :: allData, s, l, h => by
    simp only [batchInsert, Exec.wp_bind, Exec.wp_pure]
    refine Exec.wp_mono (insert_holds me h data) (fun id s₁ h₁ => ?_) fun _ s' h₁ => ?_
    · refine Exec.wp_mono (batchInsert_holds allData h₁) (fun ids s₂ h₂ => ?_) fun _ s' h₂ => ?_
      · rwa [Ledger.insert_insert] at h₂
      · obtain ⟨items, h₂⟩ := h₂
        rw [Ledger.insert_insert] at h₂
        exact ⟨_, h₂⟩
    · obtain ⟨item, h₁⟩ := h₁
      exact ⟨_, h₁⟩

theorem mark_holds {s : MongoStorage E} {l : Ledger Nat (CacheData Empty E)} (h : Holds s l) (keys : List Nat) :
    Exec.wp (markDeleted keys) (fun _ s' => Holds s' (l.mark keys)) (fun _ s' => Holds s' (l.mark keys)) s := by
  rw [markDeleted, Exec.wp_modify]
  refine ⟨?_, ?_, ?_, ?_, ?_, ?_⟩
  · show s.ques.map _ = _
    rw [h.ques]
    exact (Ledger.map_mark l (fun e hk => if_pos hk) fun e hk => if_neg hk).symm
  · rw [Ledger.rows_mark]
    exact h.answer
  · rw [Ledger.rows_mark]
    exact h.quesDep
  · rw [Ledger.rows_mark]
    exact h.session
  · rw [Ledger.keys_mark]
    exact h.nodup
  · rw [Ledger.keys_mark]
    exact h.counted

theorem clear_holds {s : MongoStorage E} {l : Ledger Nat (CacheData Empty E)} (h : Holds s l) :
    Exec.wp clearDeletedData (fun _ s' => Holds s' l.clear) (fun _ s' => Holds s' l.clear) s := by
  have hids : (s.ques.filter fun q => q.deleted = -1).map MongoQuestion.oid = l.markedKeys := by
    rw [h.ques, List.filter_map, List.map_map, Ledger.markedKeys]
    refine congrArg (List.map _) (List.filter_congr fun e _ => ?_)
    cases hm : e.marked <;> simp [questionOf, hm]
  simp only [clearDeletedData, Exec.wp_modify, hids]
  refine ⟨?_, ?_, ?_, ?_, h.nodup.sublist l.keys_clear_sublist, fun k hk =>
    h.counted k (l.keys_clear_sublist.subset hk)⟩
  · show s.ques.filter _ = _
    rw [h.ques, List.filter_map, Ledger.clear]
    refine congrArg (List.map _) (List.filter_congr fun e _ => ?_)
    cases hm : e.marked <;> simp [questionOf, hm]
  · show s.answer.filter _ = _
    rw [h.answer]
    exact Ledger.rows_clear answerRows_owner h.nodup
  · show s.quesDep.filter _ = _
    rw [h.quesDep]
    exact Ledger.rows_clear depRows_owner h.nodup
  · show s.session.filter _ = _
    rw [h.session]
    exact Ledger.rows_clear sessionRows_owner h.nodup

/-- An entry that is live and has an embedding is returned. -/
theorem getDataById_of_live {s : MongoStorage E} {l : Ledger Nat (CacheData Empty E)} (h : Holds s l) {key : Nat}
    {data : CacheData Empty E} {embedding : E} (hlive : l.live key = some data)
    (hembedding : data.embeddingData = some embedding) :
    getDataById key s = some (.ok (some (data.stored embedding)), s) := by
  have hmem : (⟨key, data, false⟩ : LedgerEntry Nat (CacheData Empty E)) ∈ l := (Ledger.live_eq_some h.nodup).mp hlive
  have hfind : (s.ques.find? fun q => decide (q.oid = key) && decide (q.deleted = 0)) =
      some (questionOf ⟨key, data, false⟩) := by
    rw [h.ques, List.find?_map, Ledger.find?_of_mem h.nodup hmem (by simp [questionOf]) fun e' hfinds => ?_]
    · rfl
    · simp only [Function.comp, Bool.and_eq_true, decide_eq_true_eq] at hfinds
      exact hfinds.1
  have hdeps : (s.quesDep.filter fun r => r.questionId = key).map
      (fun r => (⟨r.depName, r.depData, r.depType⟩ : QuestionDep)) =
      data.question.deps := by
    have hrows := Ledger.rows_of_key depRows_owner h.nodup hmem
    rw [h.quesDep, hrows, depRows, List.map_map]
    exact List.map_id _
  have hanswers : (s.answer.filter fun r => r.questionId = key).map
      (fun r => (⟨r.answer, r.answerType⟩ : Answer Empty)) =
      data.answers := by
    have hrows := Ledger.rows_of_key answerRows_owner h.nodup hmem
    rw [h.answer, hrows, answerRows, List.map_map]
    exact List.map_id _
  have hsessions : (s.session.filter fun r => r.questionId = key).map MongoSession.sessionId = data.sessionNames := by
    have hrows := Ledger.rows_of_key sessionRows_owner h.nodup hmem
    rw [h.session, hrows, sessionRows, List.map_map]
    exact List.map_id _
  rw [getDataById, Exec.read_bind, hfind]
  simp only [questionOf, hembedding, hdeps, hanswers, hsessions]
  rfl

/-- What it returns is an entry. -/
theorem getDataById_wp (key : Nat) (s : MongoStorage E) :
    Exec.wp (getDataById key) (fun entry s' => entry.isSome = true ∧ s' = s) (fun _ s' => s' = s) s := by
  simp only [getDataById, Exec.wp_bind, Exec.wp_read]
  cases s.ques.find? fun q => decide (q.oid = key) && decide (q.deleted = 0) with
  | none => exact rfl
  | some qs =>
    dsimp only
    cases qs.embeddingData with
    | none => exact rfl
    | some embedding => exact ⟨rfl, rfl⟩

/-- A batch that raises leaves entries whose ids nobody was given. -/
def Knows (s : MongoStorage E) (l : Ledger Nat (CacheData Empty E)) : Prop :=
  ∃ whole, Holds s whole ∧ List.Sublist l whole

theorem run_knows (ops : List (EntryOp E)) : Knows ((entries me).run empty ops).1 ((entries me).run empty ops).2 := by
  refine (entries me).run_keeps ⟨[], empty_holds, .refl _⟩ (fun s l op h => ?_) ops
  obtain ⟨whole, hholds, hsub⟩ := h
  refine (entries me).step_keeps (fun allData => ?_) (fun key => ?_) (fun keys => ?_) ?_ op
  · refine Exec.wp_mono (batchInsert_holds me allData hholds) (fun ids s' h => ⟨_, h, hsub.append (.refl _)⟩)
      fun _ s' h => ?_
    obtain ⟨items, h⟩ := h
    exact ⟨_, h, hsub.trans (List.sublist_append_left _ _)⟩
  · refine Exec.wp_mono (getDataById_wp key s) (fun entry s' h => ?_) fun err s' h => ?_
    · exact ⟨whole, h.2 ▸ hholds, hsub⟩
    · exact ⟨whole, h ▸ hholds, hsub⟩
  · exact Exec.wp_mono (mark_holds hholds keys) (fun _ s' h => ⟨_, h, hsub.map _⟩) fun _ s' h => ⟨_, h, hsub.map _⟩
  · exact Exec.wp_mono (clear_holds hholds) (fun _ s' h => ⟨_, h, hsub.filter _⟩) fun _ s' h => ⟨_, h, hsub.filter _⟩

/-- MongoDB serves a reader just where there is an entry to serve. -/
theorem serves_iff {s : MongoStorage E} {l : Ledger Nat (CacheData Empty E)} (h : Knows s l) (key : Nat) :
    (entries me).Serves s l key ↔ ∃ data, l.live key = some data ∧ data.embeddingData.isSome = true := by
  obtain ⟨whole, hholds, hsub⟩ := h
  unfold EntryStore.Serves
  cases hlive : l.live key with
  | none =>
    refine iff_of_false (fun hnone => ?_) (by simp)
    have hsome := ((Exec.wp_of_ok hnone).mp (getDataById_wp key s)).1
    cases hsome
  | some data =>
    refine ⟨fun ⟨embedding, hembedding, _⟩ => ⟨data, rfl, by rw [hembedding]; rfl⟩, fun ⟨data', hdata, hsome⟩ => ?_⟩
    cases hdata
    obtain ⟨embedding, hembedding⟩ := Option.isSome_iff_exists.mp hsome
    have hmem := (Ledger.live_eq_some (hholds.nodup.sublist (hsub.map _))).mp hlive
    have hwhole := (Ledger.live_eq_some hholds.nodup).mpr (hsub.subset hmem)
    exact ⟨embedding, hembedding, getDataById_of_live hholds hwhole hembedding⟩

end MongoStorage

/-- **After every run**, from an empty store, Redis serves a reader under just
the ids that carry no mark, and MongoDB under just those of live entries (with
an embedding to read). -/
theorem served_iff (om : RedisOm) (me : Mongoengine) (ops : List (EntryOp E)) (key : Nat) :
    ((RedisCacheStorage.entries om).Serves ((RedisCacheStorage.entries om).run .empty ops).1
        ((RedisCacheStorage.entries om).run .empty ops).2 key ↔
      key ∉ ((RedisCacheStorage.entries om).run .empty ops).2.markedKeys) ∧
    ((MongoStorage.entries me).Serves ((MongoStorage.entries me).run .empty ops).1
        ((MongoStorage.entries me).run .empty ops).2 key ↔
      ∃ data, ((MongoStorage.entries me).run .empty ops).2.live key = some data ∧ data.embeddingData.isSome = true) :=
  ⟨RedisCacheStorage.serves_iff om (RedisCacheStorage.run_holds om ops) key,
    MongoStorage.serves_iff me (MongoStorage.run_knows me ops) key⟩

def oneEntry : CacheData Empty Unit := ⟨.str "q", [⟨.str "a", .STR⟩], some (), none⟩

def insertAndMark : List (EntryOp Unit) := [.batchInsert [oneEntry], .markDeleted [1]]

/-- An entry that is marked: Redis still serves it, and MongoDB raises. -/
theorem marked_entry_read :
    (((RedisCacheStorage.entries .exact).run .empty insertAndMark).2.live 1).isNone = true ∧
    (∃ s, RedisCacheStorage.getDataById 1 ((RedisCacheStorage.entries .exact).run .empty insertAndMark).1 =
      some (.ok (some (oneEntry.stored ())), s)) ∧
    ¬ (RedisCacheStorage.entries .exact).Serves ((RedisCacheStorage.entries .exact).run .empty insertAndMark).1
      ((RedisCacheStorage.entries .exact).run .empty insertAndMark).2 1 ∧
    (((MongoStorage.entries .unset).run .empty insertAndMark).2.live 1).isNone = true ∧
    (∃ s, MongoStorage.getDataById 1 ((MongoStorage.entries .unset).run .empty insertAndMark).1 =
      some (.error ⟨.DoesNotExist, "Questions matching query does not exist."⟩, s)) ∧
    ¬ (MongoStorage.entries .unset).Serves ((MongoStorage.entries .unset).run .empty insertAndMark).1
      ((MongoStorage.entries .unset).run .empty insertAndMark).2 1 := by
  refine ⟨rfl, ⟨_, rfl⟩, ?_, rfl, ⟨_, rfl⟩, ?_⟩
  · intro h
    cases (h : some (Except.ok (some _), _) = some (Except.ok none, _))
  · intro h
    cases (h : some (Except.error _, _) = some (Except.ok none, _))

end GptCache
