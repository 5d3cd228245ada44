/-
Several clients that insert into one Redis at the same time
(`RedisCacheStorage.batch_insert`).

Each entry takes two commands on the counter, `INCR` and `GET`, and the
documents of a call are written at its end, all at once. The commands of the
clients come in any order (`RedisClients.Step`). A client that runs alone does
what `batchInsert` does (`alone_batchInsert`); several get ids of their own, and
find their entries under them, just when no client's `INCR` comes between
another's `INCR` and its `GET` (`insert_ids_iff`).
-/
import GptCache.Lib.SharedCounter
import GptCache.Manager.SoftDelete
import GptCache.Manager.SqlLedger

namespace GptCache

variable {E : Type}

namespace RedisCacheStorage

/-- The document of an entry, whose id is `pk`. -/
def newDocument (pk : Nat) (data : WithEmbedding Empty E) : RedisQuestion E :=
  ⟨pk, data.1.question.content, 0, data.1.answers, data.1.question.deps, data.1.embeddingData.get data.2⟩

/-- `save` in a pipeline that is executed: in the place of a document with the same key. -/
def put (docs : List (RedisQuestion E)) (doc : RedisQuestion E) : List (RedisQuestion E) :=
  docs.filter (fun q => q.pk ≠ doc.pk) ++ [doc]

/-- `pipeline.execute()`, of the documents of these entries. -/
def execute (s : RedisCacheStorage E) (queued : List (Nat × WithEmbedding Empty E)) : RedisCacheStorage E where
  counter := s.counter
  ques := (queued.map fun item => newDocument item.1 item.2).foldl put s.ques
  session := s.session ++ queued.flatMap fun item => sessionRows item.1 item.2.1

/-- `Questions.get`. -/
def document? (s : RedisCacheStorage E) (pk : Nat) : Option (RedisQuestion E) := s.ques.find? fun q => q.pk = pk

end RedisCacheStorage

/-- Where a client is. -/
inductive RedisClient (E : Type) where
  /-- Between two calls of `batch_insert`: the entries of those to come. -/
  | between (calls : List (List (WithEmbedding Empty E)))
  /-- In `batch_insert`: the entries with an id, queued in the pipeline, and the others. -/
  | inserting (queued : List (Nat × WithEmbedding Empty E)) (rest : List (WithEmbedding Empty E))
      (calls : List (List (WithEmbedding Empty E)))
  /-- In `_insert` of `data`, between `incr` and `get`. -/
  | counted (queued : List (Nat × WithEmbedding Empty E)) (data : WithEmbedding Empty E)
      (rest : List (WithEmbedding Empty E)) (calls : List (List (WithEmbedding Empty E)))

namespace RedisClient

def isCounted : RedisClient E → Bool
  | counted _ _ _ _ => true
  | _ => false

/-- The ids a client has for entries of the call it is in. -/
def queued : RedisClient E → List (Nat × WithEmbedding Empty E)
  | between _ => []
  | inserting queued _ _ => queued
  | counted queued _ _ _ => queued

end RedisClient

inductive RedisCommand where
  /-- A call begins, with no command. -/
  | call
  | incr
  | get
  | exec
  deriving DecidableEq

structure RedisClients (E : Type) where
  server : RedisCacheStorage E
  clients : List (RedisClient E)
  /-- What the calls returned: the ids, each with its entry. -/
  returned : List (List (Nat × WithEmbedding Empty E))

namespace RedisClients

open RedisClient RedisCacheStorage

/-- The next command of one of the clients. -/
inductive Step : RedisClients E → RedisCommand → RedisClients E → Prop
  | call (server : RedisCacheStorage E) (before after : List (RedisClient E))
      (returned : List (List (Nat × WithEmbedding Empty E)))
      (allData : List (WithEmbedding Empty E)) (calls : List (List (WithEmbedding Empty E))) :
      Step ⟨server, before ++ between (allData :: calls) :: after, returned⟩ .call
        ⟨server, before ++ inserting [] allData calls :: after, returned⟩
  | incr (server : RedisCacheStorage E) (before after : List (RedisClient E))
      (returned : List (List (Nat × WithEmbedding Empty E)))
      (queued : List (Nat × WithEmbedding Empty E)) (data : WithEmbedding Empty E) (rest : List (WithEmbedding Empty E))
      (calls : List (List (WithEmbedding Empty E))) :
      Step ⟨server, before ++ inserting queued (data :: rest) calls :: after, returned⟩ .incr
        ⟨{ server with counter := server.counter + 1 }, before ++ counted queued data rest calls :: after, returned⟩
  | get (server : RedisCacheStorage E) (before after : List (RedisClient E))
      (returned : List (List (Nat × WithEmbedding Empty E)))
      (queued : List (Nat × WithEmbedding Empty E)) (data : WithEmbedding Empty E) (rest : List (WithEmbedding Empty E))
      (calls : List (List (WithEmbedding Empty E))) :
      Step ⟨server, before ++ counted queued data rest calls :: after, returned⟩ .get
        ⟨server, before ++ inserting (queued ++ [(server.counter, data)]) rest calls :: after, returned⟩
  | exec (server : RedisCacheStorage E) (before after : List (RedisClient E))
      (returned : List (List (Nat × WithEmbedding Empty E)))
      (queued : List (Nat × WithEmbedding Empty E)) (calls : List (List (WithEmbedding Empty E))) :
      Step ⟨server, before ++ inserting queued [] calls :: after, returned⟩ .exec
        ⟨server.execute queued, before ++ between calls :: after, returned ++ [queued]⟩

/-- An interleaving of the clients' commands, and whether an `INCR` came between another client's `INCR` and `GET`. -/
inductive Run (start : RedisClients E) : Bool → RedisClients E → Prop
  | start : Run start false start
  | step {overlapped : Bool} {s s' : RedisClients E} {command : RedisCommand} (h : Run start overlapped s)
      (hstep : Step s command s') : Run start (overlapped || (decide (command = .incr) && s.clients.any isCounted)) s'

/-- No call has begun. -/
def Initial (s : RedisClients E) : Prop := (∀ c ∈ s.clients, ∃ calls, c = between calls) ∧ s.returned = []

/-- All calls have returned. -/
def Done (s : RedisClients E) : Prop := ∀ c ∈ s.clients, c = between []

/-- All ids returned are distinct, and every entry is stored under its own. -/
def KeptApart (s : RedisClients E) : Prop :=
  (s.returned.flatten.map Prod.fst).Nodup ∧ ∀ item ∈ s.returned.flatten, s.server.document? item.1 =
    some (newDocument item.1 item.2)

/-! ## The counter -/

/-- The entries that have an id, with it. -/
def held (s : RedisClients E) : List (Nat × WithEmbedding Empty E) := s.returned.flatten ++ s.clients.flatMap queued

theorem decide_countP_ne_zero {α : Type} (p : α → Bool) (xs : List α) : decide (xs.countP p ≠ 0) = xs.any p := by
  rw [Bool.eq_iff_iff, decide_eq_true_eq, List.any_eq_true, ne_eq, List.countP_eq_zero]
  simp

/-- The clients take numbers from the counter: those that were read are the ids of the entries, and the clients between
their two commands are pending. -/
theorem Run.counts {start s : RedisClients E} {overlapped : Bool} (hinit : Initial start) (h : Run start overlapped s) :
    ∃ read, SharedCounter.Run start.server.counter overlapped ⟨s.server.counter, s.clients.countP isCounted, read⟩ ∧
      read.Perm (s.held.map Prod.fst) := by
  induction h with
  | start =>
    have hnone : start.clients.countP isCounted = 0 := by
      rw [List.countP_eq_zero]
      intro c hc
      obtain ⟨calls, rfl⟩ := hinit.1 c hc
      simp [isCounted]
    have hqueued : start.clients.flatMap queued = [] := by
      rw [List.flatMap_eq_nil_iff]
      intro c hc
      obtain ⟨calls, rfl⟩ := hinit.1 c hc
      rfl
    refine ⟨[], hnone ▸ .start, ?_⟩
    rw [held, hqueued, hinit.2]
    rfl
  | step _ hstep ih =>
    obtain ⟨read, hcounter, hread⟩ := ih
    cases hstep with
    | call server before after returned allData calls =>
      refine ⟨read, ?_, ?_⟩
      · simpa [isCounted] using hcounter
      · simpa [held, queued] using hread
    | incr server before after returned queued' data rest calls =>
      refine ⟨read, ?_, ?_⟩
      · have hincr := hcounter.incr
        rw [decide_countP_ne_zero] at hincr
        simp only [List.countP_append, List.countP_cons, isCounted, Bool.false_eq_true, if_false, if_true] at hincr ⊢
        simpa [Nat.add_assoc] using hincr
      · simpa [held, queued] using hread
    | get server before after returned queued' data rest calls =>
      refine ⟨read ++ [server.counter], ?_, ?_⟩
      · simp only [List.countP_append, List.countP_cons, isCounted, Bool.false_eq_true, if_false, if_true] at hcounter ⊢
        have hget := SharedCounter.Run.get (hcounter : SharedCounter.Run _ _ ⟨_, (_ + _) + 1, _⟩)
        simpa using hget
      · refine (hread.append_right [server.counter]).trans ?_
        simp only [held, List.flatMap_append, List.flatMap_cons, queued, List.map_append, List.map_cons,
          List.append_assoc, List.singleton_append]
        exact .append_left _ (.append_left _ (.append_left _ (List.perm_append_singleton _ _)))
    | exec server before after returned queued' calls =>
      refine ⟨read, ?_, ?_⟩
      · simpa [isCounted, execute] using hcounter
      · refine hread.trans ?_
        simp only [held, List.flatMap_append, List.flatMap_cons, queued, List.flatten_append,
          List.flatten_cons, List.flatten_nil, List.append_nil, List.nil_append, List.map_append, List.append_assoc]
        exact .append_left _ (List.perm_append_comm_assoc _ _ _)

/-! ## The documents -/

theorem document?_put_self (s : List (RedisQuestion E)) (doc : RedisQuestion E) :
    (put s doc).find? (fun q => q.pk = doc.pk) = some doc := by
  have hnone : (s.filter fun q => q.pk ≠ doc.pk).find? (fun q => q.pk = doc.pk) = none := by
    rw [List.find?_eq_none]
    intro q hq
    simpa using (List.mem_filter.mp hq).2
  rw [put, List.find?_append, hnone]
  simp

theorem document?_put_other (s : List (RedisQuestion E)) {doc : RedisQuestion E} {pk : Nat} (hne : doc.pk ≠ pk) :
    (put s doc).find? (fun q => q.pk = pk) = s.find? fun q => q.pk = pk := by
  rw [put, List.find?_append, List.find?_filter]
  have hlast : [doc].find? (fun q => q.pk = pk) = none := by simp [hne]
  rw [hlast, Option.or_none]
  refine congrArg (List.find? · s) (funext fun q => ?_)
  by_cases hq : q.pk = pk
  · have hkept : q.pk ≠ doc.pk := fun h => hne (h ▸ hq)
    simp [hq, hq ▸ hkept]
  · simp [hq]

theorem document?_execute_other (s : RedisCacheStorage E) {queued : List (Nat × WithEmbedding Empty E)} {pk : Nat}
    (h : ∀ item ∈ queued, item.1 ≠ pk) : (s.execute queued).document? pk = s.document? pk := by
  show ((queued.map fun item => newDocument item.1 item.2).foldl put s.ques).find? _ = s.ques.find? _
  generalize s.ques = docs
  induction queued generalizing docs with
  | nil => rfl
  | cons item queued ih =>
    obtain ⟨hitem, hrest⟩ := List.forall_mem_cons.mp h
    rw [List.map_cons, List.foldl_cons, ih hrest, document?_put_other]
    exact hitem

/-- The documents of entries with distinct ids. -/
theorem document?_execute (s : RedisCacheStorage E) {queued : List (Nat × WithEmbedding Empty E)}
    (h : (queued.map Prod.fst).Nodup) : ∀ item ∈ queued, (s.execute queued).document? item.1 =
    some (newDocument item.1 item.2) := by
  show ∀ item ∈ queued, ((queued.map fun item => newDocument item.1 item.2).foldl put s.ques).find? _ = _
  generalize s.ques = docs
  induction queued generalizing docs with
  | nil => simp
  | cons item queued ih =>
    obtain ⟨hnew, hrest⟩ := List.nodup_cons.mp h
    refine List.forall_mem_cons.mpr ⟨?_, fun item' hitem' => ih hrest _ item' hitem'⟩
    have hother : ∀ item' ∈ queued, item'.1 ≠ item.1 := fun item' hitem' heq => hnew (heq ▸ List.mem_map_of_mem hitem')
    have hkept := document?_execute_other ⟨0, put docs (newDocument item.1 item.2), []⟩ hother
    exact hkept.trans (document?_put_self docs (newDocument item.1 item.2))

/-- Where no two clients were pending, all ids given are distinct. -/
theorem Run.held_nodup {start s : RedisClients E} (hinit : Initial start) (h : Run start false s) :
    (s.held.map Prod.fst).Nodup := by
  obtain ⟨read, hcounter, hread⟩ := h.counts hinit
  exact hread.nodup_iff.mp (hcounter.fresh rfl).1

/-- What was returned is there, and stays. -/
theorem Run.stored {start s : RedisClients E} {overlapped : Bool} (hinit : Initial start) (h : Run start overlapped s) :
    overlapped = false → ∀ item ∈ s.returned.flatten, s.server.document? item.1 = some (newDocument item.1 item.2) := by
  induction h with
  | start =>
    intro _ item hitem
    rw [hinit.2] at hitem
    cases hitem
  | step hrun hstep ih =>
    intro hone
    obtain ⟨rfl, -⟩ := Bool.or_eq_false_iff.mp hone
    replace ih := ih rfl
    cases hstep with
    | call _ _ _ _ _ _ => exact ih
    | incr _ _ _ _ _ _ _ _ => exact ih
    | get _ _ _ _ _ _ _ _ => exact ih
    | exec server before after returned queued' calls =>
      have hnodup := hrun.held_nodup hinit
      simp only [held, List.flatMap_append, List.flatMap_cons, queued, List.map_append] at hnodup
      obtain ⟨-, hclients, hdisjoint⟩ := List.nodup_append.mp hnodup
      have hqueued := (List.nodup_append.mp (List.nodup_append.mp hclients).2.1).1
      intro item hitem
      rw [List.flatten_append, List.flatten_cons, List.flatten_nil, List.append_nil, List.mem_append] at hitem
      rcases hitem with hitem | hitem
      · rw [document?_execute_other]
        · exact ih item hitem
        · intro item' hitem' heq
          have hmem : item'.1 ∈ queued'.map Prod.fst := List.mem_map_of_mem hitem'
          exact hdisjoint item.1 (List.mem_map_of_mem hitem) item'.1
            (List.mem_append_right _ (List.mem_append_left _ hmem)) heq.symm
      · exact document?_execute server hqueued item hitem

/-- **When all calls have returned**, the clients' entries are kept apart just if no `INCR` came between another
client's `INCR` and its `GET`. -/
theorem insert_ids_iff {start s : RedisClients E} {overlapped : Bool} (hinit : Initial start)
    (h : Run start overlapped s) (hdone : Done s) : KeptApart s ↔ overlapped = false := by
  obtain ⟨read, hcounter, hread⟩ := h.counts hinit
  have hpending : s.clients.countP isCounted = 0 := by
    rw [List.countP_eq_zero]
    intro c hc
    rw [hdone c hc]
    simp [isCounted]
  have hqueued : s.clients.flatMap queued = [] := by
    rw [List.flatMap_eq_nil_iff]
    intro c hc
    rw [hdone c hc]
    rfl
  have hids : read.Nodup ↔ (s.returned.flatten.map Prod.fst).Nodup := by
    rw [hread.nodup_iff, held, hqueued, List.append_nil]
  rw [KeptApart, ← hids, SharedCounter.nodup_iff hcounter hpending]
  exact ⟨fun hkept => hkept.1, fun hone => ⟨hone, h.stored hinit hone⟩⟩

def oneAnswer (question answer : String) : WithEmbedding Empty Unit :=
  ⟨⟨.str question, [⟨.str answer, .STR⟩], some (), none⟩, rfl⟩

/-- Two clients with an entry each. -/
def twoClients : RedisClients Unit :=
  ⟨.empty, [between [[oneAnswer "q1" "a1"]], between [[oneAnswer "q2" "a2"]]], []⟩

theorem twoClients_initial : Initial twoClients := by
  refine ⟨fun c hc => ?_, rfl⟩
  rcases List.mem_cons.mp hc with rfl | hc
  · exact ⟨_, rfl⟩
  · exact ⟨_, List.mem_singleton.mp hc⟩

/-- The second client's `INCR` comes between the first one's `INCR` and `GET`. -/
theorem twoClients_overlap : Run twoClients true
    ⟨((RedisCacheStorage.mk 2 [] []).execute [(2, oneAnswer "q1" "a1")]).execute [(2, oneAnswer "q2" "a2")],
      [between [], between []], [[(2, oneAnswer "q1" "a1")], [(2, oneAnswer "q2" "a2")]]⟩ := by
  have h := ((Run.start : Run twoClients false twoClients).step (.call _ [] _ _ _ _)).step (.call _ [_] [] _ _ _)
  have h := ((h.step (.incr _ [] _ _ _ _ _ _)).step (.incr _ [_] [] _ _ _ _ _)).step (.get _ [] _ _ _ _ _ _)
  exact ((h.step (.get _ [_] [] _ _ _ _ _)).step (.exec _ [] _ _ _ _)).step (.exec _ [_] [] _ _ _)

/-- Both get the id 2. -/
theorem ids_collide : ∃ s, Run twoClients true s ∧ Done s ∧ ¬ KeptApart s := by
  refine ⟨_, twoClients_overlap, fun c hc => ?_, fun h => absurd h.1 (by decide)⟩
  simpa using hc

/-- The second client began when the first was done. -/
def afterBoth : RedisClients Unit :=
  ⟨(RedisCacheStorage.mk 2 [newDocument 1 (oneAnswer "q1" "a1")] []).execute [(2, oneAnswer "q2" "a2")],
    [between [], between []], [[(1, oneAnswer "q1" "a1")], [(2, oneAnswer "q2" "a2")]]⟩

theorem twoClients_serial : Run twoClients false afterBoth := by
  have h := ((Run.start : Run twoClients false twoClients).step (.call _ [] _ _ _ _)).step (.incr _ [] _ _ _ _ _ _)
  have h := ((h.step (.get _ [] _ _ _ _ _ _)).step (.exec _ [] _ _ _ _)).step (.call _ [_] [] _ _ _)
  exact ((h.step (.incr _ [_] [] _ _ _ _ _)).step (.get _ [_] [] _ _ _ _ _)).step (.exec _ [_] [] _ _ _)

theorem insert_ids_iff_serial : KeptApart afterBoth ↔ false = false :=
  insert_ids_iff twoClients_initial twoClients_serial fun c hc => by simpa [afterBoth] using hc

/-! ## One client -/

/-- The ids of a call that runs alone. -/
def nextIds (k : Nat) (allData : List (WithEmbedding Empty E)) : List (Nat × WithEmbedding Empty E) :=
  (List.range' (k + 1) allData.length).zip allData

theorem nextIds_cons (k : Nat) (data : WithEmbedding Empty E) (allData : List (WithEmbedding Empty E)) :
    nextIds k (data :: allData) = (k + 1, data) :: nextIds (k + 1) allData := by
  rw [nextIds, List.length_cons, List.range'_succ, List.zip_cons_cons]
  rfl

theorem inserts_embedded : ∀ (allData : List (WithEmbedding Empty E)) (s : RedisCacheStorage E),
    ∃ queued, inserts (allData.map Subtype.val) s = some (.ok queued, { s with counter := s.counter + allData.length })
  | [], _ => ⟨[], rfl⟩
  | data :: allData, s => by
    obtain ⟨embedding, hembedding⟩ := Option.isSome_iff_exists.mp data.2
    have hinsert : ∃ q, RedisCacheStorage.insert data.1 s = some (.ok q, { s with counter := s.counter + 1 }) := by
      rcases Exec.wp_returns (insert_queued data.1 s) with ⟨q, s', hm, hs', -⟩ | ⟨err, s', hm, -⟩
      · exact ⟨q, hs' ▸ hm⟩
      · unfold RedisCacheStorage.insert at hm
        rw [hembedding] at hm
        cases hm
    obtain ⟨q, hinsert⟩ := hinsert
    obtain ⟨queued, hrest⟩ := inserts_embedded allData { s with counter := s.counter + 1 }
    refine ⟨q :: queued, ?_⟩
    rw [List.map_cons, inserts, Exec.bind_of_ok _ hinsert, Exec.bind_of_ok _ hrest, List.length_cons, Nat.add_assoc,
      Nat.add_comm 1]
    rfl

theorem document_embedded (id : Nat) (data : WithEmbedding Empty E) :
    document ⟨id, data.1, false⟩ = some (newDocument id data) := by
  unfold document newDocument
  obtain ⟨embedding, hembedding⟩ := Option.isSome_iff_exists.mp data.2
  simp [hembedding]

/-- Documents under the next numbers are new. -/
theorem foldl_put_nextIds : ∀ (allData : List (WithEmbedding Empty E)) {docs : List (RedisQuestion E)} {k : Nat},
    (∀ q ∈ docs, q.pk ≤ k) → ((nextIds k allData).map fun item => newDocument item.1 item.2).foldl put docs =
      docs ++ (nextIds k allData).map fun item => newDocument item.1 item.2
  | [], docs, k, _ => by simp [nextIds]
  | data :: allData, docs, k, h => by
    have hput : put docs (newDocument (k + 1) data) = docs ++ [newDocument (k + 1) data] := by
      refine congrArg (· ++ _) (List.filter_eq_self.mpr fun q hq => ?_)
      have hle := h q hq
      have hne : q.pk ≠ k + 1 := by omega
      exact decide_eq_true hne
    have hnext : ∀ q ∈ docs ++ [newDocument (k + 1) data], q.pk ≤ k + 1 := by
      intro q hq
      rcases List.mem_append.mp hq with hq | hq
      · exact (h q hq).trans (Nat.le_succ k)
      · rw [List.mem_singleton.mp hq]
        exact Nat.le_refl (k + 1)
    rw [nextIds_cons, List.map_cons, List.foldl_cons, hput, foldl_put_nextIds allData hnext, List.append_assoc]
    rfl

/-- What `batch_insert` does with no other client. -/
theorem batchInsert_embedded {s : RedisCacheStorage E} (h : ∀ q ∈ s.ques, q.pk ≤ s.counter)
    (allData : List (WithEmbedding Empty E)) : batchInsert (allData.map Subtype.val) s =
      some (.ok ((nextIds s.counter allData).map Prod.fst),
        { s with counter := s.counter + allData.length }.execute (nextIds s.counter allData)) := by
  obtain ⟨queued, hinserts⟩ := inserts_embedded allData s
  obtain ⟨-, hqueued⟩ := (Exec.wp_of_ok hinserts).mp (inserts_queued (allData.map Subtype.val) s)
  obtain ⟨hques, hsession, hpks, -⟩ := of_queued hqueued
  have hzip : (List.range' (s.counter + 1) (allData.map Subtype.val).length).zip (allData.map Subtype.val) =
      (nextIds s.counter allData).map fun item => (item.1, item.2.1) := by
    rw [List.length_map, nextIds, List.zip_map_right]
    rfl
  rw [hzip, List.filterMap_map] at hques
  rw [hzip, List.flatMap_map] at hsession
  rw [hzip, List.map_map] at hpks
  have hdocs : queued.map Prod.fst = (nextIds s.counter allData).map fun item => newDocument item.1 item.2 := by
    rw [hques, ← List.filterMap_eq_map]
    exact List.filterMap_congr fun item _ => document_embedded item.1 item.2
  unfold batchInsert
  rw [Exec.bind_of_ok _ hinserts]
  show some (Except.ok (queued.map fun q => q.1.pk), _) = _
  rw [hpks, hdocs, hsession]
  unfold execute
  rw [foldl_put_nextIds allData h]
  rfl

/-- A client with no other beside it does what `batchInsert` does. -/
theorem alone_batchInsert {s : RedisCacheStorage E} (h : ∀ q ∈ s.ques, q.pk ≤ s.counter)
    (allData : List (WithEmbedding Empty E)) :
    ∃ s', Run ⟨s, [between [allData]], []⟩ false ⟨s', [between []], [nextIds s.counter allData]⟩ ∧
      batchInsert (allData.map Subtype.val) s = some (.ok ((nextIds s.counter allData).map Prod.fst), s') := by
  have hentries : ∀ (rest : List (WithEmbedding Empty E)) (srv : RedisCacheStorage E)
      (queued : List (Nat × WithEmbedding Empty E)),
      Run ⟨s, [between [allData]], []⟩ false ⟨srv, [inserting queued rest []], []⟩ →
      Run ⟨s, [between [allData]], []⟩ false
        ⟨{ srv with counter := srv.counter + rest.length }, [inserting (queued ++ nextIds srv.counter rest) [] []],
          []⟩ := by
    intro rest
    induction rest with
    | nil =>
      intro srv queued hrun
      simpa [nextIds] using hrun
    | cons data rest ih =>
      intro srv queued hrun
      have hget := (hrun.step (.incr srv [] [] [] queued data rest [])).step
          (.get { srv with counter := srv.counter + 1 } [] [] [] queued data rest [])
      have hnext := ih { srv with counter := srv.counter + 1 } (queued ++ [(srv.counter + 1, data)]) hget
      rw [nextIds_cons, List.length_cons, Nat.add_comm rest.length, ← Nat.add_assoc]
      rw [List.append_assoc] at hnext
      exact hnext
  have hcall := Run.start.step (.call s [] [] [] allData [])
  have hqueued := hentries allData s [] hcall
  exact ⟨_, hqueued.step (.exec _ [] [] [] _ []), batchInsert_embedded h allData⟩

end RedisClients

end GptCache
