/-
The stores a data manager works on and `EvictionManager`
(gptcache/manager/eviction_manager.py).

Every call of a store counts, and `fails` says which calls raise; a call that
raises does nothing. The vector store is the list of its vectors, which adds
and deletes exactly what it is told to. `imported` and `evicted` are no part of
the program: they note, newest first, which embedding each row was imported
with, and the ids handed to `_clear`.
-/
import GptCache.Lib.Exec
import GptCache.Lib.Rounding
import GptCache.Manager.Scalar

namespace GptCache

/-- What the data manager uses of numpy, of the network and of its stores:
`E` are arrays, `S` scalars, `B` the objects an answer may hold. -/
structure Env (B E S : Type) where
  norm : E → S
  div : E → S → E
  float32 : E → E
  /-- `requests.get(url).content`. -/
  download : String → Except PyError B
  /-- Where the object store keeps its n-th object. -/
  path : Nat → String
  /-- Whether the n-th call of a store raises. -/
  fails : Nat → Bool
  /-- Whether the vector store's `rebuild` keeps the given ids only or does nothing. -/
  reindexes : Bool
  /-- What the answer column, which is one of texts and not null, gives back for
  an object that is none; nothing, where it does not take it. -/
  column : B → Option (Content B) := fun b => some (.other b)

/-- What the answer column gives back: a text as it is. -/
def Env.kept {B E S : Type} (env : Env B E S) : Content B → Option (Content B)
  | .str s => some (.str s)
  | .other b => env.column b

/-- An answer as its row gives it back. -/
def Env.rowAnswer {B E S : Type} (env : Env B E S) (ans : Answer B) : Answer B :=
  ⟨(env.kept ans.answer).getD ans.answer, ans.answerType⟩

@[simp] theorem Env.kept_str {B E S : Type} (env : Env B E S) (s : String) : env.kept (.str s) = some (.str s) := rfl

@[simp] theorem Env.rowAnswer_str {B E S : Type} (env : Env B E S) (s : String) (answerType : DataType) :
    env.rowAnswer ⟨.str s, answerType⟩ = ⟨.str s, answerType⟩ := rfl

structure World (B E : Type) where
  s : SQLStorage B E
  v : List (Nat × E)
  /-- The object store, where there is one: its objects in the order they were put. -/
  o : Option (List (String × Content B))
  deleteCount : Nat
  calls : Nat
  imported : List (Nat × E)
  evicted : List Nat

namespace World

variable {B E S : Type} (env : Env B E S)

/-- Empty stores. -/
def init (objects : Bool) : World B E := ⟨.empty, [], if objects then some [] else none, 0, 0, [], []⟩

/-- A call of a store. -/
def call {α : Type} (f : World B E → α × World B E) : Exec PyError (World B E) α := Exec.total fun w =>
  let w' := { w with calls := w.calls + 1 }
  if env.fails w.calls then (.error ⟨.StorageError, ""⟩, w') else (.ok (f w').1, (f w').2)

theorem wp_call_iff {α : Type} {f : World B E → α × World B E} {Q : α → World B E → Prop}
    {X : PyError → World B E → Prop} {w : World B E} : Exec.wp (call env f) Q X w ↔
      if env.fails w.calls then X ⟨.StorageError, ""⟩ { w with calls := w.calls + 1 }
      else Q (f { w with calls := w.calls + 1 }).1 (f { w with calls := w.calls + 1 }).2 := by
  simp only [Exec.wp, call, Exec.total]
  cases env.fails w.calls <;> rfl

theorem wp_call (hf : ∀ n, env.fails n = false) {α : Type} {f : World B E → α × World B E}
    {Q : α → World B E → Prop} {X : PyError → World B E → Prop} {w : World B E} :
    Exec.wp (call env f) Q X w ↔
      Q (f { w with calls := w.calls + 1 }).1 (f { w with calls := w.calls + 1 }).2 := by
  rw [wp_call_iff, hf, if_neg Bool.false_ne_true]

/-! ## EvictionManager -/

def MAX_MARK_COUNT : Nat := 5000

/-- `0.1` as a double. -/
def MAX_MARK_RATE : ℚ := Binary64.round (1 / 10)

def REBUILD_CONDITION : Nat := 5

def softEvict (markedKeys : List Nat) : Exec PyError (World B E) Unit :=
  call env fun w => ((), { w with s := w.s.markDeleted markedKeys })

def checkEvict : Exec PyError (World B E) Bool :=
  call env (fun w => (w.s.count (-1) false, w)) >>= fun markCount =>
  call env (fun w => (w.s.count 0 true, w)) >>= fun allCount =>
  if MAX_MARK_COUNT < markCount then pure true
  else if allCount = 0 then Exec.raise ⟨.ZeroDivisionError, "division by zero"⟩
  else pure (decide (MAX_MARK_RATE < Binary64.round (markCount / allCount)))

def rebuild : Exec PyError (World B E) Unit :=
  call env (fun w => ((), { w with s := w.s.clearDeletedData })) >>= fun _ =>
  call env (fun w => (w.s.getIds false, w)) >>= fun ids =>
  call env (fun w => ((), if env.reindexes then { w with v := w.v.filter fun d => d.1 ∈ ids } else w)) >>= fun _ =>
  Exec.modify fun w => { w with deleteCount := 0 }

def delete : Exec PyError (World B E) Unit :=
  call env (fun w => (w.s.getIds true, w)) >>= fun markIds =>
  call env (fun w => ((), { w with s := w.s.clearDeletedData })) >>= fun _ =>
  call env (fun w => ((), { w with v := w.v.filter fun d => d.1 ∉ markIds })) >>= fun _ =>
  Exec.modify (fun w => { w with deleteCount := w.deleteCount + 1 }) >>= fun _ =>
  Exec.read >>= fun w =>
  if REBUILD_CONDITION ≤ w.deleteCount then rebuild env else pure ()

/-- `SSDataManager._clear`. -/
def clear (markedKeys : List Nat) : Exec PyError (World B E) Unit :=
  Exec.modify (fun w => { w with evicted := markedKeys ++ w.evicted }) >>= fun _ =>
  softEvict env markedKeys >>= fun _ =>
  checkEvict env >>= fun evict =>
  if evict then delete env else pure ()

/-! ## What `_clear` does -/

/-- The scalar store is well formed and the vector store has a vector for
each of its rows, in the same order. -/
structure Paired (w : World B E) : Prop where
  wellFormed : w.s.WellFormed
  vectors : w.v.map Prod.fst = w.s.ids

/-- From `w` to `w'`, live rows were soft-deleted and soft-deleted rows
cleared, with their vectors. -/
structure Cleared (marked : List Nat) (w w' : World B E) : Prop where
  paired : w'.Paired
  live : w'.s.getIds false = (w.s.getIds false).filter fun id => id ∉ marked
  vectors : w'.v.Sublist w.v
  rows : ∀ r' ∈ w'.s.ques, ∃ r ∈ w.s.ques, r.id = r'.id ∧ r.embeddingData = r'.embeddingData
  answers : ∀ id ∈ w'.s.getIds false, w'.s.answersOf id = w.s.answersOf id
  objects : w'.o = w.o
  imported : w'.imported = w.imported
  evicted : ∀ id, id ∈ w'.evicted ↔ id ∈ marked ∨ id ∈ w.evicted

variable {env}

theorem Cleared.trans {m m' : List Nat} {w w' w'' : World B E} (h : Cleared m w w') (h' : Cleared m' w' w'') :
    Cleared (m ++ m') w w'' := by
  refine ⟨h'.paired, ?_, h'.vectors.trans h.vectors, fun r'' hr'' => ?_, fun id hid => ?_,
    h'.objects.trans h.objects, h'.imported.trans h.imported, fun id => ?_⟩
  · rw [h'.live, h.live, List.filter_filter]
    exact List.filter_congr fun id _ => by simp [Bool.and_comm]
  · obtain ⟨r', hr', hid', hemb'⟩ := h'.rows r'' hr''
    obtain ⟨r, hr, hid, hemb⟩ := h.rows r' hr'
    exact ⟨r, hr, hid.trans hid', hemb.trans hemb'⟩
  · have hid' : id ∈ w'.s.getIds false := List.mem_of_mem_filter (h'.live ▸ hid)
    rw [h'.answers id hid, h.answers id hid']
  · rw [h'.evicted, h.evicted, List.mem_append]
    tauto

/-- Nothing but the two counters changed. -/
theorem Cleared.refl {w w' : World B E} (h : w.Paired) (hs : w'.s = w.s) (hv : w'.v = w.v) (ho : w'.o = w.o)
    (hi : w'.imported = w.imported) (he : w'.evicted = w.evicted) : Cleared [] w w' := by
  refine ⟨⟨hs ▸ h.wellFormed, by rw [hv, hs]; exact h.vectors⟩, by simp [hs], by rw [hv], fun r hr => ?_,
    fun id _ => by rw [hs], ho, hi, by simp [he]⟩
  exact ⟨r, hs ▸ hr, rfl, rfl⟩

/-- Marking keys that were noted. -/
theorem softEvict_cleared (hf : ∀ n, env.fails n = false) {w : World B E} (h : w.Paired) (marked : List Nat) :
    Exec.wp (softEvict env marked) (fun _ w' => Cleared marked w w' ∧ w'.s.ids = w.s.ids) (fun _ _ => False)
      { w with evicted := marked ++ w.evicted } := by
  rw [softEvict, wp_call env hf]
  refine ⟨⟨⟨SQLStorage.markDeleted_wellFormed h.wellFormed marked, by simpa using h.vectors⟩,
    SQLStorage.getIds_live_markDeleted w.s marked, List.Sublist.refl _, fun r hr => ?_, fun _ _ => rfl, rfl, rfl,
    fun id => List.mem_append⟩, by simp⟩
  obtain ⟨r', hr', rfl⟩ := List.mem_map.mp hr
  exact ⟨r', hr', by split <;> rfl, by split <;> rfl⟩

/-- `check_evict` answers, where there is a row to divide by. -/
theorem checkEvict_returns (hf : ∀ n, env.fails n = false) {w : World B E} (h : w.s.ids ≠ []) :
    Exec.wp (checkEvict env) (fun _ w' => w' = { w with calls := w.calls + 2 }) (fun _ _ => False) w := by
  have hcount : w.s.count 0 true ≠ 0 := by
    rw [SQLStorage.count_all]
    exact fun hzero => h (List.length_eq_zero_iff.mp hzero)
  simp only [checkEvict, Exec.wp_bind, wp_call env hf]
  split <;> rfl

/-- Clearing the soft-deleted rows and deleting their vectors. -/
theorem Paired.clearDeletedData {w w' : World B E} (h : w.Paired) (hs : w'.s = w.s.clearDeletedData)
    (hv : w'.v = w.v.filter fun d => d.1 ∉ w.s.getIds true) (ho : w'.o = w.o) (hi : w'.imported = w.imported)
    (he : w'.evicted = w.evicted) : Cleared [] w w' := by
  have hwf := h.wellFormed
  refine ⟨⟨hs ▸ SQLStorage.clearDeletedData_wellFormed hwf, ?_⟩, by simp [hs], hv ▸ List.filter_sublist,
    fun r hr => ?_, fun id hid => ?_, ho, hi, by simp [he]⟩
  · rw [hv, hs, SQLStorage.ids_clearDeletedData hwf, hwf.getIds_live, ← h.vectors, List.filter_map]
    rfl
  · exact ⟨r, List.mem_of_mem_filter (hs ▸ hr), rfl, rfl⟩
  · rw [hs] at hid ⊢
    exact SQLStorage.answersOf_clearDeletedData hwf (by simpa using hid)

theorem rebuild_cleared (hf : ∀ n, env.fails n = false) {w : World B E} (h : w.Paired) (hnone : w.s.getIds true = []) :
    Exec.wp (rebuild env) (fun _ w' => Cleared [] w w') (fun _ _ => False) w := by
  have hkeep : w.v.filter (fun d => d.1 ∈ w.s.getIds false) = w.v := by
    refine List.filter_eq_self.mpr fun d hd => ?_
    rw [h.wellFormed.getIds_live, hnone, ← h.vectors]
    simpa using ⟨d.2, hd⟩
  simp only [rebuild, Exec.wp_bind, wp_call env hf, Exec.wp_modify]
  refine h.clearDeletedData ?_ ?_ ?_ ?_ ?_ <;> cases env.reindexes <;> simp [hkeep, hnone]

theorem delete_cleared (hf : ∀ n, env.fails n = false) {w : World B E} (h : w.Paired) :
    Exec.wp (delete env) (fun _ w' => Cleared [] w w') (fun _ _ => False) w := by
  simp only [delete, Exec.wp_bind, wp_call env hf, Exec.wp_modify, Exec.wp_read]
  have h₁ : ∀ n m, Cleared [] w { w with
      s := w.s.clearDeletedData, v := w.v.filter fun d => d.1 ∉ w.s.getIds true, deleteCount := n, calls := m } :=
    fun _ _ => h.clearDeletedData rfl rfl rfl rfl rfl
  split
  · exact Exec.wp_mono (rebuild_cleared hf (h₁ _ _).paired (by simp)) (fun _ _ h' => (h₁ _ _).trans h') fun _ _ h => h
  · exact h₁ _ _

/-- **`_clear`.** It returns; the marked keys are no longer live, and the
vector store is that of the rows that are left. -/
theorem clear_cleared (hf : ∀ n, env.fails n = false) {w : World B E} (h : w.Paired) {marked : List Nat}
    (hrow : w.s.ids ≠ []) :
    Exec.wp (clear env marked) (fun _ w' => Cleared marked w w') (fun _ _ => False) w := by
  simp only [clear, Exec.wp_bind, Exec.wp_modify]
  refine Exec.wp_mono (softEvict_cleared hf h marked) (fun _ w₁ h₁ => ?_) fun _ _ h => h
  refine Exec.wp_mono (checkEvict_returns hf (h₁.2 ▸ hrow)) (fun evict w₂ h₂ => ?_) fun _ _ h => h
  have h₂' : Cleared (marked ++ []) w w₂ :=
    h₁.1.trans (.refl h₁.1.paired (by rw [h₂]) (by rw [h₂]) (by rw [h₂]) (by rw [h₂])
    (by rw [h₂]))
  rw [List.append_nil] at h₂'
  split
  · refine Exec.wp_mono (delete_cleared hf h₂'.paired) (fun _ w₃ h₃ => ?_) fun _ _ h => h
    simpa using h₂'.trans h₃
  · exact h₂'

end World

end GptCache
