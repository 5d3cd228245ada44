/-
An entry that stays until it is evicted.

`Held`: its row is live, with these answers. What the methods of a data manager
do to the stores keeps it while its id is not handed to `_clear` (`Stays`), and
putting it into the index raises nothing (`setitem_present`), whatever the
sizes of the index and of its batches.
-/
import GptCache.Manager.FailedDelete

namespace GptCache

variable {B E S : Type} {env : Env B E S}

/-! ## An entry that is there -/

namespace SQLStorage

/-- There is a live row `id` with an embedding, and these are its answers. -/
structure Held (id : Nat) (answers : List (Answer B)) (s : SQLStorage B E) : Prop where
  row : ∃ r ∈ s.ques, r.id = id ∧ r.deleted = 0 ∧ r.embeddingData.isSome
  answers : s.answersOf id = answers

namespace Held

variable {s : SQLStorage B E} {id : Nat} {answers : List (Answer B)} (h : s.Held id answers)
include h

theorem mem_getIds : id ∈ s.getIds false := by
  obtain ⟨r, hr, rfl, hlive, -⟩ := h.row
  exact List.mem_map_of_mem (List.mem_filter.mpr ⟨hr, by simpa using hlive⟩)

/-- The answers are what is read. -/
theorem getDataById (hwf : s.WellFormed) : ∃ data, s.getDataById id = .ok (some data) ∧ data.answers = answers := by
  obtain ⟨r, hr, hid, hlive, hembedding⟩ := h.row
  obtain ⟨embeddingData, hembedding⟩ := Option.isSome_iff_exists.mp hembedding
  have hfind : s.ques.find? (fun r => decide (r.id = id) && decide (r.deleted = 0)) = some r := by
    obtain ⟨r', hr'⟩ : ∃ r', s.ques.find? (fun r => decide (r.id = id) && decide (r.deleted = 0)) = some r' :=
      Option.isSome_iff_exists.mp (List.find?_isSome.mpr ⟨r, hr, by simp [hid, hlive]⟩)
    have hsame : r'.id = id := by
      have := List.find?_some hr'
      simp only [Bool.and_eq_true, decide_eq_true_eq] at this
      exact this.1
    rw [hr', List.inj_on_of_nodup_map hwf.nodup (List.mem_of_find?_eq_some hr') hr (hsame.trans hid.symm)]
  unfold SQLStorage.getDataById
  rw [hfind]
  simp only [hembedding]
  exact ⟨_, rfl, by rw [hid, h.answers]⟩

theorem markDeleted {keys : List Nat} (hid : id ∉ keys) : (s.markDeleted keys).Held id answers := by
  obtain ⟨r, hr, heq, hlive⟩ := h.row
  refine ⟨⟨r, List.mem_map.mpr ⟨r, hr, ?_⟩, heq, hlive⟩, h.answers⟩
  rw [if_neg (heq ▸ hid)]

theorem clearDeletedData (hwf : s.WellFormed) : s.clearDeletedData.Held id answers := by
  refine ⟨?_, by rw [answersOf_clearDeletedData hwf h.mem_getIds, h.answers]⟩
  obtain ⟨r, hr, heq, hlive, hembedding⟩ := h.row
  refine ⟨r, ?_, heq, hlive, hembedding⟩
  rw [clearDeletedData_ques]
  exact List.mem_filter.mpr ⟨hr, by simp [hlive]⟩

/-- The answers of new rows are none of its own. -/
theorem inserted (hwf : s.WellFormed) {datas : List (CacheData B E)} {new : List Nat} {s' : SQLStorage B E}
    (hi : Inserted s datas new s') : s'.Held id answers := by
  obtain ⟨r, hr, heq, hlive⟩ := h.row
  refine ⟨⟨r, by rw [hi.ques]; exact List.mem_append_left _ hr, heq, hlive⟩, ?_⟩
  have hold : id ∉ new := fun hid => (hi.fresh hwf).2 id hid (mem_ids_of_mem_getIds h.mem_getIds)
  have hnone : (List.zipWith newAnswers new datas).flatten.filter (fun r => r.questionId = id) = [] :=
    List.filter_eq_nil_iff.mpr fun r hr => by
      simpa using fun heq : r.questionId = id => hold (heq ▸ questionId_mem_of_mem_zipWith hr)
  rw [← h.answers, answersOf, answersOf, hi.answer, List.filter_append, hnone, List.append_nil]

end Held

theorem Inserted.held {s s' : SQLStorage B E} {data : CacheData B E} {id : Nat} (h : Inserted s [data] [id] s')
    (hwf : s.WellFormed) (hembedding : data.embeddingData.isSome) : s'.Held id data.answers := by
  refine ⟨⟨newRow id data, ?_, rfl, rfl, hembedding⟩, ?_⟩
  · rw [h.ques]
    exact List.mem_append_right _ List.mem_cons_self
  · exact h.answersOf hwf (Nat.zero_lt_one) (Nat.zero_lt_one)

end SQLStorage

/-! ## While it stays -/

/-- No key is noted as evicted; the rows stay well formed, and unless it is
among the `marked` ones the entry stays. -/
structure Remains (id : Nat) (answers : List (Answer B)) (marked : List Nat) (w w' : World B E) : Prop where
  evicted : w'.evicted = w.evicted
  wellFormed : w.s.WellFormed → w'.s.WellFormed
  held : w.s.WellFormed → id ∉ marked → w.s.Held id answers → w'.s.Held id answers

/-- More keys are noted; the rows stay well formed, and unless it is one of them the entry stays. -/
def Stays (id : Nat) (answers : List (Answer B)) (w w' : World B E) : Prop :=
  ∃ later, w'.evicted = later ++ w.evicted ∧ (w.s.WellFormed → w'.s.WellFormed) ∧
    (w.s.WellFormed → id ∉ later → w.s.Held id answers → w'.s.Held id answers)

section

variable {id : Nat} {answers : List (Answer B)} {marked : List Nat}

theorem Remains.same {w w' : World B E} (hs : w'.s = w.s) (he : w'.evicted = w.evicted) :
    Remains id answers marked w w' := by
  refine ⟨he, ?_, ?_⟩
  · rw [hs]
    exact fun h => h
  · rw [hs]
    exact fun _ _ h => h

instance : Std.Refl (Remains (E := E) id answers marked) := ⟨fun _ => .same rfl rfl⟩

instance : IsTrans (World B E) (Remains id answers marked) where
  trans := by
    intro w w₁ w₂ h h'
    exact ⟨h'.evicted.trans h.evicted, fun hwf => h'.wellFormed (h.wellFormed hwf),
      fun hwf hid hheld => h'.held (h.wellFormed hwf) hid (h.held hwf hid hheld)⟩

theorem Remains.stays {w w' : World B E} (h : Remains id answers [] w w') : Stays id answers w w' :=
  ⟨[], h.evicted, h.wellFormed, h.held⟩

instance : Std.Refl (Stays (E := E) id answers) := ⟨fun _ => ⟨[], rfl, fun h => h, fun _ _ h => h⟩⟩

instance : IsTrans (World B E) (Stays id answers) where
  trans := by
    rintro w w₁ w₂ ⟨later, he, hwf, hheld⟩ ⟨later', he', hwf', hheld'⟩
    refine ⟨later' ++ later, ?_, fun h => hwf' (hwf h), fun h hid hrow => ?_⟩
    · rw [he', he, List.append_assoc]
    · rw [List.mem_append, not_or] at hid
      exact hheld' (hwf h) hid.1 (hheld h hid.2 hrow)

namespace World

theorem call_remains {β : Type} {f : World B E → β × World B E} (hf : ∀ w, Remains id answers marked w (f w).2) :
    Exec.Within (Remains id answers marked) (call env f) := by
  refine .total fun w => ?_
  cases env.fails w.calls with
  | true => exact .same rfl rfl
  | false =>
    have h := hf { w with calls := w.calls + 1 }
    exact ⟨h.evicted, h.wellFormed, h.held⟩

theorem softEvict_remains (markedKeys : List Nat) :
    Exec.Within (Remains id answers markedKeys) (softEvict (B := B) (E := E) env markedKeys) :=
  call_remains fun _ => ⟨rfl, fun hwf => SQLStorage.markDeleted_wellFormed hwf markedKeys, fun _ hid h =>
    h.markDeleted hid⟩

theorem checkEvict_remains : Exec.Within (Remains id answers marked) (checkEvict (B := B) (E := E) env) :=
  (call_remains fun _ => .same rfl rfl).bind fun _ => (call_remains fun _ => .same rfl rfl).bind fun _ =>
    (Exec.Within.pure _).ite ((Exec.Within.raise _).ite (.pure _))

theorem clearDeletedData_remains : Exec.Within (Remains id answers marked)
    (call env fun w : World B E => ((), { w with s := w.s.clearDeletedData })) :=
  call_remains fun _ => ⟨rfl, SQLStorage.clearDeletedData_wellFormed, fun hwf _ h => h.clearDeletedData hwf⟩

theorem rebuild_remains : Exec.Within (Remains id answers marked) (rebuild (B := B) (E := E) env) := by
  refine clearDeletedData_remains.bind fun _ => (call_remains fun _ => .same rfl rfl).bind fun ids =>
    (call_remains fun w => ?_).bind fun _ => .modify fun w => .same rfl rfl
  cases env.reindexes <;> exact .same rfl rfl

theorem delete_remains : Exec.Within (Remains id answers marked) (delete (B := B) (E := E) env) := by
  refine (call_remains fun _ => .same rfl rfl).bind fun _ => clearDeletedData_remains.bind fun _ =>
    (call_remains fun _ => .same rfl rfl).bind fun _ => Exec.Within.bind ?_ fun _ => ?_
  · exact .modify fun w => .same rfl rfl
  · exact Exec.Within.read.bind fun _ => rebuild_remains.ite (.pure _)

/-- `_clear` notes the keys it marks; nothing else is lost. -/
theorem clear_remains {markedKeys : List Nat} {w w' : World B E} {r : Except PyError Unit}
    (hrun : clear env markedKeys w = some (r, w')) :
    Remains id answers markedKeys { w with evicted := markedKeys ++ w.evicted } w' := by
  have hrest : Exec.Within (Remains id answers markedKeys) (softEvict (B := B) (E := E) env markedKeys >>= fun _ =>
      checkEvict env >>= fun evict => if evict then delete env else pure ()) :=
    (softEvict_remains markedKeys).bind fun _ => checkEvict_remains.bind fun _ => delete_remains.ite (.pure _)
  exact hrest { w with evicted := markedKeys ++ w.evicted } r w' hrun

theorem clear_stays (markedKeys : List Nat) :
    Exec.Within (Stays id answers) (clear (B := B) (E := E) env markedKeys) := by
  intro w r w' hrun
  have h : Remains id answers markedKeys { w with evicted := markedKeys ++ w.evicted } w' := clear_remains hrun
  exact ⟨markedKeys, h.evicted, h.wellFormed, h.held⟩

/-- With a row to divide by `_clear` returns. -/
theorem clear_returns (hf : ∀ n, env.fails n = false) {w : World B E} (hrow : w.s.ids ≠ []) (markedKeys : List Nat) :
    Exec.wp (clear env markedKeys) (fun _ _ => True) (fun _ _ => False) w := by
  simp only [clear, softEvict, Exec.wp_bind, Exec.wp_modify, wp_call env hf]
  refine Exec.wp_mono (checkEvict_returns hf (by simpa using hrow)) (fun evict w₁ _ => ?_) fun _ _ h => h
  split
  · simp only [delete, Exec.wp_bind, wp_call env hf, Exec.wp_modify, Exec.wp_read]
    split
    · simp only [rebuild, Exec.wp_bind, wp_call env hf, Exec.wp_modify]
    · trivial
  · trivial

end World

namespace SSDataManager

theorem stays_steps : Steps env (Stays (E := E) id answers) where
  same := fun _ _ h => (Remains.same h.s h.evicted).stays
  save := fun datas embeddingDatas _ => by
    refine Exec.Within.mono (R := Remains id answers []) ?_ fun _ _ => Remains.stays
    refine (World.call_remains fun w => ?_).bind fun ids => World.call_remains fun _ => .same rfl rfl
    have hi := SQLStorage.batchInsert_inserted datas w.s
    exact ⟨rfl, hi.wellFormed, fun hwf _ h => h.inserted hwf hi⟩
  clear := World.clear_stays

end SSDataManager

end

/-! ## Into the index -/

namespace SSDataManager

variable {σ α : Type} {e : MemoryCacheEviction σ Nat α (World B E)} {m fuel id : Nat} {answers : List (Answer B)}

/-- A cache of capacity `m`, in which every key takes the room of one. -/
structure Opened (e : MemoryCacheEviction σ Nat α (World B E)) (m : Nat) (s : σ × World B E) : Prop where
  inv : e.cls.Inv s.1
  unit : ∀ v, (e.cls.cache s.1).getsizeof v = 1
  maxsize : (e.cls.cache s.1).maxsize = m

/-- The entry is there. -/
structure Present (e : MemoryCacheEviction σ Nat α (World B E)) (m id : Nat) (answers : List (Answer B))
    (s : σ × World B E) : Prop extends Opened e m s where
  wellFormed : s.2.s.WellFormed
  held : s.2.s.Held id answers

/-- And the index has not heard of it. -/
structure Coming (e : MemoryCacheEviction σ Nat α (World B E)) (m id : Nat) (answers : List (Answer B))
    (s : σ × World B E) : Prop extends Present e m id answers s where
  untracked : (e.cls.cache s.1).data.contains id = false

/-- An overflow returns and takes another entry, if any. -/
theorem popitemWrapper_coming (hf : ∀ n, env.fails n = false) (hclear : e.onEvict = World.clear env) {s : σ × World B E}
    (h : Coming e m id answers s) : Exec.wp (popitemWrapper e.cls e.onEvict e.cleanSize)
      (fun _ s' => Coming e m id answers s' ∧ (1 ≤ e.cleanSize → 0 < (e.cls.cache s.1).data.len →
        (e.cls.cache s'.1).data.len < (e.cls.cache s.1).data.len)) (fun _ _ => False) s := by
  obtain ⟨ks, hinv, hcache, -, -, hsum, hif⟩ := popKeys_spec e.cls e.cleanSize h.inv
  have hid : id ∉ (popKeys e.cls e.cleanSize s.1).1.getD [] := by
    intro hk
    have htracked := contains_of_mem_popKeys e.cls e.cleanSize h.inv hk
    rw [h.untracked] at htracked
    cases htracked
  have hwrap : popitemWrapper e.cls e.onEvict e.cleanSize s = Exec.onSnd (World.clear env
      ((popKeys e.cls e.cleanSize s.1).1.getD [])) ((popKeys e.cls e.cleanSize s.1).2, s.2) := by
    simp only [popitemWrapper, hclear]
  have hrow : s.2.s.ids ≠ [] := List.ne_nil_of_mem (SQLStorage.mem_ids_of_mem_getIds h.held.mem_getIds)
  obtain ⟨_, w, hrun, -⟩ := Exec.wp_returns_ok (World.clear_returns hf hrow ((popKeys e.cls e.cleanSize s.1).1.getD []))
  have hrun' : popitemWrapper e.cls e.onEvict e.cleanSize s =
      some (.ok (), ((popKeys e.cls e.cleanSize s.1).2, w)) := by
    rw [hwrap, Exec.onSnd_eq_some]
    exact ⟨hrun, rfl⟩
  have hremains : Remains id answers _ _ w := World.clear_remains hrun
  rw [Exec.wp_of_ok hrun']
  refine ⟨⟨⟨⟨hinv, fun v => by rw [hcache, Cache.popAll_getsizeof, h.unit],
    by rw [hcache, Cache.popAll_maxsize, h.maxsize]⟩,
    hremains.wellFormed h.wellFormed, hremains.held h.wellFormed hid h.held⟩, ?_⟩, fun hclean hlen => ?_⟩
  · rw [← Bool.not_eq_true, hcache, Cache.contains_popAll, h.untracked]
    exact fun hstill => absurd hstill.2 Bool.false_ne_true
  · dsimp only
    split at hif <;> omega

namespace Opened

theorem popitemWrapper (hclear : e.onEvict = World.clear env) :
    Exec.Within (Exec.Carries (Opened e m)) (GptCache.popitemWrapper e.cls e.onEvict e.cleanSize) := by
  intro s r s' hrun h
  obtain ⟨ks, hinv, hcache, -⟩ := popKeys_spec e.cls e.cleanSize h.inv
  simp only [GptCache.popitemWrapper, hclear] at hrun
  obtain ⟨-, hindex⟩ := Exec.onSnd_eq_some.mp hrun
  refine ⟨hindex ▸ hinv, fun v => ?_, ?_⟩
  · rw [hindex, hcache, Cache.popAll_getsizeof, h.unit]
  · rw [hindex, hcache, Cache.popAll_maxsize, h.maxsize]

theorem put (hclear : e.onEvict = World.clear env) (ids : List Nat) (costs : Option (List ℚ)) :
    Exec.Within (Exec.Carries (Opened e m)) (e.put fuel ids costs) :=
  e.within_put fuel ids costs (popitemWrapper hclear) fun k v s h =>
    ⟨e.cls.store_inv k v h.inv, fun v => by simp [h.unit], by simp [h.maxsize]⟩

/-- What is done to the stores alone. -/
theorem onSnd {β : Type} (c : Exec PyError (World B E) β) :
    Exec.Within (Exec.Carries (Opened e m)) (Exec.onSnd c : Exec PyError (σ × World B E) β) := by
  intro s r s' hrun h
  have hindex := (Exec.onSnd_eq_some.mp hrun).2
  exact ⟨hindex ▸ h.inv, hindex ▸ h.unit, hindex ▸ h.maxsize⟩

theorem importData (hclear : e.onEvict = World.clear env) (questions : List QuestionArg) (answers : List (AnswerArg B))
    (embeddingDatas : List E) (sessionIds : List (Option String)) : Exec.Within (Exec.Carries (Opened e m))
      (SSDataManager.importData env e fuel questions answers embeddingDatas sessionIds) := by
  unfold SSDataManager.importData
  exact (Exec.Within.raise _).ite ((onSnd _).bind fun datas => (onSnd _).bind fun ids => (onSnd _).bind fun _ =>
    put hclear ids _)

theorem hit (id : Nat) : Exec.Within (Exec.Carries (Opened e m)) (hitCacheCallback e id) := by
  refine Exec.Within.bind (.total fun s h => ?_) fun _ => .pure _
  rcases hid : (e.cls.cache s.1).data.get? id with _ | v
  · rw [e.cls.get_miss hid]
    exact h
  · obtain ⟨-, hinv, hcache⟩ := e.cls.get_hit h.inv hid
    exact ⟨hinv, fun v => by simp [hcache, h.unit], by simp [hcache, h.maxsize]⟩

theorem runOps (hclear : e.onEvict = World.clear env) : ∀ (ops : List (Op B E)) {s s' : σ × World B E},
    Opened e m s → SSDataManager.runOps env e fuel s ops = some s' → Opened e m s'
  | [], s, s', h, hrun => by
    cases hrun
    exact h
  | op :: ops, s, s', h, hrun => by
    simp only [SSDataManager.runOps] at hrun
    split at hrun
    · cases hrun
    rename_i s₁ hop
    refine runOps hclear ops ?_ hrun
    cases op with
    | importData questions answers embeddingDatas sessionIds =>
      obtain ⟨⟨r, _⟩, hcall, rfl⟩ := Option.map_eq_some_iff.mp hop
      exact importData hclear questions answers embeddingDatas sessionIds _ _ _ hcall h
    | hit id =>
      have hop : (hitCacheCallback e id s).map Prod.snd = some s₁ := hop
      obtain ⟨⟨r, _⟩, hcall, rfl⟩ := Option.map_eq_some_iff.mp hop
      exact hit id _ _ _ hcall h

/-- The manager a process opens. -/
theorem process {p : Process B E} {w w' : World B E} {mgr : Manager B E α}
    (hrun : p.run env fuel w = some (.ok mgr, w')) :
    mgr.e.onEvict = World.clear env ∧ Opened mgr.e p.maxSize (mgr.index, w') := by
  simp only [Process.run] at hrun
  split at hrun
  · cases hrun
  · rename_i policy e index hget
    obtain ⟨hclear, rfl⟩ := EvictionBase.get_memory_eq hget
    split at hrun
    · cases hrun
    · cases hrun
    · rename_i s hinit
      obtain ⟨s', hops, heq⟩ := Option.map_eq_some_iff.mp hrun
      cases heq
      have hnew : Opened e p.maxSize (e.cls.new p.maxSize fun _ => 1, w) :=
        ⟨e.cls.new_inv _ _, fun v => by simp [Cache.new], by simp [Cache.new]⟩
      have hopen : Exec.Within (Exec.Carries (Opened e p.maxSize)) (init env e fuel) :=
        Exec.Within.bind (.modify fun s h => ⟨h.inv, h.unit, h.maxsize⟩) fun _ =>
          (onSnd _).bind fun ids => put hclear ids none
      exact ⟨hclear, runOps hclear p.ops (hopen _ _ _ hinit hnew) hops⟩
  · cases hrun

end Opened

/-- A key the index has is stored again, without an overflow. -/
theorem setitem_tracked (hm : 1 ≤ m) {s : σ × World B E} (h : Opened e m s) {k : Nat}
    (hk : (e.cls.cache s.1).data.contains k = true) (v : Value α) :
    e.setitem fuel k v s = some (.ok (), (e.cls.store s.1 k v, s.2)) := by
  have hm' : ¬ (m : ℚ) < 1 := not_lt.mpr (by exact_mod_cast hm)
  obtain ⟨old, hold⟩ := Dict.contains_eq_true.mp hk
  have hroom : (e.cls.cache s.1).needsRoom k 1 = false := by
    simp [Cache.needsRoom, hold, h.unit]
  rw [MemoryCacheEviction.setitem, CacheClass.setitem, Exec.read_bind]
  simp only [h.unit, h.maxsize, if_neg hm', hroom, Bool.false_eq_true, if_false]
  rfl

/-- With a capacity the entry goes into the index: this raises nothing, and
where an overflow takes something out it returns. The entry stays. -/
theorem setitem_present (hf : ∀ n, env.fails n = false) (hclear : e.onEvict = World.clear env) (hm : 1 ≤ m)
    {s : σ × World B E} (h : Present e m id answers s) (v : Value α) :
    (∀ r s', e.setitem fuel id v s = some (r, s') → r = .ok () ∧ s'.2.s.WellFormed ∧ s'.2.s.Held id answers) ∧
      (1 ≤ e.cleanSize → (e.cls.cache s.1).data.len < fuel → (e.setitem fuel id v s).isSome) := by
  cases hk : (e.cls.cache s.1).data.contains id with
  | true =>
    rw [setitem_tracked hm h.toOpened hk]
    refine ⟨fun r s' hrun => ?_, fun _ _ => rfl⟩
    cases hrun
    exact ⟨rfl, h.wellFormed, h.held⟩
  | false =>
    have hcoming : Coming e m id answers s := ⟨h, hk⟩
    have hm' : (1 : ℚ) ≤ m := by exact_mod_cast hm
    constructor
    · intro r s' hrun
      have hloop : ∀ {r : Except PyError Unit} {s₁ : σ × World B E},
          (if (e.cls.cache s.1).needsRoom id 1 then Exec.loop (fun s => (e.cls.cache s.1).overflows 1)
            (popitemWrapper e.cls e.onEvict e.cleanSize) fuel else pure ()) s = some (r, s₁) →
          r = .ok () ∧ Coming e m id answers s₁ := by
        intro r s₁ hrun
        split at hrun
        · exact Exec.loop_safe (J := Coming e m id answers)
            (fun s hs _ => Exec.wp_mono (popitemWrapper_coming hf hclear hs)
            (fun _ _ h' => h'.1) fun _ _ h' => h') fuel hcoming hrun
        · cases hrun
          exact ⟨rfl, hcoming⟩
      rw [MemoryCacheEviction.setitem, CacheClass.setitem, Exec.read_bind] at hrun
      simp only [h.unit, h.maxsize, if_neg (not_lt.mpr hm')] at hrun
      rcases Exec.bind_eq_some hrun with ⟨err, -, hraise⟩ | ⟨_, s₁, hret, hstore⟩
      · cases (hloop hraise).1
      · have h₁ := (hloop hret).2
        cases hstore
        exact ⟨rfl, h₁.wellFormed, h₁.held⟩
    · intro hclean hfuel
      obtain ⟨_, s', hrun, -⟩ := Exec.wp_returns_ok (e.cls.wp_setitem (E := fun _ _ => False)
        (J := Coming e m id answers) (m := m) (g := fun _ => 1) (v := v) (k := id)
        (fun s hs => ⟨hs.maxsize, funext hs.unit⟩)
        (fun s hs _ hlen => Exec.wp_mono (popitemWrapper_coming hf hclear hs) (fun _ s' h' => ⟨h'.1, h'.2 hclean hlen⟩)
          fun _ _ h => h) (fun hlarge => absurd hm' (not_le.mpr hlarge)) hcoming hfuel)
      exact Option.isSome_iff_exists.mpr ⟨_, hrun⟩

/-- Without one it never does. -/
theorem setitem_no_capacity {s : σ × World B E} (h : Opened e 0 s) (v : Value α) :
    e.setitem fuel id v s = some (.error ⟨.ValueError, "value too large"⟩, s) := by
  have hlarge : ((0 : Nat) : ℚ) < 1 := by norm_num
  rw [MemoryCacheEviction.setitem, CacheClass.setitem, Exec.read_bind]
  simp only [h.unit, h.maxsize, if_pos hlarge]
  rfl

end SSDataManager

end GptCache
