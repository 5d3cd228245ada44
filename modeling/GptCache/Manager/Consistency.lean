/-
The three stores agree. `Consistent` says what `tracked` keys, scalar rows and
vectors have to do with each other. It holds of empty stores; an import breaks
it for the rows not yet in the index (`Indexed`, with those rows as `todo`),
and each insertion into the index, evictions included, takes one of them off.
-/
import GptCache.Manager.DataManager

namespace GptCache.SSDataManager

variable {B E S : Type} {env : Env B E S}

/-- The rows that are live are the tracked ones, the vector store has one
vector for each row, and it is the normalized embedding the row was imported
with, of which the row holds the float32 form. -/
structure Consistent (env : Env B E S) (tracked : Nat → Bool) (w : World B E) : Prop where
  paired : w.Paired
  live : ∀ id, id ∈ w.s.getIds false ↔ tracked id = true
  held : ∀ d ∈ w.v, ∃ vec, w.imported.lookup d.1 = some vec ∧ d.2 = normalize env vec
  rows : ∀ r ∈ w.s.ques, ∃ vec, w.imported.lookup r.id = some vec ∧
    r.embeddingData = some (env.float32 (normalize env vec))

theorem init_consistent (env : Env B E S) (objects : Bool) :
    Consistent env (fun _ => false) (World.init objects) := by
  refine ⟨⟨SQLStorage.empty_wellFormed, rfl⟩, ?_, ?_, ?_⟩ <;>
    simp [World.init, SQLStorage.empty, SQLStorage.getIds]

theorem Consistent.cleared {tracked : Nat → Bool} {marked : List Nat} {w w' : World B E}
    (h : Consistent env tracked w) (hc : World.Cleared marked w w') :
    Consistent env (fun id => tracked id && id ∉ marked) w' := by
  refine ⟨hc.paired, fun id => ?_, fun d hd => ?_, fun r hr => ?_⟩
  · rw [hc.live, List.mem_filter, h.live, Bool.and_eq_true]
  · rw [hc.imported]
    exact h.held d (hc.vectors.subset hd)
  · obtain ⟨r', hr', hid, hemb⟩ := hc.rows r hr
    obtain ⟨vec, hvec, hdata⟩ := h.rows r' hr'
    exact ⟨vec, by rw [hc.imported, ← hid, hvec], by rw [← hemb, hdata]⟩

/-! ## Putting rows into the index -/

variable {σ α : Type} {e : MemoryCacheEviction σ Nat α (World B E)} {m : Nat}

/-- Consistent but for the rows `todo`, which are live and not tracked yet. -/
structure Indexed (env : Env B E S) (e : MemoryCacheEviction σ Nat α (World B E)) (m : Nat) (todo : List Nat)
    (s : σ × World B E) : Prop where
  sized : e.Sized m s
  consistent : Consistent env (fun id => (e.cls.cache s.1).data.contains id || id ∈ todo) s.2
  fresh : ∀ id ∈ todo, (e.cls.cache s.1).data.contains id = false

theorem Indexed.tracked {s : σ × World B E} (h : Indexed env e m [] s) :
    Consistent env (fun id => (e.cls.cache s.1).data.contains id) s.2 := by
  simpa using h.consistent

/-- An index over stores that do not fail: what overflows is cleared from
them, and a batch fits the capacity. -/
structure Wired (env : Env B E S) (e : MemoryCacheEviction σ Nat α (World B E)) (m fuel : Nat) : Prop where
  fails : ∀ n, env.fails n = false
  clear : e.onEvict = World.clear env
  one_le : 1 ≤ e.cleanSize
  le : e.cleanSize ≤ m
  lt : m < fuel

/-- `P` survives the evictions and the storing of `W` values. -/
structure Stable (e : MemoryCacheEviction σ Nat α (World B E)) (W : Nat → Value α → Prop)
    (P : σ × World B E → Prop) : Prop where
  pop : ∀ {s s' : σ × World B E} {ks : List Nat}, P s → (∀ id ∈ ks, id ∈ s.2.s.getIds false) →
    e.cls.cache s'.1 = (e.cls.cache s.1).popAll ks → World.Cleared ks s.2 s'.2 → P s'
  store : ∀ {s : σ × World B E} {id : Nat} {v : Value α}, P s → W id v → P (e.cls.store s.1 id v, s.2)

theorem stable_true (e : MemoryCacheEviction σ Nat α (World B E)) : Stable e (fun _ _ => True) fun _ => True :=
  ⟨fun _ _ _ _ => trivial, fun _ _ => trivial⟩

variable {fuel : Nat} {W : Nat → Value α → Prop} {P : σ × World B E → Prop}

/-- An overflow of a full cache pops a full batch, and `_clear` soft-deletes
the rows that left. -/
theorem popitemWrapper_indexed (hw : Wired env e m fuel) (hP : Stable e W P) {todo : List Nat} {s : σ × World B E}
    (h : Indexed env e m todo s) (hs : P s) (hover : (e.cls.cache s.1).overflows 1 = true) :
    Exec.wp (popitemWrapper e.cls e.onEvict e.cleanSize)
      (fun _ s' => (Indexed env e m todo s' ∧ P s') ∧
        (e.cls.cache s'.1).data.len + e.cleanSize = (e.cls.cache s.1).data.len)
      (fun _ _ => False) s := by
  have hclean := hw.one_le
  have hlen := h.sized.overflows.mp hover
  obtain ⟨ks, hi, hc, -, hmem, hsum, hif⟩ := popKeys_spec e.cls e.cleanSize h.sized.inv
  rw [if_pos (hlen ▸ hw.le)] at hif
  have hlive : ∀ k ∈ ks, k ∈ s.2.s.getIds false := fun k hk => (h.consistent.live k).mpr (by simp [hmem k hk])
  have hrow : s.2.s.ids ≠ [] := by
    obtain ⟨k, hk⟩ : ∃ k, k ∈ ks := List.exists_mem_of_length_pos (by omega)
    exact List.ne_nil_of_mem (SQLStorage.mem_ids_of_mem_getIds (hlive k hk))
  have hwrap : popitemWrapper e.cls e.onEvict e.cleanSize s =
      Exec.onSnd (World.clear env ks) ((popKeys e.cls e.cleanSize s.1).2, s.2) := by
    simp only [popitemWrapper, hif.1, hw.clear, Option.getD_some]
  rw [Exec.wp, hwrap, ← Exec.wp, Exec.wp_onSnd]
  refine Exec.wp_mono (World.clear_cleared hw.fails h.consistent.paired hrow) (fun _ w' hw' => ?_) fun _ _ h => h
  have hcont : ∀ id, (e.cls.cache (popKeys e.cls e.cleanSize s.1).2).data.contains id =
      ((e.cls.cache s.1).data.contains id && id ∉ ks) := fun id => by
    rw [hc, Bool.eq_iff_iff, Cache.contains_popAll]
    simp [and_comm]
  refine ⟨⟨⟨⟨hi, fun v => by rw [hc, Cache.popAll_getsizeof, h.sized.unit],
    by rw [hc, Cache.popAll_maxsize, h.sized.maxsize], by have := h.sized.le; dsimp only; omega⟩, ?_,
    fun id hid => ?_⟩, hP.pop hs hlive hc hw'⟩, by dsimp only; omega⟩
  · have hfresh : ∀ id ∈ todo, id ∉ ks := fun id hid hk => by
      simpa [h.fresh id hid] using hmem id hk
    have htracked : (fun id => (e.cls.cache (popKeys e.cls e.cleanSize s.1).2).data.contains id || decide (id ∈ todo)) =
        fun id => ((e.cls.cache s.1).data.contains id || decide (id ∈ todo)) && decide (id ∉ ks) := by
      funext id
      rw [hcont]
      by_cases hid : id ∈ todo
      · simp [hid, hfresh id hid]
      · simp [hid]
    rw [htracked]
    exact h.consistent.cleared hw'
  · rw [hcont, h.fresh id hid, Bool.false_and]

/-- Putting the first of the rows to come. -/
theorem setitem_indexed (hw : Wired env e m fuel) (hP : Stable e W P) {id : Nat} {todo : List Nat}
    {s : σ × World B E} (h : Indexed env e m (id :: todo) s) (hs : P s) (hid : id ∉ todo) {v : Value α} (hv : W id v) :
    Exec.wp (e.setitem fuel id v) (fun _ s' => Indexed env e m todo s' ∧ P s') (fun _ _ => False) s := by
  have hm : (1 : ℚ) ≤ m := by exact_mod_cast hw.one_le.trans hw.le
  refine Exec.wp_mono (e.cls.wp_setitem (J := fun s => Indexed env e m (id :: todo) s ∧ P s) (m := m)
    (g := fun _ => 1) (fun s hs => ⟨hs.1.sized.maxsize, funext hs.1.sized.unit⟩)
    (fun s hs hover _ => ?_)
    (fun hlarge => absurd hm (not_le.mpr hlarge)) ⟨h, hs⟩ (h.sized.le.trans_lt hw.lt)) ?_ fun _ _ h => h
  · have := hw.one_le
    exact Exec.wp_mono (popitemWrapper_indexed hw hP hs.1 hs.2 hover) (fun _ s' h' => ⟨h'.1, by omega⟩) fun _ _ h => h
  rintro - s' ⟨s₁, -, ⟨h₁, hs₁⟩, hroom, rfl⟩
  have hnew : (e.cls.cache s₁.1).data.contains id = false := h₁.fresh id (by simp)
  have hcont : ∀ k, (e.cls.cache (e.cls.store s₁.1 id v)).data.contains k =
      (decide (k = id) || (e.cls.cache s₁.1).data.contains k) := fun k => by
    simp only [e.cls.store_cache, Cache.store_data, Dict.contains_set]
  have hfits : (e.cls.cache s₁.1).overflows 1 = false := by
    rw [h.sized.needsRoom, h.fresh id (by simp)] at hroom
    simpa using hroom
  refine ⟨⟨⟨e.cls.store_inv id v h₁.sized.inv, fun v => by simp [h₁.sized.unit], by simp [h₁.sized.maxsize], ?_⟩,
    ?_, fun k hk => ?_⟩, hP.store hs₁ hv⟩
  · have hlt := h₁.sized.overflows.not.mp (by simp [hfits])
    have := h₁.sized.le
    simp only [e.cls.store_cache, Cache.store_data, Dict.len_set_of_not_mem hnew]
    omega
  · have htracked : (fun k => (e.cls.cache (e.cls.store s₁.1 id v)).data.contains k || decide (k ∈ todo)) =
        fun k => (e.cls.cache s₁.1).data.contains k || decide (k ∈ id :: todo) := by
      funext k
      rw [hcont]
      by_cases hk : k = id <;> simp [hk]
    exact htracked ▸ h₁.consistent
  · have hne : k ≠ id := fun hk' => hid (hk' ▸ hk)
    rw [hcont, decide_eq_false hne, Bool.false_or]
    exact h₁.fresh k (List.mem_cons_of_mem _ hk)

theorem setitems_indexed (hw : Wired env e m fuel) (hP : Stable e W P) :
    ∀ (items : List (Nat × Value α)) {s : σ × World B E}, Indexed env e m (items.map Prod.fst) s → P s →
      (items.map Prod.fst).Nodup → (∀ item ∈ items, W item.1 item.2) →
      Exec.wp (e.setitems fuel items) (fun _ s' => Indexed env e m [] s' ∧ P s') (fun _ _ => False) s
  | [], s, h, hs, _, _ => ⟨h, hs⟩
  | item :: items, s, h, hs, hnodup, hv => by
    obtain ⟨hid, hnodup⟩ := List.nodup_cons.mp hnodup
    obtain ⟨hv, hvs⟩ := List.forall_mem_cons.mp hv
    rw [MemoryCacheEviction.setitems, Exec.forEach_cons, Exec.wp_bind]
    exact Exec.wp_mono (setitem_indexed hw hP h hs hid hv)
      (fun _ s' h' => setitems_indexed hw hP items h'.1 h'.2 hnodup hvs) fun _ _ h => h

/-- A `put` of live rows not in the index yet. -/
theorem put_indexed (hw : Wired env e m fuel) (hP : Stable e W P) {ids : List Nat} {costs : Option (List ℚ)}
    (hcosts : MemoryCacheEviction.costsCover ids costs = true) (hnodup : ids.Nodup)
    (hv : ∀ item ∈ MemoryCacheEviction.putItems ids costs, W item.1 item.2) {s : σ × World B E}
    (h : Indexed env e m ids s) (hs : P s) :
    Exec.wp (e.put fuel ids costs) (fun _ s' => Indexed env e m [] s' ∧ P s') (fun _ _ => False) s := by
  have hkeys := MemoryCacheEviction.keys_putItems (α := α) hcosts
  rw [e.put_covered fuel hcosts]
  exact setitems_indexed hw hP _ (hkeys.symm ▸ h) hs (hkeys.symm ▸ hnodup) hv

/-! ## Imports -/

/-- Nothing but the object store and the counters changed. -/
structure SameRows (w w' : World B E) : Prop where
  s : w'.s = w.s
  v : w'.v = w.v
  imported : w'.imported = w.imported
  evicted : w'.evicted = w.evicted

theorem SameRows.refl (w : World B E) : SameRows w w := ⟨rfl, rfl, rfl, rfl⟩

theorem SameRows.trans {w w' w'' : World B E} (h : SameRows w w') (h' : SameRows w' w'') : SameRows w w'' :=
  ⟨h'.s.trans h.s, h'.v.trans h.v, h'.imported.trans h.imported, h'.evicted.trans h.evicted⟩

theorem Consistent.sameRows {tracked : Nat → Bool} {w w' : World B E} (h : Consistent env tracked w)
    (hw : SameRows w w') : Consistent env tracked w' := by
  obtain ⟨hs, hv, hi, -⟩ := hw
  refine ⟨⟨hs ▸ h.paired.wellFormed, by rw [hv, hs]; exact h.paired.vectors⟩, fun id => by rw [hs]; exact h.live id,
    fun d hd => ?_, fun r hr => ?_⟩
  · rw [hi]; exact h.held d (hv ▸ hd)
  · rw [hi]; exact h.rows r (hs ▸ hr)

/-- How many objects are put for an element of a list of answers. -/
def answerItemPuts : AnswerItem B → Nat
  | .answer a => if a.answerType = .STR then 0 else 1
  | .pair _ _ => 0
  | .plain _ => 0

def answerPuts : AnswerArg B → Nat
  | .str _ => 0
  | .answer a => answerItemPuts (.answer a)
  | .items xs => (xs.map answerItemPuts).sum

def depPuts (dep : QuestionDep) : Nat := if dep.depType = .IMAGE_URL then 1 else 0

def questionPuts : QuestionArg → Nat
  | .str _ => 0
  | .question q => ((q.deps.getD []).map depPuts).sum

/-- How many objects are put for an entry, where there is an object store or not. -/
def entryPuts (objects : Bool) (question : QuestionArg) (answers : AnswerArg B) : Nat :=
  (if objects then answerPuts answers else 0) + questionPuts question

/-- `n` objects were put, and nothing else was done. -/
structure Puts (n : Nat) (w w' : World B E) : Prop extends SameRows w w' where
  calls : w'.calls = w.calls + n
  objects : w'.o.isSome = w.o.isSome

/-- At most `n` objects were put, and nothing else was done. -/
structure PutsUpTo (n : Nat) (w w' : World B E) : Prop extends SameRows w w' where
  calls : w'.calls ≤ w.calls + n

theorem Puts.refl (w : World B E) : Puts 0 w w := ⟨.refl w, rfl, rfl⟩

theorem PutsUpTo.refl (n : Nat) (w : World B E) : PutsUpTo n w w := ⟨.refl w, Nat.le_add_right _ _⟩

theorem Puts.trans {n k : Nat} {w w' w'' : World B E} (h : Puts n w w') (h' : Puts k w' w'') : Puts (n + k) w w'' :=
  ⟨h.toSameRows.trans h'.toSameRows, by rw [h'.calls, h.calls, Nat.add_assoc], h'.objects.trans h.objects⟩

theorem Puts.upTo {n k : Nat} {w w' w'' : World B E} (h : Puts n w w') (h' : PutsUpTo k w' w'') :
    PutsUpTo (n + k) w w'' := by
  refine ⟨h.toSameRows.trans h'.toSameRows, ?_⟩
  have := h.calls
  have := h'.calls
  omega

theorem PutsUpTo.mono {n k : Nat} {w w' : World B E} (h : PutsUpTo n w w') (hle : n ≤ k) : PutsUpTo k w w' :=
  ⟨h.toSameRows, h.calls.trans (Nat.add_le_add_left hle _)⟩

/-- A computation that puts `n` objects, or raises before it is through. -/
def Putting {β : Type} (n : Nat) (m : Exec PyError (World B E) β) (Q : β → Prop) : Prop :=
  ∀ w, Exec.wp m (fun b w' => Puts n w w' ∧ Q b) (fun _ w' => PutsUpTo n w w') w

theorem Putting.pure {β : Type} (b : β) : Putting 0 (Pure.pure b : Exec PyError (World B E) β) fun _ => True :=
  fun w => ⟨.refl w, trivial⟩

theorem Putting.raise {β : Type} (n : Nat) (err : PyError) (Q : β → Prop) :
    Putting n (Exec.raise err : Exec PyError (World B E) β) Q :=
  fun w => .refl n w

theorem Putting.bind {β γ : Type} {n k : Nat} {m : Exec PyError (World B E) β} {f : β → Exec PyError (World B E) γ}
    {P : β → Prop} {Q : γ → Prop} (hm : Putting n m P) (hf : ∀ b, P b → Putting k (f b) Q) :
    Putting (n + k) (m >>= f) Q := by
  intro w
  rw [Exec.wp_bind]
  refine Exec.wp_mono (hm w) (fun b w₁ h₁ => ?_) fun _ w' h => h.mono (Nat.le_add_right n k)
  exact Exec.wp_mono (hf b h₁.2 w₁) (fun c w₂ h₂ => ⟨h₁.1.trans h₂.1, h₂.2⟩) fun _ w₂ h => h₁.1.upTo h

theorem Putting.map {β γ : Type} {n : Nat} {m : Exec PyError (World B E) β} {f : β → γ} {P : β → Prop} {Q : γ → Prop}
    (hm : Putting n m P) (h : ∀ b, P b → Q (f b)) : Putting n (m >>= fun b => Pure.pure (f b)) Q := by
  intro w
  rw [Exec.wp_bind]
  exact Exec.wp_mono (hm w) (fun b _ hb => ⟨hb.1, h b hb.2⟩) fun _ _ he => he

theorem putObject_putting (env : Env B E S) (obj : Content B) : Putting 1 (putObject env obj) fun _ => True := by
  intro w
  simp only [putObject, Exec.wp_bind, Exec.wp_read]
  cases ho : w.o with
  | none => exact .refl 1 w
  | some objs =>
    simp only [World.wp_call_iff]
    split
    · exact ⟨⟨rfl, rfl, rfl, rfl⟩, Nat.le_refl _⟩
    · exact ⟨⟨⟨rfl, rfl, rfl, rfl⟩, rfl, by simp [ho]⟩, trivial⟩

theorem processAnswers_putting (env : Env B E S) : ∀ answers : List (AnswerItem B),
    Putting (answers.map answerItemPuts).sum (processAnswers (E := E) env answers) fun _ => True
  | [] => .pure _
  | .answer ans :: answers => by
    have hfirst : Putting (E := E) (answerItemPuts (.answer ans))
        (if ans.answerType = .STR then pure ans
          else putObject env ans.answer >>= fun path => pure ⟨.str path, ans.answerType⟩) fun _ => True := by
      by_cases hstr : ans.answerType = .STR
      · simp only [answerItemPuts, hstr, if_true]
        exact .pure ans
      · simp only [answerItemPuts, hstr, if_false]
        exact (putObject_putting env ans.answer).map fun _ _ => trivial
    rw [List.map_cons, List.sum_cons, processAnswers]
    exact hfirst.bind fun ans _ => Putting.map (processAnswers_putting env answers) fun _ _ => trivial
  | .pair _ _ :: _ => .raise _ _ _
  | .plain (.str _) :: _ => .raise _ _ _
  | .plain (.other _) :: _ => .raise _ _ _

theorem processAnswerData_putting (env : Env B E S) (answers : AnswerArg B) :
    Putting (answerPuts answers) (processAnswerData (E := E) env answers) fun _ => True := by
  cases answers with
  | str s =>
    have hzero : ((s.toList.map fun c => (.plain (.str (String.singleton c)) : AnswerItem B)).map answerItemPuts).sum =
        0 := by
      simp [answerItemPuts, Function.comp_def]
    have h := processAnswers_putting (E := E) env (s.toList.map fun c => .plain (.str (String.singleton c)))
    rw [hzero] at h
    exact h.map fun _ _ => trivial
  | answer a =>
    have h := processAnswers_putting (E := E) env [.answer a]
    exact h.map fun _ _ => trivial
  | items xs => exact (processAnswers_putting env xs).map fun _ _ => trivial

theorem storeDeps_putting (env : Env B E S) : ∀ deps : List QuestionDep,
    Putting (deps.map depPuts).sum (storeDeps (E := E) env deps) fun _ => True
  | [] => .pure _
  | dep :: deps => by
    rw [List.map_cons, List.sum_cons, storeDeps, Exec.forEach_cons]
    refine Putting.bind (P := fun _ => True) ?_ fun _ _ => storeDeps_putting env deps
    unfold depPuts
    split
    · intro w
      rw [Exec.wp_bind, Exec.wp_read]
      split
      · exact .refl 1 w
      · cases env.download dep.data with
        | error err => exact .refl 1 w
        | ok content => exact (putObject_putting env (.other content)).map (fun _ _ => trivial) w
    · exact .pure _

theorem processQuestionData_putting (env : Env B E S) (question : QuestionArg) :
    Putting (questionPuts question) (processQuestionData (E := E) env question) fun _ => True := by
  cases question with
  | str s => exact .pure _
  | question q =>
    simp only [processQuestionData, questionPuts]
    cases q.deps with
    | none => exact .pure q
    | some deps => exact Putting.map (storeDeps_putting env deps) fun _ _ => trivial

theorem cacheData_puts (env : Env B E S) (entry : Entry B E) (w : World B E) :
    Exec.wp (cacheData env entry)
      (fun data w' => Puts (entryPuts w.o.isSome entry.1 entry.2.1) w w' ∧
        data.embeddingData = some (env.float32 entry.2.2.1))
      (fun _ w' => PutsUpTo (entryPuts w.o.isSome entry.1 entry.2.1) w w') w := by
  obtain ⟨question, answers, embeddingData, sessionId⟩ := entry
  have hrest : ∀ ans : AnswerArg B, Putting (questionPuts question)
      (processQuestionData env question >>= fun q =>
        pure (CacheData.init (.question q) ans (some (env.float32 embeddingData)) sessionId))
      fun data => data.embeddingData = some (env.float32 embeddingData) := fun ans =>
    (processQuestionData_putting env question).map fun _ _ => rfl
  rw [cacheData, Exec.wp_bind, Exec.wp_read]
  cases ho : w.o with
  | none =>
    have hzero : entryPuts false question answers = questionPuts question := Nat.zero_add _
    rw [Option.isSome_none, hzero]
    exact hrest answers w
  | some objs =>
    cases answers with
    | str s =>
      have hzero : entryPuts true question (.str s : AnswerArg B) = questionPuts question := Nat.zero_add _
      rw [Option.isSome_some, hzero]
      exact hrest (.str s) w
    | answer a => exact ((processAnswerData_putting env (.answer a)).bind fun ans _ => hrest ans) w
    | items xs => exact ((processAnswerData_putting env (.items xs)).bind fun ans _ => hrest ans) w

/-- How many objects are put for all of the entries. -/
def objectPuts (objects : Bool) (entries : List (Entry B E)) : Nat :=
  (entries.map fun entry => entryPuts objects entry.1 entry.2.1).sum

theorem cacheDatas_puts (env : Env B E S) : ∀ (entries : List (Entry B E)) (w : World B E),
    Exec.wp (cacheDatas env entries)
      (fun datas w' => Puts (objectPuts w.o.isSome entries) w w' ∧
        datas.map CacheData.embeddingData = entries.map fun entry => some (env.float32 entry.2.2.1))
      (fun _ w' => PutsUpTo (objectPuts w.o.isSome entries) w w') w
  | [], w => ⟨.refl w, rfl⟩
  | entry :: entries, w => by
    have hsum : objectPuts w.o.isSome (entry :: entries) =
        entryPuts w.o.isSome entry.1 entry.2.1 + objectPuts w.o.isSome entries := by
      simp [objectPuts]
    rw [cacheDatas, Exec.wp_bind, hsum]
    refine Exec.wp_mono (cacheData_puts env entry w) (fun data w₁ h₁ => ?_) fun _ _ h => h.mono (Nat.le_add_right _ _)
    have ih := cacheDatas_puts env entries w₁
    rw [h₁.1.objects] at ih
    rw [Exec.wp_bind]
    refine Exec.wp_mono ih (fun datas w₂ h₂ => ?_) fun _ _ h => h₁.1.upTo h
    exact ⟨h₁.1.trans h₂.1, by rw [List.map_cons, List.map_cons, h₁.2, h₂.2]⟩

theorem insertable_puts (env : Env B E S) (entries : List (Entry B E)) (w : World B E) :
    Exec.wp (insertable env entries)
      (fun datas w' => Puts (objectPuts w.o.isSome entries) w w' ∧
        datas.map CacheData.embeddingData = entries.map fun entry => some (env.float32 entry.2.2.1))
      (fun _ w' => PutsUpTo (objectPuts w.o.isSome entries) w w') w := by
  rw [insertable, Exec.wp_bind]
  refine Exec.wp_mono (cacheDatas_puts env entries w) (fun datas w₁ h₁ => ?_) fun _ _ h => h
  split
  · exact h₁
  · exact h₁.1.upTo (.refl 0 w₁)

theorem lookup_zip_append {V : Type} : ∀ {ids : List Nat} {xs : List V}, ids.length = xs.length → ids.Nodup →
    ∀ (old : List (Nat × V)), (∀ d ∈ ids.zip xs, (ids.zip xs ++ old).lookup d.1 = some d.2) ∧
      ∀ id ∉ ids, (ids.zip xs ++ old).lookup id = old.lookup id
  | [], [], _, _, old => by simp
  | id :: ids, x :: xs, hlen, hnodup, old => by
    obtain ⟨hid, hnodup⟩ := List.nodup_cons.mp hnodup
    obtain ⟨hnew, hold⟩ := lookup_zip_append (Nat.succ.inj hlen) hnodup old
    refine ⟨fun d hd => ?_, fun k hk => ?_⟩
    · rw [List.zip_cons_cons, List.cons_append]
      rcases List.mem_cons.mp hd with rfl | hd
      · simp
      · have hne : d.1 ≠ id := fun heq => hid (heq ▸ (List.of_mem_zip (a := d.1) (b := d.2) hd).1)
        rw [List.lookup_cons, beq_eq_false_iff_ne.mpr hne]
        exact hnew d hd
    · obtain ⟨hne, hk⟩ := not_or.mp (List.mem_cons.not.mp hk)
      rw [List.zip_cons_cons, List.cons_append, List.lookup_cons, beq_eq_false_iff_ne.mpr hne]
      exact hold k hk

/-- The rows and vectors of a batch, before it goes into the index. -/
theorem Consistent.inserted {tracked : Nat → Bool} {w : World B E} (h : Consistent env tracked w)
    {datas : List (CacheData B E)} {ids : List Nat} {s' : SQLStorage B E}
    (hi : SQLStorage.Inserted w.s datas ids s') {embeddings : List E} (hlen : embeddings.length = datas.length)
    (hemb : datas.map CacheData.embeddingData = embeddings.map fun vec => some (env.float32 (normalize env vec)))
    (w' : World B E) (hs : w'.s = s') (hv : w'.v = w.v ++ ids.zip (embeddings.map (normalize env)))
    (himp : w'.imported = ids.zip embeddings ++ w.imported) :
    Consistent env (fun id => tracked id || id ∈ ids) w' := by
  obtain ⟨hnodup, hfresh⟩ := hi.fresh h.paired.wellFormed
  have hlength : ids.length = embeddings.length := hi.length.trans hlen.symm
  obtain ⟨hnew, hold⟩ := lookup_zip_append hlength hnodup w.imported
  refine ⟨⟨hs ▸ hi.wellFormed h.paired.wellFormed, ?_⟩, fun id => ?_, fun d hd => ?_, fun r hr => ?_⟩
  · rw [hv, hs, hi.ids, List.map_append, h.paired.vectors, List.map_fst_zip (by simp [hlength])]
  · rw [hs, hi.getIds_live, List.mem_append, h.live]
    simp
  · rw [himp]
    rw [hv, List.zip_map_right] at hd
    rcases List.mem_append.mp hd with hd | hd
    · obtain ⟨vec, hvec, hdata⟩ := h.held d hd
      refine ⟨vec, ?_, hdata⟩
      rw [hold d.1 fun hmem => hfresh d.1 hmem (h.paired.vectors ▸ List.mem_map_of_mem hd), hvec]
    · obtain ⟨⟨id, vec⟩, hd', rfl⟩ := List.mem_map.mp hd
      exact ⟨vec, hnew _ hd', rfl⟩
  · rw [himp]
    rw [hs, hi.ques] at hr
    rcases List.mem_append.mp hr with hr | hr
    · obtain ⟨vec, hvec, hdata⟩ := h.rows r hr
      refine ⟨vec, ?_, hdata⟩
      rw [hold r.id fun hmem => hfresh r.id hmem (List.mem_map_of_mem hr), hvec]
    · obtain ⟨i, hlt, rfl⟩ := List.getElem_of_mem hr
      simp only [List.length_zipWith, Nat.lt_min] at hlt
      have hvec : i < embeddings.length := by omega
      have hdata : datas[i].embeddingData = some (env.float32 (normalize env embeddings[i])) := by
        have := congrArg (·[i]?) hemb
        simpa [hlt.2, hvec] using this
      refine ⟨embeddings[i], ?_, ?_⟩
      · have := hnew (ids[i], embeddings[i]) (List.mem_iff_getElem.mpr ⟨i, by simp [hlt.1, hvec], by simp⟩)
        simpa [SQLStorage.newRow] using this
      · simpa [SQLStorage.newRow] using hdata

/-- The rows and vectors of a batch are in `w'`; the index has not heard of them. -/
structure Arrived (env : Env B E S) (w : World B E) (datas : List (CacheData B E)) (embeddings : List E)
    (ids : List Nat) (w' : World B E) : Prop where
  inserted : SQLStorage.Inserted w.s datas ids w'.s
  length : embeddings.length = datas.length
  embedded : datas.map CacheData.embeddingData = embeddings.map fun vec => some (env.float32 (normalize env vec))
  v : w'.v = w.v ++ ids.zip (embeddings.map (normalize env))
  imported : w'.imported = ids.zip embeddings ++ w.imported
  evicted : w'.evicted = w.evicted

/-- `import_data` up to the index. -/
def importRows (env : Env B E S) (questions : List QuestionArg) (answers : List (AnswerArg B)) (embeddingDatas : List E)
    (sessionIds : List (Option String)) : Exec PyError (σ × World B E) (List Nat × List (CacheData B E)) :=
  if questions.length ≠ answers.length ∨ questions.length ≠ embeddingDatas.length ∨
      questions.length ≠ sessionIds.length then
    Exec.raise ⟨.ParamError, "Make sure that all parameters have the same length"⟩
  else
    let normalized := embeddingDatas.map (normalize env)
    Exec.onSnd (insertable env (questions.zip (answers.zip (normalized.zip sessionIds)))) >>= fun datas =>
    Exec.onSnd (World.call env fun w =>
      let (ids, s) := w.s.batchInsert datas
      (ids, { w with s := s, imported := ids.zip embeddingDatas ++ w.imported })) >>= fun ids =>
    Exec.onSnd (World.call env fun w => ((), { w with v := w.v ++ ids.zip normalized })) >>= fun _ =>
    pure (ids, datas)

theorem importData_eq (questions : List QuestionArg) (answers : List (AnswerArg B)) (embeddingDatas : List E)
    (sessionIds : List (Option String)) :
    importData env e fuel questions answers embeddingDatas sessionIds =
      importRows env questions answers embeddingDatas sessionIds >>= fun batch =>
        e.put fuel batch.1 (some (batch.2.map importCost)) := by
  unfold importData importRows
  split
  · rfl
  · simp only [Exec.bind_assoc, Exec.pure_bind]

/-- It raises before it changed a row or a vector, or all of the batch arrives. -/
theorem wp_importRows (hf : ∀ n, env.fails n = false) (s : σ × World B E) (questions : List QuestionArg)
    (answers : List (AnswerArg B)) (embeddingDatas : List E) (sessionIds : List (Option String)) :
    Exec.wp (importRows env questions answers embeddingDatas sessionIds)
      (fun batch s' => s'.1 = s.1 ∧ Arrived env s.2 batch.2 embeddingDatas batch.1 s'.2)
      (fun _ s' => s'.1 = s.1 ∧ SameRows s.2 s'.2) s := by
  unfold importRows
  split
  · exact ⟨rfl, .refl s.2⟩
  · rename_i hlen
    simp only [not_or, not_not] at hlen
    obtain ⟨hanswers, hembeddings, hsessions⟩ := hlen
    simp only [Exec.wp_bind, Exec.wp_onSnd, World.wp_call env hf, Exec.wp_pure]
    refine Exec.wp_mono (insertable_puts env _ s.2) (fun datas w₁ h₁ => ?_)
      fun err w h' => ⟨trivial, h'.toSameRows⟩
    obtain ⟨⟨hw₁, -, -⟩, hemb⟩ := h₁
    have hnormal : (questions.zip (answers.zip ((embeddingDatas.map (normalize env)).zip sessionIds))).map
        (fun entry => entry.2.2.1) = embeddingDatas.map (normalize env) := by
      have hfst : ((embeddingDatas.map (normalize env)).zip sessionIds).map Prod.fst =
        embeddingDatas.map (normalize env) := List.map_fst_zip (by simp [← hembeddings, hsessions])
      rw [show (fun entry : Entry B E => entry.2.2.1) = Prod.fst ∘ Prod.snd ∘ Prod.snd from rfl, ← List.map_map,
        ← List.map_map, List.map_snd_zip (by simp [← hanswers, ← hembeddings, ← hsessions]),
        List.map_snd_zip (by simp [← hanswers, ← hembeddings, ← hsessions]), hfst]
    have hdatas : datas.map CacheData.embeddingData =
        embeddingDatas.map fun vec => some (env.float32 (normalize env vec)) := by
      rw [hemb, show (fun entry : Entry B E => some (env.float32 entry.2.2.1)) =
        (fun vec => some (env.float32 vec)) ∘ fun entry => entry.2.2.1 from rfl, ← List.map_map, hnormal, List.map_map]
      rfl
    refine ⟨trivial, hw₁.s ▸ SQLStorage.batchInsert_inserted datas w₁.s,
      by simpa using (congrArg List.length hdatas).symm, hdatas, ?_, ?_, hw₁.evicted⟩
    · rw [← hw₁.v]
    · rw [← hw₁.imported]

/-- `import_data` raises before it changed a row or a vector, or all of the
batch arrives and what it does to the index is left. -/
theorem wp_importData (hf : ∀ n, env.fails n = false) {s : σ × World B E} {questions : List QuestionArg}
    {answers : List (AnswerArg B)} {embeddingDatas : List E} {sessionIds : List (Option String)}
    {Q : Unit → σ × World B E → Prop} {X : PyError → σ × World B E → Prop}
    (hraise : ∀ err w, SameRows s.2 w → X err (s.1, w))
    (hput : ∀ datas ids w, Arrived env s.2 datas embeddingDatas ids w →
      Exec.wp (e.put fuel ids (some (datas.map importCost))) Q X (s.1, w)) :
    Exec.wp (importData env e fuel questions answers embeddingDatas sessionIds) Q X s := by
  rw [importData_eq, Exec.wp_bind]
  refine Exec.wp_mono (wp_importRows hf s questions answers embeddingDatas sessionIds) ?_ ?_
  · rintro ⟨ids, datas⟩ ⟨_, w⟩ ⟨rfl, harrived⟩
    exact hput datas ids w harrived
  · rintro err ⟨_, w⟩ ⟨rfl, hsame⟩
    exact hraise err w hsame

/-- A batch that arrived, on its way into the index. -/
theorem Indexed.arrived {s : σ × World B E} (h : Indexed env e m [] s) {datas : List (CacheData B E)}
    {embeddings : List E} {ids : List Nat} {w : World B E} (ha : Arrived env s.2 datas embeddings ids w) :
    Indexed env e m ids (s.1, w) := by
  have hwf := h.consistent.paired.wellFormed
  refine ⟨⟨h.sized.inv, h.sized.unit, h.sized.maxsize, h.sized.le⟩,
    h.tracked.inserted ha.inserted ha.length ha.embedded w rfl ha.v ha.imported, fun id hid => ?_⟩
  rw [← Bool.not_eq_true, ← h.tracked.live]
  exact fun hlive => (ha.inserted.fresh hwf).2 id hid (SQLStorage.mem_ids_of_mem_getIds hlive)

theorem Arrived.costsCover {w w' : World B E} {datas : List (CacheData B E)} {embeddings : List E} {ids : List Nat}
    (ha : Arrived env w datas embeddings ids w') :
    MemoryCacheEviction.costsCover ids (some (datas.map importCost)) = true := by
  simp [MemoryCacheEviction.costsCover, ha.inserted.length]

theorem Indexed.sameRows {todo : List Nat} {s : σ × World B E} (h : Indexed env e m todo s) {w : World B E}
    (hw : SameRows s.2 w) : Indexed env e m todo (s.1, w) :=
  ⟨⟨h.sized.inv, h.sized.unit, h.sized.maxsize, h.sized.le⟩, h.consistent.sameRows hw, h.fresh⟩

/-- `import_data` returns or raises before it changed a row, a vector or the index. -/
theorem importData_indexed (hw : Wired env e m fuel) {s : σ × World B E} (h : Indexed env e m [] s)
    (questions : List QuestionArg) (answers : List (AnswerArg B)) (embeddingDatas : List E)
    (sessionIds : List (Option String)) :
    Exec.wp (importData env e fuel questions answers embeddingDatas sessionIds)
      (fun _ s' => Indexed env e m [] s') (fun _ s' => Indexed env e m [] s') s := by
  refine wp_importData hw.fails (fun _ w hsame => h.sameRows hsame) fun datas ids w ha => ?_
  exact Exec.wp_mono (put_indexed hw (stable_true e) ha.costsCover
    (ha.inserted.fresh h.consistent.paired.wellFormed).1 (fun _ _ => trivial) (h.arrived ha) trivial)
    (fun _ _ h' => h'.1) fun _ _ hfalse => hfalse.elim

theorem hit_indexed {s : σ × World B E} (h : Indexed env e m [] s) (id : Nat) :
    Exec.wp (hitCacheCallback e id) (fun _ s' => Indexed env e m [] s') (fun _ _ => False) s := by
  simp only [hitCacheCallback, Exec.wp_bind, MemoryCacheEviction.get, Exec.wp_pure]
  have hget : (Exec.total fun s => (.ok (e.cls.get s.1 id).1, ((e.cls.get s.1 id).2, s.2)) :
      Exec PyError (σ × World B E) _) s = some (.ok (e.cls.get s.1 id).1, ((e.cls.get s.1 id).2, s.2)) := rfl
  rw [Exec.wp_of_ok hget]
  rcases hid : (e.cls.cache s.1).data.get? id with _ | v
  · rw [e.cls.get_miss hid]
    exact h
  · obtain ⟨-, hi, hc⟩ := e.cls.get_hit h.sized.inv hid
    exact ⟨⟨hi, fun v => by simp [hc, h.sized.unit], by simp [hc, h.sized.maxsize], by simpa [hc] using h.sized.le⟩,
      by simpa [hc] using h.consistent, by simp⟩

/-- A new index over stores that are consistent with any keys: all live rows are yet to come. -/
theorem Consistent.reloaded {tracked : Nat → Bool} {w : World B E} (h : Consistent env tracked w)
    (e : MemoryCacheEviction σ Nat α (World B E)) (m calls : Nat) :
    Indexed env e m (w.s.getIds false) (e.cls.new m fun _ => 1, { w with deleteCount := 0, calls := calls }) := by
  have hnew := MemoryCacheEviction.new_sized e m w
  have hempty : ∀ id, (e.cls.cache (e.cls.new m fun _ => 1)).data.contains id = false := fun id => by
    simp [Cache.new, Dict.contains]
  refine ⟨⟨hnew.inv, hnew.unit, hnew.maxsize, hnew.le⟩, ?_, fun id _ => hempty id⟩
  have hcons : Consistent env (fun id => decide (id ∈ w.s.getIds false)) w :=
    ⟨h.paired, fun id => by simp, h.held, h.rows⟩
  have htracked : (fun id => (e.cls.cache (e.cls.new m fun _ => 1)).data.contains id ||
      decide (id ∈ w.s.getIds false)) = fun id => decide (id ∈ w.s.getIds false) := by
    funext id
    rw [hempty, Bool.false_or]
  exact htracked ▸ hcons.sameRows ⟨rfl, rfl, rfl, rfl⟩

/-- The constructor puts the live rows into the index. -/
theorem wp_init (hf : ∀ n, env.fails n = false) {σ₀ : σ} {w : World B E} {Q : Unit → σ × World B E → Prop}
    {X : PyError → σ × World B E → Prop}
    (hput : Exec.wp (e.put fuel (w.s.getIds false) none) Q X (σ₀, { w with deleteCount := 0, calls := w.calls + 1 })) :
    Exec.wp (init env e fuel) Q X (σ₀, w) := by
  simpa only [init, Exec.wp_bind, Exec.wp_modify, Exec.wp_onSnd, World.wp_call env hf] using hput

theorem init_indexed (hw : Wired env e m fuel) (hP : Stable e W P) (hv : ∀ id, W id (.bool true))
    {tracked : Nat → Bool} {w : World B E} (h : Consistent env tracked w)
    (hs : ∀ calls, P (e.cls.new m fun _ => 1, { w with deleteCount := 0, calls := calls })) :
    Exec.wp (init env e fuel) (fun _ s' => Indexed env e m [] s' ∧ P s') (fun _ _ => False)
      (e.cls.new m fun _ => 1, w) := by
  refine wp_init hw.fails (put_indexed hw hP rfl ((SQLStorage.getIds_ascending h.paired.wellFormed false).imp
    fun hlt => Nat.ne_of_lt hlt) (fun item hitem => ?_) (h.reloaded e m _) (hs _))
  obtain ⟨id, -, rfl⟩ := List.mem_map.mp hitem
  exact hv id

/-! ## Runs -/

theorem opResult_indexed (hw : Wired env e m fuel) {s : σ × World B E} (h : Indexed env e m [] s) (op : Op B E) :
    ∃ s', opResult env e fuel s op = some s' ∧ Indexed env e m [] s' := by
  have hresult : ∀ {c : Exec PyError (σ × World B E) Unit},
      Exec.wp c (fun _ s' => Indexed env e m [] s') (fun _ s' => Indexed env e m [] s') s →
      ∃ s', (c s).map Prod.snd = some s' ∧ Indexed env e m [] s' := fun hc => by
    rcases Exec.wp_returns hc with ⟨a, s', heq, h'⟩ | ⟨err, s', heq, h'⟩ <;> exact ⟨s', by rw [heq]; rfl, h'⟩
  cases op with
  | importData questions answers embeddingDatas sessionIds =>
    exact hresult (importData_indexed hw h questions answers embeddingDatas sessionIds)
  | hit id => exact hresult (Exec.wp_mono (hit_indexed h id) (fun _ _ h => h) fun _ _ h => h.elim)

theorem runOps_indexed (hw : Wired env e m fuel) :
    ∀ (ops : List (Op B E)) {s : σ × World B E}, Indexed env e m [] s →
      ∃ s', runOps env e fuel s ops = some s' ∧ Indexed env e m [] s'
  | [], s, h => ⟨s, rfl, h⟩
  | op :: ops, s, h => by
    obtain ⟨s₁, hop, h₁⟩ := opResult_indexed hw h op
    obtain ⟨s₂, hops, h₂⟩ := runOps_indexed hw ops h₁
    exact ⟨s₂, by simp only [runOps, hop, hops], h₂⟩

/-- `EvictionBase.get` as `__init__` calls it, with a batch size. -/
theorem get_memory {K ω : Type} [DecidableEq K] (draws : Nat → Nat) (policy : Policy) (maxSize : Nat) {cleanSize : Nat}
    (hclean : 1 ≤ cleanSize) (onEvict : List K → Exec PyError ω Unit) :
    EvictionBase.get draws "memory" policy.name maxSize (some cleanSize) onEvict (fun _ : Value α => 1) =
      .ok (.memory policy (MemoryCacheEviction.ofPolicy draws policy cleanSize onEvict)
        ((policy.cacheClass draws K α).new maxSize fun _ => 1)) := by
  have hbatch : batchSize maxSize (some cleanSize) = .ok cleanSize := by
    simp only [batchSize, Option.getD_some, if_neg (Nat.ne_of_gt hclean)]
  simp only [EvictionBase.get, hbatch, MemoryCacheEviction.init, Policy.ofString_name]
  rfl

theorem process_run (hf : ∀ n, env.fails n = false) {fuel : Nat} (p : Process B E) (hclean : 1 ≤ p.cleanSize)
    (hle : p.cleanSize ≤ p.maxSize) (hfuel : p.maxSize < fuel) {tracked : Nat → Bool} {w : World B E}
    (h : Consistent env tracked w) :
    ∃ (mgr : Manager B E α) (w' : World B E), p.run env fuel w = some (.ok mgr, w') ∧
      Consistent env mgr.tracked w' := by
  let e : MemoryCacheEviction (p.policy.State Nat α) Nat α (World B E) :=
    MemoryCacheEviction.ofPolicy p.draws p.policy p.cleanSize (World.clear env)
  have hw : Wired env e p.maxSize fuel := ⟨hf, rfl, hclean, hle, hfuel⟩
  obtain ⟨a, s, hinit, hs, -⟩ := Exec.wp_returns_ok
    (init_indexed hw (stable_true e) (fun _ => trivial) h fun _ => trivial)
  obtain ⟨s', hops, hs'⟩ := runOps_indexed hw p.ops hs
  refine ⟨⟨p.policy, e, s'.1⟩, s'.2, ?_, hs'.tracked⟩
  have hinit' : init env e fuel ((p.policy.cacheClass p.draws Nat α).new p.maxSize fun _ => 1, w) =
      some (.ok a, s) := hinit
  simp only [Process.run, get_memory p.draws p.policy p.maxSize hclean]
  rw [hinit']
  exact congrArg (Option.map _) hops

/-- A process whose batch fits its capacity. -/
def Process.Sound (p : Process B E) : Prop := 1 ≤ p.cleanSize ∧ p.cleanSize ≤ p.maxSize

theorem runs_consistent (hf : ∀ n, env.fails n = false) {fuel : Nat} : ∀ (ps : List (Process B E)),
    (∀ p ∈ ps, p.Sound ∧ p.maxSize < fuel) → ∀ {tracked : Nat → Bool} {w : World B E}, Consistent env tracked w →
    ∃ tracked' w', runs α env fuel ps w = some w' ∧ Consistent env tracked' w'
  | [], _, tracked, w, h => ⟨tracked, w, rfl, h⟩
  | p :: ps, hps, _, w, h => by
    obtain ⟨⟨hsound, hfuel⟩, hps⟩ := List.forall_mem_cons.mp hps
    obtain ⟨mgr, w₁, hrun, h₁⟩ := process_run (α := α) hf p hsound.1 hsound.2 hfuel h
    obtain ⟨tracked', w', hruns, h'⟩ := runs_consistent hf ps hps h₁
    exact ⟨tracked', w', by simp only [runs, hrun, hruns], h'⟩

/-- **Three-store consistency.** Processes run one after another over stores
that start empty and do not fail; the last one has got to anywhere between
two calls. Its constructor and its calls returned, the live rows are the keys
its index tracks, and each row, live or soft-deleted, has its vector. -/
theorem stores_consistent (env : Env B E S) (hf : ∀ n, env.fails n = false) (objects : Bool) (fuel : Nat)
    (ps : List (Process B E)) (p : Process B E) (hps : ∀ q ∈ p :: ps, q.Sound ∧ q.maxSize < fuel) :
    ∃ (w : World B E) (mgr : Manager B E α) (w' : World B E), runs α env fuel ps (World.init objects) = some w ∧
      p.run env fuel w = some (.ok mgr, w') ∧
      (∀ id, id ∈ w'.s.getIds false ↔ mgr.tracked id = true) ∧
      w'.v.map Prod.fst = w'.s.ids ∧ w'.s.ids.Nodup ∧
      (∀ d ∈ w'.v, ∃ vec, w'.imported.lookup d.1 = some vec ∧ d.2 = normalize env vec) ∧
      ∀ r ∈ w'.s.ques, ∃ vec, w'.imported.lookup r.id = some vec ∧
        r.embeddingData = some (env.float32 (normalize env vec)) := by
  obtain ⟨⟨hsound, hfuel⟩, hps⟩ := List.forall_mem_cons.mp hps
  obtain ⟨tracked, w, hruns, h⟩ := runs_consistent (α := α) hf ps hps (init_consistent env objects)
  obtain ⟨mgr, w', hrun, h'⟩ := process_run (α := α) hf p hsound.1 hsound.2 hfuel h
  exact ⟨w, mgr, w', hruns, hrun, h'.live, h'.paired.vectors, h'.paired.wellFormed.nodup, h'.held, h'.rows⟩

/-- Three rows through an index of two, then a restart with GDSF and two more. -/
theorem stores_consistent_restart :
    let env : Env Unit ℚ ℚ :=
      { norm := abs, div := (· / ·), float32 := id, download := fun _ => .ok (), path := toString
        fails := fun _ => false, reindexes := false }
    let first : Process Unit ℚ := ⟨.LRU, 2, 1, id, [.importData [.str "a", .str "b", .str "c"]
      [.str "x", .str "y", .str "z"] [1, -2, 3] [none, none, none], .hit 2]⟩
    let second : Process Unit ℚ := ⟨.GDSF, 3, 2, id, [.importData [.str "d", .str "e"] [.str "u", .str "v"] [4, 5]
      [none, none]]⟩
    ∃ (w : World Unit ℚ) (mgr : Manager Unit ℚ Unit) (w' : World Unit ℚ),
      runs Unit env 4 [first] (World.init false) = some w ∧ second.run env 4 w = some (.ok mgr, w') ∧
      (∀ id, id ∈ w'.s.getIds false ↔ mgr.tracked id = true) ∧ w'.v.map Prod.fst = w'.s.ids := by
  intro env first second
  obtain ⟨w, mgr, w', hruns, hrun, hlive, hvectors, -⟩ := stores_consistent (α := Unit) env (fun _ => rfl) false
    4 [first] second (by
      intro q hq
      simp only [List.mem_cons, List.not_mem_nil, or_false] at hq
      rcases hq with rfl | rfl <;> exact ⟨⟨by decide, by decide⟩, by decide⟩)
  exact ⟨w, mgr, w', hruns, hrun, hlive, hvectors⟩

end GptCache.SSDataManager
