/-
What becomes of an id once `_clear` was handed it.

The database gives a new row the id after the largest there is, so the ids of
cleared rows are free again when they are larger than all that is left. That
they are never given again is owed to the row with the largest id: between
two calls it is live (`Settled.top`), since what is put into the index last is
in it when the call returns, and it was inserted last too.
-/
import GptCache.Manager.Consistency

namespace GptCache.SSDataManager

variable {B E S α : Type} {env : Env B E S}

/-- What is known of the ids at any time: those handed to `_clear` are not
live, all were given to one row each. -/
structure Parted (w : World B E) : Prop where
  gone : ∀ id ∈ w.evicted, id ∉ w.s.getIds false
  known : ∀ id ∈ w.evicted, id ∈ w.imported.map Prod.fst
  live : ∀ id ∈ w.s.getIds false, id ∈ w.imported.map Prod.fst
  once : (w.imported.map Prod.fst).Nodup

/-- Between two calls also no id was given that is larger than all live ones. -/
structure Settled (w : World B E) : Prop extends Parted w where
  top : ∀ id ∈ w.imported.map Prod.fst, ∃ last ∈ w.s.getIds false, id ≤ last

/-- What was noted at `w₀` still is at `w`. -/
structure Since (w₀ w : World B E) : Prop where
  imported : ∃ new, w.imported = new ++ w₀.imported
  evicted : ∀ id ∈ w₀.evicted, id ∈ w.evicted

theorem Since.refl (w : World B E) : Since w w := ⟨⟨[], rfl⟩, fun _ h => h⟩

theorem Since.trans {w₀ w₁ w₂ : World B E} (h : Since w₀ w₁) (h' : Since w₁ w₂) : Since w₀ w₂ := by
  obtain ⟨new, hnew⟩ := h.imported
  obtain ⟨new', hnew'⟩ := h'.imported
  refine ⟨⟨new' ++ new, ?_⟩, fun id hid => h'.evicted id (h.evicted id hid)⟩
  rw [hnew', hnew, List.append_assoc]

theorem init_settled (objects : Bool) : Settled (World.init objects : World B E) := by
  refine ⟨⟨?_, ?_, ?_, ?_⟩, ?_⟩ <;> simp [World.init, SQLStorage.empty, SQLStorage.getIds]

/-- Of what a settled state left, nothing that `_clear` was handed since is
live, and none of it was given to another row. -/
theorem Parted.not_given {w₁ w₂ : World B E} (h₁ : Parted w₁) (h₂ : Parted w₂) (h : Since w₁ w₂) :
    ∃ new, w₂.imported = new ++ w₁.imported ∧
      ∀ id ∈ w₁.evicted, id ∉ new.map Prod.fst ∧ id ∉ w₂.s.getIds false := by
  obtain ⟨new, hnew⟩ := h.imported
  refine ⟨new, hnew, fun id hid => ⟨fun hagain => ?_, h₂.gone id (h.evicted id hid)⟩⟩
  have honce := h₂.once
  rw [hnew, List.map_append, List.nodup_append] at honce
  exact honce.2.2 id hagain id (h₁.known id hid) rfl

/-! ## One step -/

theorem Parted.cleared {marked : List Nat} {w w' : World B E} (h : Parted w)
    (hmarked : ∀ id ∈ marked, id ∈ w.s.getIds false) (hc : World.Cleared marked w w') : Parted w' := by
  refine ⟨fun id hid => ?_, fun id hid => ?_, fun id hid => ?_, ?_⟩
  · rw [hc.live, List.mem_filter]
    intro hlive
    rcases (hc.evicted id).mp hid with hid | hid
    · simp [hid] at hlive
    · exact h.gone id hid hlive.1
  · rw [hc.imported]
    rcases (hc.evicted id).mp hid with hid | hid
    · exact h.live id (hmarked id hid)
    · exact h.known id hid
  · rw [hc.imported]
    exact h.live id (List.mem_of_mem_filter (hc.live ▸ hid))
  · rw [hc.imported]
    exact h.once

theorem Since.cleared {marked : List Nat} {w₀ w w' : World B E} (h : Since w₀ w) (hc : World.Cleared marked w w') :
    Since w₀ w' := by
  refine ⟨?_, fun id hid => (hc.evicted id).mpr (.inr (h.evicted id hid))⟩
  rw [hc.imported]
  exact h.imported

theorem parted_stable {σ : Type} (e : MemoryCacheEviction σ Nat α (World B E)) (w₀ : World B E)
    (imported : List (Nat × E)) :
    Stable e (fun _ _ => True) fun s => Parted s.2 ∧ Since w₀ s.2 ∧ s.2.imported = imported where
  pop := by
    intro s s' ks hs hlive _ hc
    exact ⟨hs.1.cleared hlive hc, hs.2.1.cleared hc, hc.imported.trans hs.2.2⟩
  store := by
    intro s id v hs _
    exact hs

theorem Settled.sameRows {w w' : World B E} (h : Settled w) (hw : SameRows w w') : Settled w' := by
  obtain ⟨hs, -, hi, he⟩ := hw
  refine ⟨⟨?_, ?_, ?_, ?_⟩, ?_⟩
  · rw [hs, he]; exact h.gone
  · rw [hi, he]; exact h.known
  · rw [hs, hi]; exact h.live
  · rw [hi]; exact h.once
  · rw [hs, hi]; exact h.top

theorem Since.sameRows {w w' : World B E} (hw : SameRows w w') : Since w w' :=
  ⟨⟨[], hw.imported⟩, fun id hid => by rwa [hw.evicted]⟩

/-- The ids of new rows are larger than all that were given. -/
theorem Settled.lt_new {w : World B E} (h : Settled w) (hwf : w.s.WellFormed) {datas : List (CacheData B E)}
    {new : List Nat} {s' : SQLStorage B E} (hi : SQLStorage.Inserted w.s datas new s') :
    ∀ id ∈ w.imported.map Prod.fst, ∀ k ∈ new, id < k := by
  intro id hid k hk
  obtain ⟨last, hlast, hle⟩ := h.top id hid
  have hasc := (hi.wellFormed hwf).ascending
  rw [hi.ids, List.pairwise_append] at hasc
  exact lt_of_le_of_lt hle (hasc.2.2 last (SQLStorage.mem_ids_of_mem_getIds hlast) k hk)

/-- Once the rows of a batch are in. -/
theorem Settled.arrived {w w' : World B E} (h : Settled w) (hwf : w.s.WellFormed) {datas : List (CacheData B E)}
    {ids : List Nat} {embeddings : List E} (ha : Arrived env w datas embeddings ids w') :
    Parted w' ∧ Since w w' ∧ ∀ id ∈ w'.imported.map Prod.fst, id ∈ ids ∨ id ∈ w.imported.map Prod.fst := by
  have hi := ha.inserted
  have hids : (ids.zip embeddings).map Prod.fst = ids := List.map_fst_zip (by rw [hi.length, ha.length])
  have himported : w'.imported.map Prod.fst = ids ++ w.imported.map Prod.fst := by
    rw [ha.imported, List.map_append, hids]
  have hnew := h.lt_new hwf hi
  refine ⟨⟨fun id hid => ?_, fun id hid => ?_, fun id hid => ?_, ?_⟩,
    ⟨⟨_, ha.imported⟩, fun id hid => by rwa [ha.evicted]⟩, fun id hid => by rwa [himported, List.mem_append] at hid⟩
  · rw [ha.evicted] at hid
    rw [hi.getIds_live, List.mem_append, not_or]
    exact ⟨h.gone id hid, fun hmem => lt_irrefl id (hnew id (h.known id hid) id hmem)⟩
  · rw [ha.evicted] at hid
    rw [himported]
    exact List.mem_append_right _ (h.known id hid)
  · rw [hi.getIds_live] at hid
    rw [himported, List.mem_append]
    rcases List.mem_append.mp hid with hid | hid
    · exact .inr (h.live id hid)
    · exact .inl hid
  · rw [himported, List.nodup_append]
    refine ⟨(hi.fresh hwf).1, h.once, fun a ha b hb heq => ?_⟩
    have := hnew b hb a ha
    omega

variable {σ : Type} {e : MemoryCacheEviction σ Nat α (World B E)} {m fuel : Nat}

theorem le_getLast_of_ascending : ∀ {ids : List Nat}, ids.Pairwise (· < ·) → ∀ (hne : ids ≠ []),
    ∀ id ∈ ids, id ≤ ids.getLast hne
  | [], _, hne => absurd rfl hne
  | [k], _, _ => by simp
  | k :: next :: ids, h, _ => by
    obtain ⟨hk, h⟩ := List.pairwise_cons.mp h
    have hrest := le_getLast_of_ascending h (List.cons_ne_nil next ids)
    intro id hid
    rw [List.getLast_cons (List.cons_ne_nil next ids)]
    rcases List.mem_cons.mp hid with rfl | hid
    · exact (Nat.le_of_lt (hk next List.mem_cons_self)).trans (hrest next List.mem_cons_self)
    · exact hrest id hid

/-- A `put` of rows in ascending order up to the largest id that was given. -/
theorem put_settled (hw : Wired env e m fuel) {ids : List Nat} {costs : Option (List ℚ)}
    (hcosts : MemoryCacheEviction.costsCover ids costs = true) (hasc : ids.Pairwise (· < ·)) {s : σ × World B E}
    {w₀ : World B E} (h : Indexed env e m ids s) (hp : Parted s.2) (hsince : Since w₀ s.2)
    (hnil : ids = [] → Settled s.2) (htop : ids ≠ [] → ∀ id ∈ s.2.imported.map Prod.fst, ∃ last ∈ ids, id ≤ last) :
    Exec.wp (e.put fuel ids costs) (fun _ s' => Indexed env e m [] s' ∧ Settled s'.2 ∧ Since w₀ s'.2)
      (fun _ _ => False) s := by
  obtain ⟨_, s', hput, h', hp', hsince', himp⟩ := Exec.wp_returns_ok
    (put_indexed hw (parted_stable e w₀ s.2.imported) hcosts (hasc.imp fun hlt => Nat.ne_of_lt hlt)
      (fun _ _ => trivial) h ⟨hp, hsince, rfl⟩)
  rw [Exec.wp_of_ok hput]
  refine ⟨h', ?_, hsince'⟩
  by_cases hids : ids = []
  · subst hids
    obtain rfl : s = s' := (Exec.pure_ok.mp hput).2
    exact hnil rfl
  · refine ⟨hp', fun id hid => ?_⟩
    rw [himp] at hid
    obtain ⟨k, hk, hle⟩ := htop hids id hid
    refine ⟨ids.getLast hids, ?_, hle.trans (le_getLast_of_ascending hasc hids k hk)⟩
    rw [h'.tracked.live]
    exact MemoryCacheEviction.put_ok_last hcosts hput _ (List.getLast?_eq_some_getLast hids)

theorem importData_settled (hw : Wired env e m fuel) {s : σ × World B E} (h : Indexed env e m [] s)
    (hs : Settled s.2) (questions : List QuestionArg) (answers : List (AnswerArg B)) (embeddingDatas : List E)
    (sessionIds : List (Option String)) :
    Exec.wp (importData env e fuel questions answers embeddingDatas sessionIds)
      (fun _ s' => Indexed env e m [] s' ∧ Settled s'.2 ∧ Since s.2 s'.2)
      (fun _ s' => Indexed env e m [] s' ∧ Settled s'.2 ∧ Since s.2 s'.2) s := by
  have hwf := h.consistent.paired.wellFormed
  refine wp_importData hw.fails (fun _ w hsame => ⟨h.sameRows hsame, hs.sameRows hsame, .sameRows hsame⟩)
    fun datas ids w ha => ?_
  obtain ⟨hp, hsince, hgiven⟩ := hs.arrived hwf ha
  have hasc := (ha.inserted.wellFormed hwf).ascending
  rw [ha.inserted.ids, List.pairwise_append] at hasc
  refine Exec.wp_mono (put_settled hw ha.costsCover hasc.2.1 (h.arrived ha) hp hsince (fun hnil => ?_)
    fun hne id hid => ?_) (fun _ _ h' => h') fun _ _ hfalse => hfalse.elim
  · subst hnil
    refine ⟨hp, fun id hid => ?_⟩
    obtain ⟨last, hlast, hle⟩ := hs.top id ((hgiven id hid).resolve_left (List.not_mem_nil))
    exact ⟨last, by rwa [ha.inserted.getIds_live, List.append_nil], hle⟩
  · rcases hgiven id hid with hnew | hold
    · exact ⟨id, hnew, le_refl id⟩
    · obtain ⟨k, hk⟩ := List.exists_mem_of_ne_nil ids hne
      exact ⟨k, hk, Nat.le_of_lt (hs.lt_new hwf ha.inserted id hold k hk)⟩

theorem hit_settled {s : σ × World B E} (h : Indexed env e m [] s) (hs : Settled s.2) (id : Nat) :
    Exec.wp (hitCacheCallback e id) (fun _ s' => Indexed env e m [] s' ∧ Settled s'.2 ∧ Since s.2 s'.2)
      (fun _ _ => False) s := by
  obtain ⟨_, s', hhit, h'⟩ := Exec.wp_returns_ok (hit_indexed h id)
  rw [Exec.wp_of_ok hhit]
  obtain ⟨v, s₁, hget, hret⟩ := Exec.bind_ok.mp hhit
  cases hget
  obtain ⟨-, rfl⟩ := Exec.pure_ok.mp hret
  exact ⟨h', hs, .refl _⟩

theorem reload_settled (hw : Wired env e m fuel) {tracked : Nat → Bool} {w : World B E}
    (h : Consistent env tracked w) (hs : Settled w) :
    Exec.wp (init env e fuel) (fun _ s' => Indexed env e m [] s' ∧ Settled s'.2 ∧ Since w s'.2)
      (fun _ _ => False) (e.cls.new m fun _ => 1, w) := by
  have hsame : SameRows w { w with deleteCount := 0, calls := w.calls + 1 } := ⟨rfl, rfl, rfl, rfl⟩
  have hs' := hs.sameRows hsame
  exact wp_init hw.fails (put_settled hw rfl (SQLStorage.getIds_ascending h.paired.wellFormed false)
    (h.reloaded e m _) hs'.toParted (.sameRows hsame) (fun _ => hs') fun _ => hs'.top)

/-! ## Runs -/

theorem opResult_settled (hw : Wired env e m fuel) {s : σ × World B E} (h : Indexed env e m [] s) (hs : Settled s.2)
    (op : Op B E) :
    ∃ s', opResult env e fuel s op = some s' ∧ Indexed env e m [] s' ∧ Settled s'.2 ∧ Since s.2 s'.2 := by
  have hresult : ∀ {c : Exec PyError (σ × World B E) Unit} {Q : σ × World B E → Prop},
      Exec.wp c (fun _ s' => Q s') (fun _ s' => Q s') s → ∃ s', (c s).map Prod.snd = some s' ∧ Q s' := by
    intro c Q hc
    rcases Exec.wp_returns hc with ⟨a, s', heq, h'⟩ | ⟨err, s', heq, h'⟩ <;> exact ⟨s', by rw [heq]; rfl, h'⟩
  cases op with
  | importData questions answers embeddingDatas sessionIds =>
    exact hresult (importData_settled hw h hs questions answers embeddingDatas sessionIds)
  | hit id => exact hresult (Exec.wp_mono (hit_settled h hs id) (fun _ _ h => h) fun _ _ h => h.elim)

theorem runOps_settled (hw : Wired env e m fuel) : ∀ (ops : List (Op B E)) {s : σ × World B E},
    Indexed env e m [] s → Settled s.2 →
      ∃ s', runOps env e fuel s ops = some s' ∧ Indexed env e m [] s' ∧ Settled s'.2 ∧ Since s.2 s'.2
  | [], s, h, hs => ⟨s, rfl, h, hs, .refl _⟩
  | op :: ops, s, h, hs => by
    obtain ⟨s₁, hop, h₁, hs₁, hsince₁⟩ := opResult_settled hw h hs op
    obtain ⟨s₂, hops, h₂, hs₂, hsince₂⟩ := runOps_settled hw ops h₁ hs₁
    exact ⟨s₂, by simp only [runOps, hop, hops], h₂, hs₂, hsince₁.trans hsince₂⟩

theorem runOps_append (env : Env B E S) (e : MemoryCacheEviction σ Nat α (World B E)) (fuel : Nat) :
    ∀ (ops ops' : List (Op B E)) (s : σ × World B E),
      runOps env e fuel s (ops ++ ops') = (runOps env e fuel s ops).bind fun s' => runOps env e fuel s' ops'
  | [], _, _ => rfl
  | op :: ops, ops', s => by
    simp only [List.cons_append, runOps]
    cases opResult env e fuel s op with
    | none => rfl
    | some s' => exact runOps_append env e fuel ops ops' s'

/-- The state of the stores at the end of a process that took the calls `ops₁`
before its last ones, then and now. -/
theorem process_settled (hf : ∀ n, env.fails n = false) {fuel : Nat} (p : Process B E) (hsound : p.Sound)
    (hfuel : p.maxSize < fuel) {tracked : Nat → Bool} {w : World B E} (h : Consistent env tracked w) (hs : Settled w)
    (ops₁ ops₂ : List (Op B E)) :
    ∃ (mgr₁ : Manager B E α) (w₁ : World B E) (mgr : Manager B E α) (w' : World B E),
      { p with ops := ops₁ }.run env fuel w = some (.ok mgr₁, w₁) ∧
      { p with ops := ops₁ ++ ops₂ }.run env fuel w = some (.ok mgr, w') ∧
      Settled w₁ ∧ Since w w₁ ∧ Consistent env mgr.tracked w' ∧ Settled w' ∧ Since w₁ w' := by
  let e : MemoryCacheEviction (p.policy.State Nat α) Nat α (World B E) :=
    MemoryCacheEviction.ofPolicy p.draws p.policy p.cleanSize (World.clear env)
  have hw : Wired env e p.maxSize fuel := ⟨hf, rfl, hsound.1, hsound.2, hfuel⟩
  obtain ⟨a, s, hinit, hi, hset, hsince⟩ := Exec.wp_returns_ok (reload_settled hw h hs)
  obtain ⟨s₁, hops₁, hi₁, hset₁, hsince₁⟩ := runOps_settled hw ops₁ hi hset
  obtain ⟨s₂, hops₂, hi₂, hset₂, hsince₂⟩ := runOps_settled hw ops₂ hi₁ hset₁
  have hrun : ∀ ops s', runOps env e fuel s ops = some s' →
      { p with ops := ops }.run env fuel w = some (.ok (⟨p.policy, e, s'.1⟩ : Manager B E α), s'.2) := by
    intro ops s' hops
    have hinit' : init env e fuel ((p.policy.cacheClass p.draws Nat α).new p.maxSize fun _ => 1, w) = some (.ok a, s) :=
      hinit
    simp only [Process.run, get_memory p.draws p.policy p.maxSize hsound.1]
    rw [hinit']
    exact congrArg (Option.map _) hops
  have hops : runOps env e fuel s (ops₁ ++ ops₂) = some s₂ := by
    rw [runOps_append, hops₁, Option.bind_some, hops₂]
  exact ⟨_, s₁.2, _, s₂.2, hrun ops₁ s₁ hops₁, hrun (ops₁ ++ ops₂) s₂ hops, hset₁, hsince.trans hsince₁, hi₂.tracked,
    hset₂, hsince₂⟩

theorem runs_settled (hf : ∀ n, env.fails n = false) {fuel : Nat} : ∀ (ps : List (Process B E)),
    (∀ p ∈ ps, p.Sound ∧ p.maxSize < fuel) → ∀ {tracked : Nat → Bool} {w : World B E}, Consistent env tracked w →
    Settled w → ∃ tracked' w', runs α env fuel ps w = some w' ∧ Consistent env tracked' w' ∧ Settled w' ∧ Since w w'
  | [], _, tracked, w, h, hs => ⟨tracked, w, rfl, h, hs, .refl w⟩
  | p :: ps, hps, _, w, h, hs => by
    obtain ⟨⟨hsound, hfuel⟩, hps⟩ := List.forall_mem_cons.mp hps
    obtain ⟨_, _, mgr, w₁, -, hrun, -, hsince₁, h₁, hs₁, hsince₁'⟩ :=
      process_settled (α := α) hf p hsound hfuel h hs [] p.ops
    obtain ⟨tracked', w', hruns, h', hs', hsince'⟩ := runs_settled hf ps hps h₁ hs₁
    have hrun' : p.run env fuel w = some (.ok mgr, w₁) := hrun
    exact ⟨tracked', w', by simp only [runs, hrun', hruns], h', hs',
      (hsince₁.trans hsince₁').trans hsince'⟩

/-- **Evicted entries never come back.** Processes ran one after another over
stores that start empty and do not fail, and the process `p` has taken the
calls `ops₁`. Whatever it is called with after that, and whatever processes
come after it: an id `_clear` was handed so far is not given to a new row, and
`get_scalar_data` returns nothing for it. -/
theorem evicted_never_return (env : Env B E S) (hf : ∀ n, env.fails n = false) (objects : Bool) (fuel : Nat)
    (ps : List (Process B E)) (p : Process B E) (ops₁ ops₂ : List (Op B E)) (qs : List (Process B E))
    (hps : ∀ q ∈ ps ++ p :: qs, q.Sound ∧ q.maxSize < fuel) :
    ∃ (w w₁ w' w₂ : World B E) (mgr₁ mgr : Manager B E α), runs α env fuel ps (World.init objects) = some w ∧
      { p with ops := ops₁ }.run env fuel w = some (.ok mgr₁, w₁) ∧
      { p with ops := ops₁ ++ ops₂ }.run env fuel w = some (.ok mgr, w') ∧
      runs α env fuel qs w' = some w₂ ∧
      ∃ new, w₂.imported = new ++ w₁.imported ∧ ∀ id ∈ w₁.evicted, id ∉ new.map Prod.fst ∧
        ∀ session, getScalarData env id session w₂ = some (.ok none, { w₂ with calls := w₂.calls + 1 }) := by
  obtain ⟨hps, hqs⟩ := List.forall_mem_append.mp hps
  obtain ⟨⟨hsound, hfuel⟩, hqs⟩ := List.forall_mem_cons.mp hqs
  obtain ⟨tracked, w, hruns, h, hs, -⟩ := runs_settled (α := α) hf ps hps (init_consistent env objects)
    (init_settled objects)
  obtain ⟨mgr₁, w₁, mgr, w', hrun₁, hrun, hs₁, -, h', hs', hsince⟩ :=
    process_settled (α := α) hf p hsound hfuel h hs ops₁ ops₂
  obtain ⟨tracked₂, w₂, hruns₂, -, hs₂, hsince₂⟩ := runs_settled (α := α) hf qs hqs h' hs'
  obtain ⟨new, hnew, hgone⟩ := hs₁.not_given hs₂.toParted (hsince.trans hsince₂)
  refine ⟨w, w₁, w', w₂, mgr₁, mgr, hruns, hrun₁, hrun, hruns₂, new, hnew, fun id hid => ⟨(hgone id hid).1, ?_⟩⟩
  intro session
  exact getScalarData_none hf (hgone id hid).2 session

/-- An index of one row: row 1 goes when row 2 comes, and row 1 is not given again. -/
theorem evicted_never_return_lru :
    let env : Env Unit ℚ ℚ :=
      { norm := abs, div := (· / ·), float32 := id, download := fun _ => .ok (), path := toString
        fails := fun _ => false, reindexes := false }
    let imported : String → ℚ → Op Unit ℚ := fun q vec => .importData [.str q] [.str "x"] [vec] [none]
    let p : Process Unit ℚ := ⟨.LRU, 1, 1, id, []⟩
    ∃ (w w₁ w' w₂ : World Unit ℚ) (mgr₁ mgr : Manager Unit ℚ Unit),
      runs Unit env 2 [] (World.init false) = some w ∧
      { p with ops := [imported "a" 1, imported "b" 2] }.run env 2 w = some (.ok mgr₁, w₁) ∧
      { p with ops := [imported "a" 1, imported "b" 2] ++ [imported "c" 3] }.run env 2 w = some (.ok mgr, w') ∧
      runs Unit env 2 [{ p with ops := [imported "d" 4] }] w' = some w₂ ∧ w₁.evicted = [1] ∧
      ∃ new, w₂.imported = new ++ w₁.imported ∧ 1 ∉ new.map Prod.fst ∧
        getScalarData env 1 none w₂ = some (.ok none, { w₂ with calls := w₂.calls + 1 }) := by
  intro env imported p
  obtain ⟨w, w₁, w', w₂, mgr₁, mgr, hruns, hrun₁, hrun, hruns₂, new, hnew, hgone⟩ :=
    evicted_never_return (α := Unit) env (fun _ => rfl) false 2 [] p [imported "a" 1, imported "b" 2] [imported "c" 3]
      [{ p with ops := [imported "d" 4] }] (by
        intro q hq
        simp only [List.nil_append, List.mem_cons, List.not_mem_nil, or_false] at hq
        rcases hq with rfl | rfl <;> exact ⟨⟨by decide, by decide⟩, by decide⟩)
  have heval : (Process.run (α := Unit) env 2 { p with ops := [imported "a" 1, imported "b" 2] } (World.init false)).map
      (fun r => r.2.evicted) = some [1] := by decide +kernel
  cases hruns
  have hevicted : w₁.evicted = [1] := by simpa [hrun₁] using heval
  have hone := hgone 1 (by simp [hevicted])
  exact ⟨_, w₁, w', w₂, mgr₁, mgr, rfl, hrun₁, hrun, hruns₂, hevicted, new, hnew, hone.1, hone.2 none⟩

end GptCache.SSDataManager
