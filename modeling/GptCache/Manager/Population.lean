/-
How many live rows there are.

Live rows are tracked keys, and the index grows by one with every key but when
it is full: then a batch of `clean_size` leaves first. So their number is a
function of how many entries were imported (`population`), whatever the policy
and the costs, the hits in between and the batches they came in.
-/
import GptCache.Manager.Consistency

namespace GptCache.SSDataManager

variable {B E S : Type} {env : Env B E S}

/-! ## The law -/

/-- One more, after `c` left where there were `m`. -/
def oneMore (m c len : Nat) : Nat := if len = m then m - c + 1 else len + 1

/-- How many there are after `n`. -/
def population (m c n : Nat) : Nat := if n ≤ m then n else m - c + 1 + (n - m - 1) % c

theorem succ_mod {c : Nat} (hc : 1 ≤ c) (k : Nat) : (k + 1) % c = if k % c + 1 = c then 0 else k % c + 1 := by
  have hlt := Nat.mod_lt k hc
  rw [← Nat.mod_add_mod]
  split
  · rename_i h
    rw [h, Nat.mod_self]
  · exact Nat.mod_eq_of_lt (by omega)

theorem population_succ {m c : Nat} (hc : 1 ≤ c) (hle : c ≤ m) (n : Nat) :
    population m c (n + 1) = oneMore m c (population m c n) := by
  unfold population oneMore
  by_cases hfits : n ≤ m
  · rw [if_pos hfits]
    by_cases hfull : n = m
    · subst hfull
      rw [if_neg (by omega), if_pos rfl, show n + 1 - n - 1 = 0 by omega, Nat.zero_mod]
    · rw [if_pos (by omega), if_neg hfull]
  · have hlt := Nat.mod_lt (n - m - 1) hc
    rw [if_neg (by omega), if_neg hfits, show n + 1 - m - 1 = n - m - 1 + 1 by omega, succ_mod hc]
    by_cases hlast : (n - m - 1) % c + 1 = c
    · rw [if_pos hlast, if_pos (by omega)]
    · rw [if_neg hlast, if_neg (by omega)]
      omega

theorem population_le {m c : Nat} (hc : 1 ≤ c) (hle : c ≤ m) (n : Nat) : population m c n ≤ m := by
  unfold population
  split
  · assumption
  · have := Nat.mod_lt (n - m - 1) hc
    omega

/-! ## The index -/

variable {σ α : Type} {e : MemoryCacheEviction σ Nat α (World B E)} {m fuel : Nat}

theorem setitem_oneMore (hw : Wired env e m fuel) {id : Nat} {todo : List Nat} {s : σ × World B E}
    (h : Indexed env e m (id :: todo) s) (v : Value α) :
    Exec.wp (e.setitem fuel id v)
      (fun _ s' => (e.cls.cache s'.1).data.len = oneMore m e.cleanSize (e.cls.cache s.1).data.len)
      (fun _ _ => False) s := by
  have hclean := hw.one_le
  have hm : (1 : ℚ) ≤ m := by exact_mod_cast hclean.trans hw.le
  refine Exec.wp_mono (e.cls.wp_setitem (m := m) (g := fun _ => 1)
    (J := fun s' => Indexed env e m (id :: todo) s' ∧ ((e.cls.cache s'.1).data.len = (e.cls.cache s.1).data.len ∨
      (e.cls.cache s.1).data.len = m ∧ (e.cls.cache s'.1).data.len + e.cleanSize = m))
    (fun s' hs' => ⟨hs'.1.sized.maxsize, funext hs'.1.sized.unit⟩) ?_
    (fun hlarge => absurd hm (not_le.mpr hlarge)) ⟨h, .inl rfl⟩ (h.sized.le.trans_lt hw.lt)) ?_ fun _ _ h => h
  · -- A second batch would find the index below its capacity.
    rintro s' ⟨hs', hlen'⟩ hover -
    have hfull := hs'.sized.overflows.mp hover
    refine Exec.wp_mono (popitemWrapper_indexed hw (stable_true e) hs' trivial hover)
      (fun _ s'' h'' => ?_) fun _ _ h => h
    obtain ⟨⟨hindexed, -⟩, hlen⟩ := h''
    exact ⟨⟨hindexed, by omega⟩, by omega⟩
  · rintro - s' ⟨s₁, -, ⟨h₁, hlen⟩, hroom, rfl⟩
    rw [h.sized.needsRoom, h.fresh id List.mem_cons_self, Bool.not_false, if_pos rfl] at hroom
    have hfits := h₁.sized.overflows.not.mp (by simp [hroom])
    show (e.cls.cache (e.cls.store s₁.1 id v)).data.len = _
    rw [e.cls.store_cache, Cache.store_data, Dict.len_set_of_not_mem (h₁.fresh id List.mem_cons_self), oneMore]
    split <;> omega

theorem setitems_population (hw : Wired env e m fuel) : ∀ (items : List (Nat × Value α)) {n : Nat} {s : σ × World B E},
    Indexed env e m (items.map Prod.fst) s → (items.map Prod.fst).Nodup →
      (e.cls.cache s.1).data.len = population m e.cleanSize n →
      Exec.wp (e.setitems fuel items) (fun _ s' => Indexed env e m [] s' ∧
        (e.cls.cache s'.1).data.len = population m e.cleanSize (n + items.length)) (fun _ _ => False) s
  | [], n, s, h, _, hn => ⟨h, hn⟩
  | item :: items, n, s, h, hnodup, hn => by
    obtain ⟨hid, hnodup⟩ := List.nodup_cons.mp hnodup
    rw [MemoryCacheEviction.setitems, Exec.forEach_cons, Exec.wp_bind]
    refine Exec.wp_mono (Exec.wp_and (setitem_indexed hw (stable_true e) h trivial hid (v := item.2) trivial)
      (setitem_oneMore hw h item.2)) (fun _ s' h' => ?_) fun _ _ h => h.1
    obtain ⟨⟨hindexed, -⟩, hlen⟩ := h'
    rw [hn, ← population_succ hw.one_le hw.le] at hlen
    have hsum : n + (item :: items).length = n + 1 + items.length := by rw [List.length_cons]; omega
    rw [hsum]
    exact setitems_population hw items hindexed hnodup hlen

theorem put_population (hw : Wired env e m fuel) {ids : List Nat} {costs : Option (List ℚ)}
    (hcosts : MemoryCacheEviction.costsCover ids costs = true) (hnodup : ids.Nodup) {n : Nat} {s : σ × World B E}
    (h : Indexed env e m ids s) (hn : (e.cls.cache s.1).data.len = population m e.cleanSize n) :
    Exec.wp (e.put fuel ids costs) (fun _ s' => Indexed env e m [] s' ∧
      (e.cls.cache s'.1).data.len = population m e.cleanSize (n + ids.length)) (fun _ _ => False) s := by
  have hkeys := MemoryCacheEviction.keys_putItems (α := α) hcosts
  have hlen := congrArg List.length hkeys
  rw [List.length_map] at hlen
  rw [e.put_covered fuel hcosts, ← hlen]
  exact setitems_population hw _ (hkeys.symm ▸ h) (hkeys.symm ▸ hnodup) hn

/-! ## Calls -/

/-- How many entries the imports that returned were given. -/
def entriesImported (env : Env B E S) (e : MemoryCacheEviction σ Nat α (World B E)) (fuel : Nat) :
    σ × World B E → List (Op B E) → Nat
  | _, [] => 0
  | s, .importData questions answers embeddingDatas sessionIds :: ops =>
    match importData env e fuel questions answers embeddingDatas sessionIds s with
    | none => 0
    | some (.error _, s') => entriesImported env e fuel s' ops
    | some (.ok _, s') => questions.length + entriesImported env e fuel s' ops
  | s, .hit id :: ops =>
    match hitCacheCallback e id s with
    | none => 0
    | some (_, s') => entriesImported env e fuel s' ops

theorem importData_population (hw : Wired env e m fuel) {n : Nat} {s : σ × World B E} (h : Indexed env e m [] s)
    (hn : (e.cls.cache s.1).data.len = population m e.cleanSize n) (questions : List QuestionArg)
    (answers : List (AnswerArg B)) (embeddingDatas : List E) (sessionIds : List (Option String)) :
    Exec.wp (importData env e fuel questions answers embeddingDatas sessionIds)
      (fun _ s' => Indexed env e m [] s' ∧
        (e.cls.cache s'.1).data.len = population m e.cleanSize (n + questions.length))
      (fun _ s' => Indexed env e m [] s' ∧ (e.cls.cache s'.1).data.len = population m e.cleanSize n) s := by
  by_cases hlen : questions.length = embeddingDatas.length
  · refine wp_importData hw.fails (fun _ w hsame => ⟨h.sameRows hsame, hn⟩) fun datas ids w ha => ?_
    have hids : ids.length = questions.length := ha.inserted.length.trans (ha.length.symm.trans hlen.symm)
    rw [← hids]
    exact Exec.wp_mono (put_population hw ha.costsCover (ha.inserted.fresh h.consistent.paired.wellFormed).1
      (h.arrived ha) hn) (fun _ _ h' => h') fun _ _ hfalse => hfalse.elim
  · unfold importData
    rw [if_pos (.inr (.inl hlen))]
    exact ⟨h, hn⟩

theorem hit_population {n : Nat} {s : σ × World B E} (h : Indexed env e m [] s)
    (hn : (e.cls.cache s.1).data.len = population m e.cleanSize n) (id : Nat) :
    Exec.wp (hitCacheCallback e id) (fun _ s' => Indexed env e m [] s' ∧
      (e.cls.cache s'.1).data.len = population m e.cleanSize n) (fun _ _ => False) s := by
  have hlen : Exec.wp (hitCacheCallback e id)
      (fun _ s' => (e.cls.cache s'.1).data.len = population m e.cleanSize n) (fun _ _ => True) s := by
    simp only [hitCacheCallback, Exec.wp_bind, MemoryCacheEviction.get, Exec.wp_pure]
    show (e.cls.cache (e.cls.get s.1 id).2).data.len = population m e.cleanSize n
    rcases hid : (e.cls.cache s.1).data.get? id with _ | v
    · rwa [e.cls.get_miss hid]
    · obtain ⟨-, -, hc⟩ := e.cls.get_hit h.sized.inv hid
      simpa [hc] using hn
  exact Exec.wp_mono (Exec.wp_and (hit_indexed h id) hlen) (fun _ _ h' => h') fun _ _ h' => h'.1

theorem runOps_population (hw : Wired env e m fuel) : ∀ (ops : List (Op B E)) {n : Nat} {s : σ × World B E},
    Indexed env e m [] s → (e.cls.cache s.1).data.len = population m e.cleanSize n →
      ∃ s', runOps env e fuel s ops = some s' ∧ Indexed env e m [] s' ∧
        (e.cls.cache s'.1).data.len = population m e.cleanSize (n + entriesImported env e fuel s ops)
  | [], _, s, h, hn => ⟨s, rfl, h, hn⟩
  | .importData questions answers embeddingDatas sessionIds :: ops, n, s, h, hn => by
    rcases Exec.wp_returns (importData_population hw h hn questions answers embeddingDatas sessionIds) with
      ⟨_, s₁, heq, h₁, hn₁⟩ | ⟨_, s₁, heq, h₁, hn₁⟩
    · obtain ⟨s', hops, h', hn'⟩ := runOps_population hw ops h₁ hn₁
      refine ⟨s', ?_, h', ?_⟩
      · simp only [runOps, opResult, heq, Option.map_some, hops]
      · simp only [entriesImported, heq]
        rwa [← Nat.add_assoc]
    · obtain ⟨s', hops, h', hn'⟩ := runOps_population hw ops h₁ hn₁
      refine ⟨s', ?_, h', ?_⟩
      · simp only [runOps, opResult, heq, Option.map_some, hops]
      · simpa only [entriesImported, heq] using hn'
  | .hit id :: ops, n, s, h, hn => by
    obtain ⟨_, s₁, heq, h₁, hn₁⟩ := Exec.wp_returns_ok (hit_population h hn id)
    obtain ⟨s', hops, h', hn'⟩ := runOps_population hw ops h₁ hn₁
    refine ⟨s', ?_, h', ?_⟩
    · simp only [runOps, opResult, heq, Option.map_some, hops]
    · simpa only [entriesImported, heq] using hn'

/-! ## The scalar store -/

/-- Live rows are tracked keys, and there are as many. -/
theorem Indexed.count_live {s : σ × World B E} (h : Indexed env e m [] s) :
    s.2.s.count 0 false = (e.cls.cache s.1).data.len := by
  have hperm : (s.2.s.getIds false).Perm (e.cls.cache s.1).data.keys := by
    have hnodup := (SQLStorage.getIds_ascending h.consistent.paired.wellFormed false).imp fun hlt => Nat.ne_of_lt hlt
    refine (List.perm_ext_iff_of_nodup hnodup (Dict.nodup_keys _)).mpr fun id => ?_
    rw [h.tracked.live, Dict.mem_keys]
  rw [← Dict.length_keys, ← hperm.length_eq]
  simp [SQLStorage.count, SQLStorage.getIds]

/-- How many entries a process imports over the stores `w`. -/
def Process.entriesImported (α : Type) (env : Env B E S) (fuel : Nat) (p : Process B E) (w : World B E) : Nat :=
  let e : MemoryCacheEviction (p.policy.State Nat α) Nat α (World B E) :=
    MemoryCacheEviction.ofPolicy p.draws p.policy p.cleanSize (World.clear env)
  match init env e fuel (e.cls.new p.maxSize fun _ => 1, w) with
  | some (.ok (), s) => SSDataManager.entriesImported env e fuel s p.ops
  | _ => 0

/-- **The population law.** A process over empty stores that do not fail has
got to anywhere between two calls. The live rows are as many as the law says
of the entries imported so far, and no more than the capacity. -/
theorem population_law (env : Env B E S) (hf : ∀ n, env.fails n = false) (objects : Bool) (fuel : Nat) (p : Process B E)
    (hsound : p.Sound) (hfuel : p.maxSize < fuel) :
    ∃ (mgr : Manager B E α) (w' : World B E), p.run env fuel (World.init objects) = some (.ok mgr, w') ∧
      w'.s.count 0 false =
        population p.maxSize p.cleanSize (p.entriesImported α env fuel (World.init objects)) ∧
      w'.s.count 0 false ≤ p.maxSize := by
  let e : MemoryCacheEviction (p.policy.State Nat α) Nat α (World B E) :=
    MemoryCacheEviction.ofPolicy p.draws p.policy p.cleanSize (World.clear env)
  have hw : Wired env e p.maxSize fuel := ⟨hf, rfl, hsound.1, hsound.2, hfuel⟩
  have hnew := (init_consistent env objects).reloaded e p.maxSize
  have hinit : Exec.wp (init env e fuel) (fun _ s => Indexed env e p.maxSize [] s ∧
      (e.cls.cache s.1).data.len = population p.maxSize e.cleanSize 0) (fun _ _ => False)
      (e.cls.new p.maxSize fun _ => 1, World.init objects) := by
    refine wp_init hw.fails (put_population hw rfl List.nodup_nil (hnew 1) ?_)
    simp [Cache.new, population]
  obtain ⟨_, s, hinit, hs, hn⟩ := Exec.wp_returns_ok hinit
  obtain ⟨s', hops, hs', hn'⟩ := runOps_population hw p.ops hs hn
  have hentries : p.entriesImported α env fuel (World.init objects) = entriesImported env e fuel s p.ops := by
    show (match init env e fuel (e.cls.new p.maxSize fun _ => 1, World.init objects) with
      | some (.ok (), s) => entriesImported env e fuel s p.ops
      | _ => 0) = _
    rw [hinit]
  have hlive : s'.2.s.count 0 false =
      population p.maxSize p.cleanSize (p.entriesImported α env fuel (World.init objects)) := by
    rw [hs'.count_live, hn', hentries, Nat.zero_add]
    rfl
  refine ⟨⟨p.policy, e, s'.1⟩, s'.2, ?_, hlive, hlive.trans_le (population_le hsound.1 hsound.2 _)⟩
  have hinit : init env e fuel ((p.policy.cacheClass p.draws Nat α).new p.maxSize fun _ => 1, World.init objects) =
      some (.ok (), s) := hinit
  simp only [Process.run, get_memory p.draws p.policy p.maxSize hsound.1]
  rw [hinit]
  exact congrArg (Option.map _) hops

/-- Two batches and a refused one through an index of three that lets go of two. -/
theorem population_law_six :
    let env : Env Unit ℚ ℚ :=
      { norm := abs, div := (· / ·), float32 := id, download := fun _ => .ok (), path := toString
        fails := fun _ => false, reindexes := false }
    let p : Process Unit ℚ := ⟨.GDSF, 3, 2, id,
      [.importData [.str "a", .str "b"] [.str "x", .str "y"] [1, -2] [none, none],
      .hit 1, .importData [.str "c"] [] [3] [none], .importData [.str "c", .str "d", .str "e", .str "f"]
        [.str "long", .str "u", .str "v", .str "w"] [3, 4, 5, 6] [none, none, none, none]]⟩
    p.entriesImported Unit env 4 (World.init false) = 6 ∧
      ∃ (mgr : Manager Unit ℚ Unit) (w' : World Unit ℚ), p.run env 4 (World.init false) = some (.ok mgr, w') ∧
        w'.s.count 0 false = 2 := by
  intro env p
  have hsix : p.entriesImported Unit env 4 (World.init false) = 6 := by decide +kernel
  obtain ⟨mgr, w', hrun, hlive, -⟩ :=
    population_law (α := Unit) env (fun _ => rfl) false 4 p ⟨by decide, by decide⟩ (by decide)
  rw [hsix] at hlive
  exact ⟨hsix, mgr, w', hrun, hlive.trans (by decide)⟩

end GptCache.SSDataManager
