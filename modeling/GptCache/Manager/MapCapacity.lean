/-
How many entries a `MapDataManager` holds, over processes that open it one
after the other on one file, each with a `max_size` of its own
(gptcache/manager/data_manager.py, `MapDataManager.__init__`, `init`).

The container of the file takes the place of the one made for `max_size`, and
keeps the size it was made for.
-/
import GptCache.Manager.MapSessions

namespace GptCache.MapDataManager

variable {B E : Type} [DecidableEq E]

/-- The maps processes reach on one file, with the `max_size` of the process
that is running. Of every opening `P` holds. -/
inductive Run (P : ℚ → DataFile (LRUCache E (MapItem B E)) → Prop) : ℚ → MapDataManager B E → Prop where
  | first {m : MapDataManager B E} (maxSize : ℚ) (path : String) (permitted : Bool)
      (meets : P maxSize ⟨path, permitted, none⟩) (opened : init maxSize ⟨path, permitted, none⟩ = .ok m) :
        Run P maxSize m
  | call {maxSize : ℚ} {m : MapDataManager B E} (c : Call B E) (before : Run P maxSize m) :
      Run P maxSize (c.run.after m)
  | flush {maxSize : ℚ} {m : MapDataManager B E} (before : Run P maxSize m) :
      Run P maxSize ((MapDataManager.flush : Exec PyError (MapDataManager B E) Unit).after m)
  | next {last : ℚ} {m m' : MapDataManager B E} (maxSize : ℚ) (before : Run P last m) (meets : P maxSize m.2)
      (opened : init maxSize m.2 = .ok m') : Run P maxSize m'

/-- A process may hold as much as the container it finds. -/
def FileFits (maxSize : ℚ) (file : DataFile (LRUCache E (MapItem B E))) : Prop :=
  0 ≤ maxSize ∧ ∀ data ∈ file.content, data.base.maxsize ≤ maxSize

/-- No container holds more than it was made for. -/
structure Sound (s : LRUCache E (MapItem B E)) : Prop where
  inv : (LRUCache.cacheClass E (MapItem B E)).Inv s
  unit : ∀ item, s.base.getsizeof item = 1
  fits : (s.base.data.len : ℚ) ≤ s.base.maxsize

theorem Sound.of_same {s s' : LRUCache E (MapItem B E)} (h : Sound s)
    (hinv : (LRUCache.cacheClass E (MapItem B E)).Inv s')
    (hbase : s'.base.getsizeof = s.base.getsizeof ∧ s'.base.maxsize = s.base.maxsize)
    (hlen : s'.base.data.len ≤ s.base.data.len) :
    Sound s' where
  inv := hinv
  unit item := by rw [hbase.1, h.unit]
  fits := by
    rw [hbase.2]
    exact le_trans (by exact_mod_cast hlen) h.fits

theorem sound_new {maxSize : ℚ} (h : 0 ≤ maxSize) : Sound (.new maxSize : LRUCache E (MapItem B E)) where
  inv := (LRUCache.cacheClass E (MapItem B E)).new_inv _ _
  unit _ := rfl
  fits := by
    show ((0 : Nat) : ℚ) ≤ maxSize
    exact_mod_cast h

/-- Taking an entry out makes room. -/
theorem Sound.popitem {m : MapDataManager B E} (h : Sound m.1) (hlen : 0 < m.1.base.data.len)
    {X : PyError → MapDataManager B E → Prop} :
    Exec.wp (LRUCache.cacheClass E (MapItem B E)).popitemSelf
      (fun _ m' => Sound m'.1 ∧ m'.1.base.maxsize = m.1.base.maxsize ∧
      m'.2 = m.2 ∧ m'.1.base.data.len < m.1.base.data.len) X m := by
  refine Exec.wp_mono ((LRUCache.cacheClass E (MapItem B E)).wp_popitemSelf h.inv hlen) ?_ fun _ _ he => he
  rintro - _ rfl
  obtain ⟨k, item, hk, -, hinv, hcache⟩ := (LRUCache.cacheClass E (MapItem B E)).popitem_some h.inv hlen
  have hbase : ((LRUCache.cacheClass E (MapItem B E)).popitem m.1).2.base = m.1.base.pop k := hcache
  have herase : (m.1.base.data.erase k).len + 1 = m.1.base.data.len :=
    Dict.len_erase_add_one (Dict.contains_eq_true.mpr ⟨item, hk⟩)
  refine ⟨h.of_same hinv ?_ ?_, ?_, rfl, ?_⟩ <;> simp only [hbase, Cache.pop_data,
    Cache.pop_getsizeof, Cache.pop_maxsize, and_self]
  · omega
  · omega

/-- `self.data[k] = item` keeps a container within what it was made for. -/
theorem Sound.setitem {m : MapDataManager B E} (h : Sound m.1) (k : E) (item : MapItem B E) :
    Exec.wp (LRUCache.setitem k item) (fun _ m' => Sound m'.1 ∧ m'.1.base.maxsize = m.1.base.maxsize ∧ m'.2 = m.2)
      (fun _ m' => Sound m'.1 ∧ m'.1.base.maxsize = m.1.base.maxsize ∧ m'.2 = m.2) m := by
  let J : MapDataManager B E → Prop := fun m' => Sound m'.1 ∧ m'.1.base.maxsize = m.1.base.maxsize ∧ m'.2 = m.2
  refine Exec.wp_mono ((LRUCache.cacheClass E (MapItem B E)).wp_setitem (J := J)
    (m := m.1.base.maxsize) (g := fun _ => 1)
    (k := k) (v := item) ?_ ?_ (fun _ => ⟨h, rfl, rfl⟩) ⟨h, rfl, rfl⟩ (Nat.lt_succ_self _))
    ?_ fun _ _ he => he
  · exact fun m' hm' => ⟨hm'.2.1, funext hm'.1.unit⟩
  · intro m' hm' _ hlen
    refine Exec.wp_mono (hm'.1.popitem hlen) (fun _ m'' h'' => ?_) fun _ _ he => he
    exact ⟨⟨h''.1, h''.2.1.trans hm'.2.1, h''.2.2.1.trans hm'.2.2⟩, h''.2.2.2⟩
  · rintro - _ ⟨⟨s₁, file⟩, -, ⟨hs₁, hmax, hfile⟩, hroom, rfl⟩
    refine ⟨⟨(LRUCache.cacheClass E (MapItem B E)).store_inv k item hs₁.inv, hs₁.unit, ?_⟩, hmax, hfile⟩
    show ((s₁.base.data.set k item).len : ℚ) ≤ s₁.base.maxsize
    cases hc : s₁.base.data.contains k with
    | true =>
      rw [Dict.len_set_of_mem hc]
      exact hs₁.fits
    | false =>
      rw [Dict.len_set_of_not_mem hc]
      split at hroom
      · have hover : s₁.base.overflows 1 = false := hroom
        simp only [Cache.overflows, Cache.currsize_of_unit hs₁.unit, decide_eq_false_iff_not, not_lt] at hover
        exact_mod_cast hover
      · rename_i hneeds
        cases hroom
        -- Only a key that is there needs no room.
        have hnone := Dict.contains_eq_false.mp hc
        have hbase : (LRUCache.cacheClass E (MapItem B E)).cache s₁ = s₁.base := rfl
        simp [hbase, Cache.needsRoom, hnone] at hneeds

/-- The container of a process, and the one in the file. -/
def Fitting (maxSize : ℚ) (m : MapDataManager B E) : Prop :=
  (Sound m.1 ∧ m.1.base.maxsize ≤ maxSize) ∧ ∀ data ∈ m.2.content, Sound data

theorem Fitting.setitem {maxSize : ℚ} (k : E) (item : MapItem B E) :
    Exec.Within (Exec.Carries (Fitting maxSize))
      (LRUCache.setitem k item : Exec PyError (MapDataManager B E) Unit) := by
  refine Exec.Within.carries fun m hm => ?_
  have hkeep : ∀ m' : MapDataManager B E, Sound m'.1 ∧ m'.1.base.maxsize = m.1.base.maxsize ∧ m'.2 = m.2 →
      Fitting maxSize m' :=
    fun m' h => ⟨⟨h.1, h.2.1 ▸ hm.1.2⟩, h.2.2 ▸ hm.2⟩
  exact Exec.wp_mono (hm.1.1.setitem k item) (fun _ m' h => hkeep m' h) fun _ m' h => hkeep m' h

theorem Fitting.call {maxSize : ℚ} : ∀ c : Call B E, Exec.Within (Exec.Carries (Fitting maxSize)) c.run
  | .save question answer embeddingData session => .bind (Fitting.setitem _ _) fun _ => .pure _
  | .importData questions answers embeddingDatas sessionIds =>
    .bind (.ite (.raise _) (.forEach (fun _ => Fitting.setitem _ _) _)) fun _ => .pure _
  | .search embeddingData => by
    refine .total fun m hm => ?_
    cases hget : m.1.base.data.get? embeddingData with
    | none =>
      have hmiss : m.1.getitem embeddingData = (none, m.1) :=
        (LRUCache.cacheClass E (MapItem B E)).getitem_miss hm.1.1.inv hget
      rw [hmiss]
      exact hm
    | some item =>
      obtain ⟨-, hinv, hcache⟩ := (LRUCache.cacheClass E (MapItem B E)).getitem_hit hm.1.1.inv hget
      have hbase : (m.1.getitem embeddingData).2.base = m.1.base.read embeddingData := hcache
      refine ⟨⟨hm.1.1.of_same hinv ?_ ?_, ?_⟩, hm.2⟩
      · rw [hbase]
        exact ⟨rfl, rfl⟩
      · rw [hbase]
        exact Nat.le_refl _
      · rw [hbase]
        exact hm.1.2

theorem Run.fitting {maxSize : ℚ} {m : MapDataManager B E} (h : Run FileFits maxSize m) : Fitting maxSize m := by
  induction h with
  | first maxSize path permitted meets opened =>
    cases opened
    exact ⟨⟨sound_new meets.1, le_refl _⟩, fun data hdata => by cases hdata⟩
  | call c _ ih => exact (Fitting.call c).after _ ih
  | @flush maxSize m _ ih =>
    have hflush : Exec.Within (Exec.Carries (Fitting maxSize))
        (MapDataManager.flush : Exec PyError (MapDataManager B E) Unit) := by
      refine .modify fun m hm => ?_
      by_cases hp : m.2.permitted = true
      · rw [if_pos hp]
        exact ⟨hm.1, fun data hdata => Option.some.inj hdata ▸ hm.1.1⟩
      · rw [if_neg hp]
        exact hm
    exact hflush.after m ih
  | @next last m m' maxSize _ meets opened ih =>
    unfold init at opened
    split at opened
    · cases opened
      exact ⟨⟨sound_new meets.1, le_refl _⟩, ih.2⟩
    · rename_i data hdata
      split at opened
      · cases opened
        exact ⟨⟨ih.2 data hdata, meets.2 data hdata⟩, ih.2⟩
      · cases opened

/-- Where every process may hold as much as the container it finds, each holds
at most its own `max_size`. -/
theorem Run.held_le_maxSize {maxSize : ℚ} {m : MapDataManager B E} (h : Run FileFits maxSize m) :
    (m.1.base.data.len : ℚ) ≤ maxSize :=
  le_trans h.fitting.1.1.fits h.fitting.1.2

def saved (prompt : String) : Call Unit String := .save (.plain (.str prompt)) (.answers (.str "a")) prompt none

/-- Two entries in a container for two. -/
def twoSaved : MapDataManager Unit String :=
  (saved "y").run.after ((saved "x").run.after (.new 2, ⟨"data_map.txt", true, none⟩))

theorem twoSaved_flush : (MapDataManager.flush : Exec PyError (MapDataManager Unit String) Unit).after twoSaved =
    (twoSaved.1, { twoSaved.2 with content := some twoSaved.1 }) := by
  have hpermitted : twoSaved.2.permitted = true := by decide +kernel
  simp only [Exec.after, MapDataManager.flush, Exec.modify, hpermitted, if_true]

/-- Whatever its `max_size`, a process that opens the file has the container of the one before. -/
theorem twoSaved_reopened (maxSize : ℚ) :
    init maxSize ((MapDataManager.flush : Exec PyError (MapDataManager Unit String) Unit).after twoSaved).2 =
      .ok (twoSaved.1, { twoSaved.2 with content := some twoSaved.1 }) := by
  have hpermitted : twoSaved.2.permitted = true := by decide +kernel
  simp only [twoSaved_flush, init, hpermitted, if_true]

/-- A process with the `max_size` 3 opens it and saves a third entry. -/
def reopened : MapDataManager Unit String :=
  (saved "z").run.after (twoSaved.1, { twoSaved.2 with content := some twoSaved.1 })

theorem reopened_held : (reopened.1.base.data.len : ℚ) ≤ 3 := by
  have hopens : FileFits 2 (⟨"data_map.txt", true, none⟩ : DataFile (LRUCache String (MapItem Unit String))) :=
    ⟨by decide, fun data hdata => by cases hdata⟩
  have hmaxsize : twoSaved.1.base.maxsize ≤ 3 := by decide +kernel
  have hfits : FileFits 3
      ((MapDataManager.flush : Exec PyError (MapDataManager Unit String) Unit).after twoSaved).2 := by
    rw [twoSaved_flush]
    exact ⟨by decide, fun data hdata => Option.some.inj hdata ▸ hmaxsize⟩
  exact Run.held_le_maxSize (.call (saved "z")
    (.next 3 (.flush (.call _ (.call _ (.first 2 "data_map.txt" true hopens rfl)))) hfits (twoSaved_reopened 3)))

/-- A process with the `max_size` 1 that opens the file of one with 2 holds both of its entries. -/
theorem reopened_holds_more :
    ∃ m : MapDataManager Unit String, Run (fun _ _ => True) 1 m ∧ (1 : ℚ) < m.1.base.data.len := by
  have hrun : Run (fun _ _ => True) 2 twoSaved := .call _ (.call _ (.first 2 "data_map.txt" true trivial rfl))
  exact ⟨_, .next 1 (.flush hrun) trivial (twoSaved_reopened 1), by decide +kernel⟩

end GptCache.MapDataManager
