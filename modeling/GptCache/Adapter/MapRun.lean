/-
Runs of `put` and `get` over a chain of `n` map caches, from fresh ones.

`run` makes the calls through the API; `chainRun` is the same run on the maps
alone, and `run_refines` joins the two: every run returns, whatever is called,
and its `get`s answer what `chainRun` says. With one cache this is a
least-recently-used map (`lru_map`). With more, a `put` only ever reaches the
last cache and a `get` only ever answers from the first, so `round_trips_iff`.
-/
import Mathlib.Data.List.Dedup
import GptCache.Adapter.MapChain
import GptCache.Lib.LruRequests

namespace GptCache.Api

/-- A call of the API on a chain of `n` caches. A `get` is made on the first
cache; a `put`, always of a non-empty answer, on any. -/
inductive Call (n : Nat) where
  | put (place : Fin n) (prompt answer : String) (nonempty : answer ≠ "")
  | get (prompt : String)

variable {B X : Type} [DecidableEq B] (rt : Runtime B X) {n : Nat}

/-- The answers of the `get`s. -/
def run : List (Call n) → Exec PyError (MapCaches B X) (List (Option (Data B)))
  | [] => pure []
  | .put place p a _ :: calls => do
    put rt place (mapCache rt) (List.replicate (n - 1 - place) (mapCache rt)) p (.answers (.str a))
      (cacheObj place)
    run calls
  | .get p :: calls => do
    let v ← get rt 0 (mapCache rt) (List.replicate (n - 1) (mapCache rt)) p (cacheObj 0)
    let vs ← run calls
    pure (v :: vs)

/-- Caches just initialised, each with a `max_size` of its own; no file has been dumped yet. -/
def fresh (sizes : Nat → Nat) (path : Nat → String) (permitted : Nat → Bool) (outside : X) : MapCaches B X where
  levels i := ⟨(.new (sizes i), ⟨path i, permitted i, none⟩), {}⟩
  outside := outside

/-- The answers as the data they were put as. -/
def asData (vs : List (Option String)) : List (Option (Data B)) := vs.map (·.map fun a => .answers (.str a))

/-! ## The run on the maps -/

/-- The caches of a chain of `n`, as far as the run has come. -/
def chainRun : List (Call n) → (Nat → LruMap String String) → List (Option String)
  | [], _ => []
  | .put place p a _ :: calls, ms => chainRun calls (chainPut p a (n - 1 - place) place ms)
  | .get p :: calls, ms => (chainGet p (n - 1) 0 ms).1 :: chainRun calls (chainGet p (n - 1) 0 ms).2

/-- **Every run returns, and answers as the maps do.** -/
theorem run_refines : ∀ (calls : List (Call n)) {ms : Nat → LruMap String String} {s : MapCaches B X},
    Held s ms → Exec.wp (run rt calls) (fun vs _ => vs = asData (chainRun calls ms)) (fun _ _ => False) s
  | [], _, _, _ => rfl
  | .put place p a ha :: calls, ms, s, hs => by
    simp only [run, Exec.wp_bind]
    exact Exec.wp_mono (put_text rt ha _ hs) (fun _ _ hs' => run_refines calls hs') fun _ _ h => h
  | .get p :: calls, ms, s, hs => by
    simp only [run, Exec.wp_bind, Exec.wp_pure]
    refine Exec.wp_mono (get_text rt _ hs) ?_ fun _ _ h => h
    rintro _ s' ⟨rfl, hs'⟩
    refine Exec.wp_mono (run_refines calls hs') ?_ fun _ _ h => h
    rintro _ _ rfl
    rfl

/-- The run from fresh caches, by what it answers. -/
theorem run_fresh (sizes : Nat → Nat) (hsizes : ∀ i, 0 < sizes i) (path : Nat → String) (permitted : Nat → Bool)
    (outside : X) (calls : List (Call n)) : ∃ s' : MapCaches B X,
    run rt calls (fresh sizes path permitted outside) =
      some (.ok (asData (chainRun calls fun i => .empty (sizes i) (hsizes i))), s') := by
  have hheld : Held (fresh sizes path permitted outside : MapCaches B X) fun i => .empty (sizes i) (hsizes i) :=
    fun i => MapDataManager.holds_new (hsizes i) _
  obtain ⟨vs, s', hrun, rfl⟩ := Exec.wp_returns_ok (run_refines rt calls hheld)
  exact ⟨s', hrun⟩

/-! ## One cache -/

/-- The answers of a least-recently-used map to the same calls. -/
def lruRun : List (Call n) → LruMap String String → List (Option String)
  | [], _ => []
  | .put _ p a _ :: calls, m => lruRun calls (m.put p a)
  | .get p :: calls, m => (m.get p).1 :: lruRun calls (m.get p).2

theorem chainRun_one : ∀ (calls : List (Call 1)) (ms : Nat → LruMap String String),
    chainRun calls ms = lruRun calls (ms 0)
  | [], _ => rfl
  | .put place p a ha :: calls, ms => by
    have hplace : (place : Nat) = 0 := by omega
    simp only [chainRun, lruRun, chainPut, hplace, chainRun_one calls]
    simp
  | .get p :: calls, ms => by
    simp only [chainRun, lruRun, chainRun_one calls]
    simp [chainGet]

/-- Nothing outside of the caches: no object is true, drawn, summarized or called. -/
def quiet : Runtime Unit Unit where
  truthy _ := false
  str _ := ""
  len _ := .error ⟨.TypeError, ""⟩
  box _ := ()
  draw _ := pure 0
  summarize text _ := pure text
  callback _ := none

/-- **The API over a map data manager is a least-recently-used map.** Whatever
is put and got on one cache, every `get` answers what a map of capacity
`max_size` does in which `put` and a successful `get` make a prompt the most
recent. -/
theorem lru_map {maxSize : Nat} (h : 0 < maxSize) (path : String) (permitted : Bool) (outside : X)
    (calls : List (Call 1)) : ∃ s' : MapCaches B X,
    run rt calls (fresh (fun _ => maxSize) (fun _ => path) (fun _ => permitted) outside) =
      some (.ok (asData (lruRun calls (.empty maxSize h))), s') := by
  obtain ⟨s', hrun⟩ := run_fresh rt (fun _ => maxSize) (fun _ => h) (fun _ => path) (fun _ => permitted) outside calls
  exact ⟨s', by rw [hrun, chainRun_one]⟩

/-- The calls of a full map: the third prompt takes the place of the second, which nobody asked for. -/
def threePrompts : List (Call 1) :=
  [.put 0 "p" "a" (by decide), .put 0 "q" "b" (by decide), .get "p", .put 0 "r" "c" (by decide),
    .get "q", .get "p"]

theorem lru_map_two : ∃ s' : MapCaches Unit Unit,
    run quiet threePrompts (fresh (fun _ => 2) (fun _ => "data_map.txt") (fun _ => true) ()) =
      some (.ok [some (.answers (.str "a")), none, some (.answers (.str "a"))], s') := by
  have hlru : asData (lruRun threePrompts (.empty 2 (by decide))) =
      [some (.answers (.str "a")), none, (some (.answers (.str "a")) : Option (Data Unit))] := by
    decide +kernel
  rw [← hlru]
  exact lru_map quiet (by decide) "data_map.txt" true () threePrompts

/-- A larger map answers whatever a smaller one does. -/
theorem lruRun_larger : ∀ (calls : List (Call n)) {m m' : LruMap String String}, m.Below m' →
    List.Forall₂ (fun v v' => ∀ a, v = some a → v' = some a) (lruRun calls m) (lruRun calls m')
  | [], _, _, _ => .nil
  | .put _ p a _ :: calls, _, _, h => lruRun_larger calls (h.put p a)
  | .get p :: calls, m, m', h => by
    refine .cons (fun a ha => ?_) (lruRun_larger calls (h.get p))
    rw [LruMap.get_fst] at ha ⊢
    exact h.get? ha

/-- **A larger cache forgets nothing that a smaller one knows**: whatever is put
and got, where a `get` finds an answer it finds the same with a larger `max_size`. -/
theorem larger_map_answers {maxSize maxSize' : Nat} (h : 0 < maxSize) (hle : maxSize ≤ maxSize') (path : Nat → String)
    (permitted : Nat → Bool) (outside : X) (calls : List (Call 1)) :
    ∃ vs vs' : List (Option (Data B)), ∃ s s' : MapCaches B X,
      run rt calls (fresh (fun _ => maxSize) path permitted outside) = some (.ok vs, s) ∧
      run rt calls (fresh (fun _ => maxSize') path permitted outside) = some (.ok vs', s') ∧
      List.Forall₂ (fun v v' => ∀ data, v = some data → v' = some data) vs vs' := by
  have h' : 0 < maxSize' := by omega
  obtain ⟨s, hrun⟩ := run_fresh rt (fun _ => maxSize) (fun _ => h) path permitted outside calls
  obtain ⟨s', hrun'⟩ := run_fresh rt (fun _ => maxSize') (fun _ => h') path permitted outside calls
  refine ⟨_, _, s, s', hrun, hrun', ?_⟩
  rw [chainRun_one, chainRun_one, asData, asData, List.forall₂_map_left_iff, List.forall₂_map_right_iff]
  refine (lruRun_larger calls (LruMap.below_empty h h' hle)).imp fun v v' hv data hdata => ?_
  obtain ⟨a, rfl, rfl⟩ := Option.map_eq_some_iff.mp hdata
  rw [hv a rfl, Option.map_some]

theorem larger_map_answers_two : ∃ vs vs' : List (Option (Data Unit)), ∃ s s' : MapCaches Unit Unit,
    run quiet threePrompts (fresh (fun _ => 2) (fun _ => "data_map.txt") (fun _ => true) ()) = some (.ok vs, s) ∧
    run quiet threePrompts (fresh (fun _ => 3) (fun _ => "data_map.txt") (fun _ => true) ()) = some (.ok vs', s') ∧
    List.Forall₂ (fun v v' => ∀ data, v = some data → v' = some data) vs vs' :=
  larger_map_answers quiet (by decide) (by decide) (fun _ => "data_map.txt") (fun _ => true) () threePrompts

/-! ## Many caches -/

/-- The prompts that are put, wherever. -/
def putPrompts (calls : List (Call n)) : List String :=
  calls.filterMap fun
    | .put _ p _ _ => some p
    | .get _ => none

/-- What is known of each prompt: the first cache of the chain it was put on,
and the last answer put there. -/
def remember (known : String → Option (Nat × String)) (place : Nat) (p a : String) :
    String → Option (Nat × String) := fun q =>
  if q = p then
    match known p with
    | none => some (place, a)
    | some (first, b) => if first < place then some (first, b) else some (place, a)
  else known q

/-- What the `get`s are to answer: what was last put on the first cache, and
what was put only on a later cache all the same. -/
def expected : (String → Option (Nat × String)) → List (Call n) → List (Option String)
  | _, [] => []
  | known, .put place p a _ :: calls => expected (remember known place p a) calls
  | known, .get p :: calls => (known p).map Prod.snd :: expected known calls

/-- The chain round-trips: every call returns, and the `get`s answer what was put. -/
def RoundTrips (sizes : Nat → Nat) (path : Nat → String) (permitted : Nat → Bool) (outside : X)
    (calls : List (Call n)) : Prop :=
  ∃ s' : MapCaches B X, run rt calls (fresh sizes path permitted outside) =
    some (.ok (asData (expected (fun _ => none) calls)), s')

/-- No prompt is asked for after it was put, nor one of `seen`. -/
def NoneAskedFor (seen : List String) : List (Call n) → Prop
  | [] => True
  | .put _ p _ _ :: calls => NoneAskedFor (p :: seen) calls
  | .get p :: calls => p ∉ seen ∧ NoneAskedFor seen calls

instance decidableNoneAskedFor : ∀ (seen : List String) (calls : List (Call n)), Decidable (NoneAskedFor seen calls)
  | _, [] => .isTrue trivial
  | seen, .put _ p _ _ :: calls => decidableNoneAskedFor (p :: seen) calls
  | seen, .get _ :: calls => @instDecidableAnd _ _ _ (decidableNoneAskedFor seen calls)

/-- Every `get` answers nothing. -/
def misses : List (Call n) → List (Option String)
  | [] => []
  | .put .. :: calls => misses calls
  | .get _ :: calls => none :: misses calls

theorem expected_eq_misses : ∀ (calls : List (Call n)) {known : String → Option (Nat × String)} (seen : List String),
    (∀ p, known p = none ↔ p ∉ seen) → (expected known calls = misses calls ↔ NoneAskedFor seen calls)
  | [], _, _, _ => by simp [expected, misses, NoneAskedFor]
  | .put place p a ha :: calls, known, seen, h => by
    simp only [expected, misses, NoneAskedFor]
    refine expected_eq_misses calls (p :: seen) fun q => ?_
    by_cases hq : q = p
    · subst hq
      simp only [remember, if_true, List.mem_cons, true_or, not_true_eq_false, iff_false]
      split
      · simp
      · split <;> simp
    · simp [remember, hq, h]
  | .get p :: calls, known, seen, h => by
    simp only [expected, misses, NoneAskedFor, List.cons.injEq, Option.map_eq_none_iff, h,
      expected_eq_misses calls seen h]

/-- With room for every prompt, the map of a single cache knows what was put. -/
theorem lruRun_eq_expected : ∀ (calls : List (Call 1)) {m : LruMap String String}
    {known : String → Option (Nat × String)} (ks : List String), ks.length ≤ m.capacity →
    (∀ p, m.entries.get? p = (known p).map Prod.snd) → (∀ p, m.entries.contains p = true → p ∈ ks) →
    (∀ p ∈ putPrompts calls, p ∈ ks) → lruRun calls m = expected known calls
  | [], _, _, _, _, _, _, _ => rfl
  | .put place p a ha :: calls, m, known, ks, hcap, hknown, hheld, hks => by
    have hp : p ∈ ks := hks p (by simp [putPrompts])
    have hroom : m.entries.contains p = true ∨ m.entries.len < m.capacity := by
      by_contra hno
      simp only [not_or, Bool.not_eq_true] at hno
      have hle : m.entries.len ≤ (ks.erase p).length := LruMap.held_le fun q hq => by
        refine (List.mem_erase_of_ne ?_).mpr (hheld q hq)
        rintro rfl
        simp [hno.1] at hq
      rw [List.length_erase_of_mem hp] at hle
      have := List.length_pos_of_mem hp
      omega
    have hget := LruMap.get?_put_of_room hroom a
    simp only [lruRun, expected]
    refine lruRun_eq_expected calls (m := m.put p a) ks hcap (fun q => ?_) (fun q hq => ?_)
      fun q hq => hks q ?_
    · rw [hget]
      by_cases hq : q = p
      · subst hq
        rcases hk : known q with _ | ⟨first, b⟩ <;> simp [remember, hk]
      · simp [remember, hq, hknown]
    · by_cases hqp : q = p
      · exact hqp ▸ hp
      · refine hheld q ?_
        simpa [Dict.contains, hget, hqp] using hq
    · simp only [putPrompts, List.filterMap_cons, List.mem_cons] at hq ⊢
      exact .inr hq
  | .get p :: calls, m, known, ks, hcap, hknown, hheld, hks => by
    simp only [lruRun, expected, LruMap.get_fst, hknown p]
    congr 1
    refine lruRun_eq_expected calls ks (by rwa [LruMap.get_capacity]) (fun q => ?_) (fun q hq => ?_)
      fun q hq => hks q hq
    · rw [LruMap.get?_get, hknown]
    · refine hheld q ?_
      simpa [Dict.contains, LruMap.get?_get] using hq

/-- A `get` touches no cache before the one it is made on. -/
theorem chainGet_above (p : String) {ms : Nat → LruMap String String} {i : Nat} :
    ∀ (nexts : Nat) {place : Nat}, i < place → (chainGet p nexts place ms).2 i = ms i
  | 0, place, hi => Function.update_of_ne (by omega) ..
  | nexts + 1, place, hi => by
    simp only [chainGet]
    split
    · exact Function.update_of_ne (by omega) ..
    · exact chainGet_above p nexts (by omega)

/-- A chain of two caches or more never puts anything into the first, so it never answers. -/
theorem chainRun_misses (hn : 1 < n) : ∀ (calls : List (Call n)) {ms : Nat → LruMap String String},
    (∀ p, (ms 0).entries.get? p = none) → chainRun calls ms = misses calls
  | [], _, _ => rfl
  | .put place p a ha :: calls, ms, hempty => by
    have hlast : (0 : Nat) ≠ place + (n - 1 - place) := by omega
    refine chainRun_misses hn calls fun q => ?_
    rw [chainPut, Function.update_of_ne hlast]
    exact hempty q
  | .get p :: calls, ms, hempty => by
    obtain ⟨nexts, hnexts⟩ : ∃ nexts, n - 1 = nexts + 1 := ⟨n - 2, by omega⟩
    simp only [chainRun, misses, hnexts, chainGet, hempty p]
    congr 1
    refine chainRun_misses hn calls fun q => ?_
    rw [chainGet_above p nexts (by omega)]
    exact hempty q

omit [DecidableEq B] in
theorem asData_injective : Function.Injective (asData : List (Option String) → List (Option (Data B))) :=
  List.map_injective_iff.mpr (Option.map_injective fun _ _ h => by injection h with h; injection h)

/-- **A chain round-trips exactly when it is one cache, or nothing that was put
is asked for.** The callbacks of `put` and `get` return nothing, so a cache with
another behind it neither saves what is put nor answers what is found there. -/
theorem round_trips_iff (hn : 0 < n) {sizes : Nat → Nat} (hsizes : ∀ i, 0 < sizes i) (path : Nat → String)
    (permitted : Nat → Bool) (outside : X) (calls : List (Call n))
    (hroom : ∀ i, (putPrompts calls).dedup.length ≤ sizes i) :
    RoundTrips rt sizes path permitted outside calls ↔ n = 1 ∨ NoneAskedFor [] calls := by
  obtain ⟨s', hrun⟩ := run_fresh rt sizes hsizes path permitted outside calls
  have hiff : RoundTrips rt sizes path permitted outside calls ↔
      chainRun calls (fun i => .empty (sizes i) (hsizes i)) = expected (fun _ => none) calls := by
    simp only [RoundTrips, hrun, Option.some.injEq, Prod.mk.injEq, Except.ok.injEq, asData_injective.eq_iff,
      exists_and_left, exists_eq', and_true]
  rw [hiff]
  rcases Nat.lt_or_ge 1 n with hmany | hone
  · have hne : n ≠ 1 := by omega
    rw [chainRun_misses hmany calls fun p => rfl, eq_comm, expected_eq_misses calls [] (by simp)]
    simp only [hne, false_or]
  · obtain rfl : n = 1 := by omega
    simp only [true_or, iff_true, chainRun_one]
    refine lruRun_eq_expected calls (putPrompts calls).dedup (hroom 0) (fun p => rfl) (fun p hp => ?_)
      fun p hp => List.mem_dedup.mpr hp
    simp [Dict.contains] at hp

/-- A prompt put on the first cache of two and asked for. -/
def putThenGet (place : Fin n) : List (Call n) := [.put place "p" "a" (by decide), .get "p"]

theorem round_trips_iff_two :
    RoundTrips quiet (fun _ => 4) (fun _ => "data_map.txt") (fun _ => true) () (putThenGet (0 : Fin 1)) ∧
      RoundTrips quiet (fun _ => 4) (fun _ => "data_map.txt") (fun _ => true) ()
        ([.put 0 "p" "a" (by decide), .get "q"] : List (Call 2)) :=
  ⟨(round_trips_iff quiet (by decide) (fun _ => by decide) _ _ _ _ fun _ => by decide).mpr (.inl rfl),
    (round_trips_iff quiet (by decide) (fun _ => by decide) _ _ _ _ fun _ => by decide).mpr (.inr (by decide))⟩

/-- Neither what is put on the first cache of two nor what is put on the second is answered by the first. -/
theorem second_cache_lost :
    ¬ RoundTrips quiet (fun _ => 4) (fun _ => "data_map.txt") (fun _ => true) () (putThenGet (0 : Fin 2)) ∧
      ¬ RoundTrips quiet (fun _ => 4) (fun _ => "data_map.txt") (fun _ => true) () (putThenGet (1 : Fin 2)) := by
  have hlost : ∀ place : Fin 2,
      ¬ RoundTrips quiet (fun _ => 4) (fun _ => "data_map.txt") (fun _ => true) () (putThenGet place) := by
    rintro place ⟨s', hwants⟩
    obtain ⟨s'', hdoes⟩ := run_fresh quiet (fun _ => 4) (fun _ => by decide) (fun _ => "data_map.txt")
      (fun _ => true) () (putThenGet place)
    rw [hdoes] at hwants
    have hnone : chainRun (putThenGet place) (fun _ => .empty 4 (by decide)) = [none] :=
      chainRun_misses (by decide) _ fun _ => rfl
    rw [hnone] at hwants
    simp [putThenGet, expected, remember, asData] at hwants
  exact ⟨hlost 0, hlost 1⟩

end GptCache.Api
