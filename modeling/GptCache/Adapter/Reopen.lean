/-
Processes that open a `MapDataManager` on one file, one after the other, each
with a model behind its cache.

The map is written to the file after every `auto_flush`-th save, so a process
that ends loses what came after the last of these: the prompts of fewer than
`auto_flush` calls of the model (`process_durable`). Else nothing shows: the
cache of a new process asks the model what one process would have asked that
had been there all the time, and had never seen what was lost (`reopened_asks`).
-/
import GptCache.Adapter.ModelCalls

namespace GptCache.Api

variable {B X L : Type} [DecidableEq B]

/-- A new process on the file of the first cache: its container, and a report that has counted nothing. -/
def reopen (maxSize : ℚ) (s : MapCaches B X) : MapCaches B X :=
  match MapDataManager.init maxSize (s.levels 0).data.2 with
  | .ok d => ⟨fun _ => ⟨d, {}⟩, s.outside⟩
  | .error _ => s

/-- Processes one after the other, each with its requests. -/
def runProcesses (rt : Runtime B X) (callbacks : Callbacks B (Data B) (MapDataManager B (Content B)) X L)
    (c : MapCore B) (maxSize : ℚ) (s : MapCaches B X) (processes : List (List (Kwargs B))) : MapCaches B X :=
  processes.foldl (fun s requests => runRequests rt callbacks c [] (reopen maxSize s) requests) s

/-- A process on the file of the first cache finds `m` in it. -/
structure Opens (size : Nat) (m : LruMap String String) (s : MapCaches B X) : Prop where
  permitted : (s.levels 0).data.2.permitted = true
  opened : ∃ d, MapDataManager.init size (s.levels 0).data.2 = .ok d ∧ d.2 = (s.levels 0).data.2 ∧
    MapDataManager.HoldsAs answerAs d m

/-- What the file is worth: it holds the map as it was before the requests for `lost`. -/
structure Durable (model : String → String) (size n : Nat) (start : LruMap String String)
    (ps : List String) (rest : Rest B X) :
    Prop where
  saves : rest.saves 0 = (LruMap.missed model start ps).length
  permitted : (rest.file 0).permitted = true
  kept : ∃ kept lost, ps = kept ++ lost ∧ n ∣ (LruMap.missed model start kept).length ∧
    (LruMap.missed model (start.serve model kept) lost).length < n ∧
    ∃ d, MapDataManager.init size (rest.file 0) = .ok d ∧ d.2 = rest.file 0 ∧
      MapDataManager.HoldsAs answerAs d (start.serve model kept)

section

variable {model : String → String} {size n : Nat} {start : LruMap String String} {ps : List String} {p : String}
  {rest rest' : Rest B X}

/-- A request that is answered by the map. -/
theorem Durable.hit (h : Durable model size n start ps rest) (hp : (start.serve model ps).entries.contains p = true) :
    Durable model size n start (ps ++ [p]) rest := by
  obtain ⟨kept, lost, rfl, hdvd, hlost, hfile⟩ := h.kept
  rw [LruMap.serve_append] at hp
  refine ⟨?_, h.permitted, kept, lost ++ [p], List.append_assoc .., hdvd, ?_, hfile⟩
  · rw [h.saves, LruMap.missed_append _ [p], LruMap.serve_append]
    simp [LruMap.missed, hp]
  · rw [LruMap.missed_append]
    simpa [LruMap.missed, hp] using hlost

theorem Durable.withOutside (h : Durable model size n start ps rest) (x : X) :
    Durable model size n start ps { rest with outside := x } :=
  ⟨h.saves, h.permitted, h.kept⟩

/-- A request that is saved, and flushed if it is time. -/
theorem Durable.save (hn : 0 < n) (h : Durable model size n start ps rest)
    (hp : (start.serve model ps).entries.contains p = false)
    (hsaved : Saved answerAs n 0 ((start.serve model ps).put p (model p)) rest rest') :
    Durable model size n start (ps ++ [p]) rest' := by
  have hcount : (LruMap.missed model start (ps ++ [p])).length = rest.saves 0 + 1 := by
    rw [LruMap.missed_append, List.length_append, h.saves]
    simp [LruMap.missed, hp]
  have hsaves : rest'.saves 0 = (LruMap.missed model start (ps ++ [p])).length := by
    rw [hcount, hsaved.saves, Function.update_self]
  by_cases htime : (rest.saves 0 + 1) % n = 0
  · obtain ⟨data, hfile, hdata⟩ := (hsaved.flushed htime).permitted h.permitted
    have hpermitted : (rest'.file 0).permitted = true := by rw [hfile, h.permitted]
    refine ⟨hsaves, hpermitted, ps ++ [p], [], (List.append_nil _).symm, ?_, by simpa [LruMap.missed] using hn,
      (data, rest'.file 0), ?_, rfl, ?_⟩
    · rw [hcount]
      exact Nat.dvd_of_mod_eq_zero htime
    · rw [hfile]
      simp only [MapDataManager.init, h.permitted, if_true]
    · rw [LruMap.serve_append]
      exact hdata
  · have hfile := hsaved.kept htime
    obtain ⟨kept, lost, hps, hdvd, hlost, hopens⟩ := h.kept
    refine ⟨hsaves, hfile ▸ h.permitted, kept, lost ++ [p], by rw [hps, List.append_assoc], hdvd, ?_, hfile ▸ hopens⟩
    have htotal : (LruMap.missed model start kept).length +
        (LruMap.missed model (start.serve model kept) (lost ++ [p])).length = rest.saves 0 + 1 := by
      rw [← hcount, hps, List.append_assoc, LruMap.missed_append kept, List.length_append]
    have hone : (LruMap.missed model (start.serve model kept) (lost ++ [p])).length =
        (LruMap.missed model (start.serve model kept) lost).length + 1 := by
      rw [hps, LruMap.serve_append] at hp
      rw [LruMap.missed_append, List.length_append]
      simp [LruMap.missed, hp]
    -- if `n` prompts were lost, this save would have been flushed
    obtain ⟨k, hk⟩ := hdvd
    have hne : (LruMap.missed model (start.serve model kept) lost).length + 1 ≠ n := by
      intro he
      refine htime ?_
      rw [← htotal, hone, he, hk, Nat.add_mod, Nat.mul_mod_right, Nat.mod_self, Nat.zero_mod]
    omega

end

section

variable (rt : Runtime B X) {llmHandler : Kwargs B → Exec PyError X (Option L)}
  {message : L → Except PyError (Content B)}
  {construct : Content B → L} {falsy : L → Bool} {model : String → String} {sent : X → List String} {size n : Nat}

/-- Requests for `qs`, after those for `ps`. -/
theorem runRequests_durable (hmodel : Answers llmHandler message construct falsy model sent) (hn : 0 < n)
    {start : LruMap String String} {requests : List (Kwargs B)} {qs : List String} (hrequests : Asking requests qs) :
    ∀ {s : MapCaches B X} {rest : Rest B X} {ms : Nat → LruMap String String} {ps : List String},
      HeldAs answerAs s ms rest →
      ms 0 = start.serve model ps → (∀ i, (ms i).Truthful model) → Durable model size n start ps rest →
      Durable model size n start (ps ++ qs) (restOf (runRequests rt (textModel llmHandler message construct falsy)
        (flushedEvery rt n) [] s requests)) := by
  induction hrequests with
  | nil =>
    intro s rest ms ps hs _ _ h
    rw [List.append_nil]
    exact hs.rest ▸ h
  | @cons kwargs p requests qs hbare _ ih =>
    intro s rest ms ps hs hserve htrue h
    rw [runRequests_cons, List.append_cons]
    have hserve' : Function.update ms 0 ((ms 0).put p (model p)) 0 = start.serve model (ps ++ [p]) := by
      rw [Function.update_self, hserve, LruMap.serve_append]
      rfl
    have htrue' : ∀ i, (Function.update ms 0 ((ms 0).put p (model p)) i).Truthful model := by
      intro i
      by_cases hi : i = 0
      · rw [hi, Function.update_self]
        exact (htrue 0).put p
      · rw [Function.update_of_ne hi]
        exact htrue i
    obtain ⟨rest', hs', h'⟩ : ∃ rest', HeldAs answerAs ((adapt rt (textModel llmHandler message construct falsy) 0
        (flushedEvery rt n) [] kwargs).after s) (Function.update ms 0 ((ms 0).put p (model p))) rest' ∧
          Durable model size n start (ps ++ [p]) rest' := by
      refine Exec.after_of_wp (P := fun s' => ∃ rest', HeldAs answerAs s' _ rest' ∧
        Durable model size n start (ps ++ [p]) rest') ?_
      cases hp : (ms 0).entries.contains p with
      | true =>
        refine Exec.wp_mono (adaptLevel_ask_hit rt hmodel hbare hs (htrue 0) hp) (fun _ s' hd => ?_) fun _ _ h => h
        exact ⟨rest, hd.2, h.hit (hserve ▸ hp)⟩
      | false =>
        refine Exec.wp_mono (adaptLevel_ask_last rt hmodel hn hbare hs hp) (fun _ s' hd => ?_) fun _ _ h => h
        obtain ⟨-, x', rest', -, hsaved, hs'⟩ := hd
        rw [hserve] at hp hsaved
        exact ⟨rest', hs', (h.withOutside x').save hn hp hsaved⟩
    exact ih hs' hserve' htrue' h'

/-- **A process loses fewer than `auto_flush` calls of the model**: the next
one finds the map as it was before the requests for `lost`. -/
theorem process_durable (hmodel : Answers llmHandler message construct falsy model sent) (hn : 0 < n)
    {m : LruMap String String} (htrue : m.Truthful model) {s : MapCaches B X} (hs : Opens size m s)
    {requests : List (Kwargs B)} {ps : List String} (hrequests : Asking requests ps) :
    ∃ kept lost, ps = kept ++ lost ∧ (LruMap.missed model (m.serve model kept) lost).length < n ∧
      Opens size (m.serve model kept)
        (runRequests rt (textModel llmHandler message construct falsy) (flushedEvery rt n) []
          (reopen size s) requests) := by
  obtain ⟨d, hinit, hfile, hd⟩ := hs.opened
  have hreopen : reopen size s = ⟨fun _ => ⟨d, {}⟩, s.outside⟩ := by simp only [reopen, hinit]
  have hheld : HeldAs answerAs (reopen size s) (fun _ => m) (restOf (reopen size s)) := by
    rw [hreopen]
    exact ⟨fun _ => hd, rfl⟩
  have hstart : Durable model size n m [] (restOf (reopen size s)) := by
    rw [hreopen]
    have hopen : MapDataManager.init size d.2 = .ok d := by rw [hfile, hinit]
    have hpermitted : d.2.permitted = true := by rw [hfile, hs.permitted]
    exact ⟨rfl, hpermitted, [], [], rfl, dvd_zero n, by simpa [LruMap.missed] using hn, d, hopen, rfl, hd⟩
  have hend := runRequests_durable rt hmodel hn hrequests hheld rfl (fun _ => htrue) hstart
  obtain ⟨kept, lost, hps, -, hlost, hfile⟩ := hend.kept
  exact ⟨kept, lost, hps, hlost, hend.permitted, hfile⟩

theorem Opens.truthful_run (hmodel : Answers llmHandler message construct falsy model sent) (hn : 0 < n)
    {m : LruMap String String} (htrue : m.Truthful model) {s : MapCaches B X} (hs : Opens size m s)
    {requests : List (Kwargs B)} {ps : List String} (hrequests : Asking requests ps) :
    sent (runRequests rt (textModel llmHandler message construct falsy) (flushedEvery rt n) []
      (reopen size s) requests).outside = sent s.outside ++ LruMap.missed model m ps := by
  obtain ⟨d, hinit, -, hd⟩ := hs.opened
  have hreopen : reopen size s = ⟨fun _ => ⟨d, {}⟩, s.outside⟩ := by simp only [reopen, hinit]
  have hheld : HeldAs answerAs (reopen size s) (fun _ => m) (restOf (reopen size s)) := by
    rw [hreopen]
    exact ⟨fun _ => hd, rfl⟩
  have hsent := runRequests_sent rt hmodel hn 0 hrequests hheld fun _ => htrue
  rw [chainSent_one] at hsent
  rw [← show (reopen size s).outside = s.outside by rw [hreopen]]
  exact hsent

/-- Of the requests of each process those of `kepts` are remembered, and the
model was sent fewer than `n` prompts by the others. -/
def LosesFew (rt : Runtime B X) (callbacks : Callbacks B (Data B) (MapDataManager B (Content B)) X L) (c : MapCore B)
    (maxSize : ℚ) (sent : X → List String) (n : Nat) : MapCaches B X → List (List (Kwargs B)) →
    List (List (Kwargs B)) → Prop
  | _, [], kepts => kepts = []
  | s, requests :: processes, kepts =>
    ∃ kept kepts', kepts = kept :: kepts' ∧ kept <+: requests ∧
      (sent (runRequests rt callbacks c [] (reopen maxSize s) requests).outside).length <
        (sent (runRequests rt callbacks c [] (reopen maxSize s) kept).outside).length + n ∧
      LosesFew rt callbacks c maxSize sent n
        (runRequests rt callbacks c [] (reopen maxSize s) requests) processes kepts'

theorem processes_durable (hmodel : Answers llmHandler message construct falsy model sent) (hn : 0 < n) :
    ∀ (processes : List (List (Kwargs B))) {s : MapCaches B X} {m : LruMap String String}, Opens size m s →
      m.Truthful model → (∀ requests ∈ processes, ∃ ps, Asking requests ps) →
      ∃ kepts ps, LosesFew rt (textModel llmHandler message construct falsy)
        (flushedEvery rt n) size sent n s processes kepts ∧
        Asking kepts.flatten ps ∧ Opens size (m.serve model ps)
          (runProcesses rt (textModel llmHandler message construct falsy) (flushedEvery rt n) size s processes)
  | [], s, m, hs, _, _ => ⟨[], [], rfl, .nil, hs⟩
  | requests :: processes, s, m, hs, htrue, hprocesses => by
    obtain ⟨ps, hrequests⟩ := hprocesses requests List.mem_cons_self
    obtain ⟨kept, lost, rfl, hlost, hnext⟩ := process_durable rt hmodel hn htrue hs hrequests
    have hkept : Asking (requests.take kept.length) kept := List.forall₂_take_append _ _ _ hrequests
    have hserve : (m.serve model kept).Truthful model := htrue.serve kept
    obtain ⟨kepts, ps, hloses, hasking, hopens⟩ :=
      processes_durable hmodel hn processes hnext hserve fun requests' hrequests' =>
      hprocesses requests' (List.mem_cons_of_mem requests hrequests')
    refine ⟨requests.take kept.length :: kepts, kept ++ ps, ⟨_, _, rfl, List.take_prefix _ _, ?_, hloses⟩, ?_, ?_⟩
    · rw [hs.truthful_run rt hmodel hn htrue hrequests, hs.truthful_run rt hmodel hn htrue hkept, LruMap.missed_append]
      simp only [List.length_append]
      omega
    · exact List.rel_append hkept hasking
    · rw [LruMap.serve_append]
      exact hopens

end

end GptCache.Api
