/-
Which entry a hit is credited to.

`adapt` answers with a text and looks up the entry it is from in a dictionary
with the texts of the accepted entries as its keys. Of entries with one text
the dictionary keeps the last, which is ranked lowest: that is the entry the
session and the report are told of (`credited_eq`), and it is the one that was
served just when no other entry has its text, or none that makes a difference
to them (`hit_credited`).
-/
import GptCache.Adapter.Stages

namespace GptCache

open Caches (onData onOutside onReport timeCal)

variable {B E R H D X L : Type}

/-- A call of the data manager at a hit. -/
inductive Credit (B R : Type) where
  | addSession (searchData : R) (name : String) (data : Content B)
  | reportCache (user cached : String) (searchData : R) (answer : String) (rank : ℚ)

section

variable (rt : Runtime B X) (place : Nat) (c : Core.Cache B E R H D) (r : Request B) (k : Embedded B E)

def Credit.exec : Credit B R → Exec PyError (Caches D X) Unit
  | addSession searchData name data => onData place (c.dataManager.addSession searchData name data)
  | reportCache user cached searchData answer rank =>
    onData place (c.dataManager.reportCache user cached searchData answer rank)

/-- What is passed on of an entry that was served. -/
def creditsOf (whole : CacheAnswer B E R) : List (Credit B R) :=
  (match r.session with
    | none => []
    | some session => [.addSession whole.searchData session.name k.preEmbeddingData]) ++
  if c.config.disableReport then []
  else [.reportCache k.preStoreData.text whole.cacheData.question.text whole.searchData whole.answer.text whole.rank]

variable [DecidableEq B] (answers : List (CacheAnswer B E R)) (message : Content B)

/-- The entry a message is taken to be from. -/
def credited : Option (CacheAnswer B E R) := (answersDict answers).get? (.str (message.toStr rt.str))

/-- The calls of the data manager at a hit. -/
def credits : List (Credit B R) :=
  match credited rt answers message with
  | none => []
  | some whole => creditsOf c r k whole

/-- A hit is counted, and these calls are made. -/
theorem recordHit_credits : recordHit rt place c r k answers message =
    onReport place .hintCache >>= fun _ => Exec.forEach (Credit.exec place c) (credits rt c r k answers message) := by
  unfold recordHit credits credited creditsOf
  congr 1
  funext _
  cases (answersDict answers).get? (.str (message.toStr rt.str)) with
  | none => rfl
  | some whole =>
    cases r.session with
    | none =>
      cases hreport : c.config.disableReport with
      | true => rfl
      | false => exact (Exec.bind_pure_unit _).symm
    | some session =>
      cases hreport : c.config.disableReport with
      | true => rfl
      | false =>
        show _ >>= _ = _ >>= _
        congr 1
        funext _
        exact (Exec.bind_pure_unit _).symm

/-- The entry credited is the last of those with the text. -/
theorem credited_eq {text : String} : credited rt answers (.str text) =
    (answers.filter fun a => a.answer = .str text).getLast? := by
  show (answersDict answers).get? (.str text) = _
  rw [answersDict, Dict.get?_foldl_set, Dict.get?_empty, Option.or_none]

end

/-- All that a hit tells the data manager stays within what telling it may do. -/
theorem Stages.credit_within [DecidableEq E] {T : Caches D X → Caches D X → Prop} {place : Nat}
    {c : Core.Cache B E R H D} (h : Stages T place c) (credit : Credit B R) : Exec.Within T (credit.exec place c) := by
  cases credit with
  | addSession searchData name data => exact h.addSession searchData name data
  | reportCache user cached searchData answer rank => exact h.reportCache user cached searchData answer rank

/-! ## The best entry -/

/-- `first` (gptcache/processor/post.py). -/
def first {M : Type} : List M → Exec PyError D (Option M)
  | [] => Exec.raise ⟨.IndexError, "list index out of range"⟩
  | m :: _ => pure (some m)

/-- `first`, or `temperature_softmax` without chance. -/
def BestFirst (post : PostProcess B D) (temperature : ℚ) : Prop :=
  post = .func first ∨ post = .temperatureSoftmax ∧ temperature ≤ 0

theorem sortAnswers_ranked (answers : List (CacheAnswer B E R)) :
    (sortAnswers answers).Pairwise fun a b => b.rank ≤ a.rank :=
  List.pairwise_insertionSort (fun a b : CacheAnswer B E R => b.rank ≤ a.rank) answers

theorem postProcess_best {rt : Runtime B X} {place : Nat} {c : Core.Cache B E R H D} {r : Request B}
    (hpost : BestFirst c.postProcess r.temperature) {top : CacheAnswer B E R} {rest : List (CacheAnswer B E R)}
    (hranked : (top :: rest).Pairwise fun a b => b.rank ≤ a.rank) :
    (postProcess rt place c r (top :: rest) : Exec PyError (Caches D X) _) = pure (some top.answer) := by
  unfold postProcess
  rcases hpost with hfirst | ⟨hsoftmax, htemperature⟩
  · rw [hfirst]
    exact Caches.onData_pure _
  · have hzip : ((top :: rest).map (·.answer)).zip ((top :: rest).map (·.rank)) =
        (top :: rest).map fun a => (a.answer, a.rank) := List.zip_map'
    have hsorted : ((top :: rest).map fun a => (a.answer, a.rank)).Pairwise fun a b => b.2 ≤ a.2 :=
      List.pairwise_map.mpr hranked
    have hmessage : (temperatureSoftmax rt ((top :: rest).map (·.answer)) ((top :: rest).map (·.rank)) r.temperature :
        Exec PyError X (Content B)) = pure top.answer := by
      rw [temperatureSoftmax, if_neg (not_lt.mpr htemperature), hzip, hsorted.insertionSort_eq]
      rfl
    rw [hsoftmax]
    dsimp only
    rw [hmessage]
    rfl

theorem searchAnswers_ranked [DecidableEq E] {rt : Runtime B X} {place : Nat} {c : Core.Cache B E R H D} {r : Request B}
    {k : Embedded B E} {s s' : Caches D X} {p : List (CacheAnswer B E R) × Kwargs B}
    (h : searchAnswers rt place c r k s = some (.ok p, s')) : p.1.Pairwise fun a b => b.rank ≤ a.rank := by
  rcases searchAnswers_ok rt h with ⟨-, rfl⟩ | ⟨-, _, _, _, _, _, answers, -, -, rfl⟩
  · exact List.Pairwise.nil
  · exact sortAnswers_ranked answers

/-- A hit is on the best of the accepted entries. -/
theorem hit_best [DecidableEq B] [DecidableEq E] {rt : Runtime B X} {place : Nat} {c : Core.Cache B E R H D}
    {kwargs : Kwargs B} {s s' : Caches D X} {l : LookUp B E R} {m : Content B}
    (hl : lookUp rt place c kwargs s = some (.ok l, s')) (hm : l.message = some m)
    (hpost : BestFirst c.postProcess l.request.temperature) : ∃ top rest, l.answers = top :: rest ∧
      (∀ a ∈ rest, a.rank ≤ top.rank) ∧ m = top.answer := by
  obtain ⟨s₁, s₂, s₃, kw, -, -, hsearch, hhit⟩ := lookUp_ok rt hl
  rw [hm] at hhit
  obtain ⟨top, rest, s₄, s₅, hanswers, -, hpost', -⟩ := hitMessage_ok rt hhit
  have hranked := searchAnswers_ranked hsearch
  dsimp only at hranked
  rw [hanswers] at hranked hpost'
  rw [postProcess_best hpost hranked] at hpost'
  refine ⟨top, rest, hanswers, (List.pairwise_cons.mp hranked).1, ?_⟩
  exact (Option.some.inj (Exec.pure_ok.mp hpost').1).symm

/-- Two entries make no difference to what a hit passes on. -/
structure SameCredit (c : Core.Cache B E R H D) (r : Request B) (a b : CacheAnswer B E R) : Prop where
  searchData : r.session.isSome = true ∨ c.config.disableReport = false → a.searchData = b.searchData
  reported : c.config.disableReport = false →
    a.cacheData.question.text = b.cacheData.question.text ∧ a.rank = b.rank

theorem creditsOf_eq_iff {c : Core.Cache B E R H D} {r : Request B} {k : Embedded B E} {a b : CacheAnswer B E R}
    (h : a.answer = b.answer) : creditsOf c r k a = creditsOf c r k b ↔ SameCredit c r a b := by
  have hfields : SameCredit c r a b ↔
      (r.session.isSome = true ∨ c.config.disableReport = false → a.searchData = b.searchData) ∧
      (c.config.disableReport = false → a.cacheData.question.text = b.cacheData.question.text ∧ a.rank = b.rank) :=
    ⟨fun h => ⟨h.searchData, h.reported⟩, fun h => ⟨h.1, h.2⟩⟩
  rw [hfields, creditsOf, creditsOf, h]
  cases r.session with
  | none =>
    cases c.config.disableReport with
    | true => simp
    | false => simp; tauto
  | some session =>
    cases c.config.disableReport with
    | true => simp
    | false => simp; tauto

/-- The last of the accepted entries with the text of the best one makes no difference to what a hit passes on. -/
def CreditsTop [DecidableEq B] (c : Core.Cache B E R H D) (r : Request B) (answers : List (CacheAnswer B E R))
    (top : CacheAnswer B E R) : Prop :=
  ∀ last ∈ (answers.filter fun a => a.answer = top.answer).getLast?, SameCredit c r last top

/-- The texts of the accepted entries differ. -/
theorem CreditsTop.of_nodup [DecidableEq B] {c : Core.Cache B E R H D} {r : Request B}
    {answers : List (CacheAnswer B E R)}
    {top : CacheAnswer B E R} (htop : top ∈ answers) (h : (answers.map CacheAnswer.answer).Nodup) :
    CreditsTop c r answers top := by
  intro last hlast
  obtain ⟨hmem, hsame⟩ := List.mem_filter.mp (List.mem_of_getLast? hlast)
  obtain rfl := List.inj_on_of_nodup_map h hmem htop (of_decide_eq_true hsame)
  exact ⟨fun _ => rfl, fun _ => ⟨rfl, rfl⟩⟩

/-- A cache answers a request, all of its accepted entries texts, with the best one or `first`. -/
structure TextHit [DecidableEq B] [DecidableEq E] (rt : Runtime B X) (place : Nat) (c : Core.Cache B E R H D)
    (kwargs : Kwargs B) (s : Caches D X) (l : LookUp B E R) (m : Content B) (s' : Caches D X) : Prop where
  lookUp : lookUp rt place c kwargs s = some (.ok l, s')
  message : l.message = some m
  post : BestFirst c.postProcess l.request.temperature
  texts : ∀ a ∈ l.answers, ∃ text, a.answer = .str text

variable [DecidableEq B] [DecidableEq E] {rt : Runtime B X} {place : Nat} {c : Core.Cache B E R H D} {kwargs : Kwargs B}
  {s s' : Caches D X} {l : LookUp B E R} {m : Content B}

/-- A hit is credited to the entry that was served just when the last of the
accepted entries with the text that was served makes no difference to it. -/
theorem TextHit.credits_eq_iff (h : TextHit rt place c kwargs s l m s') {top : CacheAnswer B E R}
    (htop : top ∈ l.answers) (hm : m = top.answer) :
    credits rt c l.request l.key l.answers m = creditsOf c l.request l.key top ↔
      CreditsTop c l.request l.answers top := by
  have hself : top ∈ l.answers.filter fun a => a.answer = top.answer :=
    List.mem_filter.mpr ⟨htop, decide_eq_true rfl⟩
  obtain ⟨text, htext⟩ := h.texts top htop
  cases hlast : (l.answers.filter fun a => a.answer = top.answer).getLast? with
  | none =>
    rw [List.getLast?_eq_none_iff.mp hlast] at hself
    cases hself
  | some last =>
    have hsame : last.answer = top.answer := by
      simpa using (List.mem_filter.mp (List.mem_of_getLast? hlast)).2
    have hcredits : credits rt c l.request l.key l.answers m = creditsOf c l.request l.key last := by
      rw [hm, htext, credits, credited_eq, ← htext, hlast]
    rw [hcredits, creditsOf_eq_iff hsame, CreditsTop, hlast]
    exact ⟨fun h last' hlast' => Option.mem_some.mp hlast' ▸ h, fun h => h last rfl⟩

/-- What `adapt` answers, and the last that was done for it: it was counted, and the data manager was called. -/
theorem TextHit.adapt_eq (h : TextHit rt place c kwargs s l m s') (callbacks : Callbacks B H D X L)
    (nexts : List (Core.Cache B E R H D)) :
    adapt rt callbacks place c nexts kwargs s = some (.ok (callbacks.cacheDataConvert m), s') ∧
      ∃ s₁, (onReport place .hintCache >>= fun _ =>
        Exec.forEach (Credit.exec place c) (credits rt c l.request l.key l.answers m)) s₁ = some (.ok (), s') := by
  refine ⟨?_, ?_⟩
  · cases nexts <;> rw [adapt, adaptLevel_eq_lookUp, Exec.bind_of_ok _ h.lookUp, h.message] <;> rfl
  · obtain ⟨_, _, s₃, kw, -, -, -, hhit⟩ := lookUp_ok rt h.lookUp
    rw [h.message] at hhit
    obtain ⟨_, _, _, s₅, -, -, -, hrecord⟩ := hitMessage_ok rt hhit
    exact ⟨s₅, by rw [← recordHit_credits]; exact hrecord⟩

end GptCache
