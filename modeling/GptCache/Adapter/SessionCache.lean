/-
A cache over an `SSDataManager`.

`dataManager` is the manager as the adapter calls it. Looking a request up
changes no rows (`SSCache.reads`), and whatever a request does, an entry that a
session was told of stays remembered (`SSCache.stages`).
-/
import GptCache.Adapter.Credit
import GptCache.Manager.Remembers

namespace GptCache

open Caches (onData onOutside onReport timeCal dataAt)
open Exec (Within)

variable {B E S H X L σ α : Type}

/-! ## The data manager as the adapter calls it -/

/-- What is left to the vector store, the database and the callbacks. -/
structure Parts (B E H : Type) where
  /-- `self.v.search`: distances and ids. -/
  search : List (Nat × E) → E → Arg B → List (ℚ × Nat)
  /-- What a callback hands to `save`. -/
  toAnswers : H → AnswerArg B
  /-- A value as a text of the database, which refuses some. -/
  toText : Content B → Except PyError String
  /-- `None`, where the object store has nothing at a path. -/
  missing : B
  /-- `data_manager.o`. -/
  objects : Bool

def Parts.toQuestion (p : Parts B E H) : Asked B → Except PyError QuestionArg
  | .plain data => (p.toText data).map .str
  | .question data deps => (p.toText data).map fun text => .question ⟨text, deps⟩

def Parts.toEntry (p : Parts B E H) (data : SSDataManager.ScalarData B E) : Entry B E where
  question :=
    match data.question with
    | .str s => .plain (.str s)
    | .question q => .question (.str q.content) q.deps
  answers := data.answers.map fun ans => ⟨ans.1.getD (.other p.missing), ans.2⟩
  embeddingData := some data.embeddingData

/-- A session with the default `check_hit_func`, which is `check_hit_session`. -/
def Session.default (name : String) : Session B := ⟨name, fun cur ids _ _ => decide (cur ∉ ids)⟩

def Session.hitCheck (session : Session B) : SSDataManager.HitCheck B where
  name := session.name
  checkHitFunc cur ids questions answer :=
    session.checkHitFunc cur ids (questions.map fun q => .plain (.str q)) answer.toData

theorem hitCheck_default (name : String) :
    (Session.default name : Session B).hitCheck = ⟨name, SSDataManager.checkHitSession⟩ := rfl

namespace SSDataManager

variable (env : Env B E S) (p : Parts B E H) (e : MemoryCacheEviction σ Nat α (World B E)) (fuel : Nat)

/-- Its vector store as `cache_health_check` uses it. -/
def vectorView : VectorView E (ℚ × Nat) (σ × World B E) where
  dataId searchData := .ok searchData.2
  getEmbeddings id := Exec.onSnd (World.call env fun w => (w.v.lookup id, w))
  updateEmbeddings id embedding := Exec.onSnd (World.call env fun w =>
    ((), match embedding with
      | none => w
      | some vec => { w with v := w.v.map fun d => if d.1 = id then (id, vec) else d }))

def dataManager : DataManager B E (ℚ × Nat) H (σ × World B E) where
  search embedding _ topK := Exec.onSnd
    (World.call env fun w => (some (p.search w.v (normalize env embedding) topK), w))
  getScalarData searchData _ session :=
    Exec.onSnd (getScalarData env searchData.2 (session.map Session.hitCheck)) >>= fun data =>
    pure (data.map p.toEntry)
  hitCacheCallback searchData := hitCacheCallback e searchData.2
  save question handled embedding _ session :=
    Exec.ofExcept (p.toQuestion question) >>= fun question =>
    save env e fuel question (p.toAnswers handled) embedding (session.map Session.name)
  addSession searchData name data :=
    Exec.ofExcept (p.toText data) >>= fun text => Exec.onSnd (addSession env searchData.2 name text)
  reportCache _ _ _ _ _ := Exec.onSnd (World.call env fun w => ((), w))
  flush := Exec.onSnd (World.call env (fun w => ((), w)) >>= fun _ => World.call env fun w => ((), w))
  o := .ok p.objects
  v := .ok (vectorView env)

end SSDataManager

/-- What else a cache was given leaves the stores alone. -/
structure LeavesStores (c : Core.Cache B E (ℚ × Nat) H (σ × World B E)) : Prop where
  preEmbedding : ∀ kwargs extra config, Exec.Keeps Prod.snd (c.preEmbeddingFunc kwargs extra config)
  embedding : ∀ data extra, Exec.Keeps Prod.snd (c.embeddingFunc data extra)
  evaluation : ∀ query cached extra, Exec.Keeps Prod.snd (c.similarityEvaluation.evaluation query cached extra)
  post : ∀ f, c.postProcess = .func f → ∀ messages, Exec.Keeps Prod.snd (f messages)

/-- A cache over an `SSDataManager`. -/
structure SSCache (B E S H σ α : Type) where
  env : Env B E S
  parts : Parts B E H
  index : MemoryCacheEviction σ Nat α (World B E)
  fuel : Nat
  core : Core.Cache B E (ℚ × Nat) H (σ × World B E)
  dataManager : core.dataManager = SSDataManager.dataManager env parts index fuel
  onEvict : index.onEvict = World.clear env
  leaves : LeavesStores core

/-! ## What is done to the stores -/

/-- The rows and what was imported are the same. -/
abbrev SameRowsOf : σ × World B E → σ × World B E → Prop := InvImage (Exec.Same SSDataManager.rowsOf) Prod.snd

/-- An entry the session was told of stays remembered. -/
abbrev StaysTold (name : String) (id n : Nat) : σ × World B E → σ × World B E → Prop :=
  InvImage (Exec.Carries (Remembers name id n)) Prod.snd

theorem SameRowsOf.staysTold {name : String} {id n : Nat} {s s' : σ × World B E} (h : SameRowsOf s s') :
    StaysTold name id n s s' := by
  intro hr
  have hrows : SSDataManager.rowsOf s'.2 = SSDataManager.rowsOf s.2 := h
  exact hr.of_same (congrArg Prod.fst hrows) (congrArg Prod.snd hrows)

namespace SSDataManager

variable {env : Env B E S} {p : Parts B E H} {e : MemoryCacheEviction σ Nat α (World B E)} {fuel : Nat}

theorem call_within {β : Type} {f : World B E → β × World B E} (hf : ∀ w, rowsOf (f w).2 = rowsOf w) :
    Within (SameRowsOf (σ := σ)) (Exec.onSnd (World.call env f)) :=
  Within.onSnd (Exec.Keeps.within.mp (call_keeps hf))

theorem search_within (embedding : E) (extra : Option B) (topK : Arg B) :
    Within SameRowsOf ((dataManager env p e fuel).search embedding extra topK) := by
  show Within SameRowsOf (Exec.onSnd (World.call env fun w => (some (p.search w.v (normalize env embedding) topK), w)))
  exact call_within fun _ => rfl

theorem getScalarData_within (searchData : ℚ × Nat) (extra : Option B) (session : Option (Session B)) :
    Within SameRowsOf ((dataManager env p e fuel).getScalarData searchData extra session) :=
  Within.bind (Within.onSnd (Exec.Keeps.within.mp (getScalarData_keeps _ _))) fun _ => .pure _

theorem hitCacheCallback_within (searchData : ℚ × Nat) :
    Within SameRowsOf ((dataManager env p e fuel).hitCacheCallback searchData) := by
  refine Within.bind (Within.total fun s => ?_) fun _ => .pure _
  exact (rfl : rowsOf s.2 = rowsOf s.2)

theorem getEmbeddings_within (id : Nat) : Within (SameRowsOf (σ := σ)) ((vectorView env).getEmbeddings id) := by
  show Within SameRowsOf (Exec.onSnd (World.call env fun w => (w.v.lookup id, w)))
  exact call_within fun _ => rfl

theorem updateEmbeddings_within (id : Nat) (embedding : Option E) :
    Within (SameRowsOf (σ := σ)) ((vectorView env).updateEmbeddings id embedding) := by
  cases embedding with
  | none =>
    show Within SameRowsOf (Exec.onSnd (World.call env fun w => ((), w)))
    exact call_within fun _ => rfl
  | some vec =>
    show Within SameRowsOf (Exec.onSnd (World.call env fun w =>
      ((), { w with v := w.v.map fun d => if d.1 = id then (id, vec) else d })))
    exact call_within fun _ => rfl

variable {name : String} {id n : Nat} {s s' : σ × World B E}

/-- What is read for a session with the default check is live, and the session was not told of it. -/
theorem getScalarData_untold {searchData : ℚ × Nat} {extra : Option B} {entry : GptCache.Entry B E}
    (h : (dataManager env p e fuel).getScalarData searchData extra (some (.default name)) s =
      some (.ok (some entry), s')) :
    Untold name searchData.2 s.2 := by
  obtain ⟨found, s₁, hfound, h⟩ := Exec.bind_ok.mp h
  cases found with
  | none => cases (Exec.pure_ok.mp h).1
  | some data => exact getScalarData_fresh (Exec.onSnd_eq_some.mp hfound).1

/-- An entry the session is told of is remembered. -/
theorem addSession_remembers {searchData : ℚ × Nat} {data : Content B} (hwf : s.2.s.WellFormed)
    (h : (dataManager env p e fuel).addSession searchData name data s = some (.ok (), s')) :
    Remembers name searchData.2 (s.2.births searchData.2) s'.2 := by
  obtain ⟨text, s₁, htext, h⟩ := Exec.bind_ok.mp h
  obtain ⟨-, rfl⟩ := Exec.ofExcept_eq_ok.mp htext
  obtain ⟨-, hadd⟩ := call_ok (Exec.onSnd_eq_some.mp h).1
  rw [← hadd]
  have hcalls : ({ s.2 with calls := s.2.calls + 1 } : World B E).s.WellFormed := hwf
  exact Remembers.told_of hcalls name searchData.2 text

theorem addSession_within (searchData : ℚ × Nat) (name' : String) (data : Content B) :
    Within (StaysTold name id n) ((dataManager env p e fuel).addSession searchData name' data) :=
  (Within.ofExcept _).bind fun _ => Within.onSnd (Remembers.call fun _ h => h.addSession _ _ _)

theorem reportCache_within (user cached : String) (searchData : ℚ × Nat) (answer : String) (rank : ℚ) :
    Within (StaysTold name id n) ((dataManager env p e fuel).reportCache user cached searchData answer rank) :=
  Within.onSnd (Remembers.call fun _ h => h)

theorem save_within (hclear : e.onEvict = World.clear env) (question : Asked B) (handled : H) (embedding : E)
    (extra : Option B) (session : Option (Session B)) :
    Within (StaysTold name id n) ((dataManager env p e fuel).save question handled embedding extra session) :=
  (Within.ofExcept _).bind fun _ => importData_remembers hclear _ _ _ _

theorem flush_within : Within (StaysTold name id n) ((dataManager env p e fuel).flush) :=
  Within.onSnd ((Remembers.call fun _ h => h).bind fun _ => Remembers.call fun _ h => h)

end SSDataManager

namespace SSCache

variable (c : SSCache B E S H σ α) {name : String} {id n : Nat}

theorem of_stores {β : Type} {m : Exec PyError (σ × World B E) β} (h : Exec.Keeps Prod.snd m) : Within SameRowsOf m :=
  fun s r s' hr => congrArg SSDataManager.rowsOf (h s r s' hr)

variable [DecidableEq E]

/-- Looking up a request changes no rows. -/
theorem reads : Reads (InvImage SameRowsOf (dataAt (X := X) 0)) 0 c.core where
  outside := onOutside_within
  report report _ := onReport_within 0 report
  preEmbedding _ _ _ := onData_within (of_stores (c.leaves.preEmbedding _ _ _))
  embedding _ _ := onData_within (of_stores (c.leaves.embedding _ _))
  search _ _ _ := onData_within (c.dataManager ▸ SSDataManager.search_within _ _ _)
  scalarData _ _ _ := onData_within (c.dataManager ▸ SSDataManager.getScalarData_within _ _ _)
  healthCheck embedding searchData := by
    refine onData_within ?_
    simp only [cacheHealthCheck, c.dataManager, SSDataManager.dataManager, Exec.ofExcept_ok, Exec.pure_bind]
    refine (Within.ofExcept _).bind fun dataId => (SSDataManager.getEmbeddings_within _).bind fun inVector => ?_
    exact (Within.pure _).ite ((SSDataManager.updateEmbeddings_within _ _).bind fun _ => .pure _)
  evaluation _ _ _ := onData_within (of_stores (c.leaves.evaluation _ _ _))
  hitCacheCallback _ := onData_within (c.dataManager ▸ SSDataManager.hitCacheCallback_within _)
  post f hf _ := onData_within (of_stores (c.leaves.post f hf _))

/-- Whatever is done at the cache, the session's entries stay remembered. -/
theorem stages : Stages (InvImage (StaysTold name id n) (dataAt (X := X) 0)) 0 c.core where
  toReads := c.reads.mono fun _ _ h => h.staysTold
  addSession _ _ _ := onData_within (c.dataManager ▸ SSDataManager.addSession_within _ _ _)
  reportCache _ _ _ _ _ := onData_within (c.dataManager ▸ SSDataManager.reportCache_within _ _ _ _ _)
  save _ _ _ _ _ := onData_within (c.dataManager ▸ SSDataManager.save_within c.onEvict _ _ _ _ _)
  flushData := onData_within (c.dataManager ▸ SSDataManager.flush_within)

/-- The caches behind it have data of their own. -/
theorem chain (nexts : List (Core.Cache B E (ℚ × Nat) H (σ × World B E))) :
    ChainStages (InvImage (StaysTold name id n) (dataAt (X := X) 0)) 0 c.core nexts := by
  cases nexts with
  | nil => exact c.stages
  | cons next nexts => exact ⟨c.stages, otherChain nexts Nat.zero_lt_one next⟩

end SSCache

end GptCache
