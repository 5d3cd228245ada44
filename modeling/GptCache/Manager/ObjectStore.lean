/-
The object store of a data manager. Nothing takes an object out of it: it only
grows (`ObjectsKept`), and with a path of its own for every object an answer
whose object was put is loaded from then on (`loaded_append`).
-/
import GptCache.Manager.FailedDelete

namespace GptCache

variable {B E S : Type} {env : Env B E S}

/-! ## Loading -/

/-- The paths to come are not taken. -/
def FreshPaths (env : Env B E S) (objs : List (String × Content B)) : Prop :=
  ∀ n, objs.length ≤ n → objs.lookup (env.path n) = none

theorem FreshPaths.nil : FreshPaths env [] := fun _ _ => rfl

/-- An object is kept where nothing was. -/
theorem FreshPaths.put (hpath : Function.Injective env.path) {objs : List (String × Content B)}
    (h : FreshPaths env objs) (obj : Content B) : FreshPaths env (objs ++ [(env.path objs.length, obj)]) := by
  intro n hn
  rw [List.length_append, List.length_singleton] at hn
  have hne : env.path n ≠ env.path objs.length := fun heq => by
    have := hpath heq
    omega
  rw [List.lookup_append, h n (by omega), List.lookup_cons, beq_eq_false_iff_ne.mpr hne]
  rfl

/-- And it is what is read there. -/
theorem FreshPaths.lookup_put {objs : List (String × Content B)} (h : FreshPaths env objs) (obj : Content B) :
    (objs ++ [(env.path objs.length, obj)]).lookup (env.path objs.length) = some obj := by
  rw [List.lookup_append, h _ (Nat.le_refl _), List.lookup_cons, beq_self_eq_true]
  rfl

/-- An answer as `get_scalar_data` gives it out, and its type. -/
def loaded (objs : List (String × Content B)) (ans : Answer B) : Option (Content B) × DataType :=
  (if ans.answerType = .STR then some ans.answer
    else
      match ans.answer with
      | .str path => objs.lookup path
      | .other _ => none, ans.answerType)

/-- An answer as it was given. -/
def Answer.given (ans : Answer B) : Option (Content B) × DataType := (some ans.answer, ans.answerType)

/-- More objects change nothing about an answer that is loaded. -/
theorem loaded_append {objs : List (String × Content B)} {stored : Answer B} {c : Content B} {t : DataType}
    (h : loaded objs stored = (some c, t)) (more : List (String × Content B)) :
    loaded (objs ++ more) stored = (some c, t) := by
  obtain ⟨answer, answerType⟩ := stored
  by_cases hstr : answerType = .STR
  · simpa [loaded, hstr] using h
  · cases answer with
    | str path =>
      simp only [loaded, if_neg hstr, Prod.mk.injEq] at h ⊢
      rw [List.lookup_append, h.1]
      exact ⟨rfl, h.2⟩
    | other b => simp [loaded, hstr] at h

theorem map_loaded_append {objs : List (String × Content B)} {stored answers : List (Answer B)}
    (h : stored.map (loaded objs) = answers.map Answer.given) (more : List (String × Content B)) :
    stored.map (loaded (objs ++ more)) = answers.map Answer.given := by
  rw [← h]
  refine List.map_congr_left fun a ha => ?_
  obtain ⟨ans, -, hans⟩ := List.mem_map.mp (h ▸ List.mem_map_of_mem (f := loaded objs) ha)
  rw [← hans]
  exact loaded_append hans.symm more

/-! ## It only grows -/

/-- There are the objects there were, and perhaps more; paths that were free for later ones are. -/
structure ObjectsKept (env : Env B E S) (w w' : World B E) : Prop where
  grows : ∃ more, w'.o = w.o.map (· ++ more)
  fresh : (∀ objs ∈ w.o, FreshPaths env objs) → ∀ objs ∈ w'.o, FreshPaths env objs

theorem ObjectsKept.same {w w' : World B E} (h : w'.o = w.o) : ObjectsKept env w w' := by
  refine ⟨⟨[], ?_⟩, fun hfresh => h ▸ hfresh⟩
  rw [h]
  simp

instance : Std.Refl (ObjectsKept (B := B) (E := E) env) := ⟨fun _ => .same rfl⟩

instance : IsTrans (World B E) (ObjectsKept env) where
  trans := by
    intro w w₁ w₂ h h'
    obtain ⟨more, hmore⟩ := h.grows
    obtain ⟨more', hmore'⟩ := h'.grows
    refine ⟨⟨more ++ more', ?_⟩, fun hfresh => h'.fresh (h.fresh hfresh)⟩
    rw [hmore', hmore, Option.map_map]
    congr 1
    funext objs
    exact List.append_assoc objs more more'

theorem ObjectsKept.some {w w' : World B E} (h : ObjectsKept env w w') {objs : List (String × Content B)}
    (ho : w.o = some objs) : ∃ more, w'.o = some (objs ++ more) := by
  obtain ⟨more, hmore⟩ := h.grows
  exact ⟨more, by rw [hmore, ho, Option.map_some]⟩

namespace World

theorem call_objects {α : Type} {f : World B E → α × World B E} (hf : ∀ w, (f w).2.o = w.o) :
    Exec.Within (ObjectsKept env) (call env f) := by
  refine .total fun w => ?_
  cases env.fails w.calls with
  | true => exact .same rfl
  | false => exact .same (hf _)

theorem checkEvict_objects : Exec.Within (ObjectsKept env) (checkEvict (B := B) (E := E) env) :=
  (call_objects fun _ => rfl).bind fun _ => (call_objects fun _ => rfl).bind fun _ =>
    (Exec.Within.pure _).ite ((Exec.Within.raise _).ite (.pure _))

theorem rebuild_objects : Exec.Within (ObjectsKept env) (rebuild (B := B) (E := E) env) := by
  refine (call_objects fun _ => rfl).bind fun _ => (call_objects fun _ => rfl).bind fun ids =>
    (call_objects fun w => ?_).bind fun _ => .modify fun w => .same rfl
  cases env.reindexes <;> rfl

theorem delete_objects : Exec.Within (ObjectsKept env) (delete (B := B) (E := E) env) := by
  refine (call_objects fun _ => rfl).bind fun _ => (call_objects fun _ => rfl).bind fun _ =>
    (call_objects fun _ => rfl).bind fun _ => Exec.Within.bind ?_ fun _ => ?_
  · exact .modify fun w => .same rfl
  · exact Exec.Within.read.bind fun _ => rebuild_objects.ite (.pure _)

theorem clear_objects (markedKeys : List Nat) :
    Exec.Within (ObjectsKept env) (clear (B := B) (E := E) env markedKeys) := by
  refine Exec.Within.bind ?_ fun _ => (call_objects fun _ => rfl).bind fun _ => checkEvict_objects.bind fun _ =>
    delete_objects.ite (.pure _)
  exact .modify fun w => .same rfl

end World

namespace SSDataManager

open World (call_objects)

section

variable (hpath : Function.Injective env.path)
include hpath

theorem putObject_objects (obj : Content B) : Exec.Within (ObjectsKept env) (putObject (E := E) env obj) := by
  intro w r w' hrun
  rw [putObject, Exec.read_bind] at hrun
  cases ho : w.o with
  | none =>
    simp only [ho] at hrun
    cases hrun
    exact .same rfl
  | some objs =>
    simp only [ho, World.call, Exec.total] at hrun
    cases hfails : env.fails w.calls with
    | true =>
      simp only [hfails, if_true] at hrun
      cases hrun
      exact .same ho.symm
    | false =>
      simp only [hfails, Bool.false_eq_true, if_false] at hrun
      cases hrun
      refine ⟨⟨[(env.path objs.length, obj)], by rw [ho]; rfl⟩, fun hfresh objs' hobjs' => ?_⟩
      cases hobjs'
      exact (hfresh objs ho).put hpath obj

theorem processAnswers_objects : ∀ answers : List (AnswerItem B),
    Exec.Within (ObjectsKept env) (processAnswers (E := E) env answers)
  | [] => .pure _
  | .answer _ :: answers =>
    ((Exec.Within.pure _).ite ((putObject_objects hpath _).bind fun _ => .pure _)).bind fun _ =>
      (processAnswers_objects answers).bind fun _ => .pure _
  | .pair _ _ :: _ => .raise _
  | .plain (.str _) :: _ => .raise _
  | .plain (.other _) :: _ => .raise _

theorem processAnswerData_objects (answers : AnswerArg B) :
    Exec.Within (ObjectsKept env) (processAnswerData (E := E) env answers) := by
  cases answers <;> exact (processAnswers_objects hpath _).bind fun _ => .pure _

theorem storeDeps_objects (deps : List QuestionDep) : Exec.Within (ObjectsKept env) (storeDeps (E := E) env deps) := by
  refine .forEach (fun dep => .ite (Exec.Within.read.bind fun w => .ite (.raise _) ?_) (.pure _)) deps
  cases env.download dep.data with
  | error err => exact .raise err
  | ok content => exact (putObject_objects hpath _).bind fun _ => .pure _

theorem processQuestionData_objects (question : QuestionArg) :
    Exec.Within (ObjectsKept env) (processQuestionData (E := E) env question) := by
  cases question with
  | str s => exact .pure _
  | question q =>
    simp only [processQuestionData]
    cases q.deps with
    | none => exact .pure _
    | some deps => exact (storeDeps_objects hpath deps).bind fun _ => .pure _

theorem cacheData_objects (entry : Entry B E) : Exec.Within (ObjectsKept env) (cacheData env entry) := by
  obtain ⟨question, answers, embeddingData, sessionId⟩ := entry
  refine Exec.Within.read.bind fun w => Exec.Within.bind ?_ fun _ =>
    (processQuestionData_objects hpath question).bind fun _ =>
    .pure _
  cases w.o with
  | none => exact .pure _
  | some objs =>
    cases answers with
    | str s => exact .pure _
    | answer a => exact processAnswerData_objects hpath _
    | items xs => exact processAnswerData_objects hpath _

theorem cacheDatas_objects : ∀ entries : List (Entry B E), Exec.Within (ObjectsKept env) (cacheDatas env entries)
  | [] => .pure _
  | entry :: entries => (cacheData_objects hpath entry).bind fun _ => (cacheDatas_objects entries).bind fun _ => .pure _

theorem insertable_objects (entries : List (Entry B E)) : Exec.Within (ObjectsKept env) (insertable env entries) :=
  (cacheDatas_objects hpath entries).bind fun _ => (Exec.Within.pure _).ite (.raise _)

end

/-! ## Runs -/

section

variable {σ α : Type} {e : MemoryCacheEviction σ Nat α (World B E)} {fuel : Nat}

/-- The objects in the stores behind an index are kept. -/
abbrev Behind (env : Env B E S) : σ × World B E → σ × World B E → Prop := InvImage (ObjectsKept env) Prod.snd

theorem put_objects (hclear : e.onEvict = World.clear env) (ids : List Nat) (costs : Option (List ℚ)) :
    Exec.Within (Behind env) (e.put fuel ids costs) :=
  e.within_put_snd fuel ids costs fun ks => hclear ▸ World.clear_objects ks

theorem importData_objects (hpath : Function.Injective env.path) (hclear : e.onEvict = World.clear env)
    (questions : List QuestionArg) (answers : List (AnswerArg B)) (embeddingDatas : List E)
    (sessionIds : List (Option String)) :
    Exec.Within (Behind env) (importData env e fuel questions answers embeddingDatas sessionIds) := by
  unfold importData
  refine (Exec.Within.raise _).ite ?_
  exact (insertable_objects hpath _).onSnd.bind fun datas => (call_objects fun _ => rfl).onSnd.bind fun ids =>
    (call_objects fun _ => rfl).onSnd.bind fun _ => put_objects hclear ids _

theorem init_objects (hclear : e.onEvict = World.clear env) : Exec.Within (Behind env) (init env e fuel) := by
  refine Exec.Within.bind ?_ fun _ => (call_objects fun _ => rfl).onSnd.bind fun ids => put_objects hclear ids none
  exact .modify fun s => .same rfl

theorem objects_methods (hpath : Function.Injective env.path) :
    Methods env α fuel (ObjectsKept (B := B) (E := E) env) where
  init := fun _ hclear => init_objects hclear
  importData := fun _ hclear => importData_objects hpath hclear

end

end SSDataManager

end GptCache
