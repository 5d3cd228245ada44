/-
An answer saved with an object store and read back.

`_process_answer_data` puts the answers whose type is not `STR` into the object
store and keeps their paths in their place, and `get_scalar_data` loads them
again. The others stay in the answer column, which is one of texts. It takes
its argument for an `Answer` or a list of them: of a pair of an answer and its
type, which `save` documents too, it asks the answer for the type and raises
(`object_answers_iff`).
-/
import GptCache.Manager.EntryStays
import GptCache.Manager.ObjectStore

namespace GptCache.SSDataManager

variable {B E S : Type} {env : Env B E S} {σ α : Type} {e : MemoryCacheEviction σ Nat α (World B E)} {m fuel : Nat}

/-! ## Through the object store -/

/-- The stored answers are loaded as these, and the paths to come are free. -/
def LoadsAs (env : Env B E S) (stored answers : List (Answer B)) (w : World B E) : Prop :=
  ∃ objs, w.o = some objs ∧ FreshPaths env objs ∧
    (stored.map env.rowAnswer).map (loaded objs) = answers.map Answer.given

theorem LoadsAs.kept {stored answers : List (Answer B)} {w w' : World B E} (h : LoadsAs env stored answers w)
    (hkept : ObjectsKept env w w') : LoadsAs env stored answers w' := by
  obtain ⟨objs, ho, hfresh, hloaded⟩ := h
  obtain ⟨more, hmore⟩ := hkept.some ho
  refine ⟨objs ++ more, hmore, hkept.fresh (fun objs' ho' => ?_) _ hmore, map_loaded_append hloaded more⟩
  obtain rfl := Option.some.inj (ho.symm.trans ho')
  exact hfresh

theorem LoadsAs.nil {stored answers : List (Answer B)} {w : World B E} (h : LoadsAs env stored answers w) :
    LoadsAs env [] [] w := by
  obtain ⟨objs, ho, hfresh, -⟩ := h
  exact ⟨objs, ho, hfresh, rfl⟩

theorem LoadsAs.append {stored stored' answers answers' : List (Answer B)} {w : World B E}
    (h : LoadsAs env stored answers w) (h' : LoadsAs env stored' answers' w) :
    LoadsAs env (stored ++ stored') (answers ++ answers') w := by
  obtain ⟨objs, ho, hfresh, hloaded⟩ := h
  obtain ⟨objs', ho', -, hloaded'⟩ := h'
  obtain rfl := Option.some.inj (ho.symm.trans ho')
  exact ⟨objs, ho, hfresh, by rw [List.map_append, List.map_append, List.map_append, hloaded, hloaded']⟩

/-- An answer of the type `STR` is what its row gives back. -/
theorem LoadsAs.text {ans : Answer B} (hstr : ans.answerType = .STR) {w : World B E} (h : LoadsAs env [] [] w) :
    LoadsAs env [ans] [env.rowAnswer ans] w := by
  obtain ⟨objs, ho, hfresh, -⟩ := h
  have hstr' : (env.rowAnswer ans).answerType = .STR := hstr
  exact ⟨objs, ho, hfresh, by simp [loaded, Answer.given, hstr']⟩

/-- An answer as it is read: from its row, or from the object store. -/
def readBack (env : Env B E S) (ans : Answer B) : Answer B := if ans.answerType = .STR then env.rowAnswer ans else ans

/-- The column takes the answers that are left in it. -/
def Taken (env : Env B E S) (answers : List (Answer B)) : Prop :=
  ∀ ans ∈ answers, ans.answerType = .STR → (env.kept ans.answer).isSome = true

/-- What the column is given, it takes. -/
def Insertable (env : Env B E S) (stored : List (Answer B)) : Prop :=
    ∀ ans ∈ stored, (env.kept ans.answer).isSome = true

section

variable (hf : ∀ n, env.fails n = false)
include hf

/-- What is put is loaded from its path. -/
theorem putObject_loads (hpath : Function.Injective env.path) {w : World B E} (h : LoadsAs env [] [] w) {ans : Answer B}
    (hstr : ans.answerType ≠ .STR) : ∃ path w', putObject env ans.answer w = some (.ok path, w') ∧
      LoadsAs env [⟨.str path, ans.answerType⟩] [ans] w' := by
  obtain ⟨objs, ho, hfresh, -⟩ := h
  refine ⟨env.path objs.length,
    { w with calls := w.calls + 1, o := some (objs ++ [(env.path objs.length, ans.answer)]) }, ?_, _, rfl,
    hfresh.put hpath ans.answer, ?_⟩
  · rw [putObject, Exec.read_bind]
    simp only [ho, World.call, Exec.total, hf, Bool.false_eq_true, if_false]
  · simp [loaded, Answer.given, hstr, hfresh.lookup_put]

theorem processAnswers_loads (hpath : Function.Injective env.path) : ∀ (answers : List (Answer B)) {w : World B E},
    LoadsAs env [] [] w → ∃ stored w', processAnswers env (answers.map .answer) w =
      some (.ok (stored.map .answer), w') ∧
      LoadsAs env stored (answers.map (readBack env)) w' ∧ (Insertable env stored ↔ Taken env answers)
  | [], w, h => ⟨[], w, rfl, h, by simp [Insertable, Taken]⟩
  | ans :: answers, w, h => by
    obtain ⟨ans', w₁, hfirst, h₁, htaken⟩ : ∃ ans' w₁, ((if ans.answerType = .STR then pure ans
        else putObject env ans.answer >>= fun path => pure ⟨.str path, ans.answerType⟩) :
          Exec PyError (World B E) (Answer B)) w = some (.ok ans', w₁) ∧ LoadsAs env [ans'] [readBack env ans] w₁ ∧
          ((env.kept ans'.answer).isSome = true ↔ (ans.answerType = .STR → (env.kept ans.answer).isSome = true)) := by
      by_cases hstr : ans.answerType = .STR
      · refine ⟨ans, w, by rw [if_pos hstr]; rfl, ?_, by simp [hstr]⟩
        rw [readBack, if_pos hstr]
        exact h.text hstr
      · obtain ⟨path, w₁, hput, h₁⟩ := putObject_loads hf hpath h hstr
        refine ⟨⟨.str path, ans.answerType⟩, w₁, by rw [if_neg hstr, Exec.bind_of_ok _ hput]; rfl, ?_, by simp [hstr]⟩
        rwa [readBack, if_neg hstr]
    obtain ⟨stored, w₂, hrest, h₂, htakens⟩ := processAnswers_loads hpath answers h₁.nil
    refine ⟨ans' :: stored, w₂, ?_, (h₁.kept (processAnswers_objects hpath _ _ _ _ hrest)).append h₂, ?_⟩
    · rw [List.map_cons, processAnswers, Exec.bind_of_ok _ hfirst, Exec.bind_of_ok _ hrest]
      rfl
    · simp only [Insertable, Taken, List.forall_mem_cons] at htakens ⊢
      rw [htaken, htakens]

/-- They are read as they were given. -/
theorem loadAnswers_loaded {objs : List (String × Content B)} : ∀ (stored : List (Answer B)) {w : World B E},
    w.o = some objs → ∃ w', loadAnswers env stored w = some (.ok (stored.map (loaded objs)), w')
  | [], w, _ => ⟨w, rfl⟩
  | ans :: stored, w, ho => by
    obtain ⟨w₁, hfirst, ho₁⟩ : ∃ w₁, ((if ans.answerType = .STR then pure (some ans.answer)
        else getObject env ans.answer) : Exec PyError (World B E) (Option (Content B))) w =
          some (.ok (loaded objs ans).1, w₁) ∧ w₁.o = some objs := by
      by_cases hstr : ans.answerType = .STR
      · refine ⟨w, ?_, ho⟩
        simp only [loaded, if_pos hstr]
        rfl
      · refine ⟨{ w with calls := w.calls + 1 }, ?_, ho⟩
        rw [if_neg hstr, getObject, Exec.read_bind]
        simp only [loaded, if_neg hstr, ho, World.call, Exec.total, hf, Bool.false_eq_true, if_false]
        cases ans.answer <;> rfl
    obtain ⟨w₂, hrest⟩ := loadAnswers_loaded stored ho₁
    refine ⟨w₂, ?_⟩
    rw [loadAnswers, Exec.bind_of_ok _ hfirst, Exec.bind_of_ok _ hrest]
    rfl

theorem getScalarData_loads {stored answers : List (Answer B)} {id : Nat} {w : World B E} (hwf : w.s.WellFormed)
    (hheld : w.s.Held id stored) (h : LoadsAs env stored answers w) :
    ∃ data w', getScalarData env id none w = some (.ok (some data), w') ∧ data.answers = answers.map Answer.given := by
  obtain ⟨objs, ho, -, hloaded⟩ := h
  obtain ⟨data, hdata, hanswers⟩ := hheld.getDataById hwf
  obtain ⟨w', hload⟩ := loadAnswers_loaded hf (data.answers.map env.rowAnswer) (w := { w with calls := w.calls + 1 }) ho
  refine ⟨⟨data.question, (data.answers.map env.rowAnswer).map (loaded objs), data.embeddingData,
    data.sessionIds⟩, w', ?_, by rw [hanswers, hloaded]⟩
  have hread : storedData env id w = some (.ok (.ok (some { data with answers := data.answers.map env.rowAnswer })),
      { w with calls := w.calls + 1 }) := by
    simp only [storedData, World.call, Exec.total, hf, Bool.false_eq_true, if_false, hdata]
    rfl
  rw [getScalarData, Exec.bind_of_ok _ hread]
  show (loadAnswers env (data.answers.map env.rowAnswer) >>= _) _ = _
  rw [Exec.bind_of_ok _ hload]
  rfl

end

/-! ## Saving -/

/-- An answer in a form `save` documents, or a list of answers. -/
inductive SavedAnswer (B : Type) where
  | str (s : String)
  | answer (a : Answer B)
  | pair (answer : Content B) (answerType : DataType)
  | answers (xs : List (Answer B))

namespace SavedAnswer

/-- What `save` is called with; `member` are the members of `DataType` as objects. -/
def arg (member : DataType → B) : SavedAnswer B → AnswerArg B
  | .str s => .str s
  | .answer a => .answer a
  | .pair c t => .items [.plain c, .plain (.other (member t))]
  | .answers xs => .items (xs.map .answer)

/-- The answers it stands for. -/
def given : SavedAnswer B → List (Answer B)
  | .str s => [⟨.str s, .STR⟩]
  | .answer a => [a]
  | .pair c t => [⟨c, t⟩]
  | .answers xs => xs

def isPair : SavedAnswer B → Bool
  | .pair _ _ => true
  | _ => false

end SavedAnswer

/-- The images among the dependencies of a question can be downloaded. -/
def Downloads (env : Env B E S) (question : QuestionArg) : Prop :=
  ∀ dep ∈ question.deps, dep.depType = .IMAGE_URL → ∃ content, env.download dep.data = .ok content

section

variable (hf : ∀ n, env.fails n = false) (hpath : Function.Injective env.path)
include hf hpath

theorem storeDeps_returns : ∀ {deps : List QuestionDep} {w : World B E}, LoadsAs env [] [] w →
    (∀ dep ∈ deps, dep.depType = .IMAGE_URL → ∃ content, env.download dep.data = .ok content) →
    ∃ w', storeDeps env deps w = some (.ok (), w')
  | [], w, _, _ => ⟨w, rfl⟩
  | dep :: deps, w, h, hdownloads => by
    obtain ⟨hdep, hdeps⟩ := List.forall_mem_cons.mp hdownloads
    rw [storeDeps, Exec.forEach_cons]
    by_cases himage : dep.depType = .IMAGE_URL
    · obtain ⟨content, hcontent⟩ := hdep himage
      have himage' : (⟨.other content, .IMAGE_URL⟩ : Answer B).answerType ≠ .STR := by
        intro h
        cases h
      obtain ⟨path, w₁, hput, h₁⟩ := putObject_loads hf hpath h himage'
      obtain ⟨w₂, hrest⟩ := storeDeps_returns h₁.nil hdeps
      obtain ⟨objs, ho, -⟩ := h
      refine ⟨w₂, ?_⟩
      rw [if_pos himage, Exec.bind_assoc, Exec.read_bind]
      simp only [ho, Option.isNone_some, Bool.false_eq_true, if_false, hcontent]
      rw [Exec.bind_assoc, Exec.bind_of_ok _ hput]
      exact hrest
    · obtain ⟨w₂, hrest⟩ := storeDeps_returns h hdeps
      refine ⟨w₂, ?_⟩
      rw [if_neg himage]
      exact hrest

theorem processQuestionData_returns {question : QuestionArg} (hquestion : Downloads env question) {w : World B E}
    (h : LoadsAs env [] [] w) : ∃ q w', processQuestionData env question w = some (.ok q, w') := by
  cases question with
  | str s => exact ⟨_, w, rfl⟩
  | question q =>
    simp only [processQuestionData]
    cases hdeps : q.deps with
    | none => exact ⟨q, w, rfl⟩
    | some deps =>
      have hdownloads : ∀ dep ∈ deps, dep.depType = .IMAGE_URL → ∃ content, env.download dep.data = .ok content := by
        simpa [Downloads, QuestionArg.deps, hdeps] using hquestion
      obtain ⟨w', hstore⟩ := storeDeps_returns hf hpath h hdownloads
      exact ⟨q, w', by dsimp only; rw [Exec.bind_of_ok _ hstore]; rfl⟩

theorem cacheData_loads {question : QuestionArg} (hquestion : Downloads env question) (member : DataType → B)
    {answer : SavedAnswer B} (hpair : answer.isPair = false) (embeddingData : E)
    (session : Option String) {w : World B E}
    (h : LoadsAs env [] [] w) : ∃ data w', cacheData env (question, answer.arg member, embeddingData, session) w =
      some (.ok data, w') ∧ LoadsAs env data.answers (answer.given.map (readBack env)) w' ∧
      (Insertable env data.answers ↔ Taken env answer.given) := by
  have hprocessed : ∀ answers : List (Answer B), ∃ (stored : List (Answer B)) (w₁ : World B E),
      processAnswerData env (.items (answers.map .answer)) w = some (.ok (.items (stored.map .answer)), w₁) ∧
        LoadsAs env (AnswerArg.items (stored.map .answer)).toAnswers (answers.map (readBack env)) w₁ ∧
        (Insertable env (AnswerArg.items (stored.map .answer)).toAnswers ↔ Taken env answers) := by
    intro answers
    obtain ⟨stored, w₁, hstored, h₁, htaken⟩ := processAnswers_loads hf hpath answers h
    have hmap : (stored.map AnswerItem.answer).map AnswerItem.toAnswer = stored := by
      rw [List.map_map]
      exact List.map_id stored
    refine ⟨stored, w₁, Exec.bind_of_ok (fun out => pure (AnswerArg.items out)) hstored, ?_⟩
    rw [AnswerArg.toAnswers, hmap]
    exact ⟨h₁, htaken⟩
  have hrest : ∀ (ans : AnswerArg B) {w₁ : World B E}, LoadsAs env ans.toAnswers (answer.given.map (readBack env)) w₁ →
      ∃ data w', (processQuestionData env question >>= fun q =>
          pure (CacheData.init (.question q) ans (some (env.float32 embeddingData)) session)) w₁ = some (.ok data, w') ∧
        LoadsAs env data.answers (answer.given.map (readBack env)) w' ∧ data.answers = ans.toAnswers := by
    intro ans w₁ h₁
    obtain ⟨q, w₂, hq⟩ := processQuestionData_returns hf hpath hquestion h₁.nil
    refine ⟨.init (.question q) ans (some (env.float32 embeddingData)) session, w₂, ?_,
      h₁.kept (processQuestionData_objects hpath question _ _ _ hq), rfl⟩
    rw [Exec.bind_of_ok _ hq]
    rfl
  obtain ⟨objs, ho, -⟩ := id h
  rw [cacheData, Exec.read_bind, ho]
  cases answer with
  | str s =>
    have hstr : (⟨.str s, .STR⟩ : Answer B).answerType = .STR := rfl
    obtain ⟨data, w', hdata, h', hanswers⟩ := hrest (.str s) (h.text hstr)
    exact ⟨data, w', hdata, h', by simp [hanswers, AnswerArg.toAnswers, SavedAnswer.given, Insertable, Taken]⟩
  | answer a =>
    obtain ⟨stored, w₁, hstored, h₁, htaken⟩ := hprocessed [a]
    obtain ⟨data, w', hdata, h', hanswers⟩ := hrest _ h₁
    exact ⟨data, w', (Exec.bind_of_ok _ hstored).trans hdata, h', hanswers ▸ htaken⟩
  | pair answer answerType => cases hpair
  | answers xs =>
    obtain ⟨stored, w₁, hstored, h₁, htaken⟩ := hprocessed xs
    obtain ⟨data, w', hdata, h', hanswers⟩ := hrest _ h₁
    exact ⟨data, w', (Exec.bind_of_ok _ hstored).trans hdata, h', hanswers ▸ htaken⟩

/-- Whether the entry's rows can be inserted is a question of the answers left in the column. -/
theorem insertable_loads {question : QuestionArg} (hquestion : Downloads env question) (member : DataType → B)
    {answer : SavedAnswer B} (hpair : answer.isPair = false) (embeddingData : E)
    (session : Option String) {w : World B E}
    (h : LoadsAs env [] [] w) : ∃ data w', LoadsAs env data.answers (answer.given.map (readBack env)) w' ∧
      (Taken env answer.given →
        insertable env [(question, answer.arg member, embeddingData, session)] w = some (.ok [data], w')) ∧
      (¬ Taken env answer.given →
        insertable env [(question, answer.arg member, embeddingData, session)] w =
          some (.error ⟨.StorageError, ""⟩, w')) := by
  obtain ⟨data, w', hdata, h', htaken⟩ := cacheData_loads hf hpath hquestion member hpair embeddingData session h
  have hdatas : cacheDatas env [(question, answer.arg member, embeddingData, session)] w = some (.ok [data], w') := by
    rw [cacheDatas, Exec.bind_of_ok _ hdata]
    rfl
  have hall : ([data].all fun data => data.answers.all fun ans => (env.kept ans.answer).isSome) = true ↔
      Insertable env data.answers := by
    simp [Insertable]
  refine ⟨data, w', h', fun hyes => ?_, fun hno => ?_⟩ <;> rw [insertable, Exec.bind_of_ok _ hdatas]
  · rw [if_pos (hall.mpr (htaken.mpr hyes))]
    rfl
  · rw [if_neg fun hc => hno (htaken.mp (hall.mp hc))]
    rfl

/-- The rows of an entry that is no pair are in the stores, under the next id,
before the index hears of it. -/
theorem importRows_present {question : QuestionArg} (hquestion : Downloads env question) (member : DataType → B)
    {answer : SavedAnswer B} (hpair : answer.isPair = false) (htaken : Taken env answer.given) (embeddingData : E)
    (session : Option String) {s : σ × World B E} (hopened : Opened e m s) (hwf : s.2.s.WellFormed)
    (h : LoadsAs env [] [] s.2) :
    ∃ data s₁, importRows env [question] [answer.arg member] [embeddingData] [session] s =
        some (.ok ([nextId s.2.s.ids], [data]), s₁) ∧ s₁.1 = s.1 ∧ Present e m (nextId s.2.s.ids) data.answers s₁ ∧
      LoadsAs env data.answers (answer.given.map (readBack env)) s₁.2 := by
  obtain ⟨data, w₁, h₁, hyes, -⟩ :=
    insertable_loads hf hpath hquestion member hpair (normalize env embeddingData) session h
  have hdatas := hyes htaken
  obtain ⟨hputs, hembedded⟩ := (Exec.wp_of_ok hdatas).mp (insertable_puts env _ s.2)
  have hsame := hputs.s
  have hembedded : data.embeddingData = some (env.float32 (normalize env embeddingData)) := by simpa using hembedded
  have hinserted : SQLStorage.Inserted s.2.s [data] [nextId s.2.s.ids] (s.2.s.insert data).2 :=
    SQLStorage.batchInsert_inserted [data] s.2.s
  have hrows : Exec.wp (importRows env [question] [answer.arg member] [embeddingData] [session])
      (fun batch s₁ => batch = ([nextId s.2.s.ids], [data]) ∧ s₁.1 = s.1 ∧
        s₁.2.s = (s.2.s.insert data).2 ∧ s₁.2.o = w₁.o)
      (fun _ _ => False) s := by
    have hzip : [question].zip ([answer.arg member].zip (([embeddingData].map (normalize env)).zip [session])) =
        [(question, answer.arg member, normalize env embeddingData, session)] := rfl
    unfold importRows
    rw [if_neg (by simp)]
    simp only [hzip, Exec.wp_bind, Exec.wp_onSnd, World.wp_call env hf, Exec.wp_pure, Exec.wp_of_ok hdatas,
      SQLStorage.batchInsert, hsame]
    exact ⟨rfl, trivial, trivial, trivial⟩
  obtain ⟨_, s₁, hrun, rfl, hindex, hs, ho⟩ := Exec.wp_returns_ok hrows
  refine ⟨data, s₁, hrun, hindex, ⟨⟨hindex ▸ hopened.inv, hindex ▸ hopened.unit, hindex ▸ hopened.maxsize⟩, ?_, ?_⟩, ?_⟩
  · rw [hs]
    exact hinserted.wellFormed hwf
  · rw [hs]
    exact hinserted.held hwf (by rw [hembedded]; rfl)
  · exact h₁.kept (.same ho)

/-- What is left of a `save` is the index. -/
theorem save_present {question : QuestionArg} (hquestion : Downloads env question) (member : DataType → B)
    {answer : SavedAnswer B} (hpair : answer.isPair = false) (htaken : Taken env answer.given) (embeddingData : E)
    (session : Option String) {s : σ × World B E} (hopened : Opened e m s) (hwf : s.2.s.WellFormed)
    (h : LoadsAs env [] [] s.2) :
    ∃ stored cost s₁, (∀ fuel, save env e fuel question (answer.arg member) embeddingData session s =
        e.setitem fuel (nextId s.2.s.ids) (.num cost) s₁) ∧ s₁.1 = s.1 ∧ Present e m (nextId s.2.s.ids) stored s₁ ∧
      LoadsAs env stored (answer.given.map (readBack env)) s₁.2 := by
  obtain ⟨data, s₁, hrows, hindex, hpresent, h₁⟩ :=
    importRows_present hf hpath hquestion member hpair htaken embeddingData session hopened hwf h
  refine ⟨data.answers, importCost data, s₁, fun fuel => ?_, hindex, hpresent, h₁⟩
  rw [save, importData_eq, Exec.bind_of_ok _ hrows, ← MemoryCacheEviction.put_one]
  rfl

/-- An answer the column does not take. -/
theorem save_refused (fuel : Nat) {question : QuestionArg} (hquestion : Downloads env question) (member : DataType → B)
    {answer : SavedAnswer B} (hpair : answer.isPair = false) (htaken : ¬ Taken env answer.given) (embeddingData : E)
    (session : Option String) {s : σ × World B E} (h : LoadsAs env [] [] s.2) :
    ∃ err s', save env e fuel question (answer.arg member) embeddingData session s = some (.error err, s') := by
  obtain ⟨data, w₁, -, -, hno⟩ :=
    insertable_loads hf hpath hquestion member hpair (normalize env embeddingData) session h
  have hraise : Exec.wp (save env e fuel question (answer.arg member) embeddingData session)
      (fun _ _ => False) (fun _ _ => True) s := by
    have hzip : [question].zip ([answer.arg member].zip (([embeddingData].map (normalize env)).zip [session])) =
        [(question, answer.arg member, normalize env embeddingData, session)] := rfl
    rw [save, importData, if_neg (by simp)]
    simp only [hzip, Exec.wp_bind, Exec.wp_onSnd, Exec.wp_of_error (hno htaken)]
  rcases Exec.wp_returns hraise with ⟨_, _, _, hfalse⟩ | ⟨err, s', hrun, -⟩
  · exact hfalse.elim
  · exact ⟨err, s', hrun⟩

omit hf hpath in
/-- A pair is asked for its answer's type. -/
theorem save_pair (fuel : Nat) (question : QuestionArg) (member : DataType → B) {answer : SavedAnswer B}
    (hpair : answer.isPair = true) (embeddingData : E) (session : Option String) {s : σ × World B E}
    (h : LoadsAs env [] [] s.2) :
    ∃ err s', save env e fuel question (answer.arg member) embeddingData session s = some (.error err, s') := by
  obtain ⟨objs, ho, -⟩ := h
  cases answer with
  | pair c t =>
    have hraise : Exec.wp (save env e fuel question ((SavedAnswer.pair c t).arg member) embeddingData session)
        (fun _ _ => False) (fun _ _ => True) s := by
      rw [save, importData, if_neg (by simp)]
      simp only [Exec.wp_bind, Exec.wp_onSnd, List.map_cons, List.map_nil, List.zip_cons_cons, List.zip_nil_right,
        insertable, cacheDatas, cacheData, Exec.wp_read, ho, SavedAnswer.arg, processAnswerData]
      cases c <;> simp only [processAnswers, Exec.wp_raise]
    rcases Exec.wp_returns hraise with ⟨_, _, _, hfalse⟩ | ⟨err, s', hrun, -⟩
    · exact hfalse.elim
    · exact ⟨err, s', hrun⟩
  | _ => cases hpair

end

/-- `save` ends for some fuel. -/
def SaveEnds (env : Env B E S) (e : MemoryCacheEviction σ Nat α (World B E)) (s : σ × World B E)
    (question : QuestionArg) (answers : AnswerArg B) (embeddingData : E) (session : Option String) : Prop :=
  ∃ fuel, (save env e fuel question answers embeddingData session s).isSome = true

/-- `save` raises nothing; and whatever is called after it, by this manager or by processes
that open others over the stores, while the entry has not been evicted its
answers are read as they were given. -/
def Transparent (env : Env B E S) (e : MemoryCacheEviction σ Nat α (World B E)) (s : σ × World B E)
    (question : QuestionArg) (answers : AnswerArg B) (given : List (Answer B)) (embeddingData : E)
    (session : Option String) :
    Prop :=
  ∀ fuel r s₁, save env e fuel question answers embeddingData session s = some (r, s₁) → r = .ok () ∧
    ∀ fuel ops s₂ ps w later, runOps env e fuel s₁ ops = some s₂ → runs α env fuel ps s₂.2 = some w →
      w.evicted = later ++ s₁.2.evicted → nextId s.2.s.ids ∉ later →
      ∃ data w', getScalarData env (nextId s.2.s.ids) none w = some (.ok (some data), w') ∧
        data.answers = given.map Answer.given

/-- The column gives the answers left in it back as they were given. -/
def GivenBack (env : Env B E S) (answers : List (Answer B)) : Prop :=
  ∀ ans ∈ answers, ans.answerType = .STR → env.kept ans.answer = some ans.answer

theorem GivenBack.taken {answers : List (Answer B)} (h : GivenBack env answers) : Taken env answers :=
  fun ans hans hstr => by rw [h ans hans hstr]; rfl

/-- What it takes it gives back just when all answers are read as they were given. -/
theorem givenBack_iff {answers : List (Answer B)} (htaken : Taken env answers) :
    GivenBack env answers ↔ (answers.map (readBack env)).map Answer.given = answers.map Answer.given := by
  rw [List.map_map, List.map_inj_left]
  refine forall₂_congr fun ans hans => ?_
  by_cases hstr : ans.answerType = .STR
  · obtain ⟨c, hc⟩ := Option.isSome_iff_exists.mp (htaken ans hans hstr)
    simp [readBack, Answer.given, Env.rowAnswer, hstr, hc]
  · simp [readBack, hstr]

section

variable (hf : ∀ n, env.fails n = false) (hpath : Function.Injective env.path) {question : QuestionArg}
  (hquestion : Downloads env question) (member : DataType → B)
include hf hpath hquestion

/-- What `save` is given that is no pair and that the column takes is read as `readBack` says. -/
theorem save_read (hclear : e.onEvict = World.clear env) {answer : SavedAnswer B} (hpair : answer.isPair = false)
    (htaken : Taken env answer.given) (hm : 1 ≤ m) (embeddingData : E) (session : Option String) {s : σ × World B E}
    (hopened : Opened e m s) (hwf : s.2.s.WellFormed) (h : LoadsAs env [] [] s.2) :
    (1 ≤ e.cleanSize → SaveEnds env e s question (answer.arg member) embeddingData session) ∧
    ∀ fuel r s₁, save env e fuel question (answer.arg member) embeddingData session s = some (r, s₁) → r = .ok () ∧
      ∀ fuel ops s₂ ps w later, runOps env e fuel s₁ ops = some s₂ → runs α env fuel ps s₂.2 = some w →
        w.evicted = later ++ s₁.2.evicted → nextId s.2.s.ids ∉ later →
        ∃ data w', getScalarData env (nextId s.2.s.ids) none w = some (.ok (some data), w') ∧
          data.answers = (answer.given.map (readBack env)).map Answer.given := by
  obtain ⟨stored, cost, s₁, hsave, hindex, hpresent, h₁⟩ :=
    save_present hf hpath hquestion member hpair htaken embeddingData session hopened hwf h
  refine ⟨fun hclean => ⟨(e.cls.cache s₁.1).data.len + 1, ?_⟩, fun fuel r s₂ hrun => ?_⟩
  · rw [hsave]
    exact (setitem_present hf hclear hm hpresent _).2 hclean (Nat.lt_succ_self _)
  rw [hsave] at hrun
  obtain ⟨hok, hwf₂, hheld₂⟩ := (setitem_present hf hclear hm hpresent _).1 r s₂ hrun
  rw [← MemoryCacheEviction.put_one] at hrun
  have h₂ := h₁.kept (put_objects hclear _ _ _ _ _ hrun)
  refine ⟨hok, fun fuel ops s₃ ps w later hops hruns hevicted hid => ?_⟩
  have hkept := IsTrans.trans (r := ObjectsKept env) _ _ _ (runOps_within hclear (objects_methods hpath) ops hops)
    (runs_within (objects_methods hpath) ps hruns)
  obtain ⟨later', hevicted', hwf', hheld'⟩ : Stays (nextId s.2.s.ids) stored s₂.2 w :=
    IsTrans.trans (r := Stays (nextId s.2.s.ids) stored) _ _ _ (runOps_within hclear stays_steps.methods ops hops)
      (runs_within stays_steps.methods ps hruns)
  obtain rfl : later' = later := List.append_cancel_right (hevicted'.symm.trans hevicted)
  exact getScalarData_loads hf (hwf' hwf₂) (hheld' hwf₂ hid hheld₂) (h₂.kept hkept)

/-- What goes wrong raises, however much fuel there is. -/
theorem save_raises {answer : SavedAnswer B} (hbad : answer.isPair = true ∨ ¬ Taken env answer.given ∨ m = 0)
    (fuel : Nat)
    (embeddingData : E) (session : Option String) {s : σ × World B E} (hopened : Opened e m s) (hwf : s.2.s.WellFormed)
    (h : LoadsAs env [] [] s.2) :
    ∃ err s', save env e fuel question (answer.arg member) embeddingData session s = some (.error err, s') := by
  rcases Bool.eq_false_or_eq_true answer.isPair with hpair | hpair
  · exact save_pair fuel question member hpair embeddingData session h
  by_cases htaken : Taken env answer.given
  · obtain rfl : m = 0 := by simpa [hpair, htaken] using hbad
    obtain ⟨stored, cost, s₁, hsave, -, hpresent, -⟩ :=
      save_present hf hpath hquestion member hpair htaken embeddingData session hopened hwf h
    exact ⟨_, _, (hsave fuel).trans (setitem_no_capacity hpresent.toOpened _)⟩
  · exact save_refused hf hpath fuel hquestion member hpair htaken embeddingData session h

theorem transparent_iff (hclear : e.onEvict = World.clear env) (answer : SavedAnswer B) (embeddingData : E)
    (session : Option String) {s : σ × World B E} (hopened : Opened e m s) (hwf : s.2.s.WellFormed)
    (h : LoadsAs env [] [] s.2) :
    (1 ≤ e.cleanSize → SaveEnds env e s question (answer.arg member) embeddingData session) ∧
    (SaveEnds env e s question (answer.arg member) embeddingData session →
      (Transparent env e s question (answer.arg member) answer.given embeddingData session ↔
        answer.isPair = false ∧ GivenBack env answer.given ∧ 1 ≤ m)) := by
  by_cases hbad : answer.isPair = true ∨ ¬ Taken env answer.given ∨ m = 0
  · obtain ⟨err, s', hrun⟩ := save_raises hf hpath hquestion member hbad 0 embeddingData session hopened hwf h
    refine ⟨fun _ => ⟨0, by rw [hrun]; rfl⟩, fun _ => iff_of_false (fun htransparent => ?_) fun hgood => ?_⟩
    · exact absurd (htransparent _ _ _ hrun).1 nofun
    · obtain ⟨hpair, hgiven, hm⟩ := hgood
      rcases hbad with hpair' | htaken | rfl
      · rw [hpair] at hpair'
        cases hpair'
      · exact htaken hgiven.taken
      · omega
  · obtain ⟨hpair, hrest⟩ := not_or.mp hbad
    obtain ⟨htaken, hm⟩ := not_or.mp hrest
    have hpair : answer.isPair = false := by simpa using hpair
    have htaken : Taken env answer.given := not_not.mp htaken
    have hm : 1 ≤ m := Nat.one_le_iff_ne_zero.mpr hm
    obtain ⟨hends, hread⟩ := save_read hf hpath hquestion member hclear hpair htaken hm embeddingData
      session hopened hwf h
    refine ⟨hends, fun hends => ?_⟩
    simp only [hpair, hm, and_true, true_and]
    rw [givenBack_iff htaken]
    constructor
    · intro htransparent
      obtain ⟨fuel, hends⟩ := hends
      obtain ⟨⟨r, s₁⟩, hrun⟩ := Option.isSome_iff_exists.mp hends
      -- The entry is read right after it was saved.
      obtain ⟨data, w', hget, hanswers⟩ :=
        (htransparent fuel r s₁ hrun).2 0 [] s₁ [] s₁.2 [] rfl rfl rfl List.not_mem_nil
      obtain ⟨data', w'', hget', hanswers'⟩ := (hread fuel r s₁ hrun).2 0 [] s₁ [] s₁.2 [] rfl rfl rfl List.not_mem_nil
      cases hget.symm.trans hget'
      exact hanswers'.symm.trans hanswers
    · intro hsame
      rw [hsame] at hread
      exact hread

end

/-- **Answers through the object store.** Processes run one after another over
stores that start empty and do not fail, with a new path for every object; the
last one has got to anywhere between two calls. A `save` that ends, as it does
wherever batches are not empty, is read back as it was given just when it is no
pair of an answer and its type, the column gives back what is left in it, and
the index has a capacity at all. -/
theorem object_answers_iff (hf : ∀ n, env.fails n = false) (hpath : Function.Injective env.path)
    {ps : List (Process B E)} {p : Process B E} {w w' : World B E} {mgr : Manager B E α}
    (hruns : runs α env fuel ps (World.init true) = some w) (hrun : p.run env fuel w = some (.ok mgr, w'))
    {question : QuestionArg} (hquestion : Downloads env question) (member : DataType → B) (answer : SavedAnswer B)
    (embeddingData : E) (session : Option String) :
    (1 ≤ mgr.e.cleanSize → SaveEnds env mgr.e (mgr.index, w') question (answer.arg member) embeddingData session) ∧
    (SaveEnds env mgr.e (mgr.index, w') question (answer.arg member) embeddingData session →
      (Transparent env mgr.e (mgr.index, w') question (answer.arg member) answer.given embeddingData session ↔
        answer.isPair = false ∧ GivenBack env answer.given ∧ 1 ≤ p.maxSize)) := by
  obtain ⟨hclear, hopened⟩ := Opened.process hrun
  have hkept : ObjectsKept env (World.init true) w' :=
    IsTrans.trans (r := ObjectsKept env) _ _ _ (runs_within (objects_methods hpath) ps hruns)
      (process_within (objects_methods hpath) hrun)
  obtain ⟨-, -, hwf, -⟩ : Stays 0 [] (World.init true) w' :=
    IsTrans.trans (r := Stays 0 []) _ _ _ (runs_within stays_steps.methods ps hruns)
      (process_within stays_steps.methods hrun)
  have hempty : LoadsAs env [] [] (World.init true : World B E) := ⟨[], rfl, .nil, rfl⟩
  exact transparent_iff hf hpath hquestion member hclear answer embeddingData session hopened
    (hwf SQLStorage.empty_wellFormed) (hempty.kept hkept)

/-- Stores that do not fail, with a path for every object. -/
def unaryPaths : Env Unit Unit Unit where
  norm := fun _ => ()
  div := fun _ _ => ()
  float32 := fun _ => ()
  download := fun _ => .ok ()
  path := fun n => String.ofList (List.replicate n '/')
  fails := fun _ => false
  reindexes := false

theorem unaryPaths_injective : Function.Injective unaryPaths.path := by
  intro m n h
  have hlength : (String.ofList (List.replicate m '/')).length = (String.ofList (List.replicate n '/')).length :=
    congrArg String.length h
  simpa using hlength

def lruOfOne : Process Unit Unit := ⟨.LRU, 1, 1, fun n => n, []⟩

theorem process_cleanSize {p : Process B E} (hclean : 1 ≤ p.cleanSize) {w w' : World B E} {mgr : Manager B E α}
    (hrun : p.run env fuel w = some (.ok mgr, w')) : mgr.e.cleanSize = p.cleanSize := by
  simp only [Process.run, get_memory p.draws p.policy p.maxSize hclean] at hrun
  split at hrun
  · cases hrun
  · cases hrun
  · obtain ⟨s', -, heq⟩ := Option.map_eq_some_iff.mp hrun
    cases heq
    rfl

/-- A text and an image. -/
theorem object_answers_iff_image : ∃ (mgr : Manager Unit Unit Unit) (w' : World Unit Unit),
    lruOfOne.run unaryPaths 2 (World.init true) = some (.ok mgr, w') ∧
      Transparent unaryPaths mgr.e (mgr.index, w') (.str "q")
        ((SavedAnswer.answers [⟨.str "a", .STR⟩, ⟨.other (), .IMAGE_BASE64⟩]).arg fun _ => ())
        [⟨.str "a", .STR⟩, ⟨.other (), .IMAGE_BASE64⟩] () none := by
  obtain ⟨mgr, w', hrun, -⟩ := process_run (α := Unit) (fun _ => rfl) lruOfOne (by decide) (by decide)
    (by decide : lruOfOne.maxSize < 2) (init_consistent unaryPaths true)
  refine ⟨mgr, w', hrun, ?_⟩
  have hdownloads : Downloads unaryPaths (.str "q") := nofun
  have hruns : runs Unit unaryPaths 2 [] (World.init true) = some (World.init true) := rfl
  have hclean : 1 ≤ mgr.e.cleanSize := (process_cleanSize (by decide) hrun).ge
  have hgiven : GivenBack unaryPaths (SavedAnswer.answers [⟨.str "a", .STR⟩, ⟨.other (), .IMAGE_BASE64⟩]).given := by
    simp [GivenBack, SavedAnswer.given, Env.kept]
  obtain ⟨hends, hiff⟩ := object_answers_iff (fun _ => rfl) unaryPaths_injective hruns hrun hdownloads (fun _ => ())
    (.answers [⟨.str "a", .STR⟩, ⟨.other (), .IMAGE_BASE64⟩]) () none
  exact (hiff (hends hclean)).mpr ⟨rfl, hgiven, by decide⟩

/-- A pair is documented, and raises. -/
theorem pair_raises : ∃ (mgr : Manager Unit Unit Unit) (w' : World Unit Unit),
    lruOfOne.run unaryPaths 2 (World.init true) = some (.ok mgr, w') ∧
      ∀ fuel, ∃ err s', save unaryPaths mgr.e fuel (.str "q")
        ((SavedAnswer.pair (.str "hi") .STR).arg fun _ => ()) () none (mgr.index, w') = some (.error err, s') := by
  obtain ⟨mgr, w', hrun, -⟩ := process_run (α := Unit) (fun _ => rfl) lruOfOne (by decide) (by decide)
    (by decide : lruOfOne.maxSize < 2) (init_consistent unaryPaths true)
  have hempty : LoadsAs unaryPaths [] [] (World.init true) := ⟨[], rfl, .nil, rfl⟩
  have h := hempty.kept (process_within (objects_methods unaryPaths_injective) hrun)
  exact ⟨mgr, w', hrun, fun fuel => save_pair fuel (.str "q") (fun _ => ()) rfl () none h⟩

end GptCache.SSDataManager
