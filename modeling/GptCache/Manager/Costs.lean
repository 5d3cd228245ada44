/-
What an entry costs.

`_answer_cost` takes every payload that is a text for a text answer. The
payload of an answer of another type can be one: the caller's, or, with an
object store, the path the object was put at, which `_process_answer_data`
writes in its place. These texts are charged too (`importCost_eq`), so a cost
is that of the text answers just where they do not show (`import_costs_iff`).
-/
import GptCache.Manager.Consistency

namespace GptCache.SSDataManager

variable {B E S : Type} {env : Env B E S}

/-! ## The two parts -/

/-- The length of the text answers. -/
def textLength (answers : List (Answer B)) : Nat :=
  ((answers.filter fun a => a.answerType = .STR).map fun a => a.answer.cost).sum

/-- The length of the texts kept for the other answers: their own payloads,
or the paths of the objects from the `n`-th on, where there is an object store
with `n` objects. -/
def handleLength (env : Env B E S) : Option Nat → List (Answer B) → Nat
  | _, [] => 0
  | objects, a :: answers =>
    if a.answerType = .STR then handleLength env objects answers
    else
      match objects with
      | none => a.answer.cost + handleLength env none answers
      | some n => (env.path n).length + handleLength env (some (n + 1)) answers

/-- The length of all payloads that are texts. -/
def payloadLength (answers : List (Answer B)) : Nat := (answers.map fun a => a.answer.cost).sum

@[simp] theorem payloadLength_cons (a : Answer B) (answers : List (Answer B)) :
    payloadLength (a :: answers) = a.answer.cost + payloadLength answers := rfl

@[simp] theorem textLength_cons (a : Answer B) (answers : List (Answer B)) :
    textLength (a :: answers) = (if a.answerType = .STR then a.answer.cost else 0) + textLength answers := by
  by_cases hstr : a.answerType = .STR <;> simp [textLength, hstr]

theorem payloadLength_eq (env : Env B E S) (answers : List (Answer B)) :
    payloadLength answers = textLength answers + handleLength env none answers := by
  induction answers with
  | nil => rfl
  | cons a answers ih =>
    rw [payloadLength_cons, textLength_cons, handleLength, ih]
    split <;> omega

theorem importCost_payload (data : CacheData B E) : importCost data = (max (payloadLength data.answers) 1 : Nat) := by
  rw [importCost, answerCost, List.map_map]
  rfl

/-! ## Objects -/

/-- How many objects there are, where there is an object store. -/
def objectCount (w : World B E) : Option Nat := w.o.map List.length

theorem putObject_ok {obj : Content B} {w w' : World B E} {path : String}
    (h : putObject env obj w = some (.ok path, w')) :
    ∃ n, objectCount w = some n ∧ path = env.path n ∧ objectCount w' = some (n + 1) := by
  rw [putObject, Exec.read_bind] at h
  cases ho : w.o with
  | none =>
    simp only [ho] at h
    exact absurd h Exec.raise_ok
  | some objs =>
    simp only [ho, World.call, Exec.total] at h
    cases hfails : env.fails w.calls with
    | true => simp [hfails] at h
    | false =>
      simp only [hfails, Bool.false_eq_true, if_false, Option.some.injEq, Prod.mk.injEq, Except.ok.injEq] at h
      obtain ⟨rfl, rfl⟩ := h
      exact ⟨objs.length, by simp [objectCount, ho], rfl, by simp [objectCount]⟩

theorem storeDeps_ok : ∀ {deps : List QuestionDep} {w w' : World B E}, storeDeps env deps w = some (.ok (), w') →
    objectCount w' = (objectCount w).map (· + (deps.map depPuts).sum)
  | [], w, w', h => by
    obtain ⟨-, rfl⟩ := Exec.pure_ok.mp h
    simp
  | dep :: deps, w, w', h => by
    obtain ⟨_, w₁, hdep, hdeps⟩ := Exec.bind_ok.mp h
    rw [storeDeps_ok hdeps, List.map_cons, List.sum_cons, depPuts]
    dsimp only at hdep
    by_cases himage : dep.depType = .IMAGE_URL
    · rw [if_pos himage] at hdep ⊢
      rw [Exec.read_bind] at hdep
      split at hdep
      · exact absurd hdep Exec.raise_ok
      · cases hdownload : env.download dep.data with
        | error err =>
          simp only [hdownload] at hdep
          exact absurd hdep Exec.raise_ok
        | ok content =>
          simp only [hdownload] at hdep
          obtain ⟨path, w₂, hput, hdep⟩ := Exec.bind_ok.mp hdep
          obtain ⟨-, rfl⟩ := Exec.pure_ok.mp hdep
          obtain ⟨n, hn, -, hn'⟩ := putObject_ok hput
          simp only [hn, hn', Option.map_some]
          congr 1
          omega
    · rw [if_neg himage] at hdep ⊢
      obtain ⟨-, rfl⟩ := Exec.pure_ok.mp hdep
      simp

theorem processQuestionData_ok {question : QuestionArg} {q : Question} {w w' : World B E}
    (h : processQuestionData env question w = some (.ok q, w')) :
    objectCount w' = (objectCount w).map (· + questionPuts question) := by
  cases question with
  | str s =>
    obtain ⟨-, rfl⟩ := Exec.pure_ok.mp h
    simp [questionPuts]
  | question q =>
    simp only [processQuestionData] at h
    cases hdeps : q.deps with
    | none =>
      simp only [hdeps] at h
      obtain ⟨-, rfl⟩ := Exec.pure_ok.mp h
      simp [questionPuts, hdeps]
    | some deps =>
      simp only [hdeps] at h
      obtain ⟨_, w₁, hstore, h⟩ := Exec.bind_ok.mp h
      obtain ⟨-, rfl⟩ := Exec.pure_ok.mp h
      rw [storeDeps_ok hstore, questionPuts, hdeps, Option.getD_some]

/-- The processed answers are charged for their texts and for the paths of the rest. -/
theorem processAnswers_ok : ∀ {answers out : List (AnswerItem B)} {n : Nat} {w w' : World B E},
    processAnswers env answers w = some (.ok out, w') → objectCount w = some n →
      payloadLength (out.map AnswerItem.toAnswer) =
        textLength (answers.map AnswerItem.toAnswer) + handleLength env (some n) (answers.map AnswerItem.toAnswer) ∧
      objectCount w' = some (n + (answers.map answerItemPuts).sum)
  | [], out, n, w, w', h, hn => by
    obtain ⟨rfl, rfl⟩ := Exec.pure_ok.mp h
    exact ⟨rfl, hn⟩
  | .answer a :: answers, out, n, w, w', h, hn => by
    obtain ⟨a', w₁, hfirst, h⟩ := Exec.bind_ok.mp h
    obtain ⟨out, w₂, hrest, h⟩ := Exec.bind_ok.mp h
    obtain ⟨rfl, rfl⟩ := Exec.pure_ok.mp h
    simp only [List.map_cons, AnswerItem.toAnswer, payloadLength_cons, textLength_cons, handleLength, List.sum_cons,
      answerItemPuts]
    by_cases hstr : a.answerType = .STR
    · rw [if_pos hstr] at hfirst
      obtain ⟨rfl, rfl⟩ := Exec.pure_ok.mp hfirst
      obtain ⟨hlength, hcount⟩ := processAnswers_ok hrest hn
      rw [if_pos hstr, if_pos hstr, if_pos hstr, hlength, hcount, Nat.zero_add]
      exact ⟨by omega, rfl⟩
    · rw [if_neg hstr] at hfirst
      obtain ⟨path, w₃, hput, hfirst⟩ := Exec.bind_ok.mp hfirst
      obtain ⟨rfl, rfl⟩ := Exec.pure_ok.mp hfirst
      obtain ⟨n', hn', rfl, hcount₁⟩ := putObject_ok hput
      obtain rfl : n = n' := Option.some.inj (hn.symm.trans hn')
      obtain ⟨hlength, hcount⟩ := processAnswers_ok hrest hcount₁
      rw [if_neg hstr, if_neg hstr, if_neg hstr, hlength, hcount, Content.cost]
      exact ⟨by omega, by rw [Nat.add_assoc]⟩
  | .pair _ _ :: _, _, _, _, _, h, _ => absurd h Exec.raise_ok
  | .plain (.str _) :: _, _, _, _, _, h, _ => absurd h Exec.raise_ok
  | .plain (.other _) :: _, _, _, _, _, h, _ => absurd h Exec.raise_ok

theorem processAnswerData_ok {answers ans : AnswerArg B} {n : Nat} {w w' : World B E} (hstr : ∀ s, answers ≠ .str s)
    (h : processAnswerData env answers w = some (.ok ans, w')) (hn : objectCount w = some n) :
    payloadLength ans.toAnswers = textLength answers.toAnswers + handleLength env (some n) answers.toAnswers ∧
      objectCount w' = some (n + answerPuts answers) := by
  cases answers with
  | str s => exact absurd rfl (hstr s)
  | answer a =>
    obtain ⟨out, w₁, hout, h⟩ := Exec.bind_ok.mp h
    obtain ⟨rfl, rfl⟩ := Exec.pure_ok.mp h
    exact processAnswers_ok hout hn
  | items xs =>
    obtain ⟨out, w₁, hout, h⟩ := Exec.bind_ok.mp h
    obtain ⟨rfl, rfl⟩ := Exec.pure_ok.mp h
    exact processAnswers_ok hout hn

/-! ## Entries -/

/-- The answers as `cacheData` goes on with them. -/
theorem answers_ok {answers ans : AnswerArg B} {w w' : World B E}
    (h : (match w.o, answers with
      | none, answers => pure answers
      | some _, .str s => pure (.str s)
      | some _, answers => processAnswerData env answers : Exec PyError (World B E) (AnswerArg B)) w =
          some (.ok ans, w')) :
    payloadLength ans.toAnswers = textLength answers.toAnswers + handleLength env (objectCount w) answers.toAnswers ∧
      objectCount w' = (objectCount w).map (· + answerPuts answers) := by
  cases ho : w.o with
  | none =>
    have hcount : objectCount w = none := by simp [objectCount, ho]
    simp only [ho] at h
    obtain ⟨rfl, rfl⟩ := Exec.pure_ok.mp h
    rw [hcount]
    exact ⟨payloadLength_eq env _, rfl⟩
  | some objs =>
    have hcount : objectCount w = some objs.length := by simp [objectCount, ho]
    simp only [ho] at h
    rw [hcount]
    cases answers with
    | str s =>
      obtain ⟨rfl, rfl⟩ := Exec.pure_ok.mp h
      refine ⟨?_, hcount⟩
      simp [AnswerArg.toAnswers, handleLength, payloadLength, textLength]
    | answer a => exact processAnswerData_ok (by simp) h hcount
    | items xs => exact processAnswerData_ok (by simp) h hcount

/-- What an entry is charged for: its texts, and what is kept for its other answers. -/
theorem importCost_eq {entry : Entry B E} {data : CacheData B E} {w w' : World B E}
    (h : cacheData env entry w = some (.ok data, w')) :
    importCost data = (max (textLength entry.2.1.toAnswers + handleLength env
      (objectCount w) entry.2.1.toAnswers) 1 : Nat) ∧
      objectCount w' = (objectCount w).map (· + entryPuts true entry.1 entry.2.1) := by
  obtain ⟨question, answers, embeddingData, sessionId⟩ := entry
  rw [cacheData, Exec.read_bind] at h
  obtain ⟨ans, w₁, hans, h⟩ := Exec.bind_ok.mp h
  obtain ⟨q, w₂, hquestion, h⟩ := Exec.bind_ok.mp h
  obtain ⟨rfl, rfl⟩ := Exec.pure_ok.mp h
  obtain ⟨hlength, hcount⟩ := answers_ok hans
  refine ⟨by rw [importCost_payload, ← hlength]; rfl, ?_⟩
  rw [processQuestionData_ok hquestion, hcount, Option.map_map]
  congr 1
  funext n
  simp only [Function.comp, entryPuts, if_true, Nat.add_assoc]

/-- Each entry, when the objects of those before it have been put. -/
theorem importCosts_eq : ∀ {entries : List (Entry B E)} {datas : List (CacheData B E)} {w w' : World B E},
    cacheDatas env entries w = some (.ok datas, w') →
      datas.map importCost = entries.zipIdx.map fun p =>
        ((max (textLength p.1.2.1.toAnswers + handleLength env
          ((objectCount w).map (· + objectPuts true (entries.take p.2))) p.1.2.1.toAnswers) 1 : Nat) : ℚ)
  | [], datas, w, w', h => by
    obtain ⟨rfl, -⟩ := Exec.pure_ok.mp h
    rfl
  | entry :: entries, datas, w, w', h => by
    obtain ⟨data, w₁, hfirst, h⟩ := Exec.bind_ok.mp h
    obtain ⟨datas, w₂, hrest, h⟩ := Exec.bind_ok.mp h
    obtain ⟨rfl, -⟩ := Exec.pure_ok.mp h
    obtain ⟨hcost, hcount⟩ := importCost_eq hfirst
    rw [List.map_cons, hcost, importCosts_eq hrest, List.zipIdx_cons', List.map_cons, List.map_map, hcount]
    congr 1
    · simp [objectPuts]
    · refine List.map_congr_left fun p _ => ?_
      simp [objectPuts, Function.comp_def, Nat.add_assoc]

/-- What can be inserted is what was made of the entries. -/
theorem insertable_ok {entries : List (Entry B E)} {datas : List (CacheData B E)} {w w' : World B E}
    (h : insertable env entries w = some (.ok datas, w')) :
    cacheDatas env entries w = some (.ok datas, w') ∧
      ∀ data ∈ datas, ∀ ans ∈ data.answers, (env.kept ans.answer).isSome = true := by
  obtain ⟨datas', w₁, hdatas, h⟩ := Exec.bind_ok.mp h
  split at h
  · rename_i hkept
    obtain ⟨rfl, rfl⟩ := Exec.pure_ok.mp h
    exact ⟨hdatas, by simpa using hkept⟩
  · exact absurd h Exec.raise_ok

/-! ## Imports -/

/-- How many objects `import_data` has put when it comes to the `i`-th entry, with an object store. -/
def objectsBefore (questions : List QuestionArg) (answers : List (AnswerArg B)) (i : Nat) : Nat :=
  (((questions.zip answers).take i).map fun entry => entryPuts true entry.1 entry.2).sum

/-- A charge shows no more than the texts. -/
theorem charge_eq_iff (text handles : Nat) :
    ((max (text + handles) 1 : Nat) : ℚ) = (max 1 text : Nat) ↔ handles = 0 ∨ text = 0 ∧ handles ≤ 1 := by
  rw [Nat.cast_inj]
  omega

variable {σ α : Type}

/-- **Costs.** The rows of an import are in the stores. It goes on with a `put`
of one cost for each entry, and the cost of an entry is the length of its text
answers, at least 1, just when no text is kept for its other answers, or one
of a single character and it has no other text. -/
theorem import_costs_iff (e : MemoryCacheEviction σ Nat α (World B E)) (fuel : Nat) {s s' : σ × World B E}
    {questions : List QuestionArg} {answers : List (AnswerArg B)} {embeddingDatas : List E}
    {sessionIds : List (Option String)} {ids : List Nat} {datas : List (CacheData B E)}
    (h : importRows env questions answers embeddingDatas sessionIds s = some (.ok (ids, datas), s')) :
    importData env e fuel questions answers embeddingDatas sessionIds s =
        e.put fuel ids (some (datas.map importCost)) s' ∧
      (datas.map importCost).length = answers.length ∧
      ∀ i (hi : i < answers.length),
        ((datas.map importCost)[i]? = some ((max 1 (textLength answers[i].toAnswers) : Nat) : ℚ) ↔
          handleLength env ((objectCount s.2).map (· + objectsBefore questions answers i)) answers[i].toAnswers = 0 ∨
          textLength answers[i].toAnswers = 0 ∧
            handleLength env ((objectCount s.2).map (· + objectsBefore questions answers i)) answers[i].toAnswers ≤
              1) := by
  refine ⟨by rw [importData_eq, Exec.bind_of_ok _ h], ?_⟩
  unfold importRows at h
  split at h
  · exact absurd h Exec.raise_ok
  rename_i hlen
  simp only [not_or, not_not] at hlen
  obtain ⟨hanswers, hembeddings, hsessions⟩ := hlen
  obtain ⟨entries, hentries⟩ : ∃ entries, entries =
    questions.zip (answers.zip ((embeddingDatas.map (normalize env)).zip sessionIds)) := ⟨_, rfl⟩
  obtain ⟨datas', s₁, hdatas, h⟩ := Exec.bind_ok.mp h
  obtain ⟨ids', s₂, -, h⟩ := Exec.bind_ok.mp h
  obtain ⟨_, s₃, -, h⟩ := Exec.bind_ok.mp h
  obtain ⟨heq, rfl⟩ := Exec.pure_ok.mp h
  cases heq
  have hcosts := importCosts_eq (insertable_ok (Exec.onSnd_eq_some.mp hdatas).1).1
  rw [← hentries] at hcosts
  have hlength : entries.length = answers.length := by
    simp only [hentries, List.length_zip, List.length_map]
    omega
  have hpair : entries.map (fun entry => (entry.1, entry.2.1)) = questions.zip answers := by
    refine List.ext_getElem (by simp only [List.length_map, hlength, List.length_zip]; omega) fun i hi hi' => ?_
    simp [hentries]
  have hbefore : ∀ i, objectPuts true (entries.take i) = objectsBefore questions answers i := by
    intro i
    rw [objectsBefore, ← hpair, ← List.map_take, List.map_map]
    rfl
  refine ⟨by rw [hcosts, List.length_map, List.length_zipIdx, hlength], fun i hi => ?_⟩
  have hi' : i < entries.length := hlength ▸ hi
  have hentry : entries[i].2.1 = answers[i] := by simp [hentries]
  rw [← charge_eq_iff, hcosts, List.getElem?_map, List.getElem?_eq_getElem (by simpa using hi')]
  simp only [List.getElem_zipIdx, Nat.zero_add, Option.map_some, Option.some.injEq, hbefore, hentry]

/-- Stores that do not fail, with objects at one path. -/
def onePath : Env Unit Unit Unit where
  norm := fun _ => ()
  div := fun _ _ => ()
  float32 := fun _ => ()
  download := fun _ => .ok ()
  path := fun _ => "/objects/1"
  fails := fun _ => false
  reindexes := false

/-- A text, and a text with an image that is kept as it is. -/
theorem import_costs_iff_texts :
    let e : MemoryCacheEviction (LRUCache Nat (Value Unit)) Nat Unit (World Unit Unit) :=
      .ofPolicy id .LRU 1 (World.clear onePath)
    let answers : List (AnswerArg Unit) :=
      [.str "hi", .items [.answer ⟨.str "a", .STR⟩, .answer ⟨.other (), .IMAGE_BASE64⟩]]
    let index := e.cls.new (2 : Nat) fun _ => 1
    ∃ (ids : List Nat) (datas : List (CacheData Unit Unit)) (s' : LRUCache Nat (Value Unit) × World Unit Unit),
      importData onePath e 3 [.str "p", .str "q"] answers [(), ()] [none, none] (index, World.init false) =
        e.put 3 ids (some (datas.map importCost)) s' ∧
      (datas.map importCost)[0]? = some ((2 : Nat) : ℚ) ∧ (datas.map importCost)[1]? = some ((1 : Nat) : ℚ) := by
  intro e answers index
  obtain ⟨ids, datas, s', h⟩ : ∃ ids datas s', importRows onePath [.str "p", .str "q"] answers [(), ()] [none, none]
      (index, World.init false) = some (.ok (ids, datas), s') := ⟨_, _, _, rfl⟩
  obtain ⟨hput, -, hcosts⟩ := import_costs_iff e 3 h
  exact ⟨ids, datas, s', hput, (hcosts 0 (by decide)).mpr (by decide), (hcosts 1 (by decide)).mpr (by decide)⟩

/-- An image costs the length of the path it is kept at. -/
theorem image_path_charged : ∃ (ids : List Nat) (datas : List (CacheData Unit Unit)) (s' : Unit × World Unit Unit),
    importRows onePath [.str "q"] [.answer ⟨.other (), .IMAGE_BASE64⟩] [()] [none] ((), World.init true) =
      some (.ok (ids, datas), s') ∧
    datas.map importCost = [10] ∧ max 1 (textLength [(⟨.other (), .IMAGE_BASE64⟩ : Answer Unit)]) = 1 :=
  ⟨_, _, _, rfl, by decide +kernel, by decide⟩

end GptCache.SSDataManager
