/-
Answers stay with the question they were saved for.

`Genuine`: the answers stored under a question are texts, each as `stored` says
of it and the question. Whatever is inserted, evicted, cleared and rebuilt, and
whatever calls of the stores fail, the rows stay so if what is imported is
(`importData_genuine`), and `get_scalar_data` returns the question and the
answers of one row (`getScalarData_genuine`).
-/
import GptCache.Manager.Remembers

namespace GptCache

variable {B E S : Type} {env : Env B E S} {stored : String → Content B → Prop}

/-! ## The rows -/

/-- Texts, each stored as an answer to the question. -/
def TextAnswers (stored : String → Content B → Prop) (question : String) (answers : List (Answer B)) : Prop :=
  ∀ ans ∈ answers, ans.answerType = .STR ∧ stored question ans.answer ∧ ∃ s, ans.answer = .str s

/-- Their rows give them back as they are. -/
theorem TextAnswers.map_rowAnswer {question : String} {answers : List (Answer B)}
    (h : TextAnswers stored question answers) :
    answers.map env.rowAnswer = answers := by
  refine (List.map_congr_left fun ans hans => ?_).trans (List.map_id answers)
  obtain ⟨-, -, s, hs⟩ := h ans hans
  obtain ⟨answer, answerType⟩ := ans
  obtain rfl : answer = .str s := hs
  rfl

namespace SQLStorage

structure Genuine (stored : String → Content B → Prop) (s : SQLStorage B E) : Prop where
  wellFormed : s.WellFormed
  answers : ∀ r ∈ s.ques, TextAnswers stored r.question (s.answersOf r.id)

namespace Genuine

variable {s : SQLStorage B E}

theorem empty : (SQLStorage.empty : SQLStorage B E).Genuine stored := ⟨empty_wellFormed, fun _ hr => by cases hr⟩

theorem markDeleted (h : s.Genuine stored) (keys : List Nat) : (s.markDeleted keys).Genuine stored := by
  refine ⟨markDeleted_wellFormed h.wellFormed keys, fun r hr => ?_⟩
  obtain ⟨r', hr', rfl⟩ := List.mem_map.mp hr
  have hsame : (if r'.id ∈ keys then { r' with deleted := -1 } else r').id = r'.id ∧
      (if r'.id ∈ keys then { r' with deleted := -1 } else r').question = r'.question := by
    split <;> exact ⟨rfl, rfl⟩
  rw [hsame.1, hsame.2]
  exact h.answers r' hr'

theorem clearDeletedData (h : s.Genuine stored) : s.clearDeletedData.Genuine stored := by
  refine ⟨clearDeletedData_wellFormed h.wellFormed, fun r hr => ?_⟩
  rw [clearDeletedData_ques] at hr
  obtain ⟨hr, hkept⟩ := List.mem_filter.mp hr
  have hlive : r.deleted = 0 := (h.wellFormed.state r hr).resolve_right (by simpa using hkept)
  have hid : r.id ∈ s.getIds false := List.mem_map_of_mem (List.mem_filter.mpr ⟨hr, by simpa using hlive⟩)
  rw [answersOf_clearDeletedData h.wellFormed hid]
  exact h.answers r hr

/-- New rows have their own answers, and no others get any. -/
theorem inserted (h : s.Genuine stored) {datas : List (CacheData B E)}
    (hdatas : ∀ data ∈ datas, TextAnswers stored data.question.content data.answers) {new : List Nat}
    {s' : SQLStorage B E} (hi : Inserted s datas new s') : s'.Genuine stored := by
  refine ⟨hi.wellFormed h.wellFormed, fun r hr => ?_⟩
  rw [hi.ques, List.mem_append] at hr
  rcases hr with hr | hr
  · have hold : r.id ∉ new := fun hid => (hi.fresh h.wellFormed).2 r.id hid (List.mem_map_of_mem hr)
    have hnone : (List.zipWith newAnswers new datas).flatten.filter (fun a => a.questionId = r.id) = [] :=
      List.filter_eq_nil_iff.mpr fun a ha => by
        simpa using fun heq : a.questionId = r.id => hold (heq ▸ questionId_mem_of_mem_zipWith ha)
    have hsame : s'.answersOf r.id = s.answersOf r.id := by
      rw [answersOf, answersOf, hi.answer, List.filter_append, hnone, List.append_nil]
    rw [hsame]
    exact h.answers r hr
  · obtain ⟨i, hi', rfl⟩ := List.mem_iff_getElem.mp hr
    rw [List.length_zipWith] at hi'
    have hnew : i < new.length := by omega
    have hdata : i < datas.length := by omega
    rw [List.getElem_zipWith]
    show TextAnswers stored datas[i].question.content (s'.answersOf new[i])
    rw [hi.answersOf h.wellFormed hnew hdata]
    exact hdatas _ (List.getElem_mem hdata)

theorem addSession (h : s.Genuine stored) (id : Nat) (name data : String) :
    (s.addSession id name data).Genuine stored :=
  ⟨⟨h.wellFormed.ascending, h.wellFormed.state, h.wellFormed.owned⟩, h.answers⟩

/-- What is read is one row's question and its answers. -/
theorem getDataById (h : s.Genuine stored) {id : Nat} {data : StoredData B E}
    (hdata : s.getDataById id = .ok (some data)) :
    TextAnswers stored data.question.content data.answers := by
  unfold SQLStorage.getDataById at hdata
  split at hdata
  · cases hdata
  · rename_i r hfind
    have hr := h.answers r (List.mem_of_find?_eq_some hfind)
    split at hdata
    · cases hdata
    · cases hdata
      dsimp only
      split <;> exact hr

end Genuine

end SQLStorage

/-! ## The stores -/

namespace World

/-- What a call does to the rows. -/
theorem call_genuine {α : Type} {f : World B E → α × World B E}
    (hf : ∀ w, w.s.Genuine stored → (f w).2.s.Genuine stored) :
    Exec.Within (Exec.Carries fun w => w.s.Genuine stored) (call env f) := by
  refine .total fun w h => ?_
  cases env.fails w.calls with
  | true => exact h
  | false => exact hf _ h

theorem delete_genuine : Exec.Within (Exec.Carries fun w => w.s.Genuine stored) (delete (B := B) (E := E) env) := by
  have hrebuild : Exec.Within (Exec.Carries fun w => w.s.Genuine stored) (rebuild (B := B) (E := E) env) := by
    refine (call_genuine fun _ h => h.clearDeletedData).bind fun _ => (call_genuine fun _ h => h).bind fun ids =>
      Exec.Within.bind (call_genuine fun w h => ?_) fun _ => .modify fun _ h => h
    cases env.reindexes <;> exact h
  refine (call_genuine fun _ h => h).bind fun markIds => (call_genuine fun _ h => h.clearDeletedData).bind fun _ =>
    (call_genuine fun _ h => h).bind fun _ => Exec.Within.bind (.modify fun _ h => h) fun _ =>
      Exec.Within.read.bind fun w => ?_
  exact hrebuild.ite (.pure _)

theorem clear_genuine (markedKeys : List Nat) :
    Exec.Within (Exec.Carries fun w => w.s.Genuine stored) (clear (B := B) (E := E) env markedKeys) := by
  have hevict : Exec.Within (Exec.Carries fun w => w.s.Genuine stored) (checkEvict (B := B) (E := E) env) :=
    (call_genuine fun _ h => h).bind fun _ => (call_genuine fun _ h => h).bind fun _ =>
      (Exec.Within.pure _).ite ((Exec.Within.raise _).ite (.pure _))
  refine Exec.Within.bind (.modify fun _ h => h) fun _ => (call_genuine fun _ h => h.markDeleted _).bind fun _ =>
    hevict.bind fun _ => delete_genuine.ite (.pure _)

end World

/-! ## The data manager -/

namespace SSDataManager

/-- An object store takes no texts. -/
theorem processAnswers_text : ∀ {answers newAns : List (AnswerItem B)} {w w' : World B E},
    (∀ x ∈ answers, x.toAnswer.answerType = .STR) → processAnswers env answers w = some (.ok newAns, w') →
      newAns = answers ∧ w' = w
  | [], newAns, w, w', _, h => by
    obtain ⟨rfl, rfl⟩ := Exec.pure_ok.mp h
    exact ⟨rfl, rfl⟩
  | .answer ans :: answers, newAns, w, w', hall, h => by
    obtain ⟨hans, hall⟩ := List.forall_mem_cons.mp hall
    have hstr : ans.answerType = .STR := hans
    rw [processAnswers, if_pos hstr, Exec.pure_bind] at h
    obtain ⟨rest, w₁, hrest, hnew⟩ := Exec.bind_ok.mp h
    obtain ⟨heq, hw⟩ := processAnswers_text hall hrest
    obtain ⟨rfl, rfl⟩ := Exec.pure_ok.mp hnew
    exact ⟨congrArg _ heq, hw⟩
  | .pair _ _ :: _, _, _, _, _, h => absurd h Exec.raise_ok
  | .plain (.str _) :: _, _, _, _, _, h => absurd h Exec.raise_ok
  | .plain (.other _) :: _, _, _, _, _, h => absurd h Exec.raise_ok

/-- A question's content is stored as it is. -/
theorem processQuestionData_content {question : QuestionArg} {q : Question} {w w' : World B E}
    (h : processQuestionData env question w = some (.ok q, w')) : q.content = question.content := by
  cases question with
  | str s =>
    obtain ⟨rfl, -⟩ := Exec.pure_ok.mp h
    rfl
  | question q' =>
    cases hdeps : q'.deps with
    | none =>
      simp only [processQuestionData, hdeps] at h
      obtain ⟨rfl, -⟩ := Exec.pure_ok.mp h
      rfl
    | some deps =>
      simp only [processQuestionData, hdeps] at h
      obtain ⟨_, _, -, hq⟩ := Exec.bind_ok.mp h
      obtain ⟨rfl, -⟩ := Exec.pure_ok.mp hq
      rfl

/-- Texts are stored as they are given. -/
theorem cacheData_text {entry : Entry B E} {data : CacheData B E} {w w' : World B E}
    (hentry : TextAnswers stored entry.1.content entry.2.1.toAnswers)
    (h : cacheData env entry w = some (.ok data, w')) :
    TextAnswers stored data.question.content data.answers := by
  obtain ⟨question, answers, embeddingData, sessionId⟩ := entry
  rw [cacheData, Exec.read_bind] at h
  obtain ⟨ans, w₁, hans, h⟩ := Exec.bind_ok.mp h
  obtain ⟨q, w₂, hq, h⟩ := Exec.bind_ok.mp h
  obtain ⟨rfl, -⟩ := Exec.pure_ok.mp h
  have hsame : ans.toAnswers = answers.toAnswers := by
    have hitems : ∀ {items : List (AnswerItem B)}, (∀ x ∈ items, x.toAnswer.answerType = .STR) →
        (processAnswers env items >>= fun xs => pure (.items xs)) w = some (.ok ans, w₁) →
          ans.toAnswers = items.map AnswerItem.toAnswer := by
      intro items hall h
      obtain ⟨xs, w₃, hxs, hnew⟩ := Exec.bind_ok.mp h
      rw [← (Exec.pure_ok.mp hnew).1, AnswerArg.toAnswers, (processAnswers_text hall hxs).1]
    cases ho : w.o with
    | none =>
      rw [ho] at hans
      rw [(Exec.pure_ok.mp hans).1]
    | some objs =>
      rw [ho] at hans
      cases answers with
      | str s => rw [(Exec.pure_ok.mp hans).1]
      | answer a => exact hitems (fun x hx => by
          rw [List.mem_singleton.mp hx]; exact (hentry a List.mem_cons_self).1) hans
      | items xs => exact hitems (fun x hx => (hentry _ (List.mem_map_of_mem hx)).1) hans
  have hcontent : q.content = question.content := processQuestionData_content hq
  show TextAnswers stored q.content ans.toAnswers
  rw [hsame, hcontent]
  exact hentry

theorem cacheData_genuine {entry : Entry B E} (hentry : TextAnswers stored entry.1.content entry.2.1.toAnswers) :
    Exec.Ensures (fun w => w.s.Genuine stored) (fun data => TextAnswers stored data.question.content data.answers)
      (cacheData env entry) := by
  refine .of_within (.carries fun w h => ?_) fun w data w' _ hdata => cacheData_text hentry hdata
  exact Exec.wp_mono (cacheData_puts env entry w) (fun _ w' hputs => hputs.1.s.symm ▸ h) fun _ w' hputs =>
    hputs.s.symm ▸ h

theorem cacheDatas_genuine : ∀ {entries : List (Entry B E)},
    (∀ entry ∈ entries, TextAnswers stored entry.1.content entry.2.1.toAnswers) →
    Exec.Ensures (fun w => w.s.Genuine stored)
      (fun datas => ∀ data ∈ datas, TextAnswers stored data.question.content data.answers) (cacheDatas env entries)
  | [], _ => .pure fun _ hdata => absurd hdata List.not_mem_nil
  | entry :: entries, h => by
    obtain ⟨hentry, h⟩ := List.forall_mem_cons.mp h
    exact (cacheData_genuine hentry).bind fun data hdata => (cacheDatas_genuine h).bind fun datas hdatas =>
      .pure (List.forall_mem_cons.mpr ⟨hdata, hdatas⟩)

theorem insertable_genuine {entries : List (Entry B E)}
    (h : ∀ entry ∈ entries, TextAnswers stored entry.1.content entry.2.1.toAnswers) :
    Exec.Ensures (fun w => w.s.Genuine stored)
      (fun datas => ∀ data ∈ datas, TextAnswers stored data.question.content data.answers) (insertable env entries) :=
  (cacheDatas_genuine h).bind fun _ hdatas => .ite (.pure hdatas) (.raise _)

variable {σ α : Type} {e : MemoryCacheEviction σ Nat α (World B E)} {fuel : Nat}

/-- Importing answers to the questions they are imported with, whatever is evicted for them. -/
theorem importData_genuine (hclear : e.onEvict = World.clear env) {questions : List QuestionArg}
    {answers : List (AnswerArg B)} (h : ∀ p ∈ questions.zip answers, TextAnswers stored p.1.content p.2.toAnswers)
    (embeddingDatas : List E) (sessionIds : List (Option String)) :
    Exec.Within (Exec.Carries fun s : σ × World B E => s.2.s.Genuine stored)
      (importData env e fuel questions answers embeddingDatas sessionIds) := by
  have hentries : ∀ entry ∈ questions.zip (answers.zip ((embeddingDatas.map (normalize env)).zip sessionIds)),
      TextAnswers stored entry.1.content entry.2.1.toAnswers := by
    intro entry hentry
    refine h (entry.1, entry.2.1) ?_
    obtain ⟨i, hi, rfl⟩ := List.mem_iff_getElem.mp hentry
    simp only [List.length_zip] at hi
    refine List.mem_iff_getElem.mpr ⟨i, by rw [List.length_zip]; omega, by simp⟩
  unfold importData
  split
  · exact .raise _
  · refine Exec.Ensures.within (P := fun _ => True) ?_
    refine (insertable_genuine hentries).onSnd.bind fun datas hdatas => ?_
    refine .of_carries (Exec.Within.bind (Exec.Within.onSnd (World.call_genuine fun w hw => ?_)) fun ids =>
      Exec.Within.bind (Exec.Within.onSnd (World.call_genuine fun _ hw => hw)) fun _ => ?_)
    · exact hw.inserted hdatas (SQLStorage.batchInsert_inserted datas w.s)
    · exact e.within_put_snd fuel ids _ fun ks => hclear ▸ World.clear_genuine ks

/-! ## Reading -/

theorem loadAnswers_text : ∀ {answers : List (Answer B)}, (∀ ans ∈ answers, ans.answerType = .STR) →
    loadAnswers (E := E) env answers = pure (answers.map fun ans => (some ans.answer, ans.answerType))
  | [], _ => rfl
  | ans :: answers, h => by
    obtain ⟨hans, h⟩ := List.forall_mem_cons.mp h
    rw [loadAnswers, if_pos hans, loadAnswers_text h]
    rfl

/-- What is returned of an entry is its question and the answers saved for it. -/
theorem getScalarData_genuine (id : Nat) (session : Option (HitCheck B)) :
    Exec.Ensures (fun w => w.s.Genuine stored)
      (fun found => ∀ data, found = some data → ∀ ans ∈ data.answers, ∃ c, ans.1 = some c ∧
        stored data.question.content c)
      (getScalarData (E := E) env id session) := by
  have hkeeps : Exec.Within (Exec.Carries fun w => w.s.Genuine stored) (getScalarData (E := E) env id session) := by
    intro w r w' hr hw
    have hrows : w'.s = w.s := congrArg Prod.fst (getScalarData_keeps id session w r w' hr)
    rw [hrows]
    exact hw
  refine .of_within hkeeps fun w found w' hw h data hdata => ?_
  subst hdata
  obtain ⟨row, w₁, hrow, h⟩ := Exec.bind_ok.mp h
  obtain ⟨cacheData, w₂, hcache, h⟩ := Exec.bind_ok.mp h
  obtain ⟨hread, rfl⟩ := Exec.ofExcept_eq_ok.mp hcache
  obtain ⟨rfl, rfl⟩ := call_ok hrow
  cases cacheData with
  | none => cases (Exec.pure_ok.mp h).1
  | some row =>
    have htexts : TextAnswers stored row.question.content row.answers := by
      rcases hfound : w.s.getDataById id with err | _ | data <;> simp only [hfound] at hread
      · cases hread
      · cases hread
      · cases hread
        have hdata := SQLStorage.Genuine.getDataById (s := w.s) hw hfound
        show TextAnswers stored data.question.content (data.answers.map env.rowAnswer)
        rw [hdata.map_rowAnswer]
        exact hdata
    obtain ⟨hit, w₃, -, h⟩ := Exec.bind_ok.mp h
    cases hit with
    | false => cases (Exec.pure_ok.mp h).1
    | true =>
      rw [if_pos rfl, loadAnswers_text fun ans hans => (htexts ans hans).1, Exec.pure_bind] at h
      cases (Exec.pure_ok.mp h).1
      intro loaded hloaded
      obtain ⟨ans, hans, rfl⟩ := List.mem_map.mp hloaded
      exact ⟨ans.answer, rfl, (htexts ans hans).2.1⟩

end SSDataManager

end GptCache
