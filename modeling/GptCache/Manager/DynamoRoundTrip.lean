/-
What `DynamoStorage` reads back of what was inserted.

The items of a question are those under its `pk` (`DynamoTable.under`), and
only they decide what is read (`getDataById_of_under`). A batch puts the items of
each of its entries and leaves those of other questions
(`batchInsert_under`), if the types of all its entries have a `value`
(`batchInsert_tags`). What is read is what `SQLStorage` would read for entries
that survive (`Survives`), and only for them (`round_trip_iff`).
-/
import Mathlib.Data.List.TakeWhile
import GptCache.Manager.DynamoTable
import GptCache.Manager.SqlLedger

namespace GptCache

variable {B E : Type}

/-! ## What is read from SQL -/

/-- The sessions an entry is stored with. -/
def CacheData.storedSessions (data : CacheData B E) : List String :=
  match data.sessionId with
  | none => []
  | some name => if name = "" then [] else [name]

/-- The entry as `SQLStorage` reads it. -/
def CacheData.reading (data : CacheData B E) (embedding : E) : StoredData B E where
  question := if data.question.deps = [] then .str data.question.content
    else .question ⟨data.question.content, some data.question.deps⟩
  answers := data.answers
  embeddingData := embedding
  sessionIds := data.storedSessions

namespace SQLStorage

/-- An entry just inserted. -/
theorem getDataById_insert {s : SQLStorage B E} {l : Ledger Nat (CacheData B E)} (h : Run s l) {data : CacheData B E}
    {embedding : E} (hembedding : data.embeddingData = some embedding) :
    (s.insert data).2.getDataById (s.insert data).1 = .ok (some (data.reading embedding)) := by
  have hs := h.holds
  have hnew : nextId s.ids ∉ s.ids := fun hmem => Nat.lt_irrefl _ (lt_nextId hmem)
  have hinserted : Holds (s.insert data).2 (l.insert [(nextId s.ids, data)]) :=
    hs.insertUnder hnew _ (Option.isSome_iff_exists.mpr ⟨embedding, hembedding⟩)
  have hlive : (l.insert [(nextId s.ids, data)]).live (nextId s.ids) = some data :=
    (Ledger.live_eq_some hinserted.nodup).mpr (by simp [Ledger.insert])
  have hother : (s.session.filter fun r => r.questionId = nextId s.ids) = [] := by
    refine List.filter_eq_nil_iff.mpr fun r hr hid => hnew ?_
    have howned := hs.session r hr
    rwa [← hs.ids, of_decide_eq_true hid] at howned
  have hsessions : ((s.insert data).2.session.filter fun r => r.questionId = nextId s.ids).map SessionRow.sessionId =
      data.storedSessions := by
    unfold insert CacheData.storedSessions
    cases data.sessionId with
    | none => simp [hother]
    | some name =>
      by_cases hempty : name = ""
      · simp [hother, hempty]
      · simp [hother, hempty, List.filter_append]
  show (s.insert data).2.getDataById (nextId s.ids) = _
  rw [hinserted.getDataById_of_live hlive hembedding, hsessions]
  rfl

end SQLStorage

namespace DynamoTable

open DynamoStorage (sessionKey)

/-! ## The items of a question -/

theorem questionKey_inj {id id' : Nat} : questionKey id = questionKey id' ↔ id = id' := by
  refine ⟨fun h => ?_, fun h => h ▸ rfl⟩
  have hrepr : id.repr = id'.repr := (String.append_right_inj "questions#").mp h
  have hdigits := congrArg (fun s => Nat.ofDigitChars 10 s.toList 0) hrepr
  simpa only [Nat.toList_repr, Nat.ofDigitChars_ten_toDigits] using hdigits

theorem startsWith_append (p s : String) : (p ++ s).startsWith p = true := by
  simp

theorem questionKey_not_session (id : Nat) : (questionKey id).startsWith "sessions#" = false := by
  simp [questionKey, DynamoStorage.questionKey]

theorem sessionKey_ne_questionKey (name : String) (id : Nat) : sessionKey name ≠ questionKey id := by
  intro h
  have hstarts := startsWith_append "sessions#" name
  rw [show "sessions#" ++ name = questionKey id from h, questionKey_not_session] at hstarts
  cases hstarts

theorem serialize_false (suffix : Nat) : (serializeDeletedValue suffix false).startsWith "True_" = false := by
  simp [serializeDeletedValue, deletedPrefix]

/-- The items with this `pk`. -/
def under (t : DynamoTable B E) (pk : String) : List (TableItem B E) := t.items.filter fun i => i.pk = pk

theorem under_putItem {t : DynamoTable B E} {item : TableItem B E} {pk : String} (h : item.pk = pk) :
    (t.putItem item).under pk = (t.under pk).filter (fun i => i.id ≠ item.id) ++ [item] := by
  unfold under putItem
  rw [List.filter_append, List.filter_filter, List.filter_filter, List.filter_cons_of_pos (by simpa using h)]
  refine congrArg (· ++ _) (List.filter_congr fun i _ => ?_)
  by_cases hi : i.pk = pk <;> simp [hi, h]

theorem under_putItem_other {t : DynamoTable B E} {item : TableItem B E} {pk : String} (h : item.pk ≠ pk) :
    (t.putItem item).under pk = t.under pk := by
  unfold under putItem
  rw [List.filter_append, List.filter_filter, List.filter_cons_of_neg (by simpa using h),
    List.filter_nil, List.append_nil]
  refine List.filter_congr fun i _ => ?_
  by_cases hi : i.pk = pk
  · simp [hi, h.symm]
  · simp [hi]

theorem getItem_under (t : DynamoTable B E) (pk id : String) :
    t.getItem pk id = (t.under pk).find? fun i => i.id = id := by
  rw [getItem, under, List.find?_filter]
  refine congrArg (List.find? · t.items) (funext fun i => ?_)
  by_cases hi : i.pk = pk <;> simp [hi]

theorem found_sessionsOf (t : DynamoTable B E) (pk : String) :
    t.found (.sessionsOf pk) = (t.under pk).filter fun i => i.id.startsWith "sessions#" := by
  rw [found, under, List.filter_filter]
  exact List.filter_congr fun i _ => by rw [TableRequest.finds, Bool.and_comm]

/-! ## What is read of an entry -/

/-- The item of a question whose types have a `value`. -/
def storedItem (suffix id : Nat) (data : TaggedData B E) : TableItem B E where
  pk := questionKey id
  id := questionKey id
  question := some data.question
  answers := some data.toCacheData.answers
  deps := some data.toCacheData.question.deps
  embeddingData := data.embeddingData
  deleted := some (serializeDeletedValue suffix false)

/-- An entry has one session at most. -/
theorem storedSessions_cases (data : TaggedData B E) : data.toCacheData.storedSessions = [] ∨
    ∃ name, data.sessionId = some name ∧ data.toCacheData.storedSessions = [name] := by
  have hsession : data.toCacheData.sessionId = data.sessionId := rfl
  unfold CacheData.storedSessions
  rw [hsession]
  cases data.sessionId with
  | none => exact .inl rfl
  | some name =>
    by_cases hempty : name = ""
    · exact .inl (if_pos hempty)
    · exact .inr ⟨name, rfl, if_neg hempty⟩

def sessionItem (id : Nat) (data : TaggedData B E) (name : String) : TableItem B E where
  pk := questionKey id
  id := sessionKey name
  question := some data.question

theorem storedItem_pk (suffix id : Nat) (data : TaggedData B E) : (storedItem suffix id data).pk = questionKey id := rfl
theorem sessionItem_pk (id : Nat) (data : TaggedData B E) (name : String) :
    (sessionItem id data name).pk = questionKey id := rfl

/-- The items put for an entry. -/
def itemsOf (suffix id : Nat) (data : TaggedData B E) : List (TableItem B E) :=
  storedItem suffix id data :: data.toCacheData.storedSessions.map (sessionItem id data)

/-- The part of a session's name before the first `#`. -/
def nameRead (name : String) : String := String.ofList (name.toList.takeWhile (· ≠ '#'))

theorem head_splitOn (sep : Char) : ∀ cs : List Char, (cs.splitOn sep)[0]? = some (cs.takeWhile (· ≠ sep))
  | [] => by rw [List.splitOn_nil]; rfl
  | c :: cs => by
    have ih := head_splitOn sep cs
    rw [List.splitOn_cons_eq_if_modifyHead]
    by_cases hc : c = sep
    · simp [hc]
    · cases hsplit : cs.splitOn sep with
      | nil => rw [hsplit] at ih; cases ih
      | cons part parts =>
        rw [hsplit] at ih
        simp only [List.getElem?_cons_zero, Option.some.injEq] at ih
        simp [hc, ih]

theorem sessionName_sessionKey {name : String} {item : TableItem B E} (hid : item.id = sessionKey name) :
    sessionName item = .ok (nameRead name) := by
  have hkey : (sessionKey name).toList = "sessions".toList ++ '#' :: name.toList := by
    simp [sessionKey]
  unfold sessionName
  rw [hid, hkey, List.splitOn_append_cons_self_of_not_mem (by decide), List.getElem?_cons_succ, head_splitOn]
  rfl

theorem nameRead_eq_iff {name : String} : nameRead name = name ↔ '#' ∉ name.toList := by
  have hlist : nameRead name = name ↔ name.toList.takeWhile (· ≠ '#') = name.toList := by
    refine ⟨fun h => ?_, fun h => ?_⟩
    · have hlist := congrArg String.toList h
      rwa [nameRead, String.toList_ofList] at hlist
    · rw [nameRead, h, String.ofList_toList]
  rw [hlist, List.takeWhile_eq_self_iff]
  refine ⟨fun h hmem => ?_, fun h c hc => ?_⟩
  · simpa using h _ hmem
  · have hne : c ≠ '#' := fun heq => h (heq ▸ hc)
    simpa using hne

/-- What is read of a question whose items these are. -/
theorem getDataById_of_under {t : DynamoTable B E} {suffix id : Nat} {data : TaggedData B E}
    (h : t.under (questionKey id) = itemsOf suffix id data) {embedding : E}
    (hembedding : data.embeddingData = some embedding) :
    getDataById (.one B E) t id = .ok (some {
      question := .question ⟨data.question, some data.toCacheData.question.deps⟩
      answers := data.toCacheData.answers
      embeddingData := embedding
      sessionIds := data.toCacheData.storedSessions.map nameRead }) := by
  have hitem : t.getItem (questionKey id) (questionKey id) = some (storedItem suffix id data) := by
    rw [getItem_under, h, itemsOf, List.find?_cons_of_pos (by simp [storedItem])]
  have hsessions : t.found (.sessionsOf (questionKey id)) = data.toCacheData.storedSessions.map
      (sessionItem id data) := by
    rw [found_sessionsOf, h, itemsOf, List.filter_cons_of_neg (by simp [storedItem, questionKey_not_session])]
    refine List.filter_eq_self.mpr fun i hi => ?_
    obtain ⟨name, -, rfl⟩ := List.mem_map.mp hi
    exact startsWith_append "sessions#" name
  have hnames : (data.toCacheData.storedSessions.map (sessionItem id data)).mapM sessionName =
      .ok (data.toCacheData.storedSessions.map nameRead) := by
    rw [List.mapM_map]
    exact mapM_ok_of_forall fun name _ => sessionName_sessionKey rfl
  unfold getDataById
  simp only [DynamoPages.one, hitem, hsessions]
  simp only [storedItem, getAttribute, bind, Except.bind, serialize_false, Bool.false_eq_true, if_false,
    responseItemToCacheData, hembedding, Option.getD_some, hnames]
  rfl

/-! ## What is put -/

/-- Every type is a member of `DataType`. -/
def Tagged (data : TaggedData B E) : Prop :=
  (∀ answer ∈ data.answers, ∃ t, answer.answerType = .member t) ∧ ∀ dep ∈ data.itemDeps, ∃ t, dep.depType = .member t

theorem deps_toCacheData (data : TaggedData B E) :
    data.toCacheData.question.deps = data.itemDeps.map fun dep => ⟨dep.name, dep.data, dep.depType.dataType⟩ := by
  unfold TaggedData.toCacheData TaggedData.itemDeps
  rcases data.deps with _ | _ | deps <;> rfl

theorem value_eq_ok {tag : TypeTag} {t : DataType} : tag.value = .ok t ↔ tag = .member t := by
  cases tag with
  | member t' => simp [TypeTag.value]
  | int t' => simp [TypeTag.value]

theorem questionItem_of_tagged {suffix id : Nat} {data : TaggedData B E} (h : Tagged data) :
    questionItem suffix id data = .ok (storedItem suffix id data) := by
  have hanswers : data.answers.mapM serializeAnswer = .ok data.toCacheData.answers := by
    refine mapM_ok_of_forall fun answer hanswer => ?_
    obtain ⟨t, ht⟩ := h.1 answer hanswer
    rw [serializeAnswer, ht]
    rfl
  have hdeps : data.itemDeps.mapM serializeQuestionDeps = .ok data.toCacheData.question.deps := by
    rw [deps_toCacheData]
    refine mapM_ok_of_forall fun dep hdep => ?_
    obtain ⟨t, ht⟩ := h.2 dep hdep
    rw [serializeQuestionDeps, ht]
    rfl
  unfold questionItem
  rw [hanswers, hdeps]
  rfl

theorem tagged_of_questionItem {suffix id : Nat} {data : TaggedData B E} {item : TableItem B E}
    (h : questionItem suffix id data = .ok item) : Tagged data := by
  have htag : ∀ {α : Type} {tag : TypeTag} {f : DataType → α} {y : α}, tag.value.map f = .ok y →
      ∃ t, tag = .member t := by
    intro α tag f y hmap
    cases hvalue : tag.value with
    | error e => rw [hvalue] at hmap; cases hmap
    | ok t => exact ⟨t, value_eq_ok.mp hvalue⟩
  unfold questionItem at h
  cases hanswers : data.answers.mapM serializeAnswer with
  | error e => rw [hanswers] at h; cases h
  | ok answers =>
    cases hdeps : data.itemDeps.mapM serializeQuestionDeps with
    | error e => rw [hanswers, hdeps] at h; cases h
    | ok deps =>
      refine ⟨fun answer hanswer => ?_, fun dep hdep => ?_⟩
      · obtain ⟨y, hy⟩ := forall_of_mapM_ok hanswers answer hanswer
        exact htag hy
      · obtain ⟨y, hy⟩ := forall_of_mapM_ok hdeps dep hdep
        exact htag hy

/-- Putting items of one question leaves those of others. -/
theorem under_foldl_other {pk : String} :
    ∀ {items : List (TableItem B E)} {t : DynamoTable B E}, (∀ i ∈ items, i.pk ≠ pk) →
    (items.foldl putItem t).under pk = t.under pk
  | [], _, _ => rfl
  | item :: items, t, h => by
    obtain ⟨hitem, hitems⟩ := List.forall_mem_cons.mp h
    rw [List.foldl_cons, under_foldl_other hitems, under_putItem_other hitem]

theorem pk_of_mem_itemsOf {suffix id : Nat} {data : TaggedData B E} :
    ∀ i ∈ itemsOf suffix id data, i.pk = questionKey id := by
  intro i hi
  rcases List.mem_cons.mp hi with rfl | hi
  · rfl
  · obtain ⟨name, -, rfl⟩ := List.mem_map.mp hi
    rfl

/-- The items of an entry under an id no item has. -/
theorem under_foldl_self {t : DynamoTable B E} {suffix id : Nat} {data : TaggedData B E}
    (h : t.under (questionKey id) = []) :
    ((itemsOf suffix id data).foldl putItem t).under (questionKey id) = itemsOf suffix id data := by
  have hquestion : (t.putItem (storedItem suffix id data)).under (questionKey id) = [storedItem suffix id data] := by
    rw [under_putItem (storedItem_pk suffix id data), h]
    rfl
  have hsession : ∀ name,
      ((t.putItem (storedItem suffix id data)).putItem (sessionItem id data name)).under (questionKey id) =
        [storedItem suffix id data, sessionItem id data name] := by
    intro name
    have hne : questionKey id ≠ sessionKey name := (sessionKey_ne_questionKey name id).symm
    rw [under_putItem (sessionItem_pk id data name), hquestion]
    simp [storedItem, sessionItem, hne]
  rcases storedSessions_cases data with hnames | ⟨name, -, hnames⟩
  · rw [itemsOf, hnames]
    exact hquestion
  · rw [itemsOf, hnames]
    exact hsession name

section
variable {suffix : Nat}

theorem insert_of_tagged {id : Nat} {data : TaggedData B E} (h : Tagged data) (t : DynamoTable B E) :
    insert suffix id data t = some (.ok (), (itemsOf suffix id data).foldl putItem t) := by
  have hsession : data.toCacheData.sessionId = data.sessionId := rfl
  unfold insert itemsOf CacheData.storedSessions
  rw [questionItem_of_tagged h, Exec.ofExcept_ok, Exec.pure_bind, hsession]
  cases data.sessionId with
  | none => rfl
  | some name =>
    by_cases hempty : name = ""
    · simp only [hempty, if_true]
      rfl
    · simp only [hempty, if_false]
      rfl

theorem tagged_of_insert {id : Nat} {data : TaggedData B E} {t t' : DynamoTable B E}
    (h : insert suffix id data t = some (.ok (), t')) : Tagged data := by
  obtain ⟨item, _, hitem, -⟩ := Exec.bind_ok.mp h
  exact tagged_of_questionItem (Exec.ofExcept_eq_ok.mp hitem).1

/-- What a batch puts under ids that are new and distinct. -/
theorem batchInsert_under (suffix : Nat) : ∀ {entries : List (Nat × TaggedData B E)} {t : DynamoTable B E},
    (∀ e ∈ entries, Tagged e.2) → (entries.map Prod.fst).Nodup → (∀ e ∈ entries, t.under (questionKey e.1) = []) →
    ∃ t', batchInsert suffix entries t = some (.ok (entries.map Prod.fst), t') ∧
      (∀ e ∈ entries, t'.under (questionKey e.1) = itemsOf suffix e.1 e.2) ∧
      ∀ pk, (∀ e ∈ entries, questionKey e.1 ≠ pk) → t'.under pk = t.under pk
  | [], t, _, _, _ => ⟨t, rfl, by simp, fun _ _ => rfl⟩
  | (id, data) :: entries, t, htagged, hdistinct, hnew => by
    obtain ⟨hdata, htagged⟩ := List.forall_mem_cons.mp htagged
    obtain ⟨hid, hdistinct⟩ := List.nodup_cons.mp hdistinct
    obtain ⟨hfree, hnew⟩ := List.forall_mem_cons.mp hnew
    have hother : ∀ pk, questionKey id ≠ pk → ((itemsOf suffix id data).foldl putItem t).under pk = t.under pk :=
      fun pk hne => under_foldl_other fun i hi => pk_of_mem_itemsOf i hi ▸ hne
    have hkeys : ∀ e ∈ entries, questionKey e.1 ≠ questionKey id := fun e he heq =>
      hid (List.mem_map.mpr ⟨e, he, questionKey_inj.mp heq⟩)
    obtain ⟨t', hbatch, hin, hout⟩ :=
      batchInsert_under suffix (t := (itemsOf suffix id data).foldl putItem t) htagged hdistinct
      fun e he => by rw [hother _ (hkeys e he).symm, hnew e he]
    refine ⟨t', ?_, List.forall_mem_cons.mpr ⟨?_, hin⟩, fun pk hpk => ?_⟩
    · rw [batchInsert, Exec.bind_of_ok _ (insert_of_tagged hdata t), Exec.bind_of_ok _ hbatch]
      rfl
    · rw [hout _ hkeys, under_foldl_self hfree]
    · obtain ⟨hne, hpk⟩ := List.forall_mem_cons.mp hpk
      rw [hout pk hpk, hother pk hne]

/-- A batch comes to its end only if all types have a `value`. -/
theorem batchInsert_tags : ∀ {entries : List (Nat × TaggedData B E)} {ids : List Nat} {t t' : DynamoTable B E},
    batchInsert suffix entries t = some (.ok ids, t') → ∀ e ∈ entries, Tagged e.2
  | [], _, _, _, _ => by simp
  | (id, data) :: entries, ids, t, t', h => by
    obtain ⟨_, t₁, hinsert, h⟩ := Exec.bind_ok.mp h
    obtain ⟨rest, t₂, hbatch, -⟩ := Exec.bind_ok.mp h
    exact List.forall_mem_cons.mpr ⟨tagged_of_insert hinsert, batchInsert_tags hbatch⟩

end

/-! ## The round trip -/

/-- What comes back of an entry is what SQL would give: its types have a `value`, it has a dependency, and its
session's name has no `#`. -/
structure Survives (data : TaggedData B E) : Prop where
  tagged : Tagged data
  deps : data.itemDeps ≠ []
  session : ∀ name, data.sessionId = some name → '#' ∉ name.toList

theorem reads_iff {t : DynamoTable B E} {suffix id : Nat} {data : TaggedData B E} (htagged : Tagged data)
    (h : t.under (questionKey id) = itemsOf suffix id data) {embedding : E}
    (hembedding : data.embeddingData = some embedding) :
    getDataById (.one B E) t id = .ok (some (data.toCacheData.reading embedding)) ↔ Survives data := by
  have hcontent : data.toCacheData.question.content = data.question := by
    unfold TaggedData.toCacheData
    rcases data.deps with _ | deps <;> rfl
  have hnames : data.toCacheData.storedSessions.map nameRead = data.toCacheData.storedSessions ↔
      ∀ name, data.sessionId = some name → '#' ∉ name.toList := by
    have hsession : data.toCacheData.sessionId = data.sessionId := rfl
    unfold CacheData.storedSessions
    rw [hsession]
    cases data.sessionId with
    | none => simp
    | some name =>
      by_cases hempty : name = ""
      · simp [hempty]
      · simp [hempty, nameRead_eq_iff]
  have hdeps : data.toCacheData.question.deps = [] ↔ data.itemDeps = [] := by
    rw [deps_toCacheData, List.map_eq_nil_iff]
  rw [getDataById_of_under h hembedding]
  unfold CacheData.reading
  rw [hcontent]
  by_cases hempty : data.itemDeps = []
  · rw [if_pos (hdeps.mpr hempty)]
    refine ⟨fun heq => ?_, fun hsurvives => absurd hempty hsurvives.deps⟩
    simp at heq
  · rw [if_neg (fun hnil => hempty (hdeps.mp hnil))]
    refine ⟨fun heq => ⟨htagged, hempty, hnames.mp ?_⟩, fun hsurvives => ?_⟩
    · simpa using heq
    · rw [hnames.mpr hsurvives.session]

section
variable {suffix : Nat} {entries : List (Nat × TaggedData B E)}

/-- What `batch_insert` takes: the ids it draws are new and distinct, and there are embeddings. -/
structure Insertable (t : DynamoTable B E) (entries : List (Nat × TaggedData B E)) : Prop where
  distinct : (entries.map Prod.fst).Nodup
  new : ∀ e ∈ entries, ∀ i ∈ t.items, i.pk ≠ questionKey e.1
  embedded : ∀ e ∈ entries, e.2.embeddingData.isSome = true

end

def shownEntry : TaggedData String Nat where
  question := "what is shown"
  deps := some (some [⟨"image", "cat.png", .member .IMAGE_URL⟩])
  answers := [⟨.str "a cat", .member .STR⟩, ⟨.str "dog.png", .member .IMAGE_URL⟩]
  embeddingData := some 8
  sessionId := some "s1"

theorem shownEntry_survives : Survives shownEntry where
  tagged := by
    constructor <;> simp [shownEntry, TaggedData.itemDeps]
  deps := List.cons_ne_nil _ _
  session name hname := by
    obtain rfl := Option.some.inj hname
    decide

def plainQuestion : TaggedData String Nat where
  question := "what is a cache"
  deps := none
  answers := [⟨.str "a store", .member .STR⟩]
  embeddingData := some 7
  sessionId := none

end DynamoTable

end GptCache
