/-
`DynamoStorage` and the pages its table answers in.

A call is compared with the same call on a table that answers in one page
(`PageFree`). Scans follow the keys to the last page; the other requests read
the first page only, which is a part of what is found (`first_append`). A call
that reads one is independent of the pages just when the rest would not change
what it does (`page_free_iff`).
-/
import GptCache.Manager.DynamoRoundTrip

namespace GptCache

variable {B E : Type}

inductive DynamoCall where
  | getIds (deleted : Bool)
  | count (state : Int) (isAll : Bool)
  | listSessions (sessionId key : Option String)
  | getDataById (key : Nat)
  | deleteSession (keys : List String)
  | clearDeletedData

/-- What a call returns. -/
inductive DynamoResult (B E : Type) where
  | ids (r : Except PyError (List Int))
  | number (n : Nat)
  | names (xs : List String)
  | data (r : Except PyError (Option (StoredData B E)))
  | done (r : Except PyError Unit)

/-- The names of sessions are a set that was made a list. -/
def DynamoResult.Same : DynamoResult B E → DynamoResult B E → Prop
  | names xs, names ys => xs.Perm ys
  | r, r' => r = r'

namespace DynamoTable

open DynamoStorage (sessionKey)

variable (pages : DynamoPages B E) (t : DynamoTable B E)

/-- A call, with fuel for the pages of a scan. -/
def run (fuel : Nat) : DynamoCall → Option (DynamoResult B E × DynamoTable B E)
  | .getIds deleted => (getIds pages fuel t deleted).map fun r => (.ids r, t)
  | .count state isAll => (count pages fuel t state isAll).map fun n => (.number n, t)
  | .listSessions sessionId key => (listSessions pages fuel t sessionId key).map fun xs => (.names xs, t)
  | .getDataById key => some (.data (getDataById pages t key), t)
  | .deleteSession keys => (deleteSession pages keys t).map fun r => (.done r.1, r.2)
  | .clearDeletedData => some (.done (.ok ()), clearDeletedData pages t)

/-- The call returns what it would return if every result came in one page, and leaves the same table. -/
def PageFree (call : DynamoCall) : Prop :=
  ∃ n, ∀ fuel, n ≤ fuel → ∃ r r' t', run pages t fuel call = some (r, t') ∧ run (.one B E) t fuel call = some (r', t') ∧
    r.Same r'

/-! ## The first page -/

/-- What a request gets that asks for no more pages. -/
def first (request : TableRequest) : List (TableItem B E) := (pages.answer t request none).items

theorem first_append (request : TableRequest) : ∃ rest, t.found request = first pages t request ++ rest := by
  obtain ⟨ps, hchain, hcontent⟩ := pages.complete t request
  exact ⟨_, hcontent.symm.trans hchain.content_eq⟩

theorem first_subset (request : TableRequest) : first pages t request ⊆ t.found request := by
  obtain ⟨rest, hrest⟩ := first_append pages t request
  rw [hrest]
  exact List.subset_append_left _ _

variable {pages t}

theorem first_one (request : TableRequest) : first (.one B E) t request = t.found request := rfl

/-! ## When a call is independent of the pages -/

/-- What `list_sessions` asks one page of; it scans for all sessions. -/
def listRequest (sessionId key : Option String) : Option TableRequest :=
  match sessionId.filter (· ≠ ""), key.filter (· ≠ "") with
  | some name, some key => some (.byIdOf (sessionKey name) (DynamoStorage.questionKey key))
  | some name, none => some (.byId (sessionKey name))
  | none, some key => some (.sessionsOf (DynamoStorage.questionKey key))
  | none, none => none

/-- The names a list of sessions shows. -/
def shownNames (items : List (TableItem B E)) : List String := items.map fun i => i.id.replace "questions#" ""

/-- A question that is there, not deleted, and whole. -/
structure Readable (item : TableItem B E) : Prop where
  deleted : ∃ d, item.deleted = some d ∧ d.startsWith "True_" = false
  question : item.question.isSome = true
  answers : item.answers.isSome = true
  embeddingData : item.embeddingData.isSome = true

variable (pages t) in
/-- The rest of what is found would change nothing. -/
def OnFirstPage : DynamoCall → Prop
  | .getIds _ => True
  | .count _ _ => True
  | .listSessions sessionId key => ∀ request, listRequest sessionId key = some request →
      shownNames (t.found request) ⊆ shownNames (first pages t request)
  | .getDataById key => (∃ item, t.getItem (questionKey key) (questionKey key) = some item ∧ Readable item) →
      first pages t (.sessionsOf (questionKey key)) = t.found (.sessionsOf (questionKey key))
  | .deleteSession keys => ∀ i ∈ keys.flatMap (fun key => t.found (.byId (sessionKey key))),
      ∃ j ∈ keys.flatMap (fun key => first pages t (.byId (sessionKey key))), j.pk = i.pk ∧ j.id = i.id
  | .clearDeletedData => ∀ e ∈ deletedValues.flatMap (fun value => t.found (.byDeleted value)),
      (∃ i ∈ t.items, i.pk = e.id ∧ i.id = e.id) →
      ∃ e' ∈ deletedValues.flatMap (fun value => first pages t (.byDeleted value)), e'.id = e.id

/-- A call that needs no fuel. -/
theorem pageFree_iff_same {call : DynamoCall} {r r' : DynamoResult B E} {t₁ t₂ : DynamoTable B E}
    (h : ∀ fuel, run pages t fuel call = some (r, t₁)) (hone : ∀ fuel, run (.one B E) t fuel call = some (r', t₂)) :
    PageFree pages t call ↔ t₁ = t₂ ∧ r.Same r' := by
  refine ⟨fun ⟨n, hn⟩ => ?_, fun ⟨ht, hsame⟩ => ⟨0, fun fuel _ => ⟨r, r', t₁, h fuel, by rw [hone, ht], hsame⟩⟩⟩
  obtain ⟨_, _, t', hrun, hrun', hsame⟩ := hn n le_rfl
  rw [h] at hrun
  rw [hone] at hrun'
  cases hrun
  cases hrun'
  exact ⟨rfl, hsame⟩

/-! ## Scans -/

theorem same_refl (r : DynamoResult B E) : r.Same r := by
  cases r with
  | names xs => exact List.Perm.refl xs
  | _ => rfl

/-- A scan comes to its end with all that is found. -/
theorem fetchAllPages_content (pages : DynamoPages B E) (t : DynamoTable B E) (request : TableRequest) :
    ∃ n, ∀ fuel, n ≤ fuel → ∃ all, fetchAllPages pages fuel t request = some all ∧
      Page.content all = t.found request := by
  obtain ⟨ps, hchain, hcontent⟩ := pages.complete t request
  exact ⟨ps.length, fun fuel hfuel => ⟨ps, hchain.fetchAll hfuel [], hcontent⟩⟩

/-- A call that does the same on all pages, once it has the fuel for them. -/
theorem pageFree_of_scan {call : DynamoCall} {r : DynamoResult B E}
    (h : ∀ pages : DynamoPages B E, ∃ n, ∀ fuel, n ≤ fuel → run pages t fuel call = some (r, t)) :
    PageFree pages t call := by
  obtain ⟨n, hn⟩ := h pages
  obtain ⟨n', hn'⟩ := h (.one B E)
  exact ⟨max n n', fun fuel hfuel => ⟨r, r, t, hn fuel (by omega), hn' fuel (by omega), same_refl r⟩⟩

theorem getIds_pageFree (deleted : Bool) : PageFree pages t (.getIds deleted) := by
  refine pageFree_of_scan (r := .ids ((t.found (.questions deleted)).mapM intId)) fun pages => ?_
  obtain ⟨n, hn⟩ := fetchAllPages_content pages t (.questions deleted)
  refine ⟨n, fun fuel hfuel => ?_⟩
  obtain ⟨all, hall, hcontent⟩ := hn fuel hfuel
  rw [run, getIds, hall, ← hcontent]
  rfl

theorem count_pageFree (state : Int) (isAll : Bool) : PageFree pages t (.count state isAll) := by
  refine pageFree_of_scan (r := .number (t.found (.counted state isAll)).length) fun pages => ?_
  obtain ⟨n, hn⟩ := fetchAllPages_content pages t (.counted state isAll)
  refine ⟨n, fun fuel hfuel => ?_⟩
  obtain ⟨all, hall, hcontent⟩ := hn fuel hfuel
  rw [run, count, hall, ← hcontent, Page.content, List.length_flatMap]
  rfl

/-! ## Deletions -/

/-- The same items are deleted when the keys are the same as far as there are items with them. -/
theorem deleteItems_eq_iff {ks ks' : List (String × String)} :
    t.deleteItems ks = t.deleteItems ks' ↔ ∀ i ∈ t.items, (i.pk, i.id) ∈ ks ↔ (i.pk, i.id) ∈ ks' := by
  refine ⟨fun h i hi => ?_, fun h => ?_⟩
  · have hitems : t.items.filter (fun i => (i.pk, i.id) ∉ ks) = t.items.filter fun i => (i.pk, i.id) ∉ ks' :=
      congrArg DynamoTable.items h
    have hmem := congrArg (i ∈ ·) hitems
    simp only [List.mem_filter, hi, true_and, decide_eq_true_eq, eq_iff_iff] at hmem
    exact not_iff_not.mp hmem
  · refine congrArg DynamoTable.mk (List.filter_congr fun i hi => ?_)
    simp only [h i hi]

/-- A call that deletes the items with these keys does the same on all pages
when that leaves the same items. -/
theorem pageFree_deletion {call : DynamoCall} {keys : DynamoPages B E → List (String × String)}
    (h : ∀ (pages : DynamoPages B E) fuel, run pages t fuel call = some (.done (.ok ()), t.deleteItems (keys pages))) :
    PageFree pages t call ↔ ∀ i ∈ t.items, (i.pk, i.id) ∈ keys pages ↔ (i.pk, i.id) ∈ keys (.one B E) := by
  rw [pageFree_iff_same (h pages) (h (.one B E)), and_iff_left (same_refl _)]
  exact deleteItems_eq_iff

theorem clear_iff : PageFree pages t .clearDeletedData ↔ OnFirstPage pages t .clearDeletedData := by
  rw [pageFree_deletion fun _ _ => rfl]
  simp only [List.mem_map, Prod.mk.injEq, OnFirstPage, List.mem_flatMap]
  constructor
  · rintro h e he ⟨i, hi, hpk, hid⟩
    obtain ⟨e', he', hpk', -⟩ := (h i hi).mpr ⟨e, he, hpk.symm, hid.symm⟩
    exact ⟨e', he', hpk'.trans hpk⟩
  · intro h i hi
    refine ⟨fun ⟨e, ⟨value, hvalue, he⟩, hpk, hid⟩ => ⟨e, ⟨value, hvalue, first_subset _ _ _ he⟩, hpk, hid⟩, ?_⟩
    rintro ⟨e, he, hpk, hid⟩
    obtain ⟨e', he', heq⟩ := h e he ⟨i, hi, hpk.symm, hid.symm⟩
    exact ⟨e', he', heq.trans hpk, heq.trans hid⟩

theorem deleteSession_iff (keys : List String) :
    PageFree pages t (.deleteSession keys) ↔ OnFirstPage pages t (.deleteSession keys) := by
  cases keys with
  | nil =>
    rw [pageFree_iff_same (fun _ => rfl) (fun _ => rfl)]
    exact iff_of_true ⟨rfl, rfl⟩ fun i hi => absurd hi List.not_mem_nil
  | cons key keys =>
    rw [pageFree_deletion fun _ _ => rfl]
    simp only [List.mem_map, Prod.mk.injEq, OnFirstPage, List.mem_flatMap]
    constructor
    · rintro h i ⟨name, hname, hi⟩
      exact (h i (List.mem_of_mem_filter hi)).mpr ⟨i, ⟨name, hname, hi⟩, rfl, rfl⟩
    · intro h i hi
      refine ⟨fun ⟨j, ⟨name, hname, hj⟩, hkey⟩ => ⟨j, ⟨name, hname, first_subset _ _ _ hj⟩, hkey⟩, ?_⟩
      rintro ⟨j, hj, hpk, hid⟩
      obtain ⟨j', hj', hpk', hid'⟩ := h j hj
      exact ⟨j', hj', hpk'.trans hpk, hid'.trans hid⟩

/-! ## Sessions -/

theorem listSessions_iff (sessionId key : Option String) :
    PageFree pages t (.listSessions sessionId key) ↔ OnFirstPage pages t (.listSessions sessionId key) := by
  have hitems : ∀ (pages : DynamoPages B E) (fuel : Nat), sessionItems pages fuel t sessionId key =
      match listRequest sessionId key with
      | some request => some (first pages t request)
      | none => (fetchAllPages pages fuel t .sessions).map Page.content := by
    intro pages fuel
    unfold sessionItems listRequest
    rcases sessionId.filter (· ≠ "") with _ | name <;> rcases key.filter (· ≠ "") with _ | key <;> rfl
  cases hrequest : listRequest sessionId key with
  | some request =>
    have hrun : ∀ (pages : DynamoPages B E) (fuel : Nat), run pages t fuel (.listSessions sessionId key) =
        some (.names (shownNames (first pages t request)).dedup, t) := by
      intro pages fuel
      simp only [run, listSessions, hitems, hrequest]
      rfl
    rw [pageFree_iff_same (hrun pages) (hrun (.one B E)), and_iff_right rfl, first_one]
    show List.Perm _ _ ↔ ∀ request', _
    rw [List.perm_ext_iff_of_nodup (List.nodup_dedup _) (List.nodup_dedup _)]
    simp only [List.mem_dedup, hrequest, Option.some.injEq, forall_eq']
    refine ⟨fun h name hname => (h name).mpr hname, fun h name => ⟨fun hname => ?_, fun hname => h hname⟩⟩
    exact List.map_subset _ (first_subset pages t request) hname
  | none =>
    refine iff_of_true ?_ fun request hsome => absurd (hrequest.symm.trans hsome) (by simp)
    refine pageFree_of_scan (r := .names (shownNames (t.found .sessions)).dedup) fun pages => ?_
    obtain ⟨n, hn⟩ := fetchAllPages_content pages t .sessions
    refine ⟨n, fun fuel hfuel => ?_⟩
    obtain ⟨all, hall, hcontent⟩ := hn fuel hfuel
    simp only [run, listSessions, hitems, hrequest, hall, Option.map_some, hcontent]
    rfl

/-- The name of an item that was found as a session can be read. -/
theorem sessionName_of_found {pk : String} {i : TableItem B E} (hi : i ∈ t.found (.sessionsOf pk)) :
    ∃ name, sessionName i = .ok name := by
  have hstarts : i.id.startsWith "sessions#" = true := by
    have hfinds := List.of_mem_filter hi
    rw [TableRequest.finds, Bool.and_eq_true] at hfinds
    exact hfinds.2
  obtain ⟨rest, hrest⟩ := String.startsWith_string_iff.mp hstarts
  have hid : i.id = sessionKey (String.ofList rest) := by
    rw [← String.toList_inj, ← hrest]
    simp [sessionKey]
  exact ⟨_, sessionName_sessionKey hid⟩

theorem responseItemToCacheData_of_readable {item : TableItem B E} (h : Readable item) :
    ∃ data, responseItemToCacheData item = .ok data := by
  obtain ⟨question, hquestion⟩ := Option.isSome_iff_exists.mp h.question
  obtain ⟨answers, hanswers⟩ := Option.isSome_iff_exists.mp h.answers
  obtain ⟨embeddingData, hembedding⟩ := Option.isSome_iff_exists.mp h.embeddingData
  unfold responseItemToCacheData
  rw [hquestion, hanswers, hembedding]
  exact ⟨_, rfl⟩

/-- An item that is not deleted and not whole. -/
theorem responseItemToCacheData_of_not_readable {item : TableItem B E} (h : ¬ Readable item) {d : String}
    (hd : item.deleted = some d) (hlive : d.startsWith "True_" = false) :
    ∃ e, responseItemToCacheData item = .error e := by
  unfold responseItemToCacheData
  cases hquestion : item.question with
  | none => exact ⟨_, rfl⟩
  | some question =>
    cases hanswers : item.answers with
    | none => exact ⟨_, rfl⟩
    | some answers =>
      cases hembedding : item.embeddingData with
      | none => exact ⟨_, rfl⟩
      | some embeddingData =>
        exact absurd ⟨⟨d, hd, hlive⟩, by simp [hquestion], by simp [hanswers], by simp [hembedding]⟩ h

/-- What is read of a question, whatever the pages of its sessions. -/
theorem getDataById_cases (t : DynamoTable B E) (key : Nat) :
    ((∃ item, t.getItem (questionKey key) (questionKey key) = some item ∧ Readable item) ∧
      ∃ data : StoredData B E, ∀ pages, getDataById pages t key =
        ((first pages t (.sessionsOf (questionKey key))).mapM sessionName).map
        fun names => some { data with sessionIds := names }) ∨
    ¬ (∃ item, t.getItem (questionKey key) (questionKey key) = some item ∧ Readable item) ∧
      ∃ r, ∀ pages, getDataById pages t key = r := by
  cases hitem : t.getItem (questionKey key) (questionKey key) with
  | none => exact .inr ⟨by simp, .ok none, fun pages => by unfold getDataById; rw [hitem]; rfl⟩
  | some item =>
    by_cases hreadable : Readable item
    · obtain ⟨d, hd, hlive⟩ := hreadable.deleted
      obtain ⟨data, hdata⟩ := responseItemToCacheData_of_readable hreadable
      refine .inl ⟨⟨item, rfl, hreadable⟩, data, fun pages => ?_⟩
      unfold getDataById first
      simp only [hitem, hd, getAttribute, bind, Except.bind, hlive, Bool.false_eq_true, if_false, hdata]
      cases (pages.answer t (.sessionsOf (questionKey key)) none).items.mapM sessionName <;> rfl
    · refine .inr ⟨?_, ?_⟩
      · rintro ⟨item', hitem', hreadable'⟩
        cases hitem'
        exact hreadable hreadable'
      · cases hd : item.deleted with
        | none => exact ⟨.error ⟨.KeyError, "'deleted'"⟩, fun pages => by
            unfold getDataById; simp only [hitem, hd]; rfl⟩
        | some d =>
          cases hlive : d.startsWith "True_" with
          | true =>
            refine ⟨.ok none, fun pages => ?_⟩
            unfold getDataById
            simp only [hitem, hd, getAttribute, bind, Except.bind, hlive, if_true]
            rfl
          | false =>
            obtain ⟨e, he⟩ := responseItemToCacheData_of_not_readable hreadable hd hlive
            refine ⟨.error e, fun pages => ?_⟩
            unfold getDataById
            simp only [hitem, hd, getAttribute, bind, Except.bind, hlive, Bool.false_eq_true, if_false, he]

theorem getDataById_iff (key : Nat) : PageFree pages t (.getDataById key) ↔ OnFirstPage pages t (.getDataById key) := by
  rw [pageFree_iff_same (fun _ => rfl) (fun _ => rfl), and_iff_right rfl]
  show DynamoResult.data _ = DynamoResult.data _ ↔ _
  rw [DynamoResult.data.injEq]
  rcases getDataById_cases t key with ⟨hreadable, data, hread⟩ | ⟨hnot, r, hread⟩
  · have hnames : ∀ pages : DynamoPages B E, ∃ names, (first pages t (.sessionsOf (questionKey key))).mapM sessionName =
        .ok names ∧ names.length = (first pages t (.sessionsOf (questionKey key))).length := by
      intro pages
      refine ⟨_, mapM_ok_of_forall (g := fun i => (sessionName i).toOption.getD "") fun i hi => ?_, List.length_map _⟩
      obtain ⟨name, hname⟩ := sessionName_of_found (first_subset pages t _ hi)
      rw [hname]
      rfl
    refine ⟨fun heq _ => ?_, fun h => ?_⟩
    · obtain ⟨names, hok, hlength⟩ := hnames pages
      obtain ⟨names', hok', hlength'⟩ := hnames (.one B E)
      rw [hread, hread, hok, hok'] at heq
      obtain rfl : names = names' := congrArg StoredData.sessionIds (Option.some.inj (Except.ok.inj heq))
      obtain ⟨rest, hrest⟩ := first_append pages t (.sessionsOf (questionKey key))
      rw [first_one, hrest, List.length_append] at hlength'
      have hnil : rest = [] := List.length_eq_zero_iff.mp (by omega)
      rw [hrest, hnil, List.append_nil]
    · rw [hread, hread, h hreadable]
      rfl
  · exact iff_of_true (by rw [hread, hread]) fun hreadable => absurd hreadable hnot

/-- A call does not see the pages just when the rest of what it reads one page of would change nothing. -/
theorem page_free_iff (pages : DynamoPages B E) (t : DynamoTable B E) (call : DynamoCall) :
    PageFree pages t call ↔ OnFirstPage pages t call := by
  cases call with
  | getIds deleted => exact iff_of_true (getIds_pageFree deleted) trivial
  | count state isAll => exact iff_of_true (count_pageFree state isAll) trivial
  | listSessions sessionId key => exact listSessions_iff sessionId key
  | getDataById key => exact getDataById_iff key
  | deleteSession keys => exact deleteSession_iff keys
  | clearDeletedData => exact clear_iff

/-! ## A page for each item -/

/-- The page of the item after as many as the key has parts. -/
def itemPage (xs : List (TableItem B E)) (n : Nat) : Page StartKey (TableItem B E) where
  items := (xs.drop n).take 1
  next := if n + 1 < xs.length then some (List.replicate (n + 1) ("id", "")) else none

theorem itemPage_chain (xs : List (TableItem B E)) : ∀ (m n : Nat) (start : Option StartKey), xs.length ≤ n + m →
    (start.getD []).length = n → ∃ pages, Page.Chain (fun start => itemPage xs (start.getD []).length) start pages ∧
      Page.content pages = xs.drop n
  | 0, n, start, hm, hn => by
    have hnil : xs.drop n = [] := List.drop_eq_nil_of_le (by omega)
    refine ⟨_, .last (if_neg (by omega)), ?_⟩
    simp [Page.content, itemPage, hn, hnil]
  | m + 1, n, start, hm, hn => by
    by_cases hmore : n + 1 < xs.length
    · obtain ⟨pages, hchain, hcontent⟩ :=
        itemPage_chain xs m (n + 1) (some (List.replicate (n + 1) ("id", ""))) (by omega)
        (by simp)
      refine ⟨_, .more (by simp only [itemPage, hn, hmore, if_true]) hchain, ?_⟩
      show (itemPage xs (start.getD []).length).items ++ Page.content pages = _
      rw [hcontent, hn, itemPage, List.drop_eq_getElem_cons (by omega : n < xs.length)]
      rfl
    · refine ⟨_, .last (if_neg (by omega)), ?_⟩
      have hlength : (xs.drop n).length ≤ 1 := by
        rw [List.length_drop]
        omega
      simp [Page.content, itemPage, hn, List.take_of_length_le hlength]

variable (B E) in
def onePerPage : DynamoPages B E where
  answer t request start := itemPage (t.found request) (start.getD []).length
  complete t request := itemPage_chain (t.found request) (t.found request).length 0 none (by omega) rfl

def softDeletedItem (key : String) : TableItem Empty Nat := { pk := key, id := key, deleted := some "True_1" }

/-- The second of two soft-deleted questions is on the second page, and stays. -/
theorem clear_misses_page :
    ¬ PageFree (onePerPage Empty Nat)
      ⟨[softDeletedItem "questions#1", softDeletedItem "questions#2"]⟩ .clearDeletedData := by
  have hfound : ∀ value,
      (⟨[softDeletedItem "questions#1", softDeletedItem "questions#2"]⟩ : DynamoTable Empty Nat).found
      (.byDeleted value) = if value =
        "True_1" then [softDeletedItem "questions#1", softDeletedItem "questions#2"] else [] := by
    intro value
    by_cases hvalue : value = "True_1"
    · subst hvalue
      rfl
    · have hne : "True_1" ≠ value := fun h => hvalue h.symm
      simp [found, TableRequest.finds, softDeletedItem, hvalue, hne]
  rw [clear_iff]
  intro h
  obtain ⟨e, he, hid⟩ := h (softDeletedItem "questions#2")
    (List.mem_flatMap.mpr ⟨"True_1", by decide, by rw [hfound]; simp⟩)
      ⟨_, List.mem_cons_of_mem _ List.mem_cons_self, rfl, rfl⟩
  obtain ⟨value, -, he⟩ := List.mem_flatMap.mp he
  have hfirst : e ∈ ((⟨[softDeletedItem "questions#1", softDeletedItem "questions#2"]⟩ : DynamoTable Empty Nat).found
      (.byDeleted value)).take 1 := he
  rw [hfound] at hfirst
  by_cases hvalue : value = "True_1"
  · rw [if_pos hvalue] at hfirst
    obtain rfl := List.mem_singleton.mp hfirst
    exact absurd hid (by decide)
  · rw [if_neg hvalue] at hfirst
    cases hfirst

end DynamoTable

end GptCache
