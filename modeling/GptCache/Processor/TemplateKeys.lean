/-
The cache key of a chat whose last message was made from a template
(gptcache/processor/pre.py, `last_content_without_template`): the values read
off it, as Python writes a list.

The scan drops what stands before the first literal and stops at a literal it
does not find, so the key says nothing of a message that does not follow the
template. `lastContentWithoutTemplate_ne` is about those that do.
-/
import GptCache.Processor.Context
import GptCache.Processor.Template
import GptCache.Repr

namespace GptCache

open Sequence

variable {B : Type}

/-- `data.get("messages")[-1]["content"]`. -/
def ChatRequest.lastContent (data : ChatRequest B) : Except PyError (Content B) :=
  match data.messages with
  | none => .error ⟨.TypeError, "'NoneType' object is not subscriptable"⟩
  | some messages =>
    match messages.getLast? with
    | none => .error ⟨.IndexError, "list index out of range"⟩
    | some message => message.field "content"

/-- `last_content_without_template`, on what `string.Formatter().parse` yields
for the template of the config: nothing where there is none, or an empty one. -/
def lastContentWithoutTemplate (isprintable : Char → Bool) (template : List ParsedPair) (data : ChatRequest B) :
    Except PyError (Content B) :=
  match data.lastContent with
  | .error e => .error e
  | .ok lastContentStr =>
    if template = [] then .ok lastContentStr
    else match lastContentStr with
      -- It has no `find`.
      | .other _ => .error ⟨.AttributeError, ""⟩
      | .str s =>
        match getPatternValue template s.toList with
        | .error e => .error e
        | .ok patternValue => .ok (.str (String.ofList (reprList isprintable patternValue.values)))

/-! ## Messages that follow a template -/

/-- The literals, each with the name the field behind it is read under. -/
def templateParts (template : List ParsedPair) : List Part := (template.map Prod.fst).zip (fieldNames template)

/-- The text is the template with a text for each field, and every separator
is first found in its own place. -/
def Follows (template : List ParsedPair) (m : Text) : Prop :=
  ∃ v, m = formatParts v (templateParts template) ∧ (templateParts template).IsChain (Own v)

/-- A literal that is not empty, and inside of which the next does not start,
whatever is behind it. -/
def Separate (p q : Part) : Prop := p.1 ≠ [] ∧ ∀ s j, 0 < j → j < p.1.length → ¬ OccursAt (p.1 ++ s) q.1 j

theorem formatParts_congr {v w : String → Text} {parts : List Part} (h : ∀ p ∈ parts, v p.2 = w p.2) :
    formatParts v parts = formatParts w parts := by
  induction parts with
  | nil => rfl
  | cons p rest ih =>
    rw [formatParts_cons, formatParts_cons, h p (by simp), ih fun q hq => h q (by simp [hq])]

theorem isChain_own_congr {v w : String → Text} : ∀ {parts : List Part}, (∀ p ∈ parts, v p.2 = w p.2) →
    parts.IsChain (Own v) → parts.IsChain (Own w)
  | [], _, _ => List.isChain_nil
  | [p], _, _ => List.isChain_singleton p
  | p :: q :: rest, h, hchain => by
    rw [List.isChain_cons_cons] at hchain ⊢
    refine ⟨?_, isChain_own_congr (fun p' hp' => h p' (by simp [hp'])) hchain.2⟩
    rw [Own, ← h p (by simp)]
    exact hchain.1

/-- A value reaches up to where the next literal is first found; what is left
of it then belongs to the next one. -/
theorem split_own {v : String → Text} {p q : Part} (hsep : Separate p q) : ∃ x y,
    v p.2 ++ q.1 = x ++ (q.1 ++ y) ∧ find (p.1 ++ x ++ q.1) q.1 1 = some (p.1 ++ x).length := by
  have hpos : 0 < p.1.length := List.length_pos_iff.mpr hsep.1
  have hocc := occursAt_append (p.1 ++ v p.2) q.1 []
  rw [List.append_nil] at hocc
  obtain ⟨stop, hstop⟩ := exists_find hocc (show 1 ≤ _ by rw [List.length_append]; omega)
  obtain ⟨hle, hfound, hbefore⟩ := find_eq_some_iff.mp hstop
  have hinside : p.1.length ≤ stop := by
    by_contra hlt
    rw [List.append_assoc] at hfound
    exact hsep.2 _ stop (by omega) (by omega) hfound
  obtain ⟨y, hy⟩ := hfound.2
  rw [List.append_assoc, List.drop_append, List.drop_eq_nil_of_le hinside, List.nil_append] at hy
  let x := (v p.2 ++ q.1).take (stop - p.1.length)
  have hsplit : v p.2 ++ q.1 = x ++ (q.1 ++ y) := by rw [hy, List.take_append_drop]
  have hlen : (p.1 ++ x).length = stop := by
    have hshort := hfound.length_le
    simp only [List.length_append] at hshort
    rw [List.length_append, List.length_take, List.length_append]
    omega
  refine ⟨x, y, hsplit, ?_⟩
  have hwhole : p.1 ++ v p.2 ++ q.1 = [] ++ (p.1 ++ x ++ q.1 ++ y) := by
    rw [List.append_assoc, hsplit]
    simp only [List.append_assoc, List.nil_append]
  have hwindow : find ([] ++ (p.1 ++ x ++ q.1 ++ y)) q.1 (([] : Text).length + 1) = some (([] : Text).length + stop) ↔
      find (p.1 ++ x ++ q.1) q.1 1 = some stop := find_window (by rw [List.length_append, hlen])
  simp only [List.length_nil, Nat.zero_add] at hwindow
  rw [hlen, ← hwindow, ← hwhole]
  exact hstop

/-- Where each literal but the last is not empty and the next does not start
inside it, every text made from the template follows it. -/
theorem exists_own {v : String → Text} : ∀ {parts : List Part}, (parts.map Prod.snd).Nodup → parts.IsChain Separate →
    ∃ w, formatParts w parts = formatParts v parts ∧ parts.IsChain (Own w)
  | [], _, _ => ⟨v, rfl, List.isChain_nil⟩
  | [p], _, _ => ⟨v, rfl, List.isChain_singleton p⟩
  | p :: q :: rest, hnodup, hsep => by
    rw [List.map_cons, List.nodup_cons] at hnodup
    rw [List.isChain_cons_cons] at hsep
    have hother : ∀ q' ∈ q :: rest, q'.2 ≠ p.2 := fun q' hq' heq => hnodup.1 (heq ▸ List.mem_map_of_mem hq')
    have hrest : ∀ q' ∈ rest, q'.2 ≠ q.2 := fun q' hq' heq =>
      (List.nodup_cons.mp hnodup.2).1 (heq ▸ List.mem_map_of_mem hq')
    obtain ⟨x, y, hsplit, hfind⟩ := split_own (v := v) hsep.1
    -- What `p` gives up stands in front of the value of `q`.
    obtain ⟨w, hw, hchain⟩ := exists_own (v := Function.update v q.2 (y ++ v q.2)) hnodup.2 hsep.2
    have hkeep : ∀ q' ∈ q :: rest, w q'.2 = Function.update w p.2 x q'.2 := fun q' hq' =>
      (Function.update_of_ne (hother q' hq') x w).symm
    refine ⟨Function.update w p.2 x, ?_, List.isChain_cons_cons.mpr ⟨?_, isChain_own_congr hkeep hchain⟩⟩
    · rw [formatParts_cons, ← formatParts_congr hkeep, hw, Function.update_self, formatParts_cons, Function.update_self,
        formatParts_congr fun q' hq' => Function.update_of_ne (hrest q' hq') _ v, formatParts_cons v p,
          formatParts_cons v q]
      simp only [List.append_assoc]
      rw [← List.append_assoc (v p.2), hsplit]
      simp only [List.append_assoc]
    · rw [own_iff, Function.update_self]
      exact hfind

/-- Every text made from a template follows it, where its field names differ,
no literal but perhaps the last is empty and none starts inside the one before it. -/
theorem follows_of_separate {template : List ParsedPair} (hnodup : ((templateParts template).map Prod.snd).Nodup)
    (hsep : (templateParts template).IsChain Separate) (v : String → Text) :
    Follows template (formatParts v (templateParts template)) := by
  obtain ⟨w, hw, hchain⟩ := exists_own (v := v) hnodup hsep
  exact ⟨w, hw.symm, hchain⟩

/-! ## The key of a message that follows its template -/

/-- The names, each where it first stands. -/
def fieldKeys (names : List String) : Dict String String := names.foldl (fun d name => d.set name name) .empty

theorem foldl_set_mapValues (v : String → Text) (names : List String) (d : Dict String String) :
    names.foldl (fun d name => d.set name (v name)) (d.mapValues v) =
      (names.foldl (fun d name => d.set name name) d).mapValues v := by
  induction names generalizing d with
  | nil => rfl
  | cons name names ih => rw [List.foldl_cons, List.foldl_cons, ← Dict.mapValues_set, ih]

theorem mem_values_fieldKeys {names : List String} {name : String} (h : name ∈ names) :
    name ∈ (fieldKeys names).values := by
  have hget : (fieldKeys names).get? name = some name := by
    have hlast := Dict.get?_foldl_set (fun name : String => name) names .empty name
    rw [fieldKeys, hlast, Dict.get?_empty, Option.or_none]
    cases hgot : (names.filter fun x => x = name).getLast? with
    | none =>
      rw [List.getLast?_eq_none_iff, List.filter_eq_nil_iff] at hgot
      exact absurd (decide_eq_true rfl) (hgot name h)
    | some x =>
      have hx := (List.mem_filter.mp (List.mem_of_getLast? hgot)).2
      rw [of_decide_eq_true hx]
  exact List.mem_map_of_mem (f := Prod.snd) (Dict.mem_entries.mpr hget)

section Fields

variable {template : List ParsedPair} (hfields : ∀ p ∈ template, p.2 ≠ none)

include hfields

theorem length_fieldNames : (fieldNames template).length = template.length := by
  have hfold : ∀ fields names : List String,
      (fields.foldl (fun names name => names ++ [if name = "" then toString names.length else name]) names).length =
        names.length + fields.length := by
    intro fields
    induction fields with
    | nil => simp
    | cons name fields ih =>
      intro names
      rw [List.foldl_cons, ih, List.length_append, List.length_singleton, List.length_cons]
      omega
  rw [fieldNames, hfold, List.length_nil, Nat.zero_add]
  clear hfold
  induction template with
  | nil => rfl
  | cons p template ih =>
    obtain ⟨name, hname⟩ := Option.ne_none_iff_exists'.mp (hfields p (by simp))
    rw [List.filterMap_cons_some hname, List.length_cons, List.length_cons, ih fun q hq => hfields q (by simp [hq])]

/-- The scan of a text that follows the template reads each field's own text. -/
theorem getPatternValue_follows (hne : template ≠ []) {v : String → Text}
    (hchain : (templateParts template).IsChain (Own v)) :
    getPatternValue template (formatParts v (templateParts template)) =
      .ok ((fieldKeys (fieldNames template)).mapValues v) := by
  have hlen := length_fieldNames hfields
  have hliterals : (templateParts template).map Prod.fst = template.map Prod.fst :=
    List.map_fst_zip (by rw [List.length_map, hlen])
  have hnames : (templateParts template).map Prod.snd = fieldNames template :=
    List.map_snd_zip (by rw [List.length_map, hlen])
  cases hparts : templateParts template with
  | nil =>
    rw [hparts, List.map_nil] at hliterals
    exact absurd (List.map_eq_nil_iff.mp hliterals.symm) hne
  | cons p rest =>
    rw [hparts] at hliterals hnames hchain
    have hdrop : (fieldNames template).drop 0 = (p :: rest).map Prod.snd := hnames.symm
    have hrun : patternLoop ([] ++ formatParts v (p :: rest)) (fieldNames template) 0 ([] : Text).length
        ((p :: rest).map Prod.fst) .empty = .ok ((p :: rest).foldl (fun d p => d.set p.2 (v p.2)) .empty) :=
      patternLoop_chain hdrop hchain
    have hfold := foldl_set_mapValues v ((p :: rest).map Prod.snd) .empty
    rw [List.foldl_map, Dict.mapValues_empty] at hfold
    rw [getPatternValue, ← hliterals]
    rw [hfold, hnames] at hrun
    exact hrun

end Fields

/-- Two different messages that follow the same template, each field of which
stands behind its literal, have different keys. -/
theorem lastContentWithoutTemplate_ne (isprintable : Char → Bool) {template : List ParsedPair}
    (hfields : ∀ p ∈ template, p.2 ≠ none) {data data' : ChatRequest B} {m m' : String}
    (hlast : data.lastContent = .ok (.str m)) (hlast' : data'.lastContent = .ok (.str m'))
    (hm : template ≠ [] → Follows template m.toList) (hm' : template ≠ [] → Follows template m'.toList)
    (hdiff : m ≠ m') :
    ∃ key key', lastContentWithoutTemplate isprintable template data = .ok key ∧
      lastContentWithoutTemplate isprintable template data' = .ok key' ∧ key ≠ key' := by
  simp only [lastContentWithoutTemplate, hlast, hlast']
  by_cases hne : template = []
  · rw [if_pos hne, if_pos hne]
    exact ⟨_, _, rfl, rfl, fun heq => hdiff (Content.str.inj heq)⟩
  · obtain ⟨v, hv, hchain⟩ := hm hne
    obtain ⟨w, hw, hchain'⟩ := hm' hne
    rw [if_neg hne, if_neg hne, hv, hw, getPatternValue_follows hfields hne hchain,
      getPatternValue_follows hfields hne hchain']
    refine ⟨_, _, rfl, rfl, fun heq => hdiff (String.toList_inj.mp ?_)⟩
    have hvalues := reprList_injective (String.ofList_injective (Content.str.inj heq))
    rw [hv, hw]
    refine formatParts_congr fun p hp => ?_
    have hname : p.2 ∈ fieldNames template := (List.of_mem_zip hp).2
    rw [Dict.values_mapValues, Dict.values_mapValues, List.map_inj_left] at hvalues
    exact hvalues p.2 (mem_values_fieldKeys hname)

/-- A chat of one message. -/
def said (m : String) : ChatRequest B := ⟨some [Dict.empty.set "content" (.str m)]⟩

/-- `"Q: {x}"`. -/
def questionTemplate : List ParsedPair := [("Q: ".toList, some "x")]

theorem lastContentWithoutTemplate_ne_questions : ∃ key key',
    lastContentWithoutTemplate (B := Unit) (fun _ => true) questionTemplate (said "Q: hello") = .ok key ∧
    lastContentWithoutTemplate (B := Unit) (fun _ => true) questionTemplate (said "Q: world") = .ok key' ∧ key ≠ key' :=
  lastContentWithoutTemplate_ne _ (by simp [questionTemplate]) rfl rfl
    (fun _ => ⟨fun _ => "hello".toList, rfl, List.isChain_singleton _⟩)
    (fun _ => ⟨fun _ => "world".toList, rfl, List.isChain_singleton _⟩) (by decide)

/-- Two messages without the template's literal: no value is read off either.
The last two lines are about `"xa{f}ab{g}"`, whose second literal can start
inside the first, and about `"{{a{x}"`, whose first has no field. -/
theorem lastContentWithoutTemplate_collides :
    (lastContentWithoutTemplate (B := Unit) (fun _ => true) questionTemplate (said "hello") = .ok (.str "[]") ∧
      lastContentWithoutTemplate (B := Unit) (fun _ => true) questionTemplate (said "world") = .ok (.str "[]")) ∧
    (∃ key, lastContentWithoutTemplate (B := Unit) (fun _ => true) [("xa".toList, some "f"), ("ab".toList, some "g")]
        (said "xababZ") = .ok key ∧
      lastContentWithoutTemplate (B := Unit) (fun _ => true) [("xa".toList, some "f"), ("ab".toList, some "g")]
        (said "xaababZ") = .ok key) ∧
    lastContentWithoutTemplate (B := Unit) (fun _ => true) [("\x7b".toList, none), ("a".toList, some "x")]
      (said "\x7ba5") = .error ⟨.IndexError, "list index out of range"⟩ :=
  ⟨⟨rfl, rfl⟩, ⟨_, rfl, rfl⟩, rfl⟩

end GptCache
