/-
The values of a template's parameters, read off a text that was formatted
with it (gptcache/processor/pre.py, `_get_pattern_value`).

`string.Formatter().parse` is taken as the pairs it yields: a literal and the
name of the field behind it, none behind a trailing literal. `patternLoop` is
the scan over the literals; the place it has reached is always an occurrence
of the literal it is at (`find_self`), so only the search for the next one
matters.
-/
import Mathlib.Data.List.Chain
import GptCache.Lib.Dict
import GptCache.Lib.Find
import GptCache.Python

namespace GptCache

open Sequence

/-- A literal and the name of the field behind it. -/
abbrev ParsedPair := Text × Option String

/-- `field_name_arr`: a field without a name is named by its place. -/
def fieldNames (parsed : List ParsedPair) : List String :=
  (parsed.filterMap Prod.snd).foldl (fun names name => names ++ [if name = "" then toString names.length else name]) []

/-- `s[start:stop]`. -/
def slice (s : Text) (start stop : Nat) : Text := (s.take stop).drop start

/-- `end`: behind the last literal the end of the text, else where the next
literal is found. A `start` of -1 makes this search one from 0. -/
def searchEnd (value : Text) (start : Option Nat) : List Text → Option Nat
  | [] => some value.length
  | next :: _ => find value next ((start.map (· + 1)).getD 0)

/-- The loop from literal `i` on. -/
def patternLoop (value : Text) (names : List String) (i lastEnd : Nat) :
    List Text → Dict String Text → Except PyError (Dict String Text)
  | [], values => .ok values
  | literal :: literals, values =>
    match find value literal lastEnd, searchEnd value (find value literal lastEnd) literals with
    | some start, some stop =>
      match names[i]? with
      | none => .error ⟨.IndexError, "list index out of range"⟩
      | some name =>
        patternLoop value names (i + 1) stop literals (values.set name (slice value (start + literal.length) stop))
    | _, _ => .ok values

/-- `_get_pattern_value`, on what `string.Formatter().parse` yields. -/
def getPatternValue (parsed : List ParsedPair) (value : Text) : Except PyError (Dict String Text) :=
  patternLoop value (fieldNames parsed) 0 0 (parsed.map Prod.fst) .empty

/-- A literal and the field behind it. -/
abbrev Part := Text × String

/-- `l0{f1}l1{f2}...{fn}ln`, with a separator between every two fields. -/
structure Template where
  parts : List Part
  tail : Text
  parts_ne : parts ≠ []
  nodup : (parts.map Prod.snd).Nodup
  named : ∀ p ∈ parts, p.2 ≠ ""
  separated : ∀ p ∈ parts.tail, p.1 ≠ []

/-- The parts with each field's value in its place. -/
def formatParts (v : String → Text) (parts : List Part) : Text := parts.flatMap fun p => p.1 ++ v p.2

namespace Template

variable (t : Template) (v : String → Text)

def parse : List ParsedPair :=
  (t.parts.map fun p => (p.1, some p.2)) ++ if t.tail = [] then [] else [(t.tail, none)]

/-- `template.format(f1=v f1, ..., fn=v fn)`. -/
def format : Text := formatParts v t.parts ++ t.tail

/-- `{f1: v f1, ..., fn: v fn}`. -/
def fieldValues : Dict String Text :=
  ⟨t.parts.map fun p => (p.2, v p.2), by simpa [Function.comp_def] using t.nodup⟩

end Template

/-- The literal of `q` is nowhere in what `p` is formatted to before its own
place behind it, the first character apart. -/
def Own (v : String → Text) (p q : Part) : Prop :=
  0 < (p.1 ++ v p.2).length ∧ ∀ j, 0 < j → j < (p.1 ++ v p.2).length → ¬ OccursAt (p.1 ++ v p.2 ++ q.1) q.1 j

theorem own_iff {v : String → Text} {p q : Part} :
    Own v p q ↔ find (p.1 ++ v p.2 ++ q.1) q.1 1 = some (p.1 ++ v p.2).length := by
  have hocc := occursAt_append (p.1 ++ v p.2) q.1 []
  rw [List.append_nil] at hocc
  rw [find_eq_some_iff]
  exact ⟨fun h => ⟨h.1, hocc, h.2⟩, fun h => ⟨h.1, h.2.2⟩⟩

instance (v : String → Text) : DecidableRel (Own v) := fun _ _ => decidable_of_iff _ own_iff.symm

/-! ## One turn of the loop -/

theorem getElem?_of_drop {names rest : List String} {name : String} {i : Nat} (h : names.drop i = name :: rest) :
    names[i]? = some name ∧ names.drop (i + 1) = rest := by
  constructor
  · rw [← List.head?_drop, h]
    rfl
  · rw [← List.tail_drop, h]
    rfl

section Loop

variable {value : Text} {names : List String} {i lastEnd : Nat} {values d : Dict String Text}

/-- At the last literal the rest of the text is the value. -/
theorem patternLoop_last {literal : Text} (h : OccursAt value literal lastEnd) :
    patternLoop value names i lastEnd [literal] values =
      match names[i]? with
      | none => .error ⟨.IndexError, "list index out of range"⟩
      | some name => .ok (values.set name (slice value (lastEnd + literal.length) value.length)) := by
  simp only [patternLoop, find_self h, searchEnd]

theorem patternLoop_next {literal next : Text} {literals : List Text} {name : String}
    (h : OccursAt value literal lastEnd) (hname : names[i]? = some name) :
    patternLoop value names i lastEnd (literal :: next :: literals) values =
      match find value next (lastEnd + 1) with
      | none => .ok values
      | some stop => patternLoop value names (i + 1) stop (next :: literals)
          (values.set name (slice value (lastEnd + literal.length) stop)) := by
  conv_lhs => rw [patternLoop]
  simp only [find_self h, searchEnd, Option.map_some, Option.getD_some, hname]
  cases find value next (lastEnd + 1) <;> rfl

/-- A field the loop has passed keeps its value. -/
theorem patternLoop_get?_passed {k : String} {literals : List Text} (hk : k ∉ names.drop i)
    (h : patternLoop value names i lastEnd literals values = .ok d) : d.get? k = values.get? k := by
  induction literals generalizing i lastEnd values with
  | nil =>
    cases h
    rfl
  | cons literal literals ih =>
    rw [patternLoop] at h
    split at h
    · rename_i start stop _ _
      cases hname : names[i]? with
      | none =>
        rw [hname] at h
        cases h
      | some name =>
        rw [hname] at h
        rw [List.drop_eq_getElem?_toList_append, hname, Option.toList_some, List.singleton_append,
          List.mem_cons, not_or] at hk
        rw [ih hk.2 h, Dict.get?_set_of_ne _ _ hk.1]
    · cases h
      rfl

/-- A turn before the last literal: the next literal is not found and the scan
ends, or the field gets what is up to it, for good. -/
theorem patternLoop_turn {literal next : Text} {literals : List Text} {name : String} {rest : List String}
    (h : OccursAt value literal lastEnd) (hnames : names.drop i = name :: rest) (hname : name ∉ rest)
    (hrun : patternLoop value names i lastEnd (literal :: next :: literals) values = .ok d) :
    d = values ∨ ∃ stop, find value next (lastEnd + 1) = some stop ∧
      d.get? name = some (slice value (lastEnd + literal.length) stop) ∧
      patternLoop value names (i + 1) stop (next :: literals)
        (values.set name (slice value (lastEnd + literal.length) stop)) = .ok d := by
  obtain ⟨hfield, hdrop⟩ := getElem?_of_drop hnames
  rw [patternLoop_next h hfield] at hrun
  cases hstop : find value next (lastEnd + 1) with
  | none =>
    rw [hstop] at hrun
    cases hrun
    exact .inl rfl
  | some stop =>
    rw [hstop] at hrun
    have hkeep := patternLoop_get?_passed (k := name) (by rw [hdrop]; exact hname) hrun
    exact .inr ⟨stop, rfl, by rw [hkeep, Dict.get?_set_self], hrun⟩

end Loop

/-! ## The whole scan -/

theorem formatParts_cons (v : String → Text) (p : Part) (rest : List Part) :
    formatParts v (p :: rest) = p.1 ++ v p.2 ++ formatParts v rest := List.flatMap_cons

theorem length_formatParts_cons (v : String → Text) (p : Part) (rest : List Part) :
    (formatParts v (p :: rest)).length = p.1.length + (v p.2).length + (formatParts v rest).length := by
  rw [formatParts_cons, List.length_append, List.length_append]

theorem length_slice (s : Text) (start stop : Nat) : (slice s start stop).length = min stop s.length - start := by
  rw [slice, List.length_drop, List.length_take]

/-- What stands between two places is cut out by them. -/
theorem slice_between (pre s post : Text) : slice (pre ++ (s ++ post)) pre.length (pre.length + s.length) = s := by
  rw [slice, List.take_length_add_append, List.take_left, List.drop_left]

variable {v : String → Text} {names : List String}

theorem occursAt_formatParts (pre : Text) (p : Part) (rest : List Part) :
    OccursAt (pre ++ formatParts v (p :: rest)) p.1 pre.length := by
  rw [formatParts_cons, List.append_assoc]
  exact occursAt_append pre p.1 _

theorem append_formatParts (pre : Text) (p : Part) (rest : List Part) :
    pre ++ formatParts v (p :: rest) = pre ++ p.1 ++ v p.2 ++ formatParts v rest := by
  rw [formatParts_cons, List.append_assoc, List.append_assoc, List.append_assoc]

/-- Where the part behind `p` is. -/
theorem length_place (pre : Text) (p : Part) :
    (pre ++ p.1 ++ v p.2).length = pre.length + p.1.length + (v p.2).length := by
  rw [List.length_append, List.length_append]

/-- From a part's own place, its value is what stands up to the next part's. -/
theorem slice_formatParts (pre : Text) (p : Part) (rest : List Part) :
    slice (pre ++ formatParts v (p :: rest)) (pre.length + p.1.length) (pre.length + p.1.length + (v p.2).length) =
      v p.2 := by
  have hbetween := slice_between (pre ++ p.1) (v p.2) (formatParts v rest)
  rwa [List.length_append, List.append_assoc, ← List.append_assoc p.1, ← formatParts_cons] at hbetween

/-- Between the own places of two parts the search is that of `Own`. -/
theorem find_formatParts (pre : Text) (p q : Part) (rest : List Part) :
    find (pre ++ formatParts v (p :: q :: rest)) q.1 (pre.length + 1) = some (pre ++ p.1 ++ v p.2).length ↔
      Own v p q := by
  have hlen : (pre ++ p.1 ++ v p.2).length = pre.length + (p.1 ++ v p.2).length := by
    simp only [List.length_append]
    omega
  have hvalue : pre ++ formatParts v (p :: q :: rest) = pre ++
      (p.1 ++ v p.2 ++ q.1 ++ (v q.2 ++ formatParts v rest)) := by
    simp only [formatParts_cons, List.append_assoc]
  rw [hlen, hvalue, find_window (by simp only [List.length_append, Nat.le_refl]), own_iff]

/-- Where every search finds the next literal's own place, the fields get their values. -/
theorem patternLoop_chain : ∀ {rest : List Part} {p : Part} {pre : Text} {i : Nat} {values : Dict String Text},
    names.drop i = (p :: rest).map Prod.snd → (p :: rest).IsChain (Own v) →
    patternLoop (pre ++ formatParts v (p :: rest)) names i pre.length ((p :: rest).map Prod.fst) values =
      .ok ((p :: rest).foldl (fun d p => d.set p.2 (v p.2)) values)
  | [], p, pre, i, values, hnames, _ => by
    have hlen : (pre ++ formatParts v [p]).length = pre.length + p.1.length + (v p.2).length := by
      have hnil : (formatParts v []).length = 0 := rfl
      rw [List.length_append, length_formatParts_cons]
      omega
    rw [List.map_singleton, patternLoop_last (occursAt_formatParts pre p []), (getElem?_of_drop hnames).1,
      hlen, slice_formatParts]
    rfl
  | q :: rest, p, pre, i, values, hnames, hchain => by
    obtain ⟨hname, hdrop⟩ := getElem?_of_drop hnames
    rw [List.isChain_cons_cons] at hchain
    rw [List.map_cons, List.map_cons, patternLoop_next (occursAt_formatParts pre p _) hname,
      (find_formatParts pre p q rest).mpr hchain.1]
    simp only [length_place, slice_formatParts]
    rw [← length_place, append_formatParts, ← List.map_cons, patternLoop_chain hdrop hchain.2, List.foldl_cons (a := p)]

/-- Where the fields get their values, the scan is at a part's own place and
every search from there finds the next one's. Read from the last literal
backwards: the last value goes to the end of the text, so it fixes the place
before it. -/
theorem chain_of_patternLoop : ∀ {rest : List Part} {p : Part} {pre : Text} {i lastEnd : Nat}
    {values d : Dict String Text}, names.drop i = (p :: rest).map Prod.snd → ((p :: rest).map Prod.snd).Nodup →
    lastEnd ≤ pre.length → OccursAt (pre ++ formatParts v (p :: rest)) p.1 lastEnd →
    (∀ q ∈ rest, values.get? q.2 = none) →
    patternLoop (pre ++ formatParts v (p :: rest)) names i lastEnd ((p :: rest).map Prod.fst) values = .ok d →
    (∀ q ∈ p :: rest, d.get? q.2 = some (v q.2)) → lastEnd = pre.length ∧ (p :: rest).IsChain (Own v)
  | [], p, pre, i, lastEnd, values, d, hnames, _, hle, hocc, _, hrun, hread => by
    rw [List.map_singleton, patternLoop_last hocc, (getElem?_of_drop hnames).1] at hrun
    cases hrun
    have hvalue := hread p (by simp)
    rw [Dict.get?_set_self, Option.some.injEq] at hvalue
    have hlen := congrArg List.length hvalue
    have hnil : (formatParts v []).length = 0 := rfl
    rw [length_slice, List.length_append, length_formatParts_cons] at hlen
    exact ⟨by omega, List.isChain_singleton p⟩
  | q :: rest, p, pre, i, lastEnd, values, d, hnames, hnodup, hle, hocc, hnew, hrun, hread => by
    rw [List.map_cons, List.nodup_cons] at hnodup
    have hother : ∀ q' ∈ q :: rest, q'.2 ≠ p.2 := fun q' hq' heq => hnodup.1 (heq ▸ List.mem_map_of_mem hq')
    have hplace := length_place (v := v) pre p
    have hvalue := append_formatParts (v := v) pre p (q :: rest)
    rcases patternLoop_turn hocc hnames hnodup.1 hrun with rfl | ⟨stop, hstop, hcut, hrun⟩
    · exact absurd (hread q (by simp)) (by simp [hnew q (by simp)])
    · obtain ⟨hlt, hfound, -⟩ := find_eq_some_iff.mp hstop
      have hown : OccursAt (pre ++ formatParts v (p :: q :: rest)) q.1 (pre ++ p.1 ++ v p.2).length := by
        rw [hvalue]
        exact occursAt_formatParts _ q rest
      rw [hread p (by simp), Option.some.injEq] at hcut
      have hlen := congrArg List.length hcut
      rw [length_slice, Nat.min_eq_left hfound.1] at hlen
      have hbound : stop ≤ (pre ++ p.1 ++ v p.2).length := by
        by_cases hpos : 0 < p.1.length + (v p.2).length
        · exact find_le hstop hown (by omega)
        · omega
      rw [hvalue] at hrun hfound
      obtain ⟨hreached, hchain⟩ := chain_of_patternLoop (getElem?_of_drop hnames).2 hnodup.2 hbound hfound
        (fun q' hq' => by rw [Dict.get?_set_of_ne _ _ (hother q' (by simp [hq'])), hnew q' (by simp [hq'])])
        hrun (fun q' hq' => hread q' (by simp [hq']))
      have heq : lastEnd = pre.length := by omega
      subst heq
      exact ⟨rfl, List.isChain_cons_cons.mpr ⟨(find_formatParts pre p q rest).mp (hreached ▸ hstop), hchain⟩⟩

/-- Behind the last field a literal has no name to read its value under: the
scan ends before it, with a field left out, or raises. -/
theorem patternLoop_trailing {value tail : Text} : ∀ {rest : List Part} {i lastEnd : Nat} {values d : Dict String Text},
    names.drop i = rest.map Prod.snd → (rest.map Prod.snd).Nodup →
    (∀ literal ∈ (rest.map Prod.fst ++ [tail]).head?, OccursAt value literal lastEnd) →
    (∀ p ∈ rest, values.get? p.2 = none) →
    patternLoop value names i lastEnd (rest.map Prod.fst ++ [tail]) values = .ok d → ∃ p ∈ rest, d.get? p.2 = none
  | [], i, lastEnd, values, d, hnames, _, hocc, _, hrun => by
    have hnone : names[i]? = none := by
      rw [← List.head?_drop, hnames]
      rfl
    rw [List.map_nil, List.nil_append, patternLoop_last (hocc tail (by simp)), hnone] at hrun
    cases hrun
  | p :: rest, i, lastEnd, values, d, hnames, hnodup, hocc, hnew, hrun => by
    rw [List.map_cons, List.nodup_cons] at hnodup
    have hother : ∀ q ∈ rest, q.2 ≠ p.2 := fun q hq heq => hnodup.1 (heq ▸ List.mem_map_of_mem hq)
    obtain ⟨next, literals, hliterals⟩ := List.exists_cons_of_ne_nil (l := rest.map Prod.fst ++ [tail]) (by simp)
    rw [List.map_cons, List.cons_append, hliterals] at hrun
    rcases patternLoop_turn (hocc p.1 (by simp)) hnames hnodup.1 hrun with rfl | ⟨stop, hstop, -, hrun⟩
    · exact ⟨p, by simp, hnew p (by simp)⟩
    · have hnext : ∀ literal ∈ (rest.map Prod.fst ++ [tail]).head?, OccursAt value literal stop := by
        rw [hliterals]
        rintro _ ⟨⟩
        exact (find_eq_some_iff.mp hstop).2.1
      rw [← hliterals] at hrun
      obtain ⟨q, hq, hqnone⟩ := patternLoop_trailing (getElem?_of_drop hnames).2 hnodup.2 hnext
        (fun q hq => by rw [Dict.get?_set_of_ne _ _ (hother q hq), hnew q (by simp [hq])]) hrun
      exact ⟨q, by simp [hq], hqnone⟩

namespace Template

variable (t : Template) (v : String → Text)

theorem fieldNames_parse : fieldNames t.parse = t.parts.map Prod.snd := by
  have hfields : t.parse.filterMap Prod.snd = t.parts.map Prod.snd := by
    rw [parse, List.filterMap_append, List.filterMap_map]
    by_cases htail : t.tail = [] <;> simp [htail, List.filterMap_eq_map']
  have hfold : ∀ (fields names : List String), (∀ name ∈ fields, name ≠ "") →
      fields.foldl (fun names name => names ++ [if name = "" then toString names.length else name]) names =
        names ++ fields := by
    intro fields
    induction fields with
    | nil => simp
    | cons name fields ih =>
      intro names hnamed
      rw [List.foldl_cons, if_neg (hnamed name (by simp)), ih _ fun n hn => hnamed n (by simp [hn]), List.append_assoc]
      rfl
  rw [fieldNames, hfields, hfold _ _ fun name hname => ?_, List.nil_append]
  obtain ⟨p, hp, rfl⟩ := List.mem_map.mp hname
  exact t.named p hp

theorem get?_fieldValues {p : Part} (h : p ∈ t.parts) : (t.fieldValues v).get? p.2 = some (v p.2) :=
  Dict.mem_entries.mp (List.mem_map_of_mem h)

theorem foldl_set_parts : t.parts.foldl (fun d p => d.set p.2 (v p.2)) .empty = t.fieldValues v :=
  Dict.ext (by rw [Dict.entries_foldl_set _ _ (by simpa [Dict.keys, Dict.empty] using t.nodup)]; rfl)

/-- The values a text was formatted with are read off it exactly when nothing
stands behind the last field and every separator is first found, from the
second character of what is before it on, in its own place. -/
theorem getPatternValue_format :
    getPatternValue t.parse (t.format v) = .ok (t.fieldValues v) ↔ t.tail = [] ∧ t.parts.IsChain (Own v) := by
  obtain ⟨p, rest, hparts⟩ := List.exists_cons_of_ne_nil t.parts_ne
  have hnodup := t.nodup
  rw [getPatternValue, fieldNames_parse]
  by_cases htail : t.tail = []
  · have hliterals : t.parse.map Prod.fst = t.parts.map Prod.fst := by simp [parse, htail, Function.comp_def]
    have hformat : t.format v = [] ++ formatParts v t.parts := by rw [format, htail, List.append_nil, List.nil_append]
    rw [hliterals, hformat, hparts]
    refine ⟨fun hrun => ⟨htail, ?_⟩, fun ⟨_, hchain⟩ => ?_⟩
    · exact (chain_of_patternLoop (i := 0) rfl (hparts ▸ hnodup) (Nat.le_refl 0) (occursAt_formatParts [] p rest)
        (fun q _ => Dict.get?_empty q.2) hrun fun q hq => t.get?_fieldValues v (hparts ▸ hq)).2
    · have hrun : patternLoop ([] ++ formatParts v (p :: rest)) ((p :: rest).map Prod.snd) 0
          ([] : Text).length _ .empty = _ :=
        patternLoop_chain rfl hchain
      rw [← t.foldl_set_parts v, hparts]
      exact hrun
  · refine iff_of_false (fun hrun => ?_) fun h => htail h.1
    have hliterals : t.parse.map Prod.fst = t.parts.map Prod.fst ++ [t.tail] := by
      simp [parse, htail, Function.comp_def]
    rw [hliterals] at hrun
    have hocc : ∀ literal ∈ (t.parts.map Prod.fst ++ [t.tail]).head?, OccursAt (t.format v) literal 0 := by
      rw [format, hparts, formatParts_cons, List.append_assoc, List.append_assoc]
      rintro _ ⟨⟩
      exact occursAt_append [] p.1 _
    obtain ⟨q, hq, hnone⟩ := patternLoop_trailing (i := 0) rfl hnodup hocc (fun q _ => Dict.get?_empty q.2) hrun
    rw [t.get?_fieldValues v hq] at hnone
    cases hnone

/-- No value shares a character with a literal. -/
def Apart : Prop := ∀ p ∈ t.parts, ∀ c ∈ v p.2, c ∉ t.tail ∧ ∀ q ∈ t.parts, c ∉ q.1

/-- `"Q: {x}?"`. -/
def question : Template := ⟨[("Q: ".toList, "x")], "?".toList, by decide, by decide, by decide, by decide⟩

/-- The mark behind the field is a literal without a name. -/
theorem question_raises :
    question.Apart (fun _ => "42".toList) ∧ getPatternValue question.parse (question.format fun _ => "42".toList) =
      .error ⟨.IndexError, "list index out of range"⟩ := ⟨by simp [Apart, question], rfl⟩

/-- `"Q: {x}: {y}"`. -/
def colons : Template :=
  ⟨[("Q: ".toList, "x"), (": ".toList, "y")], [], by decide, by decide, by decide, by decide⟩

-- The separator is first found in the literal before it.
example : getPatternValue colons.parse (colons.format fun _ => "42".toList) =
    .ok ((Dict.empty.set "x" []).set "y" "42: 42".toList) := rfl

end Template

end GptCache
