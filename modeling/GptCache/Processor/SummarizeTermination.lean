/-
When `summarize_to_sentence` returns
(gptcache/processor/context/summarization_context.py), of a summarizer that
keeps to the length it is given, not counting the `sp` special tokens every
encoded text has.

A text is summarized while it is too long with its special tokens, so a share
below what these lead to is never reached (`lt_summary`), and with more than
one segment the length of the summaries joined is anyone's
(`summarizeToSentence_returns_iff`).
-/
import Mathlib.Algebra.Order.BigOperators.Group.List
import Mathlib.Data.List.Zip
import GptCache.Processor.Summarize

namespace GptCache

variable {B T : Type}

/-- The summaries have at most the tokens asked for; encoding adds `sp` to
every text. -/
structure KeepsLength (sp : Nat) (s : Summarizer T) (tokenizer : Tokenizer T) : Prop where
  encode : ∀ text, (s.encode text).length = (tokenizer.tokenize text).length + sp
  summary : ∀ text minLength maxLength, ∃ summary, s.summarize text minLength maxLength = .ok summary ∧
    (s.encode summary).length ≤ maxLength + sp

/-! ## One pass -/

/-- Texts joined in order. -/
def joined (out : List T → String) (segs : List (List T)) : String :=
    segs.foldl (fun text segment => text ++ out segment) ""

theorem forEach_summaries {s : Summarizer T} {out : List T → String} (text : String) :
    ∀ {segs : List (List T)} (result : String), (∀ segment ∈ segs, summarizeSegment s segment = .ok (out segment)) →
    Exec.forEach (fun segment => Exec.ofExcept (summarizeSegment s segment) >>= fun summary =>
      (Exec.modify fun v => (v.1, v.2 ++ summary) : Exec PyError (String × String) Unit)) segs (text, result) =
      some (.ok (), (text, segs.foldl (fun text segment => text ++ out segment) result))
  | [], result, _ => rfl
  | segment :: segs, result, h => by
    have hrest := forEach_summaries text (result ++ out segment)
      fun seg hseg => h seg (List.mem_cons_of_mem _ hseg)
    rw [Exec.forEach_cons, h segment List.mem_cons_self, List.foldl_cons]
    exact hrest

/-- A pass puts the summaries of the segments in the place of the text. -/
theorem summarizeRound_ok {s : Summarizer T} {segmentLen : Int} {out : List T → String} {segs : List (List T)}
    {v : String × String} (hsegs : segments (s.encode v.1) segmentLen = .ok segs)
    (h : ∀ segment ∈ segs, summarizeSegment s segment = .ok (out segment)) :
    summarizeRound s segmentLen v = some (.ok (), (joined out segs, joined out segs)) := by
  obtain ⟨text, result⟩ := v
  have hall := forEach_summaries text "" h
  rw [summarizeRound, Exec.read_bind]
  dsimp only at hsegs ⊢
  rw [hsegs]
  show (Exec.forEach _ segs >>= _) (text, "") = _
  rw [Exec.bind_of_ok _ hall]
  rfl

theorem segments_eq {tokens : List T} {segmentLen : Int} {step : Nat}
    (hstep : segmentLen - 1 = step) (hpos : 0 < step) :
    segments tokens segmentLen = .ok (((List.range ((tokens.length + step - 1) / step)).map (· * step)).map
      fun i => (tokens.drop i).take (step + 1)) := by
  have hlen : segmentLen.toNat = step + 1 := by omega
  have hcast : (segmentLen - 1).toNat = step := by omega
  simp only [segments, hcast, hlen]
  rw [if_neg (by omega), if_neg (by omega)]

/-- A text that fits into one segment is one. -/
theorem segments_one {tokens : List T} {segmentLen : Int} (step : Nat) (hstep : segmentLen - 1 = step)
    (hne : 0 < tokens.length) (hle : tokens.length ≤ step) : segments tokens segmentLen = .ok [tokens] := by
  have hone : (tokens.length + step - 1) / step = 1 := Nat.div_eq_of_lt_le (by omega) (by omega)
  rw [segments_eq hstep (by omega), hone]
  simp [List.take_of_length_le (show tokens.length ≤ step + 1 by omega)]

/-- A longer one is several. -/
theorem segments_many {tokens : List T} {segmentLen : Int} {step : Nat}
    (hstep : segmentLen - 1 = step) (hpos : 0 < step)
    (hlt : step < tokens.length) : ∃ segs, segments tokens segmentLen = .ok segs ∧ 2 ≤ segs.length := by
  refine ⟨_, segments_eq hstep hpos, ?_⟩
  rw [List.length_map, List.length_map, List.length_range, Nat.le_div_iff_mul_le hpos]
  omega

/-! ## Where it returns -/

section Returns

variable {sp : Nat} {s : Summarizer T} {tokenizer : Tokenizer T} {targetLen : Nat}

/-- A summary of a text that is longer than what the special tokens lead to is shorter. -/
theorem summary_lt {e : Nat} (htarget : sp + sp / 3 ≤ targetLen) (he : targetLen < e) : e / 4 + sp < e := by
  omega

/-- With one segment and a share that can be reached every pass makes the text shorter. -/
theorem summarizeToLength_returns (h : KeepsLength sp s tokenizer) {text : String} {maxLen : Int} {step : Nat}
    (hstep : maxLen - 101 = step) (htarget : sp + sp / 3 ≤ targetLen) (hfits : (s.encode text).length ≤ step)
    {fuel : Nat} (hfuel : (s.encode text).length < fuel) : ∃ result, summarizeToLength fuel s text targetLen maxLen =
    some (.ok result) := by
  have hpass : ∀ v : String × String, (s.encode v.1).length ≤ step →
      decide (targetLen < (s.encode v.1).length) = true → Exec.wp (summarizeRound s (maxLen - 100))
        (fun _ v' => (s.encode v'.1).length ≤ step ∧ (s.encode v'.1).length < (s.encode v.1).length)
          (fun _ _ => False) v := by
    intro v hv hlong
    have hlong := of_decide_eq_true hlong
    obtain ⟨summary, hsummary, hshort⟩ := h.summary (s.decode (s.encode v.1)) (max ((s.encode v.1).length / 4 - 10) 1)
      ((s.encode v.1).length / 4)
    have hone : segments (s.encode v.1) (maxLen - 100) = .ok [s.encode v.1] :=
      segments_one step (by omega) (by omega) hv
    have hsegment : ∀ segment ∈ [s.encode v.1], summarizeSegment s segment = .ok summary := fun segment hsegment => by
      rw [List.mem_singleton] at hsegment
      rw [hsegment]
      exact hsummary
    have hround := summarizeRound_ok hone hsegment
    have hjoined : joined (fun _ : List T => summary) [s.encode v.1] = summary := String.empty_append
    have hless := summary_lt htarget hlong
    rw [Exec.wp_of_ok hround, hjoined]
    show (s.encode summary).length ≤ step ∧ (s.encode summary).length < (s.encode v.1).length
    omega
  have hloop := Exec.wp_loop (I := fun v : String × String => (s.encode v.1).length ≤ step)
    (μ := fun v => (s.encode v.1).length) hpass (s := (text, text)) hfits hfuel
  obtain ⟨_, v, hrun, -⟩ := Exec.wp_returns_ok hloop
  refine ⟨v.2, ?_⟩
  rw [summarizeToLength, hrun]
  rfl

end Returns

/-! ## Where it does not -/

section Never

/-- The pieces of a model that says as much as it may. A summary of `m` tokens
is `mark + 1` times `a` and `m` times `b`; `known` are the texts whose tokens
are given, `many` is what a text of several summaries has. -/
def summaryText (mark m : Nat) : String := String.ofList (List.replicate (mark + 1) 'a' ++ List.replicate m 'b')

def countTokens (known : List String) (tokens : String → Nat) (mark many : Nat) (text : String) : Nat :=
  if text ∈ known then tokens text
  else if text.toList.count 'a' ≤ mark + 1 then text.toList.count 'b' else many

def talkative (sp : Nat) (count : String → Nat) (mark : Nat) : Summarizer Nat where
  encode text := List.replicate (count text + sp) 0
  decode _ := ""
  summarize _ _ maxLength := .ok (summaryText mark maxLength)

def countingTokenizer (count : String → Nat) (modelMaxLength : Int) : Tokenizer Nat where
  tokenize text := List.replicate (count text) 0
  modelMaxLength := modelMaxLength

theorem count_summaryText (mark m : Nat) :
    (summaryText mark m).toList.count 'a' = mark + 1 ∧ (summaryText mark m).toList.count 'b' = m := by
  have hab : ('b' == 'a') = false ∧ ('a' == 'b') = false := by decide
  simp [summaryText, List.count_append, List.count_replicate, hab]

/-- Every summary that is joined brings its `a`s. -/
theorem count_joined (mark : Nat) (segs : List (List Nat)) :
    (joined (fun segment => summaryText mark (segment.length / 4)) segs).toList.count 'a' =
    segs.length * (mark + 1) := by
  have hfold : ∀ (segs : List (List Nat)) (text : String),
      (segs.foldl (fun text segment => text ++ summaryText mark (segment.length / 4)) text).toList.count 'a' =
        text.toList.count 'a' + segs.length * (mark + 1) := by
    intro segs
    induction segs with
    | nil => simp
    | cons segment segs ih =>
      intro text
      rw [List.foldl_cons, ih, String.toList_append, List.count_append, (count_summaryText mark _).1, List.length_cons,
        Nat.add_mul, Nat.one_mul]
      omega
  simpa [joined] using hfold segs ""

section

variable {known : List String} {tokens : String → Nat} {mark many sp : Nat}
  (hmark : ∀ text ∈ known, text.toList.length ≤ mark)

include hmark

theorem countTokens_unknown {text : String} (h : mark < text.toList.count 'a') :
    countTokens known tokens mark many text = if text.toList.count 'a' ≤
      mark + 1 then text.toList.count 'b' else many := by
  rw [countTokens, if_neg]
  intro hmem
  have hlen := hmark text hmem
  have hcount := List.count_le_length (a := 'a') (l := text.toList)
  omega

theorem countTokens_summary (m : Nat) : countTokens known tokens mark many (summaryText mark m) = m := by
  obtain ⟨ha, hb⟩ := count_summaryText mark m
  rw [countTokens_unknown hmark (by omega), ha, if_pos (Nat.le_refl _), hb]

theorem countTokens_joined {segs : List (List Nat)} (h : 2 ≤ segs.length) :
    countTokens known tokens mark many (joined (fun segment => summaryText mark (segment.length / 4)) segs) = many := by
  have hcount := count_joined mark segs
  have hlarge : 2 * (mark + 1) ≤ segs.length * (mark + 1) := Nat.mul_le_mul_right _ h
  rw [countTokens_unknown hmark (by omega), if_neg (by omega)]

theorem talkative_keepsLength (modelMaxLength : Int) :
    KeepsLength sp (talkative sp (countTokens known tokens mark many) mark)
      (countingTokenizer (countTokens known tokens mark many) modelMaxLength) where
  encode text := by simp [talkative, countingTokenizer]
  summary text minLength maxLength := by
    refine ⟨_, rfl, ?_⟩
    rw [talkative, List.length_replicate, countTokens_summary hmark]

/-- Such a model never gets a text below a share that the special tokens do not
let it reach, nor one of several segments. -/
theorem summarizeToLength_never (text : String) {targetLen step : Nat} {maxLen : Int} (hstep : maxLen - 101 = step)
    (hpos : 0 < step) (hmany : max step targetLen < many)
    (hlong : targetLen < countTokens known tokens mark many text + sp)
    (hstuck : step < countTokens known tokens mark many text + sp ∨ targetLen < sp + sp / 3) (fuel : Nat) :
    summarizeToLength fuel (talkative sp (countTokens known tokens mark many) mark) text targetLen maxLen = none := by
  let s := talkative sp (countTokens known tokens mark many) mark
  let J : String × String → Prop := fun v => targetLen < (s.encode v.1).length ∧
    (step < (s.encode v.1).length ∨ targetLen < sp + sp / 3)
  have hlength : ∀ text, (s.encode text).length = countTokens known tokens mark many text + sp := fun text =>
    List.length_replicate
  have hbody : ∀ v, J v → ∃ v', summarizeRound s (maxLen - 100) v = some (.ok (), v') ∧ J v' := by
    intro v hJ
    obtain ⟨hv, hcase⟩ := hJ
    have hsummary : ∀ segment : List Nat, summarizeSegment s segment = .ok (summaryText mark (segment.length / 4)) :=
      fun _ => rfl
    by_cases hfits : (s.encode v.1).length ≤ step
    · have hone : segments (s.encode v.1) (maxLen - 100) = .ok [s.encode v.1] :=
        segments_one step (by omega) (by omega) hfits
      have hjoined : joined (fun segment : List Nat => summaryText mark (segment.length / 4)) [s.encode v.1] =
          summaryText mark ((s.encode v.1).length / 4) := String.empty_append
      have hround := summarizeRound_ok hone fun segment _ => hsummary segment
      rw [hjoined] at hround
      refine ⟨_, hround, ?_⟩
      have hnext : (s.encode (summaryText mark ((s.encode v.1).length / 4))).length =
          (s.encode v.1).length / 4 + sp := by
        rw [hlength, countTokens_summary hmark]
      have htarget := hcase.resolve_left (by omega)
      simp only [J, hnext]
      exact ⟨by omega, .inr htarget⟩
    · have hstep' : maxLen - 100 - 1 = step := by omega
      obtain ⟨segs, hsegs, htwo⟩ := segments_many hstep' hpos (by omega : step < (s.encode v.1).length)
      refine ⟨_, summarizeRound_ok hsegs fun segment _ => hsummary segment, ?_⟩
      simp only [J, hlength, countTokens_joined hmark htwo]
      omega
  have hstart : J (text, text) := by simpa only [J, hlength] using ⟨hlong, hstuck⟩
  have hcond : ∀ v : String × String, J v → decide (targetLen < (s.encode v.1).length) = true :=
      fun v hv => decide_eq_true hv.1
  have hloop := Exec.loop_none hcond hbody fuel hstart
  rw [summarizeToLength]
  show Option.map _ (Exec.loop _ (summarizeRound s (maxLen - 100)) fuel (text, text)) = none
  rw [hloop]
  rfl

end

end Never

/-! ## All the messages -/

/-- The share of a text in the target, `int(target_size * l / total_length)`. -/
def share (targetSize total l : Nat) : Nat :=
    ⌊Binary64.round (Binary64.round (targetSize * l : ℕ) / Binary64.round total)⌋₊

/-- What becomes of one text. -/
def summarizeOne (fuel : Nat) (s : Summarizer T) (tokenizer : Tokenizer T) (sent : String) (targetLen : Nat) :
    Option (Except PyError String) :=
  if (tokenizer.tokenize sent).length > targetLen then summarizeToLength fuel s sent targetLen tokenizer.modelMaxLength
  else some (.ok sent)

/-- A text that is not empty makes the total positive. -/
theorem sum_lengths_ne_zero {texts : List String} (h : ∃ text ∈ texts, text ≠ "") :
    (texts.map String.length).sum ≠ 0 := by
  obtain ⟨text, hmem, hne⟩ := h
  have hlen : text.length ≠ 0 := by
    rwa [ne_eq, String.length_eq_zero_iff]
  have hle : text.length ≤ (texts.map String.length).sum := List.le_sum_of_mem (List.mem_map_of_mem hmem)
  omega

/-- With a text that is not empty the shares can be computed, and the texts are taken one after the other. -/
theorem summarizeToSentence_eq (fuel : Nat) (s : Summarizer T) (tokenizer : Tokenizer T) {texts : List String}
    (hsome : ∃ text ∈ texts, text ≠ "") (targetSize : Nat) (result : String) :
    summarizeToSentence fuel s tokenizer (texts.map (.str : String → Content B)) targetSize result =
      Exec.forEach (fun text => Exec.ofResult (summarizeOne fuel s tokenizer text
          (share targetSize (texts.map String.length).sum text.length)) >>= fun sentence =>
        Exec.modify fun result => result ++ sentence) texts result := by
  have htotal := sum_lengths_ne_zero hsome
  have htexts : (texts.map (.str : String → Content B)).mapM sentenceText = .ok texts := by
    rw [List.mapM_map]
    exact (mapM_ok_of_forall fun _ _ => rfl).trans (congrArg Except.ok (List.map_id texts))
  have hshares : (texts.map String.length).mapM (targetLength targetSize (texts.map String.length).sum) =
      .ok ((texts.map String.length).map (share targetSize (texts.map String.length).sum)) :=
    mapM_ok_of_forall fun _ _ => if_neg htotal
  have hzip : texts.zip ((texts.map String.length).map (share targetSize (texts.map String.length).sum)) =
      texts.map fun text => (text, share targetSize (texts.map String.length).sum text.length) := by
    rw [List.map_map]
    exact List.map_prod_left_eq_zip.symm
  rw [summarizeToSentence, htexts]
  show (Exec.ofExcept ((texts.map String.length).mapM (targetLength targetSize (texts.map String.length).sum)) >>=
    fun targetLengths => Exec.forEach _ (texts.zip targetLengths)) result = _
  rw [hshares]
  show Exec.forEach _ (texts.zip _) result = _
  rw [hzip, Exec.forEach_map]
  congr 1
  funext text
  simp only [summarizeOne]
  split
  · rfl
  · rfl

/-- Every text is dealt with exactly when all of them return. -/
theorem forEach_sentences {f : String → Option (Except PyError String)} : ∀ (texts : List String) (result : String),
    (∃ result', Exec.forEach (fun text => Exec.ofResult (f text) >>= fun sentence =>
        (Exec.modify fun result => result ++ sentence : Exec PyError String Unit)) texts result =
        some (.ok (), result')) ↔
      ∀ text ∈ texts, ∃ sentence, f text = some (.ok sentence)
  | [], result => by
    simp only [List.not_mem_nil, false_implies, implies_true, iff_true]
    exact ⟨result, rfl⟩
  | text :: texts, result => by
    rw [Exec.forEach_cons, List.forall_mem_cons]
    constructor
    · intro hruns
      obtain ⟨result', hrun⟩ := hruns
      obtain ⟨_, result₁, hfirst, hrest⟩ := Exec.bind_ok.mp hrun
      obtain ⟨sentence, _, hsentence, -⟩ := Exec.bind_ok.mp hfirst
      exact ⟨⟨sentence, Exec.ofResult_ok hsentence⟩, (forEach_sentences texts result₁).mp ⟨result', hrest⟩⟩
    · intro hreturns
      obtain ⟨⟨sentence, hsentence⟩, hall⟩ := hreturns
      obtain ⟨result', hrest⟩ := (forEach_sentences texts (result ++ sentence)).mpr hall
      refine ⟨result', ?_⟩
      rw [hsentence]
      exact hrest

/-- A text that has its share is left as it is, and so the function returns for it. -/
theorem summarizeOne_returns {sp : Nat} {s : Summarizer T} {tokenizer : Tokenizer T} (h : KeepsLength sp s tokenizer)
    {text : String} {targetLen step fuel : Nat} (hstep : tokenizer.modelMaxLength - 101 = step)
    (hgood : (tokenizer.tokenize text).length ≤ targetLen ∨
      sp + sp / 3 ≤ targetLen ∧ (tokenizer.tokenize text).length + sp ≤ step)
    (hfuel : (s.encode text).length < fuel) : ∃ sentence, summarizeOne fuel s tokenizer text targetLen =
    some (.ok sentence) := by
  rw [summarizeOne]
  split
  · rename_i hlong
    obtain ⟨htarget, hfits⟩ := hgood.resolve_left (by omega)
    exact summarizeToLength_returns h hstep htarget (by rwa [h.encode]) hfuel
  · exact ⟨text, rfl⟩

/-- Of messages with a text that is not empty: the function returns, whatever
tokenizer gives them these tokens and whatever model keeps to the length it is
given, exactly when every message has at most its share of tokens or fits into
one segment, with a share that the special tokens let it reach. -/
theorem summarizeToSentence_returns_iff {texts : List String} (hsome : ∃ text ∈ texts, text ≠ "") (targetSize sp : Nat)
    {modelMaxLength : Int} (hmodel : 101 < modelMaxLength) (tokens : String → Nat) :
    (∀ (T : Type) (s : Summarizer T) (tokenizer : Tokenizer T), tokenizer.modelMaxLength = modelMaxLength →
      (∀ text ∈ texts, (tokenizer.tokenize text).length = tokens text) → KeepsLength sp s tokenizer →
      ∃ fuel result, summarizeToSentence fuel s tokenizer (texts.map (.str : String → Content B)) targetSize "" =
        some (.ok (), result)) ↔
    ∀ text ∈ texts, tokens text ≤ share targetSize (texts.map String.length).sum text.length ∨
      (sp + sp / 3 ≤ share targetSize (texts.map String.length).sum text.length ∧
        (tokens text + sp : Int) ≤ modelMaxLength - 101) := by
  obtain ⟨step, hstep⟩ : ∃ step : Nat, modelMaxLength - 101 = step := ⟨(modelMaxLength - 101).toNat, by omega⟩
  simp only [summarizeToSentence_eq _ _ _ hsome, forEach_sentences]
  constructor
  · intro hall text hmem
    by_contra hbad
    obtain ⟨hlong, hcase⟩ := not_or.mp hbad
    -- a model that says as much as it may, with more to say of several segments than fits
    have hmark : ∀ text ∈ texts, text.toList.length ≤ (texts.map (·.toList.length)).sum := fun text hmem =>
      List.le_sum_of_mem (List.mem_map_of_mem hmem)
    obtain ⟨many, hmany⟩ : ∃ many, max step (share targetSize (texts.map String.length).sum text.length) < many :=
      ⟨_, Nat.lt_succ_self _⟩
    have hcount : ∀ text ∈ texts, countTokens texts tokens (texts.map (·.toList.length)).sum many text = tokens text :=
      fun text hmem => if_pos hmem
    obtain ⟨fuel, hreturns⟩ := hall Nat _ _ rfl (fun text hmem => (List.length_replicate).trans (hcount text hmem))
      (talkative_keepsLength hmark modelMaxLength)
    obtain ⟨sentence, hsentence⟩ := hreturns text hmem
    have hnever : summarizeToLength fuel (talkative sp (countTokens texts tokens (texts.map (·.toList.length)).sum many)
        (texts.map (·.toList.length)).sum) text
          (share targetSize (texts.map String.length).sum text.length) modelMaxLength =
        none :=
      summarizeToLength_never hmark text hstep (by omega) hmany (by rw [hcount text hmem]; omega)
        (by rw [hcount text hmem]; omega) fuel
    rw [summarizeOne, if_pos (by simpa [countingTokenizer, hcount text hmem] using hlong)] at hsentence
    exact absurd (hnever.symm.trans hsentence) nofun
  · intro hgood T s tokenizer hmax htokens hkeeps
    refine ⟨(texts.map fun text => (s.encode text).length).sum + 1, fun text hmem => ?_⟩
    have hfuel : (s.encode text).length ≤ (texts.map fun text => (s.encode text).length).sum :=
      List.le_sum_of_mem (List.mem_map_of_mem (f := fun text => (s.encode text).length) hmem)
    have hgood := hgood text hmem
    rw [← htokens text hmem] at hgood
    exact summarizeOne_returns hkeeps (by rw [hmax, hstep]) (by omega) (Nat.lt_succ_of_le hfuel)

/-- A text of six tokens with a share of three. -/
theorem summarizeToSentence_returns_iff_six : ∃ fuel result,
    summarizeToSentence fuel (talkative 2 (countTokens ["abcdef"] String.length 6 1024) 6)
      (countingTokenizer (countTokens ["abcdef"] String.length 6 1024) 1024) [(.str "abcdef" : Content Unit)] 3 "" =
      some (.ok (), result) := by
  have hsome : ∃ text ∈ ["abcdef"], text ≠ "" := ⟨_, List.mem_singleton_self _, by decide⟩
  have hshare : share 3 6 6 = 3 := by decide +kernel
  have hfits : ∀ text ∈ ["abcdef"], text.length ≤ share 3 (["abcdef"].map String.length).sum text.length ∨
      2 + 2 / 3 ≤ share 3 (["abcdef"].map String.length).sum text.length ∧ (text.length + 2 : Int) ≤ 1024 - 101 := by
    simp only [List.mem_singleton, forall_eq]
    exact .inr ⟨(show 3 ≤ share 3 6 6 from hshare.ge).trans' (by decide), by decide⟩
  have hmodel : (101 : Int) < 1024 := by decide
  exact (summarizeToSentence_returns_iff hsome 3 2 hmodel String.length).mpr hfits Nat _ _ rfl (by decide)
    (talkative_keepsLength (by decide) 1024)

/-- A share of nothing is never reached. -/
theorem summarizeToSentence_loops : ∃ (s : Summarizer Nat) (tokenizer : Tokenizer Nat), KeepsLength 2 s tokenizer ∧
    tokenizer.modelMaxLength = 1024 ∧
      ∀ fuel, summarizeToSentence fuel s tokenizer [(.str "ab" : Content Unit)] 0 "" = none := by
  have hsome : ∃ text ∈ ["ab"], text ≠ "" := ⟨_, List.mem_singleton_self _, by decide⟩
  have hmark : ∀ text ∈ ["ab"], text.toList.length ≤ 2 := by decide
  have hzero : share 0 2 2 = 0 := by decide +kernel
  have hstep : (1024 : Int) - 101 = (923 : Nat) := by decide
  let count := countTokens ["ab"] String.length 2 1024
  refine ⟨talkative 2 count 2, countingTokenizer count 1024, talkative_keepsLength hmark 1024, rfl, fun fuel => ?_⟩
  have hnever : summarizeOne fuel (talkative 2 count 2) (countingTokenizer count 1024) "ab" (share 0 2 2) = none := by
    rw [hzero]
    exact summarizeToLength_never hmark "ab" hstep (by decide) (by decide) (by decide) (.inr (by decide)) fuel
  refine (summarizeToSentence_eq fuel (talkative 2 count 2) (countingTokenizer count 1024) hsome 0 "").trans ?_
  show (Exec.ofResult (summarizeOne fuel _ _ "ab" (share 0 2 2)) >>= _ >>= _) "" = none
  rw [hnever]
  rfl

end GptCache
