/-
Summarizing with a model
(gptcache/processor/context/summarization_context.py): `summarize_to_length`
has a text summarized segment by segment until it is short enough, and
`summarize_to_sentence` gives each of several texts its share of the target.

The model and the tokenizers are parameters. The loop of `summarize_to_length`
takes fuel.
-/
import Mathlib.Algebra.Order.Floor.Semiring
import GptCache.Lib.Rounding
import GptCache.Lib.Exec
import GptCache.Manager.Scalar

namespace GptCache

/-- The summarization pipeline and its tokenizer. -/
structure Summarizer (T : Type) where
  encode : String → List T
  decode : List T → String
  /-- `summarizer(text, min_length=, max_length=)[0]["summary_text"]`. -/
  summarize : String → Nat → Nat → Except PyError String

/-- The tokenizer that measures the texts. -/
structure Tokenizer (T : Type) where
  tokenize : String → List T
  modelMaxLength : Int

variable {B T : Type}

/-- `[tokens[i : i + segment_len] for i in range(0, len(tokens), segment_len - 1)]`. -/
def segments (tokens : List T) (segmentLen : Int) : Except PyError (List (List T)) :=
  let step := segmentLen - 1
  if step = 0 then .error ⟨.ValueError, "range() arg 3 must not be zero"⟩
  else if step < 0 then .ok []
  else
    let starts := (List.range ((tokens.length + step.toNat - 1) / step.toNat)).map (· * step.toNat)
    .ok (starts.map fun i => (tokens.drop i).take segmentLen.toNat)

/-- The call for one segment. -/
def summarizeSegment (s : Summarizer T) (segment : List T) : Except PyError String :=
  let lenSeg := segment.length / 4
  s.summarize (s.decode segment) (max (lenSeg - 10) 1) lenSeg

/-- A pass of the loop, on `text` and `summary_result`. -/
def summarizeRound (s : Summarizer T) (segmentLen : Int) : Exec PyError (String × String) Unit := do
  let (text, _) ← Exec.read
  let segs ← Exec.ofExcept (segments (s.encode text) segmentLen)
  Exec.modify fun v => (v.1, "")
  Exec.forEach (fun segment => do
    let summary ← Exec.ofExcept (summarizeSegment s segment)
    Exec.modify fun v => (v.1, v.2 ++ summary)) segs
  Exec.modify fun v => (v.2, v.2)

def summarizeToLength (fuel : Nat) (s : Summarizer T) (text : String) (targetLen : Nat) (maxLen : Int) :
    Option (Except PyError String) :=
  let passes := Exec.loop (fun v : String × String => decide (targetLen < (s.encode v.1).length))
    (summarizeRound s (maxLen - 100)) fuel
  (passes (text, text)).map fun (r, v) => r.map fun _ => v.2

/-- `int(target_size * l / total_length)`, a quotient of doubles. -/
def targetLength (targetSize total l : Nat) : Except PyError Nat :=
  if total = 0 then .error ⟨.ValueError, "cannot convert float NaN to integer"⟩
  else .ok ⌊Binary64.round (Binary64.round (targetSize * l : ℕ) / Binary64.round total)⌋₊

/-- `len(sentence)`: null has none. -/
def sentenceText : Content B → Except PyError String
  | .str s => .ok s
  | .other _ => .error ⟨.TypeError, ""⟩

/-- The sentences, each summarized where it is longer than its share, one after another. -/
def summarizeToSentence (fuel : Nat) (s : Summarizer T) (tokenizer : Tokenizer T) (sentences : List (Content B))
    (targetSize : Nat) : Exec PyError String Unit := do
  let texts ← Exec.ofExcept (sentences.mapM sentenceText)
  let lengths := texts.map String.length
  let targetLengths ← Exec.ofExcept (lengths.mapM (targetLength targetSize lengths.sum))
  Exec.forEach (fun (sent, targetLen) => do
    let targetSentence ←
      if (tokenizer.tokenize sent).length > targetLen then
        Exec.ofResult (summarizeToLength fuel s sent targetLen tokenizer.modelMaxLength)
      else pure sent
    Exec.modify fun result => result ++ targetSentence) (texts.zip targetLengths)

end GptCache
