/-
`put` and `get` (gptcache/adapter/api.py), and a cache initialised for them:
`get_prompt`, string embeddings, exact match, a `MapDataManager`, and the
defaults for everything else.
-/
import GptCache.Manager.MapDataManager

namespace GptCache

/-! ## The functions of the cache -/

/-- `get_prompt` (gptcache/processor/pre.py): `data.get("prompt")`. -/
def getPrompt {B X : Type} (rt : Runtime B X) (data : Kwargs B) : Content B :=
  match data.get? "prompt" with
  | some (.str s) => .str s
  | some a => .other (rt.box a)
  | none => .other (rt.box .none)

/-- `ExactMatchEvaluation` (gptcache/similarity_evaluation/exact_match.py). -/
def exactMatchEvaluation {B E R D : Type} [DecidableEq B] : SimilarityEvaluation B E R D where
  evaluation src cached _ := pure (if cached.question = .plain src.question then 1 else 0)
  range := (0, 1)

variable {B X : Type} [DecidableEq B] (rt : Runtime B X)

abbrev MapCaches (B X : Type) := Caches (MapDataManager B (Content B)) X

/-- `cache.init(pre_embedding_func=get_prompt, data_manager=MapDataManager(...))`. -/
def mapCache : Core.Cache B (Content B) (MapItem B (Content B)) (Data B) (MapDataManager B (Content B)) where
  cacheEnableFunc _ := true
  preEmbeddingFunc kwargs _ _ := pure (.single (getPrompt rt kwargs))
  embeddingFunc data _ := pure data
  dataManager := MapDataManager.dataManager
  similarityEvaluation := exactMatchEvaluation
  postProcess := .temperatureSoftmax
  config := {}

def Data.falsy : Data B → Bool
  | .answers (.str s) => s = ""
  | .answers (.answer _) => false
  | .answers (.items xs) => xs.isEmpty
  | .other b => !rt.truthy b

/-! ## put and get -/

namespace Api

/-- `_cache_data_converter`, `_update_cache_callback`, and a model that answers the data. -/
def putCallbacks {D : Type} (data : Data B) : Callbacks B (Data B) D X (Data B) where
  llmHandler _ := pure (some data)
  cacheDataConvert c := some c.toData
  updateCacheCallback llmData updateCacheFunc _ := do
    updateCacheFunc llmData none
    pure none
  falsy := Data.falsy rt

/-- `_cache_data_converter`, `_update_cache_callback_none` and `_llm_handle_none`. -/
def getCallbacks {D : Type} : Callbacks B (Data B) D X (Data B) where
  llmHandler _ := pure none
  cacheDataConvert c := some c.toData
  updateCacheCallback _ _ _ := pure none
  falsy := Data.falsy rt

/-- `f(..., k=v, **kwargs)`. -/
def withKwargs (named kwargs : Kwargs B) : Kwargs B := kwargs.entries.foldl (fun d e => d.set e.1 e.2) named

section

variable {E R D : Type} [DecidableEq E] (place : Nat) (c : Core.Cache B E R (Data B) D)
  (nexts : List (Core.Cache B E R (Data B) D))

/-- `put`, on the cache at `place`. -/
def put (prompt : String) (data : Data B) (kwargs : Kwargs B) : Exec PyError (Caches D X) Unit :=
  if kwargs.contains "cache_skip" then Exec.raise ⟨.TypeError, ""⟩
  else do
    let _ ← adapt rt (putCallbacks rt data) place c nexts
      (withKwargs ((Dict.empty.set "cache_skip" (.bool true)).set "prompt" (.str prompt)) kwargs)
    pure ()

/-- `get`, on the cache at `place`. -/
def get (prompt : String) (kwargs : Kwargs B) : Exec PyError (Caches D X) (Option (Data B)) :=
  adapt rt (getCallbacks rt) place c nexts (withKwargs (Dict.empty.set "prompt" (.str prompt)) kwargs)

end

end Api

end GptCache
