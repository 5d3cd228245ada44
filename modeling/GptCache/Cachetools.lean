/-
The `cachetools` package, as far as the eviction policies rely on it, in the
version the README pins (5.5.2); later ones store over a tracked key differently.

`Cache` is the base class: a dictionary with a capacity, whose entries have
the size `getsizeof` gives their value. Its `__setitem__` rejects a value
that can never fit before it changes anything, makes room by calling
`self.popitem` while the new value does not fit, and then stores; `popitem`
is whatever the instance has under that name, so it is an argument here.

`CacheClass` is a subclass: its own state around the base class's, its
methods, and what they guarantee (`popitem` takes one tracked key or raises
`KeyError` when there is none). Which key it takes is the policy. `history`
is no field of the library's: it records what happened to each key, newest
first, for the statements about whole runs.
-/
import Mathlib.Data.Rat.Defs
import Mathlib.Algebra.Order.Ring.Rat
import GptCache.Lib.Dict
import GptCache.Lib.Exec
import GptCache.Python

namespace GptCache

/-- What happens to a key of a cache. -/
inductive Event (K V : Type) where
  | stored (k : K) (v : V)
  | read (k : K)
  | deleted (k : K)
  | popped (k : K)
  deriving DecidableEq

def Event.key {K V : Type} : Event K V → K
  | .stored k _ | .read k | .deleted k | .popped k => k

/-- The keys `popitem` removed, in the order of the events. -/
def evictions {K V : Type} : List (Event K V) → List K
  | [] => []
  | .popped k :: es => k :: evictions es
  | .stored _ _ :: es | .read _ :: es | .deleted _ :: es => evictions es

theorem evictions_append {K V : Type} (es es' : List (Event K V)) :
    evictions (es ++ es') = evictions es ++ evictions es' := by
  induction es with
  | nil => rfl
  | cons e es ih => cases e <;> simp [evictions, ih]

@[simp] theorem evictions_popped {K V : Type} (ks : List K) :
    evictions (ks.map (.popped : K → Event K V)) = ks := by
  induction ks with
  | nil => rfl
  | cons k ks ih => simp [evictions, ih]

structure Cache (K V : Type) where
  maxsize : ℚ
  getsizeof : V → ℚ
  data : Dict K V
  history : List (Event K V)

namespace Cache

variable {K V : Type}

def new (maxsize : ℚ) (getsizeof : V → ℚ) : Cache K V := ⟨maxsize, getsizeof, .empty, []⟩

/-- `currsize`: the sizes of the entries, added up. -/
def currsize (c : Cache K V) : ℚ := (c.data.values.map c.getsizeof).sum

/-- `__setitem__` cannot store a value of this size yet. -/
def overflows (c : Cache K V) (size : ℚ) : Bool := c.maxsize < c.currsize + size

def read (c : Cache K V) (k : K) : Cache K V := { c with history := .read k :: c.history }

section
variable (c : Cache K V) (k : K)

@[simp] theorem read_maxsize : (c.read k).maxsize = c.maxsize := rfl
@[simp] theorem read_getsizeof : (c.read k).getsizeof = c.getsizeof := rfl
@[simp] theorem read_data : (c.read k).data = c.data := rfl
@[simp] theorem read_history : (c.read k).history = .read k :: c.history := rfl

end

variable {c : Cache K V}

theorem currsize_eq_zero (h : c.data.len = 0) : c.currsize = 0 := by
  have : c.data.entries = [] := List.length_eq_zero_iff.mp h
  simp [currsize, Dict.values, this]

/-- An empty cache has room for every value `__setitem__` does not reject. -/
theorem len_pos_of_overflows {size : ℚ} (hsize : size ≤ c.maxsize) (h : c.overflows size = true) :
    0 < c.data.len := by
  by_contra hlen
  simp only [overflows, currsize_eq_zero (Nat.eq_zero_of_not_pos hlen), zero_add,
    decide_eq_true_eq] at h
  exact absurd hsize (not_le.mpr h)

/-- Unit sizes: the current size is the number of entries. -/
theorem currsize_of_unit (h : ∀ v, c.getsizeof v = 1) : c.currsize = c.data.len := by
  have : c.getsizeof = fun _ => 1 := funext h
  simp [currsize, this, Dict.values, Dict.len, Function.comp_def]

variable [DecidableEq K]

def store (c : Cache K V) (k : K) (v : V) : Cache K V :=
  { c with data := c.data.set k v, history := .stored k v :: c.history }

def delitem (c : Cache K V) (k : K) : Cache K V :=
  { c with data := c.data.erase k, history := .deleted k :: c.history }

def pop (c : Cache K V) (k : K) : Cache K V :=
  { c with data := c.data.erase k, history := .popped k :: c.history }

/-- `key not in self.__data or self.__size[key] < size`. -/
def needsRoom (c : Cache K V) (k : K) (size : ℚ) : Bool :=
  match c.data.get? k with
  | none => true
  | some old => c.getsizeof old < size

section
variable (c : Cache K V) (k : K) (v : V)

@[simp] theorem store_maxsize : (c.store k v).maxsize = c.maxsize := rfl
@[simp] theorem store_getsizeof : (c.store k v).getsizeof = c.getsizeof := rfl
@[simp] theorem store_data : (c.store k v).data = c.data.set k v := rfl
@[simp] theorem store_history : (c.store k v).history = .stored k v :: c.history := rfl
@[simp] theorem delitem_getsizeof : (c.delitem k).getsizeof = c.getsizeof := rfl
@[simp] theorem delitem_data : (c.delitem k).data = c.data.erase k := rfl
@[simp] theorem delitem_history : (c.delitem k).history = .deleted k :: c.history := rfl
@[simp] theorem pop_maxsize : (c.pop k).maxsize = c.maxsize := rfl
@[simp] theorem pop_getsizeof : (c.pop k).getsizeof = c.getsizeof := rfl
@[simp] theorem pop_data : (c.pop k).data = c.data.erase k := rfl
@[simp] theorem pop_history : (c.pop k).history = .popped k :: c.history := rfl

end

end Cache

/-- A subclass of `cachetools.Cache`: `store` is what its `__setitem__` does
once there is room, `none` from `getitem` and `popitem` is a `KeyError`. -/
structure CacheClass (σ K V : Type) [DecidableEq K] where
  new : ℚ → (V → ℚ) → σ
  cache : σ → Cache K V
  store : σ → K → V → σ
  getitem : σ → K → Option V × σ
  popitem : σ → Option (K × V) × σ
  Inv : σ → Prop
  new_inv : ∀ m g, Inv (new m g)
  new_cache : ∀ m g, cache (new m g) = Cache.new m g
  store_inv : ∀ {s} k v, Inv s → Inv (store s k v)
  store_cache : ∀ s k v, cache (store s k v) = (cache s).store k v
  getitem_hit : ∀ {s k v}, Inv s → (cache s).data.get? k = some v →
    (getitem s k).1 = some v ∧ Inv (getitem s k).2 ∧ cache (getitem s k).2 = (cache s).read k
  getitem_miss : ∀ {s k}, Inv s → (cache s).data.get? k = none → getitem s k = (none, s)
  popitem_empty : ∀ {s}, Inv s → (cache s).data.len = 0 →
    (popitem s).1 = none ∧ Inv (popitem s).2 ∧ cache (popitem s).2 = cache s
  popitem_some : ∀ {s}, Inv s → 0 < (cache s).data.len → ∃ k v, (cache s).data.get? k = some v ∧
    (popitem s).1 = some (k, v) ∧ Inv (popitem s).2 ∧ cache (popitem s).2 = (cache s).pop k

attribute [simp] CacheClass.new_cache CacheClass.store_cache

namespace CacheClass

variable {σ K V ω : Type} [DecidableEq K] (C : CacheClass σ K V)

/-- `Cache.__setitem__` and what the subclass's own does after it. `pop` is
the instance's `popitem`, which may reach what is around the cache (`ω`). -/
def setitem (pop : Exec PyError (σ × ω) Unit) (fuel : Nat) (k : K) (v : V) :
    Exec PyError (σ × ω) Unit :=
  Exec.read >>= fun s =>
    let size := (C.cache s.1).getsizeof v
    if (C.cache s.1).maxsize < size then Exec.raise ⟨.ValueError, "value too large"⟩
    else
      (if (C.cache s.1).needsRoom k size then
        Exec.loop (fun s => (C.cache s.1).overflows size) pop fuel
      else pure ()) >>= fun _ =>
      Exec.modify fun s => (C.store s.1 k v, s.2)

/-- The class's own `popitem`, for its side effect. -/
def popitemSelf : Exec PyError (σ × ω) Unit := Exec.total fun s =>
  match C.popitem s.1 with
  | (some _, s') => (.ok (), (s', s.2))
  | (none, s') => (.error ⟨.KeyError, "cache is empty"⟩, (s', s.2))

/-- `Cache.get`: `self[key]` when the key is there, else `None`. -/
def get (s : σ) (k : K) : Option V × σ :=
  if (C.cache s).data.contains k then C.getitem s k else (none, s)

/-- The rule of `__setitem__`: `J` is kept by a `pop` that shrinks the cache
it is called on, so with fuel for every entry the call returns. It raises for
a value that is too large, and else stores in a state `s₁` that has room, or,
for a key that does not grow, in the state it started from. -/
theorem wp_setitem {pop : Exec PyError (σ × ω) Unit} {J : σ × ω → Prop}
    {E : PyError → σ × ω → Prop} {m : ℚ} {g : V → ℚ} {fuel : Nat} {k : K} {v : V} {s : σ × ω}
    (hcache : ∀ s, J s → (C.cache s.1).maxsize = m ∧ (C.cache s.1).getsizeof = g)
    (hpop : ∀ s, J s → (C.cache s.1).overflows (g v) = true → 0 < (C.cache s.1).data.len →
      Exec.wp pop (fun _ s' => J s' ∧ (C.cache s'.1).data.len < (C.cache s.1).data.len) E s)
    (hraise : m < g v → E ⟨.ValueError, "value too large"⟩ s)
    (hs : J s) (hfuel : (C.cache s.1).data.len < fuel) :
    Exec.wp (C.setitem pop fuel k v) (fun _ s' => ∃ s₁, g v ≤ m ∧ J s₁ ∧
      (if (C.cache s.1).needsRoom k (g v) then (C.cache s₁.1).overflows (g v) = false else s₁ = s) ∧
      s' = (C.store s₁.1 k v, s₁.2)) E s := by
  obtain ⟨hm, hg⟩ := hcache s hs
  simp only [setitem, Exec.wp_bind, Exec.wp_read, hm, hg]
  split
  · rename_i hlarge
    exact hraise hlarge
  · rename_i hfits
    have hfits : g v ≤ m := not_lt.mp hfits
    simp only [Exec.wp_bind, Exec.wp_modify]
    split
    · refine Exec.wp_mono (Exec.wp_loop (I := J) (μ := fun s => (C.cache s.1).data.len)
        (fun s' hs' hover => hpop s' hs' hover ?_) hs hfuel) (fun _ s₁ h => ⟨s₁, hfits, h.1, h.2, rfl⟩) fun _ _ h => h
      obtain ⟨hm', hg'⟩ := hcache s' hs'
      exact Cache.len_pos_of_overflows (hm'.symm ▸ hfits) hover
    · exact ⟨s, hfits, hs, rfl, rfl⟩

theorem wp_popitemSelf {E : PyError → σ × ω → Prop} {s : σ × ω} (h : C.Inv s.1)
    (hlen : 0 < (C.cache s.1).data.len) :
    Exec.wp C.popitemSelf (fun _ s' => s' = ((C.popitem s.1).2, s.2)) E s := by
  obtain ⟨k, v, -, hp, -, -⟩ := C.popitem_some h hlen
  have : C.popitemSelf s = some (.ok (), ((C.popitem s.1).2, s.2)) := by
    simp only [popitemSelf, Exec.total]
    rcases hq : C.popitem s.1 with ⟨_ | _, s'⟩
    · rw [hq] at hp; cases hp
    · rfl
  rw [Exec.wp_of_ok this]

theorem get_hit {s : σ} {k : K} {v : V} (h : C.Inv s) (hk : (C.cache s).data.get? k = some v) :
    (C.get s k).1 = some v ∧ C.Inv (C.get s k).2 ∧ C.cache (C.get s k).2 = (C.cache s).read k := by
  simp only [get, Dict.contains_eq_true.mpr ⟨v, hk⟩, if_true]
  exact C.getitem_hit h hk

theorem get_miss {s : σ} {k : K} (hk : (C.cache s).data.get? k = none) : C.get s k = (none, s) := by
  simp only [get, Dict.contains_eq_false.mpr hk, Bool.false_eq_true, if_false]

end CacheClass

end GptCache
