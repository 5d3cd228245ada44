/-
Python's `repr` of a text and of a list of texts, as `str(list(...))` writes
them. Which characters above 0x7e are printable is the Unicode database's to
say, a parameter here.

`reprText_delimited` and `reprList_injective`: nothing is lost in them.
-/
import Mathlib.Algebra.Group.Nat.Defs
import GptCache.Lib.Delimited
import GptCache.Python

namespace GptCache

open Sequence

/-! ## Digits -/

/-- `n` in hexadecimal, on `w` digits. -/
def hex : Nat → Nat → Text
  | 0, _ => []
  | w + 1, n => hex w (n / 16) ++ [Nat.digitChar (n % 16)]

theorem length_hex : ∀ w n, (hex w n).length = w
  | 0, _ => rfl
  | w + 1, n => by rw [hex, List.length_append, length_hex w, List.length_singleton]

theorem digitChar_inj : ∀ a < 16, ∀ b < 16, Nat.digitChar a = Nat.digitChar b → a = b := by decide

theorem hex_inj : ∀ {w n m : Nat}, n < 16 ^ w → m < 16 ^ w → hex w n = hex w m → n = m
  | 0, n, m, hn, hm, _ => by
    rw [Nat.pow_zero] at hn hm
    omega
  | w + 1, n, m, hn, hm, h => by
    obtain ⟨hhigh, hlow⟩ := List.append_inj' h rfl
    rw [Nat.pow_succ] at hn hm
    have hdiv : n / 16 = m / 16 := hex_inj (by omega) (by omega) hhigh
    have hmod := digitChar_inj (n % 16) (by omega) (m % 16) (by omega) (List.singleton_inj.mp hlow)
    omega

/-! ## Characters -/

/-- A backslash. -/
def escape : Char := Char.ofNat 92

/-- `'`, `"`. -/
inductive Quote where
  | single
  | double
  deriving DecidableEq

def Quote.char : Quote → Char
  | .single => Char.ofNat 39
  | .double => Char.ofNat 34

/-- Double quotes only where these save an escape. -/
def quoteFor (s : Text) : Quote :=
  if Quote.single.char ∈ s ∧ Quote.double.char ∉ s then .double else .single

variable (isprintable : Char → Bool)

/-- A character of a text that stands in `quote`s. -/
def reprChar (quote : Quote) (c : Char) : Text :=
  if c = quote.char ∨ c = escape then [escape, c]
  else if c.toNat = 9 then [escape, 't']
  else if c.toNat = 10 then [escape, 'n']
  else if c.toNat = 13 then [escape, 'r']
  else if c.toNat < 0x20 ∨ c.toNat = 0x7f then escape :: 'x' :: hex 2 c.toNat
  else if c.toNat < 0x7f ∨ isprintable c = true then [c]
  else if c.toNat ≤ 0xff then escape :: 'x' :: hex 2 c.toNat
  else if c.toNat < 0x10000 then escape :: 'u' :: hex 4 c.toNat
  else escape :: 'U' :: hex 8 c.toNat

def reprText (s : Text) : Text :=
  (quoteFor s).char :: (s.flatMap (reprChar isprintable (quoteFor s)) ++ [(quoteFor s).char])

/-- `str(xs)` of a list of texts. -/
def reprList : List Text → Text
  | [] => "[]".toList
  | x :: xs => "[".toList ++ (reprText isprintable x ++
      (xs.flatMap (fun y => ", ".toList ++ reprText isprintable y) ++ "]".toList))

variable {isprintable : Char → Bool}

/-- How many digits the letter behind a backslash announces. -/
def announced (tag : Char) : Nat :=
  if tag = 'x' then 2 else if tag = 'u' then 4 else if tag = 'U' then 8 else 0

/-- The character a letter behind a backslash stands for by itself. -/
def meant (tag : Char) : Nat :=
  if tag = 't' then 9 else if tag = 'n' then 10 else if tag = 'r' then 13 else tag.toNat

/-- A character stands for itself, or a backslash is followed by what says
which one it is. -/
theorem reprChar_cases (isprintable : Char → Bool) (quote : Quote) (c : Char) :
    (reprChar isprintable quote c = [c] ∧ c ≠ quote.char ∧ c ≠ escape) ∨
    ∃ tag, reprChar isprintable quote c = escape :: tag :: hex (announced tag) c.toNat ∧
      (0 < announced tag ∧ c.toNat < 16 ^ announced tag ∨ announced tag = 0 ∧ c.toNat = meant tag) := by
  have hvalid : c.toNat < 0x110000 := by
    have hscalar := c.valid
    simp only [UInt32.isValidChar, Nat.isValidChar] at hscalar
    simp only [Char.toNat]
    omega
  unfold reprChar
  by_cases hself : c = quote.char ∨ c = escape
  · rw [if_pos hself]
    refine .inr ⟨c, ?_, .inr ?_⟩
    · rcases hself with rfl | rfl
      · cases quote <;> rfl
      · rfl
    · rcases hself with rfl | rfl
      · cases quote <;> exact ⟨rfl, rfl⟩
      · exact ⟨rfl, rfl⟩
  rw [if_neg hself]
  by_cases htab : c.toNat = 9
  · rw [if_pos htab]
    exact .inr ⟨'t', rfl, .inr ⟨rfl, htab⟩⟩
  rw [if_neg htab]
  by_cases hline : c.toNat = 10
  · rw [if_pos hline]
    exact .inr ⟨'n', rfl, .inr ⟨rfl, hline⟩⟩
  rw [if_neg hline]
  by_cases hreturn : c.toNat = 13
  · rw [if_pos hreturn]
    exact .inr ⟨'r', rfl, .inr ⟨rfl, hreturn⟩⟩
  rw [if_neg hreturn]
  by_cases hcontrol : c.toNat < 0x20 ∨ c.toNat = 0x7f
  · rw [if_pos hcontrol]
    exact .inr ⟨'x', rfl, .inl ⟨by decide, show c.toNat < 16 ^ 2 by omega⟩⟩
  rw [if_neg hcontrol]
  by_cases hplain : c.toNat < 0x7f ∨ isprintable c = true
  · rw [if_pos hplain]
    exact .inl ⟨rfl, fun h => hself (.inl h), fun h => hself (.inr h)⟩
  rw [if_neg hplain]
  by_cases hbyte : c.toNat ≤ 0xff
  · rw [if_pos hbyte]
    exact .inr ⟨'x', rfl, .inl ⟨by decide, show c.toNat < 16 ^ 2 by omega⟩⟩
  rw [if_neg hbyte]
  by_cases hshort : c.toNat < 0x10000
  · rw [if_pos hshort]
    exact .inr ⟨'u', rfl, .inl ⟨by decide, show c.toNat < 16 ^ 4 by omega⟩⟩
  · rw [if_neg hshort]
    exact .inr ⟨'U', rfl, .inl ⟨by decide, show c.toNat < 16 ^ 8 by omega⟩⟩

/-- The code of a character ends where it says. -/
theorem reprChar_delimited (quote : Quote) : Delimited (reprChar isprintable quote) := by
  intro c d s s' h
  rcases reprChar_cases isprintable quote c with ⟨hc, -, hcne⟩ | ⟨tag, hc, hcode⟩ <;>
    rcases reprChar_cases isprintable quote d with ⟨hd, -, hdne⟩ | ⟨tag', hd, hcode'⟩ <;>
    rw [hc, hd] at h <;> simp only [List.cons_append, List.cons.injEq, List.nil_append] at h
  · exact h
  · exact absurd h.1 hcne
  · exact absurd h.1.symm hdne
  · obtain ⟨-, rfl, hdigits⟩ := h
    obtain ⟨hhex, hrest⟩ := List.append_inj hdigits (by rw [length_hex, length_hex])
    refine ⟨Char.toNat_inj.mp ?_, hrest⟩
    rcases hcode with ⟨hpos, hlt⟩ | ⟨hzero, hc⟩ <;> rcases hcode' with ⟨hpos', hlt'⟩ | ⟨hzero', hd⟩
    · exact hex_inj hlt hlt' hhex
    · omega
    · omega
    · rw [hc, hd]

/-- No character's code starts with the quote. -/
theorem reprChar_ne_quote (quote : Quote) (c : Char) (s s' : Text) :
    reprChar isprintable quote c ++ s ≠ [quote.char] ++ s' := by
  intro h
  rcases reprChar_cases isprintable quote c with ⟨hc, hne, -⟩ | ⟨tag, hc, -⟩ <;>
    rw [hc] at h <;> simp only [List.cons_append, List.cons.injEq, List.nil_append] at h
  · exact hne h.1
  · cases quote <;> exact absurd h.1 (by decide)

/-! ## Texts and lists of texts -/

theorem quote_char_injective : Function.Injective Quote.char := by
  intro p q h
  cases p <;> cases q <;> first | rfl | exact absurd h (by decide)

theorem reprText_delimited : Delimited (reprText isprintable) := by
  intro x y s s' h
  simp only [reprText, List.cons_append, List.cons.injEq] at h
  have hquote := quote_char_injective h.1
  rw [← hquote] at h
  exact (reprChar_delimited (quoteFor x)).flatMap (reprChar_ne_quote (quoteFor x)) h.2

/-- Different lists of texts are written differently. -/
theorem reprList_injective : Function.Injective (reprList isprintable) := by
  have hmark : ∀ (y : Text) (s s' : Text), ", ".toList ++ reprText isprintable y ++ s ≠ "]".toList ++ s' := by
    intro y s s' h
    exact absurd (congrArg List.head? h) (by simp)
  have hquote : ∀ x s, "[]".toList ≠ "[".toList ++ (reprText isprintable x ++ s) := by
    intro x s h
    have hchar : ']' = (quoteFor x).char := (List.cons.inj (List.cons.inj h).2).1
    cases hq : quoteFor x <;> rw [hq] at hchar <;> exact absurd hchar (by decide)
  intro xs ys h
  cases xs with
  | nil =>
    cases ys with
    | nil => rfl
    | cons y ys => exact absurd h (hquote y _)
  | cons x xs =>
    cases ys with
    | nil => exact absurd h.symm (hquote x _)
    | cons y ys =>
      obtain ⟨rfl, hrest⟩ := reprText_delimited (List.append_cancel_left h)
      obtain ⟨rfl, -⟩ := (reprText_delimited.behind ", ".toList).flatMap hmark (congrArg (· ++ []) hrest)
      rfl

end GptCache
