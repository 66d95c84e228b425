/-!
# Hexadecimal text

Numbers appear in the texts of this library in two hexadecimal forms, both lower case: the word of
a mask has a fixed number of digits (`hexFixed`), an offset as many as it needs (`hexShort`, or
`hexBare` where no mark of the base is wanted).

The fixed form loses nothing: two numbers that fit the width and have the same text are equal
(`hexFixed_inj`).
-/

set_option autoImplicit false

namespace TileEvents.Text

/-- The last `width` hexadecimal digits of `n`, highest first. -/
def hexDigits : Nat → Nat → List Char
  | 0, _ => []
  | width + 1, n => hexDigits width (n / 16) ++ [Nat.digitChar (n % 16)]

/-- `n` in `width` hexadecimal digits. -/
def hexFixed (width n : Nat) : String := "0x" ++ String.ofList (hexDigits width n)

/-- `n` in as many hexadecimal digits as it needs, at least one, and nothing before them. -/
def hexBare (n : Nat) : String := String.ofList (Nat.toDigits 16 n)

/-- `n` in as many hexadecimal digits as it needs. -/
def hexShort (n : Nat) : String := "0x" ++ hexBare n

theorem length_hexDigits (width n : Nat) : (hexDigits width n).length = width := by
  induction width generalizing n with
  | zero => rfl
  | succ w ih => rw [hexDigits, List.length_append, ih]; rfl

theorem digitChar_inj {a b : Nat} (ha : a < 16) (hb : b < 16)
    (h : Nat.digitChar a = Nat.digitChar b) : a = b := by
  have key : ∀ a, a < 16 → ∀ b, b < 16 → Nat.digitChar a = Nat.digitChar b → a = b := by decide
  exact key a ha b hb h

theorem hexDigits_inj {width m n : Nat} (hm : m < Nat.pow 16 width) (hn : n < Nat.pow 16 width)
    (h : hexDigits width m = hexDigits width n) : m = n := by
  induction width generalizing m n with
  | zero => exact (Nat.lt_one_iff.1 hm).trans (Nat.lt_one_iff.1 hn).symm
  | succ w ih =>
    have hpow : Nat.pow 16 (w + 1) = Nat.pow 16 w * 16 := rfl
    rw [hexDigits, hexDigits] at h
    have h := List.append_inj h (by simp [length_hexDigits])
    have hd : m / 16 = n / 16 := ih (by omega) (by omega) h.1
    have hr : m % 16 = n % 16 :=
      digitChar_inj (Nat.mod_lt _ (by decide)) (Nat.mod_lt _ (by decide)) (List.cons.inj h.2).1
    omega

/-- **Fixed-width text determines the number.** -/
theorem hexFixed_inj {width m n : Nat} (hm : m < Nat.pow 16 width) (hn : n < Nat.pow 16 width)
    (h : hexFixed width m = hexFixed width n) : m = n := by
  refine hexDigits_inj hm hn ?_
  have hl := congrArg String.toList h
  simpa [hexFixed] using hl

end TileEvents.Text
