import Mathlib.Algebra.Group.Nat.Defs
import Mathlib.Data.List.Induction
import Mathlib.Data.Nat.Log

/-! Non-negative whole numbers as doubles: what decimal digits are read as, and
how a number is printed. Up to `2 ^ 53` every whole number is its own double;
beyond, the nearest double is taken, ties going to the even one, until there is
none left but infinity. -/

namespace EffectWorker.Text

inductive Number
  | finite (value : Nat)
  | infinity
  deriving DecidableEq, Repr

/-- The nearest double, while there is one. -/
def nearestDouble (n : Nat) : Nat :=
  if n < 2 ^ 53 then n
  else
    let unit := 2 ^ (n.log2 - 52)
    let q := n / unit
    let r := n % unit
    if 2 * r > unit ∨ (2 * r = unit ∧ q % 2 = 1) then (q + 1) * unit else q * unit

def Number.ofNat (n : Nat) : Number :=
  if nearestDouble n < 2 ^ 1024 then .finite (nearestDouble n) else .infinity

/-- The number a string of decimal digits denotes. -/
def decimalValue (digits : List Char) : Nat := Nat.ofDigitChars 10 digits 0

/-- `parseInt(digits, 10)`. -/
def parseInt (digits : List Char) : Number := .ofNat (decimalValue digits)

theorem nearestDouble_of_lt {n : Nat} (h : n < 2 ^ 53) : nearestDouble n = n := by
  unfold nearestDouble
  rw [if_pos h]

example : nearestDouble 9007199254740993 = 9007199254740992 := by decide

/-- A number without an exact double is not rounded below `2 ^ 53`. -/
theorem le_nearestDouble {n : Nat} (h : 2 ^ 53 ≤ n) : 2 ^ 53 ≤ nearestDouble n := by
  have hlog : 53 ≤ n.log2 := (Nat.le_log2 (by omega)).mpr h
  have hself : 2 ^ n.log2 ≤ n := Nat.log2_self_le (by omega)
  have hsplit : 2 ^ n.log2 = 2 ^ 52 * 2 ^ (n.log2 - 52) := by
    rw [← Nat.pow_add]
    congr 1
    omega
  have hq : 2 ^ 52 ≤ n / 2 ^ (n.log2 - 52) := by
    rw [Nat.le_div_iff_mul_le (Nat.two_pow_pos _), ← hsplit]
    exact hself
  have hlow : 2 ^ 53 ≤ n / 2 ^ (n.log2 - 52) * 2 ^ (n.log2 - 52) := calc
    2 ^ 53 ≤ 2 ^ n.log2 := Nat.pow_le_pow_right (by omega) hlog
    _ = 2 ^ 52 * 2 ^ (n.log2 - 52) := hsplit
    _ ≤ n / 2 ^ (n.log2 - 52) * 2 ^ (n.log2 - 52) := Nat.mul_le_mul_right _ hq
  unfold nearestDouble
  rw [if_neg (by omega)]
  dsimp only
  split
  · exact le_trans hlow (Nat.mul_le_mul_right _ (Nat.le_succ _))
  · exact hlow

/-- Below `2 ^ 53` a number is read exactly, and nothing else is read as it. -/
theorem number_eq_finite_iff {m n : Nat} (h : n < 2 ^ 53) : Number.ofNat m = .finite n ↔ m = n := by
  unfold Number.ofNat
  constructor
  · intro heq
    split at heq
    · have hval : nearestDouble m = n := Number.finite.inj heq
      by_cases hm : m < 2 ^ 53
      · rw [nearestDouble_of_lt hm] at hval
        exact hval
      · have := le_nearestDouble (n := m) (by omega)
        omega
    · cases heq
  · rintro rfl
    have hbound : ∀ e, 53 < e → m < 2 ^ e := fun e he =>
      lt_trans h (Nat.pow_lt_pow_right (by omega) he)
    rw [nearestDouble_of_lt h, if_pos (hbound 1024 (by omega))]

theorem parseInt_eq_finite_iff {digits : List Char} {n : Nat} (h : n < 2 ^ 53) :
    parseInt digits = .finite n ↔ decimalValue digits = n :=
  number_eq_finite_iff h

/-- The digits of a template literal `${n}`. -/
def decimal (n : Nat) : List Char := (toString n).toList

theorem decimal_eq_toDigits (n : Nat) : decimal n = Nat.toDigits 10 n := by
  rw [decimal, Nat.toString_eq_repr, Nat.toList_repr]

@[simp] theorem decimalValue_decimal (n : Nat) : decimalValue (decimal n) = n := by
  rw [decimal_eq_toDigits, decimalValue, Nat.ofDigitChars_ten_toDigits]

theorem decimal_injective : Function.Injective decimal :=
  Function.LeftInverse.injective decimalValue_decimal

theorem decimal_ne_nil (n : Nat) : decimal n ≠ [] := by
  rw [decimal_eq_toDigits]
  exact Nat.toDigits_ne_nil

theorem decimal_isDigit {n : Nat} {c : Char} (h : c ∈ decimal n) : c.isDigit = true := by
  rw [decimal_eq_toDigits] at h
  exact Nat.isDigit_of_mem_toDigits (by omega) (by omega) h

/-! ## Leading zeros

`parseInt` reads them, but no number is printed with one. -/

def leadingZero : List Char → Bool
  | c :: _ :: _ => c == '0'
  | _ => false

theorem head_decimal_ne_zero {n : Nat} (h : 0 < n) : (decimal n).head? ≠ some '0' := by
  rw [decimal_eq_toDigits]
  induction n using Nat.strong_induction_on with
  | _ n ih =>
    by_cases hn : n < 10
    · rw [Nat.toDigits_of_lt_base hn, List.head?_cons, Ne, Option.some.injEq,
        Nat.digitChar_eq_zero]
      omega
    · rw [Nat.toDigits_of_base_le (by omega) (by omega),
        List.head?_append, List.head?_eq_some_head Nat.toDigits_ne_nil, Option.some_or,
        ← List.head?_eq_some_head]
      exact ih (n / 10) (by omega) (by omega)

theorem decimal_not_leadingZero (n : Nat) : leadingZero (decimal n) = false := by
  rcases Nat.eq_zero_or_pos n with rfl | hpos
  · decide
  · have hhead := head_decimal_ne_zero hpos
    cases hd : decimal n with
    | nil => rfl
    | cons c cs =>
      rw [hd, List.head?_cons] at hhead
      cases cs with
      | nil => rfl
      | cons d ds => simpa [leadingZero] using hhead

/-- A digit is the digit of its own value. -/
theorem digitChar_of_isDigit {c : Char} (h : c.isDigit = true) :
    c.toNat - '0'.toNat < 10 ∧ (c.toNat - '0'.toNat).digitChar = c := by
  obtain ⟨hlow, hhigh⟩ := Char.isDigit_iff_toNat.mp h
  have h0 : '0'.toNat = 48 := rfl
  have h9 : '9'.toNat = 57 := rfl
  have hlt : c.toNat - '0'.toNat < 10 := by omega
  refine ⟨hlt, Char.toNat_inj.mp ?_⟩
  have hdigit : (c.toNat - '0'.toNat).digitChar.isDigit = true := by
    rw [Nat.isDigit_digitChar]
    exact decide_eq_true hlt
  have hlow' := (Char.isDigit_iff_toNat.mp hdigit).1
  have hvalue := Nat.toNat_digitChar_sub_48_of_lt_ten hlt
  omega

/-- Digits without a leading zero are the digits of their number. -/
theorem decimal_decimalValue {digits : List Char} (hne : digits ≠ [])
    (hdigits : ∀ c ∈ digits, c.isDigit = true) (hzero : leadingZero digits = false) :
    decimal (decimalValue digits) = digits := by
  induction digits using List.reverseRecOn with
  | nil => exact absurd rfl hne
  | append_singleton front c ih =>
    obtain ⟨hlt, hchar⟩ := digitChar_of_isDigit (hdigits c (by simp))
    have hvalue : decimalValue (front ++ [c]) =
        10 * decimalValue front + (c.toNat - '0'.toNat) := by
      rw [decimalValue, Nat.ofDigitChars_append, Nat.ofDigitChars_cons, Nat.ofDigitChars_nil]
      rfl
    have hlast : Nat.toDigits 10 (c.toNat - '0'.toNat) = [c] := by
      rw [Nat.toDigits_of_lt_base hlt, hchar]
    rw [hvalue]
    by_cases hfront : front = []
    · subst hfront
      rw [decimal_eq_toDigits]
      simpa [decimalValue] using hlast
    · -- the digits before the last one have no leading zero either, so they are not all of zero
      have hfront_zero : leadingZero front = false := by
        cases front with
        | nil => rfl
        | cons a as =>
          cases as with
          | nil => rfl
          | cons b bs => exact hzero
      have hback := ih hfront (fun d hd => hdigits d (by simp [hd])) hfront_zero
      have hpos : 0 < decimalValue front := by
        rcases Nat.eq_zero_or_pos (decimalValue front) with hz | hpos
        · rw [hz] at hback
          subst hback
          cases hzero
        · exact hpos
      rw [decimal_eq_toDigits] at hback
      rw [decimal_eq_toDigits, ← Nat.toDigits_append_toDigits (by omega) hpos hlt, hback, hlast]

end EffectWorker.Text
