import Mathlib.Data.Nat.Digits.Defs
import Mathlib.Data.Nat.Digits.Lemmas
import UniCCL.Lib.CString

/-! # Decimal numerals

`%d` of a nonnegative number, and `atoi` as `(int)strtol(s, NULL, 10)`: blanks are
skipped, one sign is read, then digits up to the first byte that is none.
-/

namespace CString

def isSpace (b : UInt8) : Bool := b == 32 || (9 ≤ b && b ≤ 13)

def isDigit (b : UInt8) : Bool := 48 ≤ b && b ≤ 57

def digit (d : Nat) : UInt8 := UInt8.ofNat (48 + d)

/-- The value of a run of digits. -/
def digitsValue (bs : List UInt8) : Nat := bs.foldl (fun n b => 10 * n + (b.toNat - 48)) 0

/-- The digits at the start of a byte sequence, read as a number. -/
def leadingValue (bs : List UInt8) : Nat := digitsValue (bs.takeWhile isDigit)

/-- `strtol(s, NULL, 10)` with a 64-bit `long`, which it saturates to. -/
def strtol (s : CStr) : Int :=
  match s.bytes.dropWhile isSpace with
  | 45 :: rest => max (-9223372036854775808) (-(leadingValue rest : Int))
  | 43 :: rest => min 9223372036854775807 (leadingValue rest : Int)
  | rest => min 9223372036854775807 (leadingValue rest : Int)

def atoi (s : CStr) : Int32 := Int32.ofInt (strtol s)

/-- The decimal digits of a number, most significant first. -/
def decimalDigits (n : Nat) : List UInt8 :=
  if n = 0 then [digit 0] else (Nat.digits 10 n).reverse.map digit

theorem digit_toNat {d : Nat} (h : d < 10) : (digit d).toNat = 48 + d := by
  rw [digit, UInt8.toNat_ofNat']
  omega

theorem isDigit_digit {d : Nat} (h : d < 10) : isDigit (digit d) = true := by
  have hval := digit_toNat h
  simp only [isDigit, Bool.and_eq_true, decide_eq_true_eq, UInt8.le_iff_toNat_le, hval]
  exact ⟨Nat.le_add_right 48 d, by show 48 + d ≤ 57; omega⟩

theorem decimalDigits_isDigit (n : Nat) : ∀ b ∈ decimalDigits n, isDigit b = true := by
  intro b hb
  unfold decimalDigits at hb
  split at hb
  · rw [List.mem_singleton.mp hb]
    exact isDigit_digit (by omega)
  · obtain ⟨d, hd, rfl⟩ := List.mem_map.mp hb
    exact isDigit_digit (Nat.digits_lt_base (by omega) (List.mem_reverse.mp hd))

theorem decimalDigits_ne_nil (n : Nat) : decimalDigits n ≠ [] := by
  unfold decimalDigits
  split
  · exact List.cons_ne_nil _ _
  · rename_i hn
    simp [Nat.digits_ne_nil_iff_ne_zero.mpr hn]

/-- Digits with the least significant one first are read back in reverse. -/
theorem digitsValue_reverse {ds : List Nat} (hds : ∀ d ∈ ds, d < 10) :
    digitsValue (ds.reverse.map digit) = Nat.ofDigits 10 ds := by
  rw [digitsValue, List.map_reverse, List.foldl_reverse]
  induction ds with
  | nil => rfl
  | cons d ds ih =>
      rw [List.map_cons, List.foldr_cons, ih fun e he => hds e (List.mem_cons_of_mem d he),
        digit_toNat (hds d List.mem_cons_self), Nat.ofDigits_cons]
      omega

theorem digitsValue_decimalDigits (n : Nat) : digitsValue (decimalDigits n) = n := by
  unfold decimalDigits
  split
  · rename_i hn
    rw [hn]
    rfl
  · rw [digitsValue_reverse fun d hd => Nat.digits_lt_base (by omega) hd, Nat.ofDigits_digits]

/-- `%d`. -/
def decimal (n : Nat) : CStr :=
  ⟨decimalDigits n, fun h => absurd (decimalDigits_isDigit n 0 h) (by decide)⟩

theorem strlen_decimal_le {n k : Nat} (hk : 0 < k) (h : n < 10 ^ k) : (decimal n).strlen ≤ k := by
  simp only [CStr.strlen, decimal, decimalDigits]
  split
  · exact hk
  · rw [List.length_map, List.length_reverse]
    exact (Nat.digits_length_le_iff (by omega) n).mpr h

theorem strtol_of_digits {s : CStr} (hne : s.bytes ≠ []) (hs : ∀ b ∈ s.bytes, isDigit b = true) :
    strtol s = min 9223372036854775807 (digitsValue s.bytes : Int) := by
  obtain ⟨bytes, hnul⟩ := s
  cases bytes with
  | nil => exact absurd rfl hne
  | cons b bs =>
      have hb := hs b List.mem_cons_self
      have hrange : 48 ≤ b.toNat ∧ b.toNat ≤ 57 := by
        simpa [isDigit, UInt8.le_iff_toNat_le] using hb
      have hspace : isSpace b = false := by
        simp only [isSpace, Bool.or_eq_false_iff, Bool.and_eq_false_iff, beq_eq_false_iff_ne,
          decide_eq_false_iff_not, UInt8.le_iff_toNat_le, ne_eq]
        refine ⟨fun h => ?_, .inr fun h => ?_⟩
        · rw [h] at hrange
          exact absurd hrange.1 (by decide)
        · have hle : b.toNat ≤ 13 := h
          omega
      have hplus : b ≠ 43 := fun h => by rw [h] at hrange; exact absurd hrange.1 (by decide)
      have hminus : b ≠ 45 := fun h => by rw [h] at hrange; exact absurd hrange.1 (by decide)
      have hvalue : leadingValue (b :: bs) = digitsValue (b :: bs) := by
        rw [leadingValue, List.takeWhile_eq_self_iff.mpr hs]
      unfold strtol
      rw [List.dropWhile_cons_of_neg (by simp [hspace]), ← hvalue]
      split
      · rename_i h
        exact absurd (List.cons.inj h).1 hminus
      · rename_i h
        exact absurd (List.cons.inj h).1 hplus
      · rfl

/-- A number that fits an `int` is read back from its numeral. -/
theorem atoi_decimal {n : Nat} (h : n < 2147483648) : atoi (decimal n) = Int32.ofNat n := by
  have hread := strtol_of_digits (s := decimal n) (decimalDigits_ne_nil n) (decimalDigits_isDigit n)
  have hvalue : digitsValue (decimal n).bytes = n := digitsValue_decimalDigits n
  rw [hvalue, min_eq_right (by omega)] at hread
  rw [atoi, hread]
  rfl

end CString
