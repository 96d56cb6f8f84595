/-
FtServer/Numerals.lean

Integers as text.  `printInt` is what a stream writes for an `int`: a minus sign
for a negative number, and the decimal digits.  `stoi_printInt` says that `stoi`
reads the number back, over the whole range.
-/
import Mathlib.Algebra.Ring.Nat
import Mathlib.Data.List.Induction
import Mathlib.Data.List.TakeWhile
import FtServer.Text

namespace FtServer

/-! ### Printing -/

/-- The decimal digits. -/
def printNat (n : ℕ) : Bytes := (Nat.toDigits 10 n).map Char.toUInt8

/-- `operator<<` of an `int`. -/
def printInt (n : Int32) : Bytes :=
  if n.toInt < 0 then 45 :: printNat n.toInt.natAbs else printNat n.toInt.natAbs

example : printInt Int32.minValue = lit "-2147483648" := by decide +kernel

/-! ### Digits -/

theorem toUInt8_digitChar : ∀ {d : ℕ}, d < 10 → (Nat.digitChar d).toUInt8.toNat = 48 + d := by
  decide

/-- The last digit apart. -/
theorem printNat_of_ten_le {n : ℕ} (h : 10 ≤ n) :
    printNat n = printNat (n / 10) ++ [(Nat.digitChar (n % 10)).toUInt8] := by
  rw [printNat, Nat.toDigits_of_base_le (by decide) h, List.map_append]
  rfl

theorem printNat_of_lt_ten {n : ℕ} (h : n < 10) : printNat n = [(Nat.digitChar n).toUInt8] := by
  rw [printNat, Nat.toDigits_of_lt_base h]
  rfl

theorem printNat_ne_nil (n : ℕ) : printNat n ≠ [] := by
  simp [printNat, Nat.toDigits_ne_nil]

theorem isDigit_iff {b : UInt8} : isDigit b = true ↔ 48 ≤ b.toNat ∧ b.toNat ≤ 57 := by
  simp [isDigit, UInt8.le_iff_toNat_le]

theorem isDigit_digitChar {d : ℕ} (h : d < 10) : isDigit (Nat.digitChar d).toUInt8 = true := by
  rw [isDigit_iff, toUInt8_digitChar h]
  omega

/-- Only digits are printed. -/
theorem isDigit_of_mem_printNat (n : ℕ) : ∀ b ∈ printNat n, isDigit b = true := by
  induction n using Nat.strongRecOn with
  | ind n ih =>
    rcases Nat.lt_or_ge n 10 with hn | hn
    · rw [printNat_of_lt_ten hn]
      simpa using isDigit_digitChar hn
    · rw [printNat_of_ten_le hn]
      intro b hb
      rcases List.mem_append.mp hb with hb | hb
      · exact ih (n / 10) (by omega) b hb
      · rw [List.mem_singleton.mp hb]
        exact isDigit_digitChar (Nat.mod_lt n (by decide))

theorem digitsValue_concat (ds : Bytes) (d : UInt8) :
    digitsValue (ds ++ [d]) = 10 * digitsValue ds + (d.toNat - 48) := by
  simp [digitsValue]

/-- The digits have the value that was printed. -/
theorem digitsValue_printNat (n : ℕ) : digitsValue (printNat n) = n := by
  induction n using Nat.strongRecOn with
  | ind n ih =>
    rcases Nat.lt_or_ge n 10 with hn | hn
    · rw [printNat_of_lt_ten hn, ← List.nil_append [_], digitsValue_concat, toUInt8_digitChar hn]
      simp [digitsValue]
    · rw [printNat_of_ten_le hn, digitsValue_concat, ih (n / 10) (by omega),
        toUInt8_digitChar (Nat.mod_lt n (by decide))]
      omega

/-! ### Reading back -/

theorem takeWhile_printNat (n : ℕ) : (printNat n).takeWhile isDigit = printNat n :=
  List.takeWhile_eq_self_iff.mpr (isDigit_of_mem_printNat n)

/-- The first byte of a number is a digit, or the sign. -/
theorem head_printNat (n : ℕ) : ∃ b rest, printNat n = b :: rest ∧ isDigit b = true := by
  obtain ⟨b, rest, h⟩ := List.exists_cons_of_ne_nil (printNat_ne_nil n)
  exact ⟨b, rest, h, isDigit_of_mem_printNat n b (by simp [h])⟩

theorem not_isSpace_of_isDigit {b : UInt8} (h : isDigit b = true) : isSpace b = false := by
  unfold isDigit at h
  unfold isSpace
  grind

/-- **`stoi` reads what was printed.** -/
theorem stoi_printInt (n : Int32) : stoi (printInt n) = .ok n := by
  have hmin : -2147483648 ≤ n.toInt := n.minValue_le_toInt
  have hmax : n.toInt ≤ Int32.maxValue.toInt := n.toInt_le
  obtain ⟨b, rest, hb, hdigit⟩ := head_printNat n.toInt.natAbs
  have hds := takeWhile_printNat n.toInt.natAbs
  have hvalue := digitsValue_printNat n.toInt.natAbs
  have hspace := not_isSpace_of_isDigit hdigit
  have hne : b ≠ 45 ∧ b ≠ 43 := by
    constructor <;> (rintro rfl; simp [isDigit] at hdigit)
  rw [hb] at hds hvalue
  have hne_nil : (b :: rest).isEmpty = false := rfl
  have hbounds : Int32.minValue.toInt ≤ n.toInt ∧ n.toInt ≤ Int32.maxValue.toInt := ⟨hmin, hmax⟩
  by_cases hneg : n.toInt < 0
  · -- the sign is read first
    have hint : -(n.toInt.natAbs : ℤ) = n.toInt := by omega
    have hminus : isSpace 45 = false := by decide
    simp only [printInt, if_pos hneg, hb, stoi, List.dropWhile_cons, hminus, List.head?_cons,
      List.tail_cons, beq_self_eq_true, Bool.true_or, hds, hne_nil, hvalue, hint, if_pos hbounds,
      Int32.ofInt_toInt, Bool.false_eq_true, if_true, if_false]
  · have hint : (n.toInt.natAbs : ℤ) = n.toInt := by omega
    have hsign : (some b == some 45) = false ∧ (some b == some 43) = false := by simp [hne]
    simp only [printInt, if_neg hneg, hb, stoi, List.dropWhile_cons, hspace, List.head?_cons, hsign,
      Bool.or_self, hds, hne_nil, hvalue, hint, if_pos hbounds, Int32.ofInt_toInt,
      Bool.false_eq_true, if_false]

/-! ### Text of digits -/

theorem digitsValue_append (s t : Bytes) :
    digitsValue (s ++ t) = digitsValue s * 10 ^ t.length + digitsValue t := by
  induction t using List.reverseRecOn with
  | nil => simp [digitsValue]
  | append_singleton t d ih =>
    rw [← List.append_assoc, digitsValue_concat, digitsValue_concat, ih, List.length_append,
      List.length_singleton, Nat.pow_succ, Nat.mul_add, Nat.add_assoc, ← Nat.mul_assoc,
      Nat.mul_comm 10, Nat.mul_assoc, Nat.mul_comm 10 (10 ^ _)]

/-- A number of `k` digits lies below `10 ^ k`. -/
theorem digitsValue_lt {ds : Bytes} (h : ∀ b ∈ ds, isDigit b = true) :
    digitsValue ds < 10 ^ ds.length := by
  induction ds using List.reverseRecOn with
  | nil => simp [digitsValue]
  | append_singleton ds d ih =>
    have hds := ih fun b hb => h b (List.mem_append_left _ hb)
    have hd := isDigit_iff.mp (h d (by simp))
    rw [digitsValue_concat, List.length_append, List.length_singleton, Nat.pow_succ]
    omega

/-- `stoi` of digits is their value. -/
theorem stoi_digits {ds : Bytes} (hne : ds ≠ []) (h : ∀ b ∈ ds, isDigit b = true)
    (hmax : (digitsValue ds : ℤ) ≤ Int32.maxValue.toInt) :
    stoi ds = .ok (Int32.ofInt (digitsValue ds)) := by
  obtain ⟨b, rest, rfl⟩ := List.exists_cons_of_ne_nil hne
  have hdigit := h b (by simp)
  have hspace := not_isSpace_of_isDigit hdigit
  have hds : (b :: rest).takeWhile isDigit = b :: rest := List.takeWhile_eq_self_iff.mpr h
  have hsign : b ≠ 45 ∧ b ≠ 43 := by
    constructor <;> (rintro rfl; simp [isDigit] at hdigit)
  have hbounds : Int32.minValue.toInt ≤ (digitsValue (b :: rest) : ℤ) ∧
      (digitsValue (b :: rest) : ℤ) ≤ Int32.maxValue.toInt := by
    refine ⟨?_, hmax⟩
    have hmin : Int32.minValue.toInt ≤ 0 := by decide
    omega
  have hhead : (some b == some 45) = false ∧ (some b == some 43) = false := by simp [hsign]
  have hnil : (b :: rest).isEmpty = false := rfl
  simp only [stoi, List.dropWhile_cons, hspace, List.head?_cons, hhead, Bool.or_self, hds, hnil,
    if_pos hbounds, Bool.false_eq_true, if_false]

end FtServer
