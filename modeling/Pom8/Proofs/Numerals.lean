import Pom8.Proofs.LetterCase

/-!
# Numerals that are read back

A numeral is read from the left, so one more digit at its end multiplies the
value by the base and adds the digit.  Writing a number and reading the digits
gives the number back, whatever zeros stand in front and whatever the case of
the digits.
-/

namespace Pom8.Numeral

theorem value_concat (base : Nat) (digits : List Char) (c : Char) :
    value base (digits ++ [c]) = value base digits * base + digitValue c := by
  simp [value]

theorem value_cons_zero (base : Nat) (digits : List Char) :
    value base ('0' :: digits) = value base digits := by
  have hzero : digitValue '0' = 0 := by decide
  simp [value, hzero]

theorem value_leftpad (base width : Nat) (digits : List Char) :
    value base (digits.leftpad width '0') = value base digits := by
  rw [List.leftpad]
  induction width - digits.length with
  | zero => rfl
  | succ count ih =>
      rw [List.replicate_succ, List.cons_append, value_cons_zero]
      exact ih

/-- The case of the digits of a numeral does not matter. -/
theorem value_map_toLower (base : Nat) (digits : List Char) :
    value base (digits.map Char.toLower) = value base digits := by
  simp [value, List.foldl_map]

theorem value_map_toUpper (base : Nat) (digits : List Char) :
    value base (digits.map Char.toUpper) = value base digits := by
  rw [← value_map_toLower, List.map_map, ← value_map_toLower base digits]
  congr 1
  apply List.map_congr_left
  intro c _
  exact Text.toLower_toUpper c

/-! ## Digits of a number -/

theorem digitValue_digitChar {d : Nat} (h : d < 16) :
    digitValue d.digitChar = d := by
  revert d
  decide

theorem isHexDigit_digitChar {d : Nat} (h : d < 16) :
    isHexDigit d.digitChar = true := by
  revert d
  decide

theorem isBinaryDigit_digitChar {d : Nat} (h : d < 2) :
    isBinaryDigit d.digitChar = true := by
  revert d
  decide

/-- Every digit of a numeral is the digit of a number below the base. -/
theorem exists_of_mem_toDigits
    {base n : Nat} (hbase : 1 < base) {c : Char} (hc : c ∈ Nat.toDigits base n) :
    ∃ d < base, c = d.digitChar := by
  induction n using Nat.strongRecOn with
  | ind n ih =>
      rw [Nat.toDigits_eq_if hbase] at hc
      split at hc
      next hlt =>
        exact ⟨n, hlt, List.mem_singleton.mp hc⟩
      next hle =>
        rcases List.mem_append.mp hc with hc | hc
        · exact ih (n / base) (Nat.div_lt_self (by omega) hbase) hc
        · exact ⟨n % base, Nat.mod_lt n (by omega), List.mem_singleton.mp hc⟩

theorem value_toDigits {base : Nat} (hbase : 1 < base) (hle : base ≤ 16) (n : Nat) :
    value base (Nat.toDigits base n) = n := by
  induction n using Nat.strongRecOn with
  | ind n ih =>
      by_cases hlt : n < base
      · rw [Nat.toDigits_of_lt_base hlt, ← List.nil_append [_], value_concat,
          digitValue_digitChar (Nat.lt_of_lt_of_le hlt hle)]
        simp [value]
      · have hmod : n % base < base := Nat.mod_lt n (by omega)
        rw [Nat.toDigits_of_base_le hbase (by omega), value_concat,
          ih (n / base) (Nat.div_lt_self (by omega) hbase),
          digitValue_digitChar (Nat.lt_of_lt_of_le hmod hle)]
        exact Nat.div_add_mod' n base

theorem value_digits
    {base : Nat} (hbase : 1 < base) (hle : base ≤ 16) (width n : Nat) :
    value base (digits base width n) = n := by
  rw [digits, value_leftpad, value_toDigits hbase hle]

theorem digits_ne_nil (base width n : Nat) : digits base width n ≠ [] := by
  rw [digits, List.leftpad]
  exact List.append_ne_nil_of_right_ne_nil _ Nat.toDigits_ne_nil

/-- The digits of a padded numeral are zeros and digits below the base. -/
theorem forall_mem_digits
    {isMember : Char → Bool} {base : Nat} (hbase : 1 < base)
    (hzero : isMember '0' = true)
    (hmember : ∀ d < base, isMember d.digitChar = true) (width n : Nat) :
    ∀ c ∈ digits base width n, isMember c = true := by
  intro c hc
  rw [digits, List.leftpad] at hc
  rcases List.mem_append.mp hc with hc | hc
  · rw [List.eq_of_mem_replicate hc]
    exact hzero
  · obtain ⟨d, hd, rfl⟩ := exists_of_mem_toDigits hbase hc
    exact hmember d hd

end Pom8.Numeral
