import VaultQuery.Time.Printer
import VaultQuery.Number.Decimal

/-! # Printed digits

    The digits of a number are digits and have its value, with or without zeros before them,
    and a reader of digits stops where they end.

    * `digitsValue_toDigits`, `digitsValue_padded`: the value;
    * `digitsValue_append`, `digitsValue_lt`: the value of more digits, and how large it gets;
    * `length_padded`: the width;
    * `takeDigits_append`: reading them off a text;
    * `head?_toDigits_ne`: a number other than zero begins with no zero. -/

namespace VaultQuery

open Text

variable {n width : Nat} {ds rest : List Char}

/-- The text goes on with no digit. -/
def Text.EndsDigits (cs : List Char) : Prop := ∀ c ∈ cs.head?, isDigit c = false

theorem Text.isBlank_eq_false_of_isDigit {c : Char} (h : isDigit c = true) : isBlank c = false := by
  rw [isDigit, Bool.and_eq_true, decide_eq_true_eq, decide_eq_true_eq] at h
  have hlow : 48 ≤ c.toNat := h.1
  have hhigh : c.toNat ≤ 57 := h.2
  simp only [isBlank, Bool.or_eq_false_iff, Bool.and_eq_false_iff, decide_eq_false_iff_not,
    beq_eq_false_iff_ne]
  omega

theorem isDigit_of_mem_toDigits {c : Char} (h : c ∈ Nat.toDigits 10 n) : isDigit c = true := by
  have hdigit : c.isDigit = true :=
    Nat.isDigit_of_mem_toDigits (by decide) (Nat.le_refl 10) h
  exact hdigit

theorem digitsValue_toDigits (n : Nat) : digitsValue (Nat.toDigits 10 n) = n :=
  Nat.ofDigitChars_ten_toDigits

theorem digitsValue_append (xs ys : List Char) :
    digitsValue (xs ++ ys) = digitsValue xs * powerOfTen ys.length + digitsValue ys := by
  have h : Nat.ofDigitChars 10 (xs ++ ys) 0
      = Nat.pow 10 ys.length * Nat.ofDigitChars 10 xs 0 + Nat.ofDigitChars 10 ys 0 :=
    (Nat.ofDigitChars_append 0).trans Nat.ofDigitChars_eq_ofDigitChars_zero
  rw [Nat.mul_comm (Nat.pow 10 ys.length)] at h
  exact h

theorem digitsValue_zeros (k : Nat) : digitsValue (List.replicate k '0') = 0 := by
  have h : Nat.ofDigitChars 10 (List.replicate k '0') 0 = 10 ^ k * 0 :=
    Nat.ofDigitChars_replicate_zero
  exact h

theorem digitValue_lt {c : Char} (h : isDigit c = true) : digitValue c < 10 := by
  rw [isDigit, Bool.and_eq_true, decide_eq_true_eq, decide_eq_true_eq] at h
  have hhigh : c.toNat ≤ 57 := h.2
  show c.toNat - 48 < 10
  omega

/-- So many digits, so large a number. -/
theorem digitsValue_lt (h : ∀ c ∈ ds, isDigit c = true) :
    digitsValue ds < powerOfTen ds.length := by
  induction ds with
  | nil => exact Nat.one_pos
  | cons c ds ih =>
      obtain ⟨hc, hds⟩ := List.forall_mem_cons.mp h
      have hfirst := digitValue_lt hc
      have hrest := ih hds
      have hsplit := digitsValue_append [c] ds
      have hone : digitsValue [c] = digitValue c := by simp [digitsValue]
      have hbound : (digitValue c + 1) * powerOfTen ds.length ≤ 10 * powerOfTen ds.length :=
        Nat.mul_le_mul_right _ hfirst
      have hpower : powerOfTen (ds.length + 1) = 10 * powerOfTen ds.length := Nat.pow_succ'
      rw [hone] at hsplit
      rw [Nat.add_mul] at hbound
      show digitsValue ([c] ++ ds) < powerOfTen (ds.length + 1)
      rw [hsplit, hpower]
      omega

theorem isDigit_of_mem_padded {c : Char} (h : c ∈ padded width n) : isDigit c = true := by
  rcases List.mem_append.mp h with h | h
  · rw [List.eq_of_mem_replicate h]
    rfl
  · exact isDigit_of_mem_toDigits h

/-- Zeros before the digits add nothing. -/
theorem digitsValue_padded (width n : Nat) : digitsValue (padded width n) = n := by
  rw [padded, digitsValue_append, digitsValue_zeros, Nat.zero_mul, Nat.zero_add]
  exact digitsValue_toDigits n

/-- A number that fits is as wide as is asked for. -/
theorem length_padded (hwidth : 0 < width) (h : n < powerOfTen width) :
    (padded width n).length = width := by
  have hfits : (Nat.toDigits 10 n).length ≤ width :=
    (Nat.length_toDigits_le_iff (by decide) hwidth).mpr h
  rw [padded, List.length_append, List.length_replicate]
  omega

theorem padded_ne_nil (width n : Nat) : padded width n ≠ [] := by
  intro h
  have hlength := congrArg List.length h
  have hpos : 0 < (Nat.toDigits 10 n).length := Nat.length_toDigits_pos
  rw [padded, List.length_append, List.length_nil] at hlength
  omega

/-- Digits are taken as far as they go. -/
theorem takeDigits_append (hds : ∀ c ∈ ds, isDigit c = true) (hrest : EndsDigits rest) :
    takeDigits (ds ++ rest) = (ds, rest) := by
  have htake : rest.takeWhile isDigit = [] ∧ rest.dropWhile isDigit = rest := by
    cases rest with
    | nil => exact ⟨rfl, rfl⟩
    | cons c cs =>
        have hc : isDigit c = false := hrest c rfl
        constructor
        · rw [List.takeWhile_cons, hc]
          rfl
        · rw [List.dropWhile_cons, hc]
          rfl
  rw [takeDigits, List.takeWhile_append_of_pos hds, List.dropWhile_append_of_pos hds, htake.1,
    htake.2, List.append_nil]

theorem takeDigits_toDigits (n : Nat) :
    takeDigits (Nat.toDigits 10 n) = (Nat.toDigits 10 n, []) := by
  have hends : EndsDigits [] := fun c hc => nomatch hc
  have hdigits : ∀ c ∈ Nat.toDigits 10 n, isDigit c = true :=
    fun c hc => isDigit_of_mem_toDigits hc
  have h := takeDigits_append hdigits hends
  rw [List.append_nil] at h
  exact h

/-- A number other than zero begins with another digit. -/
theorem head?_toDigits_ne (hn : n ≠ 0) : (Nat.toDigits 10 n).head? ≠ some '0' := by
  induction n using Nat.strongRecOn with
  | ind n ih =>
      by_cases hsmall : n < 10
      · rw [Nat.toDigits_of_lt_base hsmall]
        have hall : ∀ m, m < 10 → m ≠ 0 → [m.digitChar].head? ≠ some '0' := by decide
        exact hall n hsmall hn
      · have hten : 10 ≤ n := Nat.le_of_not_lt hsmall
        have hfront := ih (n / 10) (by omega) (by omega)
        rw [Nat.toDigits_of_base_le (by decide) hten]
        cases hds : Nat.toDigits 10 (n / 10) with
        | nil => exact absurd hds Nat.toDigits_ne_nil
        | cons c cs =>
            rw [hds] at hfront
            exact hfront

end VaultQuery
