import Mathlib.Data.Nat.Digits.Defs
import Modbus.Rtu.Impl

/-!
This module contains which names `mb_rtu_bringup` takes for which slaves. The number is kept in 32
bits and only looked at when the name is over.
-/

namespace Modbus

/-- A string of C: the bytes in front of its `NUL`. -/
structure CString where
  bytes : List UInt8
  not_nul : (0 : UInt8) ∉ bytes

def Digit (c : UInt8) : Prop :=
  48 ≤ c.toNat ∧ c.toNat ≤ 57

def decimalValue (name : List UInt8) : Nat :=
  Nat.ofDigits 10 (name.map (fun c => c.toNat - 48)).reverse

/-- The name is not empty, consists of digits and stands for the number. -/
structure Decimal (name : CString) (n : Nat) : Prop where
  ne_nil : name.bytes ≠ []
  digits : ∀ c ∈ name.bytes, Digit c
  value : decimalValue name.bytes = n

/-- The names that stand for a number up to 247 have that number as their result, others have -1. -/
structure ParsesSlave (name : CString) (result : Int) : Prop where
  slave : ∀ (n : Nat), result = n ↔ Decimal name n ∧ n ≤ 247
  error : (∀ (n : Nat), Decimal name n → ¬n ≤ 247) → result = -1

theorem decimalValue_cons (c : UInt8) (cs : List UInt8)
    : decimalValue (c :: cs) = (c.toNat - 48) * 10 ^ cs.length + decimalValue cs := by
  unfold decimalValue
  rw [List.map_cons]
  rw [Nat.ofDigits_reverse_cons]
  rw [List.length_map]
  rw [Nat.add_comm, Nat.mul_comm]

theorem digit_iff (c : UInt8) : ¬c - 48 > 9 ↔ Digit c := by
  unfold Digit
  rw [gt_iff_lt, UInt8.lt_iff_toNat_lt, UInt8.toNat_sub]
  have hlt := c.toNat_lt
  have hzero : (48 : UInt8).toNat = 48 := rfl
  have hnine : (9 : UInt8).toNat = 9 := rfl
  rw [hzero, hnine]
  omega

theorem Digit.toNat_sub {c : UInt8} (h : Digit c) : (c - 48).toNat = c.toNat - 48 := by
  unfold Digit at h
  apply UInt8.toNat_sub_of_le
  rw [UInt8.le_iff_toNat_le]
  exact h.1

theorem mod_accumulate (slave digit place rest : Nat)
    : ((slave * 10 % 2 ^ 32 + digit) % 2 ^ 32 * place + rest) % 2 ^ 32
        =
      (slave * (place * 10) + (digit * place + rest)) % 2 ^ 32 := by
  rw [Nat.mod_add_mod]
  rw [Nat.add_mod, Nat.mod_mul_mod, ← Nat.add_mod]
  congr 1
  ring

theorem mbRtuBringup.go_of_digits {cs : List UInt8} (hdigits : ∀ c ∈ cs, Digit c) (slave : UInt32)
    : ∃ (slave' : UInt32), mbRtuBringup.go slave cs = some slave' ∧
        slave'.toNat = (slave.toNat * 10 ^ cs.length + decimalValue cs) % 2 ^ 32 := by
  induction cs generalizing slave with
  | nil =>
    refine ⟨slave, rfl, ?_⟩
    have hlt := slave.toNat_lt
    simp only [List.length_nil, decimalValue, List.map_nil, List.reverse_nil, Nat.ofDigits_nil]
    omega
  | cons c cs ih =>
    have hdigit := hdigits c (List.mem_cons_self ..)
    have hne : c ≠ 0 := by
      rintro rfl
      exact absurd hdigit.1 (by decide)
    obtain ⟨slave', hgo, hslave⟩ := ih (fun c' hc => hdigits c' (List.mem_cons_of_mem _ hc))
      (slave * 10 + (c - 48).toUInt32)
    refine ⟨slave', ?_, ?_⟩
    . rw [mbRtuBringup.go, if_neg hne, if_neg ((digit_iff c).mpr hdigit)]
      exact hgo
    . have hten : (10 : UInt32).toNat = 10 := rfl
      rw [hslave, decimalValue_cons]
      rw [UInt32.toNat_add, UInt32.toNat_mul, UInt8.toNat_toUInt32, hdigit.toNat_sub]
      rw [hten, List.length_cons, pow_succ]
      apply mod_accumulate

theorem mbRtuBringup.go_of_not_digits {cs : List UInt8} (hnul : (0 : UInt8) ∉ cs)
    (hdigits : ¬∀ c ∈ cs, Digit c) (slave : UInt32)
    : mbRtuBringup.go slave cs = none := by
  induction cs generalizing slave with
  | nil => simp at hdigits
  | cons c cs ih =>
    rw [List.mem_cons, not_or] at hnul
    rw [mbRtuBringup.go, if_neg (Ne.symm hnul.1)]
    dsimp only
    split
    . rfl
    . next hdigit =>
      apply ih hnul.2
      intro hcs
      apply hdigits
      intro c' hc
      obtain rfl | hc := List.mem_cons.mp hc
      . exact (digit_iff c').mp hdigit
      . exact hcs c' hc

section Bringup

variable {ω : Type} (name : CString) (rtu : MbRtu ω)

theorem mbRtuBringup_of_digits (hdigits : ∀ c ∈ name.bytes, Digit c)
    : (mbRtuBringup name.bytes rtu).1
        =
      if decimalValue name.bytes % 2 ^ 32 ≤ 247 then
        ((decimalValue name.bytes % 2 ^ 32 : Nat) : Int)
      else
        -1 := by
  obtain ⟨slave, hgo, hslave⟩ := mbRtuBringup.go_of_digits hdigits 0
  rw [UInt32.toNat_zero, Nat.zero_mul, Nat.zero_add] at hslave
  unfold mbRtuBringup
  rw [hgo, ← hslave]
  dsimp only
  have hmax : slave > 247 ↔ 247 < slave.toNat := UInt32.lt_iff_toNat_lt
  split
  . next hlt =>
    rw [hmax] at hlt
    rw [if_neg (by omega)]
  . next hlt =>
    rw [hmax] at hlt
    rw [if_pos (by omega)]

theorem mbRtuBringup_of_not_digits (hdigits : ¬∀ c ∈ name.bytes, Digit c)
    : (mbRtuBringup name.bytes rtu).1 = -1 := by
  unfold mbRtuBringup
  rw [mbRtuBringup.go_of_not_digits name.not_nul hdigits]

end Bringup

theorem Decimal.iff_value {name : CString} (hne : name.bytes ≠ [])
    (hdigits : ∀ c ∈ name.bytes, Digit c) (n : Nat)
    : Decimal name n ↔ decimalValue name.bytes = n := by
  constructor
  . intro h
    exact h.value
  . intro h
    exact ⟨hne, hdigits, h⟩

theorem parsesSlave_of_not_digits {name : CString} (hdigits : ¬∀ c ∈ name.bytes, Digit c)
    : ParsesSlave name (-1) := by
  have hnot (n : Nat) : ¬Decimal name n := fun h => hdigits h.digits
  constructor
  . intro n
    constructor
    . omega
    . rintro ⟨hn, -⟩
      exact absurd hn (hnot n)
  . intro _
    rfl

theorem parsesSlave_mod_iff {name : CString} (hdigits : ∀ c ∈ name.bytes, Digit c)
    (hne : name.bytes ≠ [])
    : ParsesSlave name
          (if decimalValue name.bytes % 2 ^ 32 ≤ 247 then
            ((decimalValue name.bytes % 2 ^ 32 : Nat) : Int)
          else
            -1)
        ↔
      ∀ (n : Nat), Decimal name n → 247 < n → 247 < n % 2 ^ 32 := by
  have hiff := Decimal.iff_value hne hdigits
  constructor
  . intro h n hn hlt
    rw [hiff] at hn
    by_contra hle
    have hdecimal := (h.slave (n % 2 ^ 32)).mp (by rw [hn, if_pos (by omega)])
    rw [hiff] at hdecimal
    omega
  . intro hwrap
    specialize hwrap _ ((hiff _).mpr rfl)
    constructor
    . intro n
      rw [hiff]
      split
      . omega
      . omega
    . intro hnone
      specialize hnone _ ((hiff _).mpr rfl)
      rw [if_neg (by omega)]

/--
A name is taken for what it stands for if and only if it is not empty and its number does not wrap
around to that of a slave.
-/
theorem mbRtuBringup_parsesSlave_iff {ω : Type} (name : CString) (rtu : MbRtu ω)
    : ParsesSlave name (mbRtuBringup name.bytes rtu).1
        ↔
      name.bytes ≠ [] ∧ ∀ (n : Nat), Decimal name n → 247 < n → 247 < n % 2 ^ 32 := by
  by_cases hdigits : ∀ c ∈ name.bytes, Digit c
  . rw [mbRtuBringup_of_digits name rtu hdigits]
    by_cases hne : name.bytes = []
    . -- The empty name is taken for slave 0.
      constructor
      . intro h
        have hdecimal := ((h.slave 0).mp (by simp [hne, decimalValue])).1
        exact absurd hne hdecimal.ne_nil
      . rintro ⟨hne', -⟩
        contradiction
    . rw [parsesSlave_mod_iff hdigits hne]
      simp [hne]
  . rw [mbRtuBringup_of_not_digits name rtu hdigits]
    apply iff_of_true (parsesSlave_of_not_digits hdigits)
    refine ⟨?_, ?_⟩
    . intro hnil
      simp [hnil] at hdigits
    . intro n hn
      exact absurd hn.digits hdigits

def wrappingName : CString where
  bytes := [52, 50, 57, 52, 57, 54, 55, 50, 57, 55]
  not_nul := by decide

theorem not_parsesSlave_wrappingName
    : ¬ParsesSlave wrappingName
        (mbRtuBringup wrappingName.bytes (⟨false, 0, ()⟩ : MbRtu Unit)).1 := by
  intro h
  have hvalue := ((h.slave 1).mp rfl).1.value
  exact absurd hvalue (by decide)

end Modbus
