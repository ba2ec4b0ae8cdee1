import Mathlib.Data.Nat.Bitwise

/-!
This module contains the bytes and 16 bit words that the rest of the development is built from: the
bits of a byte, the two bytes of a word and the order in which a host keeps them in memory.
-/

def bit8 (n : Nat) : UInt8 :=
  UInt8.ofNat (1 <<< n)

def byteBit (b : UInt8) (k : Nat) : Bool :=
  b.toNat.testBit k

@[simp]
theorem byteBit_zero (k : Nat) : byteBit 0 k = false := by
  simp [byteBit]

theorem byteBit_ge (b : UInt8) (k : Nat) (h : 8 ≤ k) : byteBit b k = false := by
  apply Nat.testBit_lt_two_pow
  apply Nat.lt_of_lt_of_le b.toNat_lt
  exact Nat.pow_le_pow_right (by omega) h

theorem byteBit_bit8 (n k : Nat) (h : k < 8) : byteBit (bit8 n) k = decide (n = k) := by
  simp only [byteBit, bit8, UInt8.toNat_ofNat', Nat.shiftLeft_eq, Nat.one_mul]
  rw [Nat.testBit_mod_two_pow]
  rw [Nat.testBit_two_pow]
  simp [h]

@[simp]
theorem byteBit_or (a b : UInt8) (k : Nat)
    : byteBit (a ||| b) k = (byteBit a k || byteBit b k) := by
  simp [byteBit]

@[simp]
theorem byteBit_and (a b : UInt8) (k : Nat)
    : byteBit (a &&& b) k = (byteBit a k && byteBit b k) := by
  simp [byteBit]

theorem byteBit_not (b : UInt8) (k : Nat) (h : k < 8) : byteBit (~~~b) k = !byteBit b k := by
  have hsub : UInt8.size - 1 - b.toNat = 2 ^ 8 - (b.toNat + 1) := by
    simp [UInt8.size]
  simp only [byteBit, UInt8.toNat_not]
  rw [hsub]
  rw [Nat.testBit_two_pow_sub_succ b.toNat_lt]
  simp [h]

theorem byteBit_ext {a b : UInt8} (h : ∀ k, k < 8 → byteBit a k = byteBit b k) : a = b := by
  apply UInt8.toNat_inj.mp
  apply Nat.eq_of_testBit_eq
  intro k
  by_cases hk : k < 8
  . exact h k hk
  . have ha := byteBit_ge a k (by omega)
    have hb := byteBit_ge b k (by omega)
    simp only [byteBit] at ha hb
    rw [ha, hb]

theorem and_bit8_eq_zero (b : UInt8) (n : Nat) (h : n < 8)
    : b &&& bit8 n = 0 ↔ byteBit b n = false := by
  constructor
  . intro hand
    have hbit := congrArg (byteBit · n) hand
    simpa [byteBit_bit8, h] using hbit
  . intro hbit
    apply byteBit_ext
    intro k hk
    by_cases hkn : n = k
    . rw [← hkn]
      simp [hbit]
    . simp [byteBit_bit8, hk, hkn]

def hiByte (v : UInt16) : UInt8 :=
  (v >>> 8).toUInt8

def loByte (v : UInt16) : UInt8 :=
  (v &&& 0xFF).toUInt8

def word (hi lo : UInt8) : UInt16 :=
  hi.toUInt16 <<< 8 ||| lo.toUInt16

theorem toNat_word (hi lo : UInt8) : (word hi lo).toNat = hi.toNat * 256 + lo.toNat := by
  have hhi := hi.toNat_lt
  have hlo := lo.toNat_lt
  have hshift : hi.toNat <<< 8 < 2 ^ 16 := by
    rw [Nat.shiftLeft_eq]
    omega
  simp only [word, UInt16.toNat_or, UInt16.toNat_shiftLeft, UInt8.toNat_toUInt16]
  rw [show (8 : UInt16).toNat % 16 = 8 from rfl]
  rw [Nat.mod_eq_of_lt hshift]
  rw [← Nat.shiftLeft_add_eq_or_of_lt (by omega)]
  rw [Nat.shiftLeft_eq]

theorem toNat_hiByte (v : UInt16) : (hiByte v).toNat = v.toNat / 256 := by
  have hv := v.toNat_lt
  simp only [hiByte, UInt16.toNat_toUInt8, UInt16.toNat_shiftRight, Nat.shiftRight_eq_div_pow]
  rw [show (8 : UInt16).toNat % 16 = 8 from rfl]
  omega

theorem toNat_loByte (v : UInt16) : (loByte v).toNat = v.toNat % 256 := by
  simp only [loByte, UInt16.toNat_toUInt8, UInt16.toNat_and]
  rw [show (0xFF : UInt16).toNat = 2 ^ 8 - 1 from rfl]
  rw [Nat.and_two_pow_sub_one_eq_mod]
  omega

@[simp]
theorem word_hiByte_loByte (v : UInt16) : word (hiByte v) (loByte v) = v := by
  apply UInt16.toNat_inj.mp
  rw [toNat_word, toNat_hiByte, toNat_loByte]
  omega

@[simp]
theorem hiByte_word (hi lo : UInt8) : hiByte (word hi lo) = hi := by
  have hlo := lo.toNat_lt
  apply UInt8.toNat_inj.mp
  rw [toNat_hiByte, toNat_word]
  omega

@[simp]
theorem loByte_word (hi lo : UInt8) : loByte (word hi lo) = lo := by
  have hlo := lo.toNat_lt
  apply UInt8.toNat_inj.mp
  rw [toNat_loByte, toNat_word]
  omega

inductive Endian where
  | little
  | big
  deriving DecidableEq, Repr

namespace Endian

def ofBytes (host : Endian) (fst snd : UInt8) : UInt16 :=
  match host with
  | .little => word snd fst
  | .big => word fst snd

def fstByte (host : Endian) (v : UInt16) : UInt8 :=
  match host with
  | .little => loByte v
  | .big => hiByte v

def sndByte (host : Endian) (v : UInt16) : UInt8 :=
  match host with
  | .little => hiByte v
  | .big => loByte v

/-- Conversion between the byte order of a host and the big endian one, in either direction. -/
def swapBe (host : Endian) (v : UInt16) : UInt16 :=
  match host with
  | .little => word (loByte v) (hiByte v)
  | .big => v

@[simp]
theorem swapBe_swapBe (host : Endian) (v : UInt16) : host.swapBe (host.swapBe v) = v := by
  cases host <;> simp [swapBe]

theorem swapBe_eq_zero (host : Endian) (v : UInt16) : host.swapBe v = 0 ↔ v = 0 := by
  have hzero : host.swapBe 0 = 0 := by
    cases host <;> rfl
  constructor
  . intro h
    rw [← swapBe_swapBe host v, h, hzero]
  . intro h
    rw [h, hzero]

@[simp]
theorem ofBytes_fstByte_sndByte (host : Endian) (v : UInt16)
    : host.ofBytes (host.fstByte v) (host.sndByte v) = v := by
  cases host <;> simp [ofBytes, fstByte, sndByte]

@[simp]
theorem swapBe_ofBytes (host : Endian) (fst snd : UInt8)
    : host.swapBe (host.ofBytes fst snd) = word fst snd := by
  cases host <;> simp [swapBe, ofBytes]

@[simp]
theorem fstByte_swapBe (host : Endian) (v : UInt16) : host.fstByte (host.swapBe v) = hiByte v := by
  cases host <;> simp [swapBe, fstByte]

@[simp]
theorem sndByte_swapBe (host : Endian) (v : UInt16) : host.sndByte (host.swapBe v) = loByte v := by
  cases host <;> simp [swapBe, sndByte]

end Endian
