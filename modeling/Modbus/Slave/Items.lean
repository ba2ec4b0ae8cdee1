import Modbus.Slave.Impl

/-!
This module contains the bits and registers of a data array: what the helper functions for the
callbacks do to each item and to the bytes around it, and the loop that resets the pad bits.
-/

namespace Modbus

theorem mbSlaveBitGet_eq (data : Mem) (address : Nat)
    : mbSlaveBitGet data address = if data.bit address then 1 else 0 := by
  have hoff : address % 8 < 8 := Nat.mod_lt _ (by omega)
  have hbit := and_bit8_eq_zero (data (address / 8)) (address % 8) hoff
  unfold mbSlaveBitGet
  cases h : data.bit address <;> simp_all [Mem.bit]

theorem mbSlaveBitSet_ne (data : Mem) (address i : Nat) (value : Int) (h : i ≠ address / 8)
    : mbSlaveBitSet data address value i = data i := by
  unfold mbSlaveBitSet bitStore
  split <;> simp [h]

theorem bit_mbSlaveBitSet (data : Mem) (address i : Nat) (value : Int)
    : (mbSlaveBitSet data address value).bit i
        =
      if i = address then decide (value ≠ 0) else data.bit i := by
  by_cases hbyte : i / 8 = address / 8
  . have hoff : i % 8 < 8 := Nat.mod_lt _ (by omega)
    have hidx : i = address ↔ address % 8 = i % 8 := by omega
    simp only [mbSlaveBitSet, bitStore, Mem.bit, hbyte]
    split
    . next hv => by_cases h : address % 8 = i % 8 <;> simp [byteBit_bit8, hoff, hidx, h, hv]
    . next hv =>
      by_cases h : address % 8 = i % 8 <;>
        simp [byteBit_bit8, byteBit_not, hoff, hidx, h, hv]
  . have hidx : i ≠ address := by
      intro h
      exact hbyte (by rw [h])
    simp only [hidx, ↓reduceIte, Mem.bit]
    rw [mbSlaveBitSet_ne _ _ _ _ hbyte]

theorem mbSlaveBitSet_agree {k : Nat} {data data' : Mem} (h : Mem.Agree k data data')
    (address : Nat) (value : Int)
    : Mem.Agree k (mbSlaveBitSet data address value) (mbSlaveBitSet data' address value) := by
  intro i hi
  by_cases hbyte : i = address / 8
  . simp only [mbSlaveBitSet, bitStore]
    rw [← hbyte, h i hi]
    split <;> simp
  . rw [mbSlaveBitSet_ne _ _ _ _ hbyte]
    rw [mbSlaveBitSet_ne _ _ _ _ hbyte]
    exact h i hi

theorem mbSlaveRegSet_ne (data : Mem) (address i : Nat) (value : UInt16) (h : i / 2 ≠ address)
    : mbSlaveRegSet data address value i = data i := by
  have h0 : i ≠ address * 2 := by omega
  have h1 : i ≠ address * 2 + 1 := by omega
  simp [mbSlaveRegSet, h0, h1]

theorem mbSlaveRegGet_eq (data : Mem) (address : Nat)
    : mbSlaveRegGet data address = word (data (2 * address)) (data (2 * address + 1)) := by
  simp [mbSlaveRegGet, Nat.mul_comm]

theorem mbSlaveRegGet_mbSlaveRegSet (data : Mem) (address i : Nat) (value : UInt16)
    : mbSlaveRegGet (mbSlaveRegSet data address value) i
        =
      if i = address then value else mbSlaveRegGet data i := by
  by_cases h : i = address
  . simp [h, mbSlaveRegGet, mbSlaveRegSet]
  . simp only [h, ↓reduceIte, mbSlaveRegGet_eq]
    rw [mbSlaveRegSet_ne _ _ _ _ (by omega)]
    rw [mbSlaveRegSet_ne _ _ _ _ (by omega)]

theorem mbSlaveRegSet_agree {k : Nat} {data data' : Mem} (h : Mem.Agree k data data')
    (address : Nat) (value : UInt16)
    : Mem.Agree k (mbSlaveRegSet data address value) (mbSlaveRegSet data' address value) := by
  intro i hi
  simp only [mbSlaveRegSet, Mem.store_apply]
  rw [h i hi]

theorem Mem.bit_mul_add (m : Mem) (j k : Nat) (hk : k < 8)
    : m.bit (8 * j + k) = byteBit (m j) k := by
  have hdiv : (8 * j + k) / 8 = j := by omega
  have hmod : (8 * j + k) % 8 = k := by omega
  rw [Mem.bit, hdiv, hmod]

theorem Mem.byte_ext {m m' : Mem} {j : Nat}
    (h : ∀ (k : Nat), k < 8 → m.bit (8 * j + k) = m'.bit (8 * j + k))
    : m j = m' j := by
  apply byteBit_ext
  intro k hk
  rw [← Mem.bit_mul_add _ _ _ hk, ← Mem.bit_mul_add _ _ _ hk]
  exact h k hk

/-! The loop over the pad bits, one iteration after the other. -/

namespace SlaveState

variable {σ : Type} (s : SlaveState σ) (pData quantity n : Nat)

theorem resetPadBit_offset (ix : Nat)
    : (s.resetPadBit pData ix).pdu.offset pData = mbSlaveBitSet (s.pdu.offset pData) ix 0 := by
  funext i
  simp [resetPadBit, storePad, mbSlaveBitSet]

@[simp]
theorem resetPadBits_app : (s.resetPadBits pData quantity n).app = s.app := by
  induction n with
  | zero => rfl
  | succ n ih => exact ih

@[simp]
theorem resetPadBits_calls : (s.resetPadBits pData quantity n).calls = s.calls := by
  induction n with
  | zero => rfl
  | succ n ih => exact ih

theorem resetPadBits_pdu_lt (i : Nat) (h : i < pData)
    : (s.resetPadBits pData quantity n).pdu i = s.pdu i := by
  induction n with
  | zero => rfl
  | succ n ih =>
    rw [← ih]
    simp only [resetPadBits, resetPadBit, storePad, Mem.store_apply]
    rw [if_neg (by omega)]

theorem mem_resetPadBits_pads {i : Nat} (hi : i ∈ (s.resetPadBits pData quantity n).pads)
    : i ∈ s.pads ∨ ∃ k, k < n ∧ i = pData + (quantity + k) / 8 := by
  induction n with
  | zero => exact .inl hi
  | succ n ih =>
    simp only [resetPadBits, resetPadBit, storePad, List.mem_append, List.mem_singleton] at hi
    obtain hi | hi := hi
    . obtain h | ⟨k, hk, h⟩ := ih hi
      . exact .inl h
      . exact .inr ⟨k, by omega, h⟩
    . refine .inr ⟨n, by omega, ?_⟩
      unfold bitStore at hi
      simpa using hi

theorem bit_resetPadBits (i : Nat)
    : ((s.resetPadBits pData quantity n).pdu.offset pData).bit i
        =
      if quantity ≤ i ∧ i < quantity + n then false else (s.pdu.offset pData).bit i := by
  induction n with
  | zero =>
    rw [if_neg (by omega)]
    rfl
  | succ n ih =>
    simp only [resetPadBits, resetPadBit_offset, bit_mbSlaveBitSet, ih]
    by_cases h : i = quantity + n
    . simp [h]
    . have hlt : quantity ≤ i ∧ i < quantity + (n + 1) ↔ quantity ≤ i ∧ i < quantity + n := by
        omega
      simp [h, hlt]

theorem resetPadBits_ext {s s' : SlaveState σ} {pData quantity j : Nat}
    (h : ∀ (i : Nat), i < quantity → (s.pdu.offset pData).bit i = (s'.pdu.offset pData).bit i)
    (hj : j < bitBytes quantity)
    : (s.resetPadBits pData quantity (bitBytes quantity * 8 - quantity)).pdu (pData + j)
        =
      (s'.resetPadBits pData quantity (bitBytes quantity * 8 - quantity)).pdu (pData + j) := by
  -- Both sides are bytes behind `pData`.
  change (SlaveState.pdu _).offset pData j = (SlaveState.pdu _).offset pData j
  apply Mem.byte_ext
  intro k hk
  rw [bit_resetPadBits, bit_resetPadBits]
  unfold bitBytes at hj ⊢
  by_cases hlt : 8 * j + k < quantity
  . rw [if_neg (by omega), if_neg (by omega)]
    exact h _ hlt
  . rw [if_pos (by omega), if_pos (by omega)]

end SlaveState

end Modbus
