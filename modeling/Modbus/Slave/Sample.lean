import Modbus.Slave.Items
import Modbus.Slave.Switch

/-!
This module contains the storage backed callbacks of `sample/slave.c`, together with the proof that
these stay within the area they are handed.
-/

namespace Modbus

structure Store where
  coils : Mem
  inputs : Mem
  hold : Nat → UInt16
  inputRegisters : Nat → UInt16

/-! The loops of the callbacks, up to the given value of `offset`. -/

def bitsGetLoop (bits : Mem) (address : UInt16) (data : Mem) : Nat → Mem
  | 0 => data
  | offset + 1 =>
    let data := bitsGetLoop bits address data offset
    mbSlaveBitSet data offset (mbSlaveBitGet bits (address.toNat + offset))

def bitsSetLoop (bits : Mem) (address : UInt16) (data : Mem) : Nat → Mem
  | 0 => bits
  | offset + 1 =>
    let bits := bitsSetLoop bits address data offset
    mbSlaveBitSet bits (address.toNat + offset) (mbSlaveBitGet data offset)

def regsGetLoop (regs : Nat → UInt16) (address : UInt16) (data : Mem) : Nat → Mem
  | 0 => data
  | offset + 1 =>
    let data := regsGetLoop regs address data offset
    mbSlaveRegSet data offset (regs (address.toNat + offset))

def regsSetLoop (regs : Nat → UInt16) (address : UInt16) (data : Mem) : Nat → Nat → UInt16
  | 0 => regs
  | offset + 1 =>
    let regs := regsSetLoop regs address data offset
    fun reg => if reg = address.toNat + offset then mbSlaveRegGet data offset else regs reg

theorem bit_bitsGetLoop (bits : Mem) (address : UInt16) (data : Mem) (n i : Nat)
    : (bitsGetLoop bits address data n).bit i
        =
      if i < n then bits.bit (address.toNat + i) else data.bit i := by
  induction n with
  | zero => simp [bitsGetLoop]
  | succ n ih =>
    simp only [bitsGetLoop, bit_mbSlaveBitSet, ih, mbSlaveBitGet_eq]
    by_cases h : i = n
    . cases hbit : bits.bit (address.toNat + n) <;> simp [h, hbit]
    . have hlt : i < n + 1 ↔ i < n := by omega
      simp [h, hlt]

theorem bitsGetLoop_ge (bits : Mem) (address : UInt16) (data : Mem) (n i : Nat)
    (h : bitBytes n ≤ i)
    : bitsGetLoop bits address data n i = data i := by
  unfold bitBytes at h
  induction n with
  | zero => rfl
  | succ n ih =>
    rw [bitsGetLoop]
    rw [mbSlaveBitSet_ne _ _ _ _ (by omega)]
    exact ih (by omega)

theorem bitsGetLoop_agree (bits : Mem) (address : UInt16) {data data' : Mem} {k : Nat} (n : Nat)
    (h : Mem.Agree k data data')
    : Mem.Agree k (bitsGetLoop bits address data n) (bitsGetLoop bits address data' n) := by
  induction n with
  | zero => exact h
  | succ n ih => exact mbSlaveBitSet_agree ih _ _

theorem bit_bitsSetLoop (bits : Mem) (address : UInt16) (data : Mem) (n i : Nat)
    : (bitsSetLoop bits address data n).bit i
        =
      if address.toNat ≤ i ∧ i < address.toNat + n then data.bit (i - address.toNat)
      else bits.bit i := by
  induction n with
  | zero => simp [bitsSetLoop]
  | succ n ih =>
    simp only [bitsSetLoop, bit_mbSlaveBitSet, ih, mbSlaveBitGet_eq]
    by_cases h : i = address.toNat + n
    . cases hbit : data.bit n <;> simp [h, hbit]
    . have hlt : address.toNat ≤ i ∧ i < address.toNat + (n + 1) ↔
          address.toNat ≤ i ∧ i < address.toNat + n := by omega
      simp [h, hlt]

theorem bitsSetLoop_congr (bits : Mem) (address : UInt16) {data data' : Mem} (n : Nat)
    (h : Mem.Agree (bitBytes n) data data')
    : bitsSetLoop bits address data n = bitsSetLoop bits address data' n := by
  unfold bitBytes at h
  induction n with
  | zero => rfl
  | succ n ih =>
    have hbyte : data (n / 8) = data' (n / 8) := h _ (by omega)
    have hbit : mbSlaveBitGet data n = mbSlaveBitGet data' n := by
      simp [mbSlaveBitGet, hbyte]
    rw [bitsSetLoop, bitsSetLoop]
    rw [ih (h.mono (by omega))]
    rw [hbit]

theorem mbSlaveRegGet_regsGetLoop (regs : Nat → UInt16) (address : UInt16) (data : Mem) (n i : Nat)
    : mbSlaveRegGet (regsGetLoop regs address data n) i
        =
      if i < n then regs (address.toNat + i) else mbSlaveRegGet data i := by
  induction n with
  | zero => simp [regsGetLoop]
  | succ n ih =>
    simp only [regsGetLoop, mbSlaveRegGet_mbSlaveRegSet, ih]
    by_cases h : i = n
    . simp [h]
    . have hlt : i < n + 1 ↔ i < n := by omega
      simp [h, hlt]

theorem regsGetLoop_lt (regs : Nat → UInt16) (address : UInt16) (data : Mem) (n i : Nat)
    (h : i < regBytes n)
    : regsGetLoop regs address data n i
        =
      if i % 2 = 0 then hiByte (regs (address.toNat + i / 2))
      else loByte (regs (address.toNat + i / 2)) := by
  have hreg := mbSlaveRegGet_regsGetLoop regs address data n (i / 2)
  unfold regBytes at h
  rw [mbSlaveRegGet_eq] at hreg
  rw [if_pos (by omega)] at hreg
  rw [← hreg]
  rw [hiByte_word, loByte_word]
  split
  . congr 1
    omega
  . congr 1
    omega

theorem regsGetLoop_ge (regs : Nat → UInt16) (address : UInt16) (data : Mem) (n i : Nat)
    (h : regBytes n ≤ i)
    : regsGetLoop regs address data n i = data i := by
  unfold regBytes at h
  induction n with
  | zero => rfl
  | succ n ih =>
    rw [regsGetLoop]
    rw [mbSlaveRegSet_ne _ _ _ _ (by omega)]
    exact ih (by omega)

theorem regsGetLoop_agree (regs : Nat → UInt16) (address : UInt16) {data data' : Mem} {k : Nat}
    (n : Nat) (h : Mem.Agree k data data')
    : Mem.Agree k (regsGetLoop regs address data n) (regsGetLoop regs address data' n) := by
  induction n with
  | zero => exact h
  | succ n ih => exact mbSlaveRegSet_agree ih _ _

theorem regsSetLoop_apply (regs : Nat → UInt16) (address : UInt16) (data : Mem) (n i : Nat)
    : regsSetLoop regs address data n i
        =
      if address.toNat ≤ i ∧ i < address.toNat + n then mbSlaveRegGet data (i - address.toNat)
      else regs i := by
  induction n with
  | zero => simp [regsSetLoop]
  | succ n ih =>
    simp only [regsSetLoop, ih]
    by_cases h : i = address.toNat + n
    . simp [h]
    . have hlt : address.toNat ≤ i ∧ i < address.toNat + (n + 1) ↔
          address.toNat ≤ i ∧ i < address.toNat + n := by omega
      simp [h, hlt]

theorem regsSetLoop_congr (regs : Nat → UInt16) (address : UInt16) {data data' : Mem} (n : Nat)
    (h : Mem.Agree (regBytes n) data data')
    : regsSetLoop regs address data n = regsSetLoop regs address data' n := by
  unfold regBytes at h
  induction n with
  | zero => rfl
  | succ n ih =>
    have hreg : mbSlaveRegGet data n = mbSlaveRegGet data' n := by
      rw [mbSlaveRegGet_eq, mbSlaveRegGet_eq]
      rw [h _ (by omega), h _ (by omega)]
    rw [regsSetLoop, regsSetLoop]
    rw [ih (h.mono (by omega))]
    rw [hreg]

def bitsGet (bits : Store → Mem) : Callback Store bitBytes where
  run address data quantity app :=
    { result := 0, data := bitsGetLoop (bits app) address data quantity, app }
  frame := by
    intro address data quantity app i h
    exact bitsGetLoop_ge _ _ _ _ _ h
  congr := by
    intro address data data' quantity app h
    exact ⟨rfl, rfl, bitsGetLoop_agree _ _ _ h⟩

def regsGet (regs : Store → Nat → UInt16) : Callback Store regBytes where
  run address data quantity app :=
    { result := 0, data := regsGetLoop (regs app) address data quantity, app }
  frame := by
    intro address data quantity app i h
    exact regsGetLoop_ge _ _ _ _ _ h
  congr := by
    intro address data data' quantity app h
    exact ⟨rfl, rfl, regsGetLoop_agree _ _ _ h⟩

def coilGet : Callback Store bitBytes :=
  bitsGet Store.coils

def holdGet : Callback Store regBytes :=
  regsGet Store.hold

def coilSet : Callback Store bitBytes where
  run address data quantity app :=
    { result := 0, data, app := { app with coils := bitsSetLoop app.coils address data quantity } }
  frame := by
    intro address data quantity app i h
    rfl
  congr := by
    intro address data data' quantity app h
    dsimp only
    rw [bitsSetLoop_congr _ _ _ h]
    exact ⟨rfl, rfl, h⟩

def holdSet : Callback Store regBytes where
  run address data quantity app :=
    { result := 0, data, app := { app with hold := regsSetLoop app.hold address data quantity } }
  frame := by
    intro address data quantity app i h
    rfl
  congr := by
    intro address data data' quantity app h
    dsimp only
    rw [regsSetLoop_congr _ _ _ h]
    exact ⟨rfl, rfl, h⟩

/--
An iomap with storage backed callbacks for all four tables, of the given sizes. There is no set
callback for the inputs and the input registers.
-/
def storageIomap (coils inputs hold inputRegisters : Nat)
    (vendorFuncs : Option (List (VendorFunc Store)))
    : Iomap Store where
  coils := ⟨coils, some coilGet, some coilSet⟩
  inputs := ⟨inputs, some (bitsGet Store.inputs), none⟩
  holdingRegisters := ⟨hold, some holdGet, some holdSet⟩
  inputRegisters := ⟨inputRegisters, some (regsGet Store.inputRegisters), none⟩
  vendorFuncs := vendorFuncs

end Modbus
