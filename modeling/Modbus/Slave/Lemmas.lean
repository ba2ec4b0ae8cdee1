import Modbus.Slave.Impl

/-!
This module contains what each handler of the slave can do, once and for all: it either rejects the
request and leaves the state as it is, or all of its checks have passed and it goes on to call back
and to build the response.
-/

namespace Modbus

def field (pdu : Mem) (off : Nat) : UInt16 :=
  word (pdu off) (pdu (off + 1))

section Fields

variable (host : Endian) (pdu : Mem)

@[simp]
theorem ccFromBe16_readAddress : ccFromBe16 host (PduRead.address host pdu) = field pdu 1 := by
  simp [ccFromBe16, PduRead.address, field]

@[simp]
theorem ccFromBe16_readQuantity : ccFromBe16 host (PduRead.quantity host pdu) = field pdu 3 := by
  simp [ccFromBe16, PduRead.quantity, field]

@[simp]
theorem ccFromBe16_writeSingleAddress
    : ccFromBe16 host (PduWriteSingle.address host pdu) = field pdu 1 := by
  simp [ccFromBe16, PduWriteSingle.address, field]

@[simp]
theorem ccFromBe16_writeSingleValue
    : ccFromBe16 host (PduWriteSingle.value host pdu) = field pdu 3 := by
  simp [ccFromBe16, PduWriteSingle.value, field]

@[simp]
theorem ccFromBe16_writeAddress : ccFromBe16 host (PduWrite.address host pdu) = field pdu 1 := by
  simp [ccFromBe16, PduWrite.address, field]

@[simp]
theorem ccFromBe16_writeQuantity : ccFromBe16 host (PduWrite.quantity host pdu) = field pdu 3 := by
  simp [ccFromBe16, PduWrite.quantity, field]

@[simp]
theorem ccFromBe16_readWriteReadAddress
    : ccFromBe16 host (PduReadWrite.readAddress host pdu) = field pdu 1 := by
  simp [ccFromBe16, PduReadWrite.readAddress, field]

@[simp]
theorem ccFromBe16_readWriteReadQuantity
    : ccFromBe16 host (PduReadWrite.readQuantity host pdu) = field pdu 3 := by
  simp [ccFromBe16, PduReadWrite.readQuantity, field]

@[simp]
theorem ccFromBe16_readWriteWriteAddress
    : ccFromBe16 host (PduReadWrite.writeAddress host pdu) = field pdu 5 := by
  simp [ccFromBe16, PduReadWrite.writeAddress, field]

@[simp]
theorem ccFromBe16_readWriteWriteQuantity
    : ccFromBe16 host (PduReadWrite.writeQuantity host pdu) = field pdu 7 := by
  simp [ccFromBe16, PduReadWrite.writeQuantity, field]

@[simp]
theorem ccFromBe16_subFunction : ccFromBe16 host (PduDiag.subFunction host pdu) = field pdu 1 := by
  simp [ccFromBe16, PduDiag.subFunction, field]

end Fields

theorem quantity_check_iff (quantity limit : UInt16)
    : ¬(quantity = 0 ∨ quantity > limit) ↔ 1 ≤ quantity.toNat ∧ quantity.toNat ≤ limit.toNat := by
  have hzero : quantity = 0 ↔ quantity.toNat = 0 := by
    rw [← UInt16.toNat_inj]
    rfl
  rw [hzero]
  rw [gt_iff_lt, UInt16.lt_iff_toNat_lt]
  omega

theorem toNat_bitCount {quantity : UInt16} (h : quantity.toNat ≤ 2000)
    : (bitCount quantity).toNat = bitBytes quantity.toNat := by
  have hdiv : (UInt8.ofNat (quantity.toNat / 8)).toNat = quantity.toNat / 8 := by
    simp only [UInt8.toNat_ofNat']
    omega
  simp only [bitCount, bitBytes]
  rw [hdiv]
  split
  . rw [UInt8.toNat_add]
    rw [hdiv]
    simp only [UInt8.reduceToNat]
    omega
  . rw [hdiv]
    omega

theorem toNat_regCount {quantity : UInt16} (h : quantity.toNat ≤ 0x7D)
    : (UInt8.ofNat (2 * quantity.toNat)).toNat = regBytes quantity.toNat := by
  simp only [UInt8.toNat_ofNat', regBytes]
  omega

namespace SlaveState

variable {σ : Type} {area : Nat → Nat} (s : SlaveState σ) (table : Table) (op : Op)
  (cb : Callback σ area) (address : UInt16) (off quantity : Nat) (bit : UInt8)

@[simp]
theorem store_pdu (idx : Nat) (b : UInt8) : (s.store idx b).pdu = s.pdu.store idx b := by
  rfl

@[simp]
theorem store_app (idx : Nat) (b : UInt8) : (s.store idx b).app = s.app := by
  rfl

@[simp]
theorem store_calls (idx : Nat) (b : UInt8) : (s.store idx b).calls = s.calls := by
  rfl

@[simp]
theorem store_pads (idx : Nat) (b : UInt8) : (s.store idx b).pads = s.pads := by
  rfl

@[simp]
theorem call_fst
    : (s.call table op cb address off quantity).1
        =
      (cb.run address (s.pdu.offset off) quantity s.app).result := by
  rfl

@[simp]
theorem call_pdu
    : (s.call table op cb address off quantity).2.pdu
        =
      s.pdu.splice off (cb.run address (s.pdu.offset off) quantity s.app).data := by
  rfl

@[simp]
theorem call_app
    : (s.call table op cb address off quantity).2.app
        =
      (cb.run address (s.pdu.offset off) quantity s.app).app := by
  rfl

@[simp]
theorem call_calls
    : (s.call table op cb address off quantity).2.calls
        =
      s.calls ++ [s.callEntry table op cb address off quantity] := by
  rfl

@[simp]
theorem call_pads : (s.call table op cb address off quantity).2.pads = s.pads := by
  rfl

@[simp]
theorem callBit_fst
    : (s.callBit table cb address bit).1 = (cb.run address (fun _ => bit) 1 s.app).result := by
  rfl

@[simp]
theorem callBit_pdu : (s.callBit table cb address bit).2.pdu = s.pdu := by
  rfl

@[simp]
theorem callBit_app
    : (s.callBit table cb address bit).2.app = (cb.run address (fun _ => bit) 1 s.app).app := by
  rfl

@[simp]
theorem callBit_calls
    : (s.callBit table cb address bit).2.calls
        =
      s.calls ++ [s.callBitEntry table cb address bit] := by
  rfl

@[simp]
theorem callBit_pads : (s.callBit table cb address bit).2.pads = s.pads := by
  rfl

theorem call_pdu_lt (i : Nat) (h : i < off)
    : (s.call table op cb address off quantity).2.pdu i = s.pdu i := by
  rw [call_pdu]
  rw [Mem.splice_lt _ _ _ _ h]

theorem call_pdu_ge (i : Nat) (h : off + area quantity ≤ i)
    : (s.call table op cb address off quantity).2.pdu i = s.pdu i := by
  obtain ⟨k, rfl⟩ : ∃ k, i = off + k := ⟨i - off, by omega⟩
  rw [call_pdu]
  rw [Mem.splice_add]
  rw [cb.frame _ _ _ _ _ (by omega)]
  rw [Mem.offset_apply]

end SlaveState

/-! The checks of the requests, in the order of the source: values, ranges, callbacks. -/

section Checks

variable {σ : Type} (iomap : Iomap σ) (rxCount : Nat) (pdu : Mem)

def valueOk (f : Function) : Prop :=
  match f with
  | .readCoils | .readInputs => 1 ≤ (field pdu 3).toNat ∧ (field pdu 3).toNat ≤ 0x7D0
  | .readHoldingRegisters | .readInputRegisters =>
    1 ≤ (field pdu 3).toNat ∧ (field pdu 3).toNat ≤ 0x7D
  | .writeCoil => field pdu 3 = 0 ∨ field pdu 3 = 0xFF00
  | .writeHoldingRegister => True
  | .writeCoils =>
    (1 ≤ (field pdu 3).toNat ∧ (field pdu 3).toNat ≤ 0x7B0) ∧
      (pdu 5).toNat = bitBytes (field pdu 3).toNat ∧
      rxCount = 6 + bitBytes (field pdu 3).toNat
  | .writeHoldingRegisters =>
    (1 ≤ (field pdu 3).toNat ∧ (field pdu 3).toNat ≤ 0x7B) ∧
      (pdu 5).toNat = regBytes (field pdu 3).toNat ∧
      rxCount = 6 + regBytes (field pdu 3).toNat
  | .readWriteHoldingRegisters =>
    (1 ≤ (field pdu 7).toNat ∧ (field pdu 7).toNat ≤ 0x79) ∧
      (pdu 9).toNat = regBytes (field pdu 7).toNat ∧
      rxCount = 10 + regBytes (field pdu 7).toNat ∧
      1 ≤ (field pdu 3).toNat ∧ (field pdu 3).toNat ≤ 0x7D
  | .diagnostics => True

def rangeOk (f : Function) : Prop :=
  match f with
  | .readCoils => (field pdu 1).toNat + (field pdu 3).toNat ≤ iomap.coils.size
  | .readInputs => (field pdu 1).toNat + (field pdu 3).toNat ≤ iomap.inputs.size
  | .readHoldingRegisters =>
    (field pdu 1).toNat + (field pdu 3).toNat ≤ iomap.holdingRegisters.size
  | .readInputRegisters => (field pdu 1).toNat + (field pdu 3).toNat ≤ iomap.inputRegisters.size
  | .writeCoil => (field pdu 1).toNat < iomap.coils.size
  | .writeHoldingRegister => (field pdu 1).toNat < iomap.holdingRegisters.size
  | .writeCoils => (field pdu 1).toNat + (field pdu 3).toNat ≤ iomap.coils.size
  | .writeHoldingRegisters =>
    (field pdu 1).toNat + (field pdu 3).toNat ≤ iomap.holdingRegisters.size
  | .readWriteHoldingRegisters =>
    (field pdu 5).toNat + (field pdu 7).toNat ≤ iomap.holdingRegisters.size ∧
      (field pdu 1).toNat + (field pdu 3).toNat ≤ iomap.holdingRegisters.size
  | .diagnostics => True

def callbacksOk (f : Function) : Prop :=
  match f with
  | .readCoils => iomap.coils.get.isSome
  | .readInputs => iomap.inputs.get.isSome
  | .readHoldingRegisters => iomap.holdingRegisters.get.isSome
  | .readInputRegisters => iomap.inputRegisters.get.isSome
  | .writeCoil | .writeCoils => iomap.coils.set.isSome
  | .writeHoldingRegister | .writeHoldingRegisters => iomap.holdingRegisters.set.isSome
  | .readWriteHoldingRegisters =>
    iomap.holdingRegisters.set.isSome ∧ iomap.holdingRegisters.get.isSome
  | .diagnostics => True

end Checks

/-! What the handlers do once the checks have passed. -/

section Responses

variable {σ : Type} {area : Nat → Nat} (table : Table)

def readBitsResponse (get : Callback σ bitBytes) (address quantity : UInt16) (s : SlaveState σ)
    : Int × SlaveState σ :=
  let count := bitCount quantity
  let s := s.store 1 count
  let res := s.call table .get get address 2 quantity.toNat
  if res.1 ≠ 0 then
    res
  else
    let s := res.2.resetPadBits 2 quantity.toNat (count.toNat * 8 - quantity.toNat)
    (2 + (s.pdu 1).toNat, s)

def readRegistersResponse (get : Callback σ regBytes) (address quantity : UInt16)
    (s : SlaveState σ)
    : Int × SlaveState σ :=
  let s := s.store 1 (UInt8.ofNat (2 * quantity.toNat))
  let res := s.call table .get get address 2 quantity.toNat
  if res.1 ≠ 0 then
    res
  else
    (2 + (res.2.pdu 1).toNat, res.2)

def writeBitResponse (set : Callback σ bitBytes) (address value : UInt16) (s : SlaveState σ)
    : Int × SlaveState σ :=
  let res := s.callBit table set address (if value = 0xFF00 then 1 else 0)
  if res.1 ≠ 0 then
    res
  else
    (5, res.2)

def writeResponse (set : Callback σ area) (address : UInt16) (off quantity : Nat)
    (s : SlaveState σ)
    : Int × SlaveState σ :=
  let res := s.call table .set set address off quantity
  if res.1 ≠ 0 then
    res
  else
    (5, res.2)

def readWriteResponse (get set : Callback σ regBytes) (pdu : Mem) (s : SlaveState σ)
    : Int × SlaveState σ :=
  let res := s.call table .set set (field pdu 5) 10 (field pdu 7).toNat
  if res.1 ≠ 0 then
    res
  else
    readRegistersResponse table get (field pdu 1) (field pdu 3) res.2

/--
The request was rejected: the state is as before and the error names a check that failed.
-/
def Rejected (value range callbacks : Prop) (s : SlaveState σ) (res : Int × SlaveState σ) : Prop :=
  res.2 = s ∧
    (res.1 = eIllegalDataValue ∧ ¬value ∨
      res.1 = eIllegalDataAddress ∧ ¬range ∨
      res.1 = eIllegalFunction ∧ ¬callbacks)

namespace Rejected

variable {value range callbacks : Prop} {s : SlaveState σ}

theorem of_value (h : ¬value)
    : Rejected value range callbacks s (eIllegalDataValue, s) := by
  exact ⟨rfl, .inl ⟨rfl, h⟩⟩

theorem of_range (h : ¬range)
    : Rejected value range callbacks s (eIllegalDataAddress, s) := by
  exact ⟨rfl, .inr (.inl ⟨rfl, h⟩)⟩

theorem of_callbacks (h : ¬callbacks)
    : Rejected value range callbacks s (eIllegalFunction, s) := by
  exact ⟨rfl, .inr (.inr ⟨rfl, h⟩)⟩

end Rejected

end Responses

section Cases

variable {σ : Type} (host : Endian) (table : Table) (rxCount : Nat) (s : SlaveState σ)

theorem mbSlaveReadBits_cases (iotable : Iotable σ bitBytes)
    : Rejected (1 ≤ (field s.pdu 3).toNat ∧ (field s.pdu 3).toNat ≤ 0x7D0)
        ((field s.pdu 1).toNat + (field s.pdu 3).toNat ≤ iotable.size) iotable.get.isSome s
        (mbSlaveReadBits host table iotable s)
        ∨
      ∃ get, iotable.get = some get ∧
        (1 ≤ (field s.pdu 3).toNat ∧ (field s.pdu 3).toNat ≤ 0x7D0) ∧
        (field s.pdu 1).toNat + (field s.pdu 3).toNat ≤ iotable.size ∧
        mbSlaveReadBits host table iotable s
          =
        readBitsResponse table get (field s.pdu 1) (field s.pdu 3) s := by
  unfold mbSlaveReadBits
  simp only [ccFromBe16_readAddress, ccFromBe16_readQuantity]
  split
  . next hq =>
    left
    apply Rejected.of_value
    intro h
    exact (quantity_check_iff _ _).mpr h hq
  . next hq =>
    split
    . left
      apply Rejected.of_range
      omega
    . cases hget : iotable.get with
      | none =>
        left
        apply Rejected.of_callbacks
        simp
      | some get =>
        right
        exact ⟨get, rfl, (quantity_check_iff _ _).mp hq, by omega, rfl⟩

theorem mbSlaveReadRegisters_cases (iotable : Iotable σ regBytes)
    : Rejected (1 ≤ (field s.pdu 3).toNat ∧ (field s.pdu 3).toNat ≤ 0x7D)
        ((field s.pdu 1).toNat + (field s.pdu 3).toNat ≤ iotable.size) iotable.get.isSome s
        (mbSlaveReadRegisters host table iotable s)
        ∨
      ∃ get, iotable.get = some get ∧
        (1 ≤ (field s.pdu 3).toNat ∧ (field s.pdu 3).toNat ≤ 0x7D) ∧
        (field s.pdu 1).toNat + (field s.pdu 3).toNat ≤ iotable.size ∧
        mbSlaveReadRegisters host table iotable s
          =
        readRegistersResponse table get (field s.pdu 1) (field s.pdu 3) s := by
  unfold mbSlaveReadRegisters
  simp only [ccFromBe16_readAddress, ccFromBe16_readQuantity]
  split
  . next hq =>
    left
    apply Rejected.of_value
    intro h
    exact (quantity_check_iff _ _).mpr h hq
  . next hq =>
    split
    . left
      apply Rejected.of_range
      omega
    . cases hget : iotable.get with
      | none =>
        left
        apply Rejected.of_callbacks
        simp
      | some get =>
        right
        exact ⟨get, rfl, (quantity_check_iff _ _).mp hq, by omega, rfl⟩

theorem mbSlaveWriteBit_cases (iotable : Iotable σ bitBytes)
    : Rejected (field s.pdu 3 = 0 ∨ field s.pdu 3 = 0xFF00)
        ((field s.pdu 1).toNat < iotable.size) iotable.set.isSome s
        (mbSlaveWriteBit host table iotable s)
        ∨
      ∃ set, iotable.set = some set ∧
        (field s.pdu 3 = 0 ∨ field s.pdu 3 = 0xFF00) ∧
        (field s.pdu 1).toNat < iotable.size ∧
        mbSlaveWriteBit host table iotable s
          =
        writeBitResponse table set (field s.pdu 1) (field s.pdu 3) s := by
  unfold mbSlaveWriteBit
  simp only [ccFromBe16_writeSingleAddress, ccFromBe16_writeSingleValue]
  split
  . next hv =>
    left
    apply Rejected.of_value
    tauto
  . next hv =>
    split
    . left
      apply Rejected.of_range
      omega
    . cases hset : iotable.set with
      | none =>
        left
        apply Rejected.of_callbacks
        simp
      | some set =>
        right
        exact ⟨set, rfl, by tauto, by omega, rfl⟩

theorem mbSlaveWriteBits_cases (iotable : Iotable σ bitBytes)
    : Rejected
        ((1 ≤ (field s.pdu 3).toNat ∧ (field s.pdu 3).toNat ≤ 0x7B0) ∧
          (s.pdu 5).toNat = bitBytes (field s.pdu 3).toNat ∧
          rxCount = 6 + bitBytes (field s.pdu 3).toNat)
        ((field s.pdu 1).toNat + (field s.pdu 3).toNat ≤ iotable.size) iotable.set.isSome s
        (mbSlaveWriteBits host table iotable rxCount s)
        ∨
      ∃ set, iotable.set = some set ∧
        ((1 ≤ (field s.pdu 3).toNat ∧ (field s.pdu 3).toNat ≤ 0x7B0) ∧
          (s.pdu 5).toNat = bitBytes (field s.pdu 3).toNat ∧
          rxCount = 6 + bitBytes (field s.pdu 3).toNat) ∧
        (field s.pdu 1).toNat + (field s.pdu 3).toNat ≤ iotable.size ∧
        mbSlaveWriteBits host table iotable rxCount s
          =
        writeResponse table set (field s.pdu 1) 6 (field s.pdu 3).toNat s := by
  unfold mbSlaveWriteBits
  simp only [ccFromBe16_writeAddress, ccFromBe16_writeQuantity, PduWrite.count, PduWrite.size]
  split
  . next hq =>
    left
    apply Rejected.of_value
    intro h
    exact (quantity_check_iff _ _).mpr h.1 hq
  . next hq =>
    have hq := (quantity_check_iff _ _).mp hq
    have hlimit : (0x7B0 : UInt16).toNat = 0x7B0 := rfl
    have hcount := @toNat_bitCount (field s.pdu 3) (by omega)
    split
    . next hne =>
      left
      apply Rejected.of_value
      intro h
      apply hne
      apply UInt8.toNat_inj.mp
      rw [hcount, h.2.1]
    . next heq =>
      simp only [ne_eq, Decidable.not_not] at heq
      rw [heq] at hcount
      split
      . left
        apply Rejected.of_range
        omega
      . split
        . left
          apply Rejected.of_value
          omega
        . cases hset : iotable.set with
          | none =>
            left
            apply Rejected.of_callbacks
            simp
          | some set =>
            right
            exact ⟨set, rfl, ⟨hq, hcount, by omega⟩, by omega, rfl⟩

theorem mbSlaveWriteRegister_cases (iotable : Iotable σ regBytes)
    : Rejected True ((field s.pdu 1).toNat < iotable.size) iotable.set.isSome s
        (mbSlaveWriteRegister host table iotable s)
        ∨
      ∃ set, iotable.set = some set ∧
        (field s.pdu 1).toNat < iotable.size ∧
        mbSlaveWriteRegister host table iotable s
          =
        writeResponse table set (field s.pdu 1) 3 1 s := by
  unfold mbSlaveWriteRegister
  simp only [ccFromBe16_writeSingleAddress]
  split
  . left
    apply Rejected.of_range
    omega
  . cases hset : iotable.set with
    | none =>
      left
      apply Rejected.of_callbacks
      simp
    | some set =>
      right
      exact ⟨set, rfl, by omega, rfl⟩

theorem mbSlaveWriteRegisters_cases (iotable : Iotable σ regBytes)
    : Rejected
        ((1 ≤ (field s.pdu 3).toNat ∧ (field s.pdu 3).toNat ≤ 0x7B) ∧
          (s.pdu 5).toNat = regBytes (field s.pdu 3).toNat ∧
          rxCount = 6 + regBytes (field s.pdu 3).toNat)
        ((field s.pdu 1).toNat + (field s.pdu 3).toNat ≤ iotable.size) iotable.set.isSome s
        (mbSlaveWriteRegisters host table iotable rxCount s)
        ∨
      ∃ set, iotable.set = some set ∧
        ((1 ≤ (field s.pdu 3).toNat ∧ (field s.pdu 3).toNat ≤ 0x7B) ∧
          (s.pdu 5).toNat = regBytes (field s.pdu 3).toNat ∧
          rxCount = 6 + regBytes (field s.pdu 3).toNat) ∧
        (field s.pdu 1).toNat + (field s.pdu 3).toNat ≤ iotable.size ∧
        mbSlaveWriteRegisters host table iotable rxCount s
          =
        writeResponse table set (field s.pdu 1) 6 (field s.pdu 3).toNat s := by
  unfold mbSlaveWriteRegisters
  simp only [ccFromBe16_writeAddress, ccFromBe16_writeQuantity, PduWrite.count, PduWrite.size]
  have hreg : regBytes (field s.pdu 3).toNat = 2 * (field s.pdu 3).toNat := rfl
  split
  . next hq =>
    left
    apply Rejected.of_value
    intro h
    exact (quantity_check_iff _ _).mpr h.1 hq
  . next hq =>
    have hq := (quantity_check_iff _ _).mp hq
    split
    . left
      apply Rejected.of_value
      omega
    . split
      . left
        apply Rejected.of_range
        omega
      . split
        . left
          apply Rejected.of_value
          omega
        . cases hset : iotable.set with
          | none =>
            left
            apply Rejected.of_callbacks
            simp
          | some set =>
            right
            exact ⟨set, rfl, ⟨hq, by omega, by omega⟩, by omega, rfl⟩

theorem mbSlaveReadWriteRegisters_cases (iotable : Iotable σ regBytes)
    : Rejected
        ((1 ≤ (field s.pdu 7).toNat ∧ (field s.pdu 7).toNat ≤ 0x79) ∧
          (s.pdu 9).toNat = regBytes (field s.pdu 7).toNat ∧
          rxCount = 10 + regBytes (field s.pdu 7).toNat ∧
          1 ≤ (field s.pdu 3).toNat ∧ (field s.pdu 3).toNat ≤ 0x7D)
        ((field s.pdu 5).toNat + (field s.pdu 7).toNat ≤ iotable.size ∧
          (field s.pdu 1).toNat + (field s.pdu 3).toNat ≤ iotable.size)
        (iotable.set.isSome ∧ iotable.get.isSome) s
        (mbSlaveReadWriteRegisters host table iotable rxCount s)
        ∨
      ∃ set get, iotable.set = some set ∧ iotable.get = some get ∧
        ((1 ≤ (field s.pdu 7).toNat ∧ (field s.pdu 7).toNat ≤ 0x79) ∧
          (s.pdu 9).toNat = regBytes (field s.pdu 7).toNat ∧
          rxCount = 10 + regBytes (field s.pdu 7).toNat ∧
          1 ≤ (field s.pdu 3).toNat ∧ (field s.pdu 3).toNat ≤ 0x7D) ∧
        ((field s.pdu 5).toNat + (field s.pdu 7).toNat ≤ iotable.size ∧
          (field s.pdu 1).toNat + (field s.pdu 3).toNat ≤ iotable.size) ∧
        mbSlaveReadWriteRegisters host table iotable rxCount s
          =
        readWriteResponse table get set s.pdu s := by
  -- The function is taken apart in a hypothesis, as the goal has it twice.
  generalize hres : mbSlaveReadWriteRegisters host table iotable rxCount s = res
  unfold mbSlaveReadWriteRegisters at hres
  simp only [ccFromBe16_readWriteReadAddress, ccFromBe16_readWriteReadQuantity,
    ccFromBe16_readWriteWriteAddress, ccFromBe16_readWriteWriteQuantity, PduReadWrite.count,
    PduReadWrite.size] at hres
  have hreg : regBytes (field s.pdu 7).toNat = 2 * (field s.pdu 7).toNat := rfl
  split at hres
  . next hq =>
    subst hres
    left
    apply Rejected.of_value
    intro h
    exact (quantity_check_iff _ _).mpr h.1 hq
  . next hq =>
    have hq := (quantity_check_iff _ _).mp hq
    split at hres
    . subst hres
      left
      apply Rejected.of_value
      omega
    . split at hres
      . subst hres
        left
        apply Rejected.of_range
        omega
      . split at hres
        . subst hres
          left
          apply Rejected.of_value
          omega
        . cases hset : iotable.set with
          | none =>
            rw [hset] at hres
            subst hres
            left
            apply Rejected.of_callbacks
            simp
          | some set =>
            -- The read half is checked before the write is performed.
            rw [hset] at hres
            dsimp only at hres
            split at hres
            . next hr =>
              subst hres
              left
              apply Rejected.of_value
              intro h
              exact (quantity_check_iff _ _).mpr h.2.2.2 hr
            . next hr =>
              have hr := (quantity_check_iff _ _).mp hr
              split at hres
              . subst hres
                left
                apply Rejected.of_range
                omega
              . cases hget : iotable.get with
                | none =>
                  rw [hget] at hres
                  subst hres
                  left
                  apply Rejected.of_callbacks
                  simp
                | some get =>
                  rw [hget] at hres
                  subst hres
                  right
                  exact ⟨set, get, rfl, rfl, ⟨hq, by omega, by omega, hr⟩, by omega, rfl⟩

end Cases

end Modbus
