import Modbus.Slave.Lemmas

/-!
This module contains the case analysis of the handlers for the slave's `switch` as a whole, the
transport that the unit tests of the slave put in place of the real ones and what
`mb_slave_handle_request` does over it.
-/

namespace Modbus

variable {σ : Type}

def Function.isRead : Function → Bool
  | readCoils | readInputs | readHoldingRegisters | readInputRegisters => true
  | _ => false

def Function.fixedPart : Function → Nat
  | readCoils | readInputs | readHoldingRegisters | readInputRegisters => PduRead.size
  | writeCoil | writeHoldingRegister => PduWriteSingle.size
  | diagnostics => PduDiag.size
  | writeCoils | writeHoldingRegisters => PduWrite.size
  | readWriteHoldingRegisters => PduReadWrite.size

/-- The request has passed its checks and the slave calls back and responds. -/
def Responds (iomap : Iomap σ) (f : Function) (s : SlaveState σ) (res : Int × SlaveState σ)
    : Prop :=
  match f with
  | .readCoils =>
    ∃ get, iomap.coils.get = some get ∧
      res = readBitsResponse .coils get (field s.pdu 1) (field s.pdu 3) s
  | .readInputs =>
    ∃ get, iomap.inputs.get = some get ∧
      res = readBitsResponse .inputs get (field s.pdu 1) (field s.pdu 3) s
  | .readHoldingRegisters =>
    ∃ get, iomap.holdingRegisters.get = some get ∧
      res = readRegistersResponse .holdingRegisters get (field s.pdu 1) (field s.pdu 3) s
  | .readInputRegisters =>
    ∃ get, iomap.inputRegisters.get = some get ∧
      res = readRegistersResponse .inputRegisters get (field s.pdu 1) (field s.pdu 3) s
  | .writeCoil =>
    ∃ set, iomap.coils.set = some set ∧
      res = writeBitResponse .coils set (field s.pdu 1) (field s.pdu 3) s
  | .writeHoldingRegister =>
    ∃ set, iomap.holdingRegisters.set = some set ∧
      res = writeResponse .holdingRegisters set (field s.pdu 1) 3 1 s
  | .writeCoils =>
    ∃ set, iomap.coils.set = some set ∧
      res = writeResponse .coils set (field s.pdu 1) 6 (field s.pdu 3).toNat s
  | .writeHoldingRegisters =>
    ∃ set, iomap.holdingRegisters.set = some set ∧
      res = writeResponse .holdingRegisters set (field s.pdu 1) 6 (field s.pdu 3).toNat s
  | .readWriteHoldingRegisters =>
    ∃ set get, iomap.holdingRegisters.set = some set ∧ iomap.holdingRegisters.get = some get ∧
      res = readWriteResponse .holdingRegisters get set s.pdu s
  | .diagnostics => False

theorem mbSlaveSwitch_cases (host : Endian) (iomap : Iomap σ) (rxCount : Nat) (bc : Bool)
    (s : SlaveState σ) {f : Function} (hf : Function.ofCode (s.pdu 0) = some f)
    (hdiag : f ≠ .diagnostics)
    : (bc = true ∧ f.isRead = true ∧ mbSlaveSwitch host iomap rxCount bc s = (0, s))
        ∨
      Rejected (valueOk rxCount s.pdu f) (rangeOk iomap s.pdu f) (callbacksOk iomap f) s
        (mbSlaveSwitch host iomap rxCount bc s)
        ∨
      (valueOk rxCount s.pdu f ∧ rangeOk iomap s.pdu f ∧ (f.isRead = true → bc = false) ∧
        Responds iomap f s (mbSlaveSwitch host iomap rxCount bc s)) := by
  unfold mbSlaveSwitch
  simp only [Pdu.function, hf]
  cases f with
  | readCoils =>
    cases bc with
    | true => exact .inl ⟨rfl, rfl, rfl⟩
    | false =>
      obtain h | ⟨get, hget, hv, hr, h⟩ := mbSlaveReadBits_cases host .coils s iomap.coils
      . exact .inr (.inl h)
      . exact .inr (.inr ⟨hv, hr, fun _ => rfl, get, hget, h⟩)
  | readInputs =>
    cases bc with
    | true => exact .inl ⟨rfl, rfl, rfl⟩
    | false =>
      obtain h | ⟨get, hget, hv, hr, h⟩ := mbSlaveReadBits_cases host .inputs s iomap.inputs
      . exact .inr (.inl h)
      . exact .inr (.inr ⟨hv, hr, fun _ => rfl, get, hget, h⟩)
  | readHoldingRegisters =>
    cases bc with
    | true => exact .inl ⟨rfl, rfl, rfl⟩
    | false =>
      obtain h | ⟨get, hget, hv, hr, h⟩ :=
        mbSlaveReadRegisters_cases host .holdingRegisters s iomap.holdingRegisters
      . exact .inr (.inl h)
      . exact .inr (.inr ⟨hv, hr, fun _ => rfl, get, hget, h⟩)
  | readInputRegisters =>
    cases bc with
    | true => exact .inl ⟨rfl, rfl, rfl⟩
    | false =>
      obtain h | ⟨get, hget, hv, hr, h⟩ :=
        mbSlaveReadRegisters_cases host .inputRegisters s iomap.inputRegisters
      . exact .inr (.inl h)
      . exact .inr (.inr ⟨hv, hr, fun _ => rfl, get, hget, h⟩)
  | writeCoil =>
    obtain h | ⟨set, hset, hv, hr, h⟩ := mbSlaveWriteBit_cases host .coils s iomap.coils
    . exact .inr (.inl h)
    . exact .inr (.inr ⟨hv, hr, nofun, set, hset, h⟩)
  | writeHoldingRegister =>
    obtain h | ⟨set, hset, hr, h⟩ :=
      mbSlaveWriteRegister_cases host .holdingRegisters s iomap.holdingRegisters
    . exact .inr (.inl h)
    . exact .inr (.inr ⟨trivial, hr, nofun, set, hset, h⟩)
  | diagnostics => exact absurd rfl hdiag
  | writeCoils =>
    obtain h | ⟨set, hset, hv, hr, h⟩ := mbSlaveWriteBits_cases host .coils rxCount s iomap.coils
    . exact .inr (.inl h)
    . exact .inr (.inr ⟨hv, hr, nofun, set, hset, h⟩)
  | writeHoldingRegisters =>
    obtain h | ⟨set, hset, hv, hr, h⟩ :=
      mbSlaveWriteRegisters_cases host .holdingRegisters rxCount s iomap.holdingRegisters
    . exact .inr (.inl h)
    . exact .inr (.inr ⟨hv, hr, nofun, set, hset, h⟩)
  | readWriteHoldingRegisters =>
    obtain h | ⟨set, get, hset, hget, hv, hr, h⟩ :=
      mbSlaveReadWriteRegisters_cases host .holdingRegisters rxCount s iomap.holdingRegisters
    . exact .inr (.inl h)
    . exact .inr (.inr ⟨hv, hr, nofun, set, get, hset, hget, h⟩)

/--
The transport of the unit tests: a receive copies the given bytes to the transaction and returns
the given result, a transmit records the PDU. Whether the PDU was a broadcast and whether there is
more to receive, which the tests answer with no, is open here.
-/
structure Mock where
  rxData : List UInt8
  rxResult : Int
  bc : Bool
  avail : Bool
  sent : List (List UInt8)

def mockMbPduRx (transaction : Txn) (_tmo : UInt32) (w : Mock) : Option (Int × Txn × Mock) :=
  some (w.rxResult, { transaction with data := transaction.data.copy 0 w.rxData }, w)

def mockMbPduTx (transaction : Txn) (size : Nat) (w : Mock) : Option Mock :=
  some { w with sent := w.sent ++ [transaction.data.load 0 size] }

def mock : Transport Mock where
  bringup _ w := (0, w)
  shutdown _ w := (0, w)
  isDown _ := false
  tx := mockMbPduTx
  rx := mockMbPduRx
  rxIsBc w := w.bc
  rxAvail w := (w.avail, w)

def Mock.deliver (pdu : List UInt8) (bc avail : Bool) : Mock :=
  { rxData := pdu, rxResult := pdu.length, bc, avail, sent := [] }

def mbSlaveProcess (host : Endian) (iomap : Iomap σ) (rxCount : Nat) (bc : Bool)
    (s : SlaveState σ)
    : Int × SlaveState σ :=
  mbSlaveException (mbSlaveSwitch host iomap rxCount bc s)

def SlaveState.init (pdu : Mem) (app : σ) : SlaveState σ :=
  { pdu, app, calls := [], pads := [] }

theorem mbSlaveHandleRequest_mock (host : Endian) (iomap : Iomap σ) (transaction : Txn) (app : σ)
    (pdu : List UInt8) (hpdu : pdu ≠ []) (bc avail : Bool)
    : ∃ served,
        mbSlaveHandleRequest host mock iomap transaction app (.deliver pdu bc avail) = some served
          ∧
        let res :=
          mbSlaveProcess host iomap pdu.length bc (.init (transaction.data.copy 0 pdu) app)
        served.app = res.2.app ∧
        served.calls = res.2.calls ∧
        served.pads = res.2.pads ∧
        served.transport.sent
          =
        if avail = false ∧ bc = false then [res.2.pdu.load 0 res.1.toNat] else [] := by
  have hlen : ((pdu.length : Nat) : Int) > 0 := by
    have := List.length_pos_iff.mpr hpdu
    omega
  unfold mbSlaveHandleRequest
  simp only [mbPduRx, mock, mockMbPduRx, Mock.deliver, hlen, ↓reduceIte, mbPduRxAvail, mbPduRxBc,
    mbPduTx, mockMbPduTx, Int.toNat_natCast]
  cases avail with
  | true => exact ⟨_, rfl, rfl, rfl, rfl, rfl⟩
  | false =>
    cases bc with
    | true => exact ⟨_, rfl, rfl, rfl, rfl, rfl⟩
    | false => exact ⟨_, rfl, rfl, rfl, rfl, rfl⟩

end Modbus
