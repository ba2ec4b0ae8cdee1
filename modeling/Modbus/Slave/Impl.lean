import Modbus.Transport.Basic

/-!
This module contains the slave of `mb_slave.c`. The callbacks of an iomap work on an application
state `σ` and the handlers on a `SlaveState`, which next to that state holds the PDU buffer and a
record of the accesses the slave makes on behalf of a request.
-/

namespace Modbus

def mbSlaveBitGet (data : Mem) (address : Nat) : Int :=
  let ix := address / 8
  let offset := address % 8
  if data ix &&& bit8 offset ≠ 0 then 1 else 0

/-- What `mb_slave_bit_set` stores: the index of a byte behind `data` and its new value. -/
def bitStore (data : Mem) (address : Nat) (value : Int) : Nat × UInt8 :=
  let ix := address / 8
  let offset := address % 8
  if value ≠ 0 then
    (ix, data ix ||| bit8 offset)
  else
    (ix, data ix &&& ~~~bit8 offset)

def mbSlaveBitSet (data : Mem) (address : Nat) (value : Int) : Mem :=
  let p := bitStore data address value
  data.store p.1 p.2

def mbSlaveRegGet (data : Mem) (address : Nat) : UInt16 :=
  let p := data.offset (address * 2)
  word (p 0) (p 1)

def mbSlaveRegSet (data : Mem) (address : Nat) (value : UInt16) : Mem :=
  (data.store (address * 2) (hiByte value)).store (address * 2 + 1) (loByte value)

def bitBytes (quantity : Nat) : Nat :=
  (quantity + 7) / 8

def regBytes (quantity : Nat) : Nat :=
  2 * quantity

structure CallResult (σ : Type) where
  result : Int
  data : Mem
  app : σ

/--
A get or set callback. It is handed the address, the memory behind the `data` pointer and the
quantity, and it owns the `area quantity` first bytes of that memory: it neither writes nor reads
any other.
-/
structure Callback (σ : Type) (area : Nat → Nat) where
  run : UInt16 → Mem → Nat → σ → CallResult σ
  frame : ∀ (address : UInt16) (data : Mem) (quantity : Nat) (app : σ) (i : Nat),
    area quantity ≤ i → (run address data quantity app).data i = data i
  congr : ∀ (address : UInt16) (data data' : Mem) (quantity : Nat) (app : σ),
    Mem.Agree (area quantity) data data' →
      (run address data quantity app).result = (run address data' quantity app).result
        ∧
      (run address data quantity app).app = (run address data' quantity app).app
        ∧
      Mem.Agree (area quantity) (run address data quantity app).data
        (run address data' quantity app).data

structure Iotable (σ : Type) (area : Nat → Nat) where
  size : Nat
  -- An absent callback is a `NULL` pointer.
  get : Option (Callback σ area)
  set : Option (Callback σ area)

structure VendorFunc (σ : Type) where
  function : UInt8
  -- The callback may use the whole buffer for its response.
  callback : Mem → Nat → σ → CallResult σ

/--
`mb_iomap_t`. The vendor functions are absent if `vendor_funcs` is `NULL`, otherwise their number is
`num_vendor_funcs`.
-/
structure Iomap (σ : Type) where
  coils : Iotable σ bitBytes
  inputs : Iotable σ bitBytes
  holdingRegisters : Iotable σ regBytes
  inputRegisters : Iotable σ regBytes
  vendorFuncs : Option (List (VendorFunc σ))

inductive Table where
  | coils
  | inputs
  | holdingRegisters
  | inputRegisters
  deriving DecidableEq, Repr

inductive Op where
  | get
  | set
  deriving DecidableEq, Repr

inductive DataPtr where
  | pdu (offset : Nat)
  -- The local variable of `mb_slave_write_bit`.
  | bit
  deriving DecidableEq, Repr

structure Call where
  table : Table
  op : Op
  address : UInt16
  quantity : Nat
  ptr : DataPtr
  data : List UInt8
  result : Int
  deriving DecidableEq, Repr

structure SlaveState (σ : Type) where
  pdu : Mem
  app : σ
  -- The callbacks that were invoked, oldest first, and the indices of the PDU buffer that
  -- `storePad` has written.
  calls : List Call
  pads : List Nat

namespace SlaveState

variable {σ : Type} {area : Nat → Nat}

def store (s : SlaveState σ) (idx : Nat) (b : UInt8) : SlaveState σ :=
  { s with pdu := s.pdu.store idx b }

def storePad (s : SlaveState σ) (idx : Nat) (b : UInt8) : SlaveState σ :=
  { s with pdu := s.pdu.store idx b, pads := s.pads ++ [idx] }

-- `mb_slave_bit_set` on the memory behind `pdu + pData`
def resetPadBit (s : SlaveState σ) (pData ix : Nat) : SlaveState σ :=
  let p := bitStore (s.pdu.offset pData) ix 0
  s.storePad (pData + p.1) p.2

def resetPadBits (s : SlaveState σ) (pData quantity : Nat) : Nat → SlaveState σ
  | 0 => s
  -- The iteration with `ix = quantity + n`
  | n + 1 => (s.resetPadBits pData quantity n).resetPadBit pData (quantity + n)

def callEntry (s : SlaveState σ) (table : Table) (op : Op) (cb : Callback σ area)
    (address : UInt16) (off quantity : Nat)
    : Call :=
  {
    table, op, address, quantity
    ptr := .pdu off
    data := s.pdu.load off (area quantity)
    result := (cb.run address (s.pdu.offset off) quantity s.app).result
  }

def call (s : SlaveState σ) (table : Table) (op : Op) (cb : Callback σ area) (address : UInt16)
    (off quantity : Nat)
    : Int × SlaveState σ :=
  let r := cb.run address (s.pdu.offset off) quantity s.app
  (
    r.result,
    { s with
      pdu := s.pdu.splice off r.data
      app := r.app
      calls := s.calls ++ [s.callEntry table op cb address off quantity] }
  )

def callBitEntry (s : SlaveState σ) (table : Table) (cb : Callback σ area) (address : UInt16)
    (bit : UInt8)
    : Call :=
  {
    table, address
    op := .set
    quantity := 1
    ptr := .bit
    data := Mem.load (fun _ => bit) 0 (area 1)
    result := (cb.run address (fun _ => bit) 1 s.app).result
  }

def callBit (s : SlaveState σ) (table : Table) (cb : Callback σ area) (address : UInt16)
    (bit : UInt8)
    : Int × SlaveState σ :=
  let r := cb.run address (fun _ => bit) 1 s.app
  (
    r.result,
    { s with
      app := r.app
      calls := s.calls ++ [s.callBitEntry table cb address bit] }
  )

end SlaveState

def bitCount (quantity : UInt16) : UInt8 :=
  let count := UInt8.ofNat (quantity.toNat / 8)
  if quantity.toNat ≠ count.toNat * 8 then count + 1 else count

section Handlers

variable {σ : Type} (host : Endian)

def mbSlaveReadBits (table : Table) (iotable : Iotable σ bitBytes) (s : SlaveState σ)
    : Int × SlaveState σ :=
  let address := ccFromBe16 host (PduRead.address host s.pdu)
  let quantity := ccFromBe16 host (PduRead.quantity host s.pdu)
  let count := bitCount quantity
  if quantity = 0 ∨ quantity > 0x7D0 then
    (eIllegalDataValue, s)
  else if address.toNat + quantity.toNat > iotable.size then
    (eIllegalDataAddress, s)
  else
    match iotable.get with
    | none => (eIllegalFunction, s)
    | some get =>
      -- Build response
      let s := s.store 1 count
      match s.call table .get get address PduReadResponse.data quantity.toNat with
      | (error, s) =>
        if error ≠ 0 then
          (error, s)
        else
          -- Reset pad bits
          let n := count.toNat * 8 - quantity.toNat
          let s := s.resetPadBits PduReadResponse.data quantity.toNat n
          (PduReadResponse.size + (PduReadResponse.count s.pdu).toNat, s)

def mbSlaveReadRegisters (table : Table) (iotable : Iotable σ regBytes) (s : SlaveState σ)
    : Int × SlaveState σ :=
  let address := ccFromBe16 host (PduRead.address host s.pdu)
  let quantity := ccFromBe16 host (PduRead.quantity host s.pdu)
  if quantity = 0 ∨ quantity > 0x7D then
    (eIllegalDataValue, s)
  else if address.toNat + quantity.toNat > iotable.size then
    (eIllegalDataAddress, s)
  else
    match iotable.get with
    | none => (eIllegalFunction, s)
    | some get =>
      -- Build response
      let s := s.store 1 (UInt8.ofNat (2 * quantity.toNat))
      match s.call table .get get address PduReadResponse.data quantity.toNat with
      | (error, s) =>
        if error ≠ 0 then
          (error, s)
        else
          (PduReadResponse.size + (PduReadResponse.count s.pdu).toNat, s)

def mbSlaveWriteBit (table : Table) (iotable : Iotable σ bitBytes) (s : SlaveState σ)
    : Int × SlaveState σ :=
  let address := ccFromBe16 host (PduWriteSingle.address host s.pdu)
  let value := ccFromBe16 host (PduWriteSingle.value host s.pdu)
  if value ≠ 0 ∧ value ≠ 0xFF00 then
    (eIllegalDataValue, s)
  else if address.toNat ≥ iotable.size then
    (eIllegalDataAddress, s)
  else
    match iotable.set with
    | none => (eIllegalFunction, s)
    | some set =>
      let bit : UInt8 := if value = 0xFF00 then 1 else 0
      match s.callBit table set address bit with
      | (error, s) =>
        if error ≠ 0 then
          (error, s)
        else
          -- Echo request
          (PduWriteSingle.size, s)

def mbSlaveWriteBits (table : Table) (iotable : Iotable σ bitBytes) (rxCount : Nat)
    (s : SlaveState σ)
    : Int × SlaveState σ :=
  let address := ccFromBe16 host (PduWrite.address host s.pdu)
  let quantity := ccFromBe16 host (PduWrite.quantity host s.pdu)
  let count := bitCount quantity
  if quantity = 0 ∨ quantity > 0x7B0 then
    (eIllegalDataValue, s)
  else if count ≠ PduWrite.count s.pdu then
    (eIllegalDataValue, s)
  else if address.toNat + quantity.toNat > iotable.size then
    (eIllegalDataAddress, s)
  else if rxCount ≠ PduWrite.size + (PduWrite.count s.pdu).toNat then
    (eIllegalDataValue, s)
  else
    match iotable.set with
    | none => (eIllegalFunction, s)
    | some set =>
      match s.call table .set set address PduWrite.data quantity.toNat with
      | (error, s) =>
        if error ≠ 0 then
          (error, s)
        else
          -- Echo request
          (PduWrite.responseSize, s)

def mbSlaveWriteRegister (table : Table) (iotable : Iotable σ regBytes) (s : SlaveState σ)
    : Int × SlaveState σ :=
  let address := ccFromBe16 host (PduWriteSingle.address host s.pdu)
  if address.toNat ≥ iotable.size then
    (eIllegalDataAddress, s)
  else
    match iotable.set with
    | none => (eIllegalFunction, s)
    | some set =>
      match s.call table .set set address PduWriteSingle.valueOffset 1 with
      | (error, s) =>
        if error ≠ 0 then
          (error, s)
        else
          -- Echo request
          (PduWriteSingle.size, s)

def mbSlaveWriteRegisters (table : Table) (iotable : Iotable σ regBytes) (rxCount : Nat)
    (s : SlaveState σ)
    : Int × SlaveState σ :=
  let address := ccFromBe16 host (PduWrite.address host s.pdu)
  let quantity := ccFromBe16 host (PduWrite.quantity host s.pdu)
  if quantity = 0 ∨ quantity > 0x7B then
    (eIllegalDataValue, s)
  else if 2 * quantity.toNat ≠ (PduWrite.count s.pdu).toNat then
    (eIllegalDataValue, s)
  else if address.toNat + quantity.toNat > iotable.size then
    (eIllegalDataAddress, s)
  else if rxCount ≠ PduWrite.size + (PduWrite.count s.pdu).toNat then
    (eIllegalDataValue, s)
  else
    match iotable.set with
    | none => (eIllegalFunction, s)
    | some set =>
      match s.call table .set set address PduWrite.data quantity.toNat with
      | (error, s) =>
        if error ≠ 0 then
          (error, s)
        else
          -- Echo request
          (PduWrite.responseSize, s)

def mbSlaveReadWriteRegisters (table : Table) (iotable : Iotable σ regBytes) (rxCount : Nat)
    (s : SlaveState σ)
    : Int × SlaveState σ :=
  let writeAddress := ccFromBe16 host (PduReadWrite.writeAddress host s.pdu)
  let writeQuantity := ccFromBe16 host (PduReadWrite.writeQuantity host s.pdu)
  if writeQuantity = 0 ∨ writeQuantity > 0x79 then
    (eIllegalDataValue, s)
  else if 2 * writeQuantity.toNat ≠ (PduReadWrite.count s.pdu).toNat then
    (eIllegalDataValue, s)
  else if writeAddress.toNat + writeQuantity.toNat > iotable.size then
    (eIllegalDataAddress, s)
  else if rxCount ≠ PduReadWrite.size + (PduReadWrite.count s.pdu).toNat then
    (eIllegalDataValue, s)
  else
    match iotable.set with
    | none => (eIllegalFunction, s)
    | some set =>
      let readAddress := ccFromBe16 host (PduReadWrite.readAddress host s.pdu)
      let readQuantity := ccFromBe16 host (PduReadWrite.readQuantity host s.pdu)
      if readQuantity = 0 ∨ readQuantity > 0x7D then
        (eIllegalDataValue, s)
      else if readAddress.toNat + readQuantity.toNat > iotable.size then
        (eIllegalDataAddress, s)
      else
        match iotable.get with
        | none => (eIllegalFunction, s)
        | some get =>
          -- Perform write
          match s.call table .set set writeAddress PduReadWrite.data writeQuantity.toNat with
          | (error, s) =>
            if error ≠ 0 then
              (error, s)
            else
              -- Build response
              let s := s.store 1 (UInt8.ofNat (2 * readQuantity.toNat))
              match s.call table .get get readAddress PduReadResponse.data readQuantity.toNat with
              | (error, s) =>
                if error ≠ 0 then
                  (error, s)
                else
                  (PduReadResponse.size + (PduReadResponse.count s.pdu).toNat, s)

def mbSlaveDiagnostics (rxCount : Nat) (s : SlaveState σ) : Int × SlaveState σ :=
  let subFunction := ccFromBe16 host (PduDiag.subFunction host s.pdu)
  if subFunction = pduDiagLoopback then
    (rxCount, s)
  else
    (eIllegalFunction, s)

def mbSlaveVendor (iomap : Iomap σ) (rxCount : Nat) (s : SlaveState σ) : Int × SlaveState σ :=
  match iomap.vendorFuncs with
  | none => (eIllegalFunction, s)
  | some funcs => go funcs
where
  -- Find matching vendor-defined function
  go : List (VendorFunc σ) → Int × SlaveState σ
    | [] => (eIllegalFunction, s)
    | func :: funcs =>
      if func.function = Pdu.function s.pdu then
        let r := func.callback s.pdu rxCount s.app
        (r.result, { s with pdu := r.data, app := r.app })
      else
        go funcs

def mbSlaveSwitch (iomap : Iomap σ) (rxCount : Nat) (bc : Bool) (s : SlaveState σ)
    : Int × SlaveState σ :=
  match Function.ofCode (Pdu.function s.pdu) with
  | some .readCoils =>
    if !bc then mbSlaveReadBits host .coils iomap.coils s else (0, s)
  | some .readInputs =>
    if !bc then mbSlaveReadBits host .inputs iomap.inputs s else (0, s)
  | some .readInputRegisters =>
    if !bc then mbSlaveReadRegisters host .inputRegisters iomap.inputRegisters s else (0, s)
  | some .readHoldingRegisters =>
    if !bc then mbSlaveReadRegisters host .holdingRegisters iomap.holdingRegisters s else (0, s)
  | some .writeCoil => mbSlaveWriteBit host .coils iomap.coils s
  | some .writeHoldingRegister =>
    mbSlaveWriteRegister host .holdingRegisters iomap.holdingRegisters s
  | some .writeCoils => mbSlaveWriteBits host .coils iomap.coils rxCount s
  | some .writeHoldingRegisters =>
    mbSlaveWriteRegisters host .holdingRegisters iomap.holdingRegisters rxCount s
  | some .readWriteHoldingRegisters =>
    mbSlaveReadWriteRegisters host .holdingRegisters iomap.holdingRegisters rxCount s
  | some .diagnostics => mbSlaveDiagnostics host rxCount s
  | none => mbSlaveVendor iomap rxCount s

def mbSlaveException (res : Int × SlaveState σ) : Int × SlaveState σ :=
  let txCount := res.1
  let s := res.2
  -- Check for exception
  if txCount < 0 then
    let s := s.store 0 (Pdu.function s.pdu ||| bit8 7)
    let s := s.store 1 (UInt8.ofInt (-txCount))
    (PduException.size, s)
  else
    (txCount, s)

structure Served (σ τ : Type) where
  transaction : Txn
  app : σ
  transport : τ
  calls : List Call
  pads : List Nat

def pduTimeout : UInt32 := 5000

def mbSlaveHandleRequest {τ : Type} (transport : Transport τ) (iomap : Iomap σ) (transaction : Txn)
    (app : σ) (w : τ)
    : Option (Served σ τ) :=
  -- Wait for incoming request
  match mbPduRx transport transaction pduTimeout w with
  | none => none
  | some (rxCount, transaction, w) =>
    if rxCount > 0 then
      let s := { pdu := transaction.data, app, calls := [], pads := [] }
      let res := mbSlaveSwitch host iomap rxCount.toNat (mbPduRxBc transport w) s
      let res := mbSlaveException res
      let txCount := res.1
      let s := res.2
      let transaction := { transaction with data := s.pdu }
      let avail := mbPduRxAvail transport w
      let w := avail.2
      -- Respond only if no further messages have appeared on bus
      if avail.1 then
        match mbPduRx transport transaction 0 w with
        | none => none
        | some (_, transaction, w) =>
          some { transaction, app := s.app, transport := w, calls := s.calls, pads := s.pads }
      -- No response to broadcast messages
      else if !mbPduRxBc transport w then
        match mbPduTx transport transaction txCount.toNat w with
        | none => none
        | some w =>
          some { transaction, app := s.app, transport := w, calls := s.calls, pads := s.pads }
      else
        some { transaction, app := s.app, transport := w, calls := s.calls, pads := s.pads }
    else
      some { transaction, app, transport := w, calls := [], pads := [] }

structure SlaveTask (σ τ : Type) where
  transaction : Txn
  app : σ
  transport : τ

def mbSlaveBringup {τ : Type} (transport : Transport τ)
    : Nat → SlaveTask σ τ → Option (SlaveTask σ τ)
  -- There is no result if the tries are not enough.
  | 0, _ => none
  | tries + 1, task =>
    if mbTransportIsDown transport task.transport then
      let r := mbTransportBringup transport none task.transport
      let task :=
        { task with transaction := { task.transaction with arg := r.1 }, transport := r.2 }
      if r.1 = -1 then
        some task
      else
        mbSlaveBringup transport tries task
    else
      some task

/--
The loop of `mb_slave`, as often as the slave is found running. Other tasks may set the id of the
slave at any time: the list has the id that each of the rounds reads.
-/
def mbSlave {τ : Type} (transport : Transport τ) (iomap : Iomap σ) (tries : Nat)
    : List UInt8 → SlaveTask σ τ → Option (SlaveTask σ τ)
  | [], task => some task
  | id :: ids, task =>
    match mbSlaveBringup transport tries task with
    | none => none
    | some task =>
      if task.transaction.arg = -1 then
        mbSlave transport iomap tries ids task
      else
        let transaction := { task.transaction with unit := id }
        match mbSlaveHandleRequest host transport iomap transaction task.app task.transport with
        | none => none
        | some served =>
          mbSlave transport iomap tries ids
            {
              transaction := served.transaction
              app := served.app
              transport := served.transport
            }

end Handlers

end Modbus
