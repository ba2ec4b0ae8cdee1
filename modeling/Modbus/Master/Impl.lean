import Modbus.Transport.Basic

/-!
This module contains the master of `mbus.c`. The scratch buffer, into which requests are built and
responses are received, is part of the `Mbus` record, and the buffer of the caller is passed through
the functions that read or write it.
-/

namespace Modbus

def mbAddress (table address : UInt32) : UInt32 :=
  table <<< 16 ||| address &&& 0xFFFF

structure Mbus where
  timeout : UInt32
  transaction : Txn
  scratch : Mem

structure MbusResult (τ : Type) where
  result : Int
  mbus : Mbus
  buffer : Mem
  transport : τ

def mbIsException (pdu : Mem) : Bool :=
  Pdu.function pdu &&& bit8 7 != 0

def mbException (pdu : Mem) : Int :=
  match (pdu 1).toNat with
  | 1 => eIllegalFunction
  | 2 => eIllegalDataAddress
  | 3 => eIllegalDataValue
  | 4 => eSlaveDeviceFailure
  | _ => eUnknownException

def Mbus.request (mbus : Mbus) (slave : Int) : Txn :=
  {
    arg := slave
    data := mbus.scratch
    unit := UInt8.ofInt slave
    id := mbus.transaction.id + 1
  }

section Exchange

variable {τ : Type} (transport : Transport τ)

/--
Send the request of the given size that is in the scratch buffer and receive the response into it,
which a broadcast does not have. This is the middle part of all the functions of the master that
wait for a response. The count is 0 if nothing was to be received.
-/
def mbusExchange (mbus : Mbus) (slave : Int) (size : Nat) (w : τ) : Option (Int × Mbus × τ) :=
  let transaction := mbus.request slave
  match mbPduTx transport transaction size w with
  | none => none
  | some w =>
    if slave ≠ 0 then
      match mbPduRx transport transaction mbus.timeout w with
      | none => none
      | some (rxCount, transaction, w) =>
        some (rxCount, { mbus with transaction, scratch := transaction.data }, w)
    else
      some (0, { mbus with transaction }, w)

def swapRegisters (dst src : Mem) : Nat → Mem
  | 0 => dst
  | n + 1 =>
    -- The iteration with `i = 2 * n`
    let dst := swapRegisters dst src n
    let i := 2 * n
    (dst.store (i + 1) (src i)).store i (src (i + 1))

variable (host : Endian)

def readTable (address : UInt32) : Option (Function × Nat) :=
  match (address >>> 16).toNat with
  | 0 => some (.readCoils, 2000)
  | 1 => some (.readInputs, 2000)
  | 3 => some (.readInputRegisters, 125)
  | 4 => some (.readHoldingRegisters, 125)
  | _ => none

def mbusReadResponse (response buffer : Mem) : Int × Mem :=
  let count := (PduReadResponse.count response).toNat
  match Function.ofCode (Pdu.function response) with
  | some .readCoils | some .readInputs =>
    (0, buffer.copy 0 (response.load PduReadResponse.data count))
  | some .readInputRegisters | some .readHoldingRegisters =>
    (0, swapRegisters buffer (response.offset PduReadResponse.data) ((count + 1) / 2))
  | _ => (-1, buffer)

def mbusRead (mbus : Mbus) (slave : Int) (address : UInt32) (quantity : UInt16) (buffer : Mem)
    (w : τ)
    : Option (MbusResult τ) :=
  if slave = 0 then
    -- Broadcast read is not possible
    some { result := -1, mbus, buffer, transport := w }
  else
    -- Build request
    match readTable address with
    | none => some { result := -1, mbus, buffer, transport := w }
    | some (f, limit) =>
      if quantity.toNat > limit then
        some { result := -1, mbus, buffer, transport := w }
      else
        let request := mbus.scratch.store 0 f.code
        let request := request.store16 host 1 (ccToBe16 host ((address - 1) &&& 0xFFFF).toUInt16)
        let request := request.store16 host 3 (ccToBe16 host quantity)
        match mbusExchange transport { mbus with scratch := request } slave PduRead.size w with
        | none => none
        | some (rxCount, mbus, w) =>
          let response := mbus.scratch
          if rxCount < 0 then
            some { result := rxCount, mbus, buffer, transport := w }
          else if mbIsException response then
            some { result := mbException response, mbus, buffer, transport := w }
          else
            let (result, buffer) := mbusReadResponse response buffer
            some { result, mbus, buffer, transport := w }

def mbusWriteResult (rxCount : Int) (response : Mem) : Int :=
  if rxCount < 0 then
    rxCount
  else if mbIsException response then
    mbException response
  else
    0

def writeSingleTable (address : UInt32) (value : UInt16) : Option (Function × UInt16) :=
  match (address >>> 16).toNat with
  | 0 => some (.writeCoil, if value ≠ 0 then 0xFF00 else 0x0000)
  | 4 => some (.writeHoldingRegister, value)
  | _ => none

def mbusWriteSingle (mbus : Mbus) (slave : Int) (address : UInt32) (value : UInt16) (w : τ)
    : Option (Int × Mbus × τ) :=
  -- Build request
  match writeSingleTable address value with
  | none => some (-1, mbus, w)
  | some (f, value) =>
    let request := mbus.scratch.store 0 f.code
    let request := request.store16 host 1 (ccToBe16 host ((address - 1) &&& 0xFFFF).toUInt16)
    let request := request.store16 host 3 (ccToBe16 host value)
    match mbusExchange transport { mbus with scratch := request } slave PduWriteSingle.size w with
    | none => none
    | some (rxCount, mbus, w) => some (mbusWriteResult rxCount mbus.scratch, mbus, w)

def mbusWriteData (scratch : Mem) (address : UInt32) (quantity : UInt16) (buffer : Mem)
    : Option (UInt8 × Mem) :=
  match (address >>> 16).toNat with
  | 0 =>
    if quantity.toNat > 1968 then
      none
    else
      let request := scratch.store 0 Function.writeCoils.code
      let count := UInt8.ofNat (quantity.toNat / 8)
      let count := if quantity.toNat % 8 ≠ 0 then count + 1 else count
      some (count, request.copy PduWrite.data (buffer.load 0 count.toNat))
  | 4 =>
    if quantity.toNat > 123 then
      none
    else
      let request := scratch.store 0 Function.writeHoldingRegisters.code
      let count := UInt8.ofNat (2 * quantity.toNat)
      let data := swapRegisters (request.offset PduWrite.data) buffer ((count.toNat + 1) / 2)
      some (count, request.splice PduWrite.data data)
  | _ => none

def mbusWrite (mbus : Mbus) (slave : Int) (address : UInt32) (quantity : UInt16) (buffer : Mem)
    (w : τ)
    : Option (Int × Mbus × τ) :=
  -- Build request
  match mbusWriteData mbus.scratch address quantity buffer with
  | none => some (-1, mbus, w)
  | some (count, request) =>
    let request := request.store16 host 1 (ccToBe16 host ((address - 1) &&& 0xFFFF).toUInt16)
    let request := request.store16 host 3 (ccToBe16 host quantity)
    let request := request.store 5 count
    match mbusExchange transport { mbus with scratch := request } slave
        (PduWrite.size + count.toNat) w with
    | none => none
    | some (rxCount, mbus, w) => some (mbusWriteResult rxCount mbus.scratch, mbus, w)

def mbusLoopback (mbus : Mbus) (slave : Int) (size : UInt16) (buffer : Mem) (w : τ)
    : Option (MbusResult τ) :=
  if size.toNat > 250 then
    some { result := -1, mbus, buffer, transport := w }
  else
    -- Build request
    let request := mbus.scratch.store 0 Function.diagnostics.code
    let request := request.store16 host 1 pduDiagLoopback
    let request := request.copy PduDiag.data (buffer.load 0 size.toNat)
    match mbusExchange transport { mbus with scratch := request } slave
        (size.toNat + PduDiag.size) w with
    | none => none
    | some (rxCount, mbus, w) =>
      let response := mbus.scratch
      if rxCount < 0 then
        some { result := rxCount, mbus, buffer, transport := w }
      else if mbIsException response then
        some { result := mbException response, mbus, buffer, transport := w }
      else
        let n := if rxCount > size.toNat then size.toNat else rxCount.toNat
        let buffer := buffer.copy 0 (response.load 0 n)
        some { result := rxCount, mbus, buffer, transport := w }

def mbusSendMsg (mbus : Mbus) (slave : Int) (msg : Mem) (size : UInt8) (w : τ)
    : Option (Int × Mbus × τ) :=
  let transaction := { mbus.request slave with data := msg }
  match mbPduTx transport transaction size.toNat w with
  | none => none
  | some w => some (0, { mbus with transaction }, w)

def mbusGetMsg (mbus : Mbus) (slave : Int) (msg : Mem) (w : τ) : Option (MbusResult τ) :=
  let transaction :=
    { mbus.transaction with arg := slave, data := msg, unit := UInt8.ofInt slave }
  match mbPduRx transport transaction mbus.timeout w with
  | none => none
  | some (rxCount, transaction, w) =>
    some
      { result := rxCount, mbus := { mbus with transaction }, buffer := transaction.data,
        transport := w }

def mbusConnect (name : String) (w : τ) : Int × τ :=
  mbTransportBringup transport (some name) w

def mbusDisconnect (slave : Int) (w : τ) : Int × τ :=
  mbTransportShutdown transport slave w

def mbusInit (timeout : UInt32) (transaction : Txn) (scratch : Mem) : Mbus :=
  {
    timeout
    transaction := { transaction with id := 0 }
    scratch := scratch.copy 0 (List.replicate maxPduSize 0x55)
  }

end Exchange

end Modbus
