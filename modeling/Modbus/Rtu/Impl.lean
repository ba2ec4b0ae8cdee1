import Modbus.Rtu.Crc
import Modbus.Transport.Basic

/-!
This module contains the RTU transport of `mb_rtu.c`, as it is built on Linux. What it calls is a
record of the functions of the operating system and of the serial port over a state `ω`. Loops have
no result if they need more rounds than the given ones.
-/

namespace Modbus

structure Flags where
  txEmpty : Bool := false
  rxAvail : Bool := false
  t1p5 : Bool := false
  t3p5 : Bool := false
  deriving DecidableEq, Repr

namespace Flags

def set (flags mask : Flags) : Flags :=
  {
    txEmpty := flags.txEmpty || mask.txEmpty
    rxAvail := flags.rxAvail || mask.rxAvail
    t1p5 := flags.t1p5 || mask.t1p5
    t3p5 := flags.t3p5 || mask.t3p5
  }

def clr (flags mask : Flags) : Flags :=
  {
    txEmpty := flags.txEmpty && !mask.txEmpty
    rxAvail := flags.rxAvail && !mask.rxAvail
    t1p5 := flags.t1p5 && !mask.t1p5
    t3p5 := flags.t3p5 && !mask.t3p5
  }

def and (flags mask : Flags) : Flags :=
  {
    txEmpty := flags.txEmpty && mask.txEmpty
    rxAvail := flags.rxAvail && mask.rxAvail
    t1p5 := flags.t1p5 && mask.t1p5
    t3p5 := flags.t3p5 && mask.t3p5
  }

def any (flags : Flags) : Bool :=
  flags.txEmpty || flags.rxAvail || flags.t1p5 || flags.t3p5

end Flags

/--
The functions that the transport calls. `write` is handed a buffer, the offset of the first byte and
the size, `read` returns the bytes it has stored, or nothing if it fails. `eventWait` returns the
flags that are both set and in the mask, or nothing if it times out, and has no result if it waits
for ever. `tmrStart` is told whether the T1P5 timer is to be started too.
-/
structure RtuOs (ω : Type) where
  write : Mem → Int → Nat → ω → Int × ω
  read : Nat → ω → Option (List UInt8) × ω
  rxAvail : ω → Int × ω
  txDrain : Nat → ω → ω
  eventSet : Flags → ω → ω
  eventClr : Flags → ω → ω
  eventWait : Flags → Option UInt32 → ω → Option (Option Flags × ω)
  txEnable : Option (Int → ω → ω)
  tmrStart : Bool → ω → ω

structure MbRtu (ω : Type) where
  broadcast : Bool
  -- What `slave_rx` holds before it is read, as the variable is not initialised.
  slaveRx : UInt8
  line : ω

section Rtu

variable {ω : Type} (os : RtuOs ω)

def mbRtuBringup.go (slave : UInt32) : List UInt8 → Option UInt32
  | [] => some slave
  | c :: cs =>
    if c = 0 then
      some slave
    else
      let digit := c - 48
      if digit > 9 then
        none
      else
        mbRtuBringup.go (slave * 10 + digit.toUInt32) cs

/-- The name is given by its bytes, of which those after a `NUL` are not looked at. -/
def mbRtuBringup (name : List UInt8) (rtu : MbRtu ω) : Int × MbRtu ω :=
  match mbRtuBringup.go 0 name with
  | none => (-1, rtu)
  | some slave =>
    -- Check that slave is valid
    if slave > 247 then
      (-1, rtu)
    else
      (slave.toNat, rtu)

def mbRtuShutdown (_arg : Int) (rtu : MbRtu ω) : Int × MbRtu ω :=
  (0, rtu)

def mbRtuIsDown (_rtu : MbRtu ω) : Bool :=
  false

def mbRtuWrite (rounds : Nat) (buffer : Mem) (size : Nat) (line : ω) : Option ω :=
  go rounds 0 size line
where
  go : Nat → Int → Nat → ω → Option ω
    | 0, _, _, _ => none
    | rounds + 1, p, size, line =>
      if size > 0 then
        let r := os.write buffer p size line
        let nwrite := sizeT r.1
        if nwrite ≤ 0 then
          some r.2
        else
          go rounds (ptrAdd p nwrite) (sizeT (size - nwrite)) r.2
      else
        some line

def mbRtuRead (buffer : Mem) (p : Int) (size : Nat) (line : ω) : Nat × Mem × ω :=
  let line := os.eventClr { rxAvail := true } line
  let avail := os.rxAvail line
  let line := avail.2
  let full := sizeT avail.1 > size
  -- There will still be data available
  let line := if full then os.eventSet { rxAvail := true } line else line
  let navail := if full then size else sizeT avail.1
  let r := os.read navail line
  let nread : Int :=
    match r.1 with
    | some bs => bs.length
    | none => -1
  (sizeT nread, buffer.copyAt p (r.1.getD []), r.2)

def mbRtuTxEnable (level : Int) (line : ω) : ω :=
  match os.txEnable with
  | some txEnable => txEnable level line
  | none => line

def mbRtuTx (host : Endian) (rounds : Nat) (transaction : Txn) (size : Nat) (rtu : MbRtu ω)
    : Option (MbRtu ω) :=
  let slave := transaction.unit
  -- Compute CRC
  let crc := mbCrc (fun _ => slave) 1 0xFFFF
  let crc := mbCrc transaction.data (UInt8.ofNat size) crc
  -- Enable Tx
  let line := mbRtuTxEnable os 1 rtu.line
  -- Send slave address
  match mbRtuWrite os rounds (fun _ => slave) 1 line with
  | none => none
  | some line =>
    -- Send PDU
    let line := os.eventClr { txEmpty := true } line
    match mbRtuWrite os rounds transaction.data size line with
    | none => none
    | some line =>
      -- Send CRC
      match mbRtuWrite os rounds (Mem.store16 host (fun _ => 0) 0 crc) 2 line with
      | none => none
      | some line =>
        -- Wait for emission of last character
        let line := os.txDrain (3 + size) line
        -- Clear state for reception
        let line := os.eventClr { t1p5 := true, t3p5 := true } line
        -- Disable Tx
        let line := mbRtuTxEnable os 0 line
        -- Start and wait for T3P5 timer
        let line := os.tmrStart false line
        match os.eventWait { t3p5 := true } none line with
        | none => none
        | some (_, line) => some { rtu with line }

def mbRtuRxAvail (rtu : MbRtu ω) : Bool × MbRtu ω :=
  let avail := os.rxAvail rtu.line
  (decide (avail.1 > 0), { rtu with line := avail.2 })

structure RxBuffer where
  p : Int
  count : Nat
  data : Mem

def mbRtuRxMessage : Nat → RxBuffer → ω → Option (RxBuffer × ω)
  | 0, _, _ => none
  | rounds + 1, rx, line =>
    -- Get remainder of message (until T1P5 expires)
    match os.eventWait { t1p5 := true, rxAvail := true } none line with
    | none => none
    | some (flags, line) =>
      let flags := flags.getD {}
      if flags.rxAvail then
        match mbRtuRead os rx.data rx.p (sizeT ((maxPduSize : Int) - rx.count)) line with
        | (nread, data, line) =>
          let rx :=
            { p := ptrAdd rx.p nread, count := sizeT ((rx.count : Int) + nread), data }
          if flags.t1p5 then some (rx, line) else mbRtuRxMessage rounds rx line
      else
        if flags.t1p5 then some (rx, line) else mbRtuRxMessage rounds rx line

def mbRtuRxEnd : Nat → Option Int → RxBuffer → ω → Option (Option Int × RxBuffer × ω)
  | 0, _, _, _ => none
  | rounds + 1, error, rx, line =>
    -- Wait for end of frame (until T3P5 expires)
    match os.eventWait { t3p5 := true, rxAvail := true } none line with
    | none => none
    | some (flags, line) =>
      let flags := flags.getD {}
      if flags.rxAvail then
        -- Need to process extra characters. Stick them at the end of the current message but
        -- don't increment counter.
        match mbRtuRead os rx.data rx.p (sizeT ((maxPduSize : Int) - rx.count)) line with
        | (_, data, line) =>
          let error := some eFrameNok
          let rx := { rx with data }
          if flags.t3p5 then some (error, rx, line) else mbRtuRxEnd rounds error rx line
      else
        if flags.t3p5 then some (error, rx, line) else mbRtuRxEnd rounds error rx line

/--
The part of `mb_rtu_rx` that follows the slave address. The variable `error` is only assigned when
the frame is not ok, which is when it is present.
-/
def mbRtuRxFrame (rounds : Nat) (transaction : Txn) (slaveRx : UInt8) (rtu : MbRtu ω) (line : ω)
    : Option (Int × Txn × MbRtu ω) :=
  let crc := mbCrc (fun _ => slaveRx) 1 0xFFFF
  match mbRtuRxMessage os rounds { p := 0, count := 0, data := transaction.data } line with
  | none => none
  | some (rx, line) =>
    -- Verify message
    let crc := mbCrc rx.data (UInt8.ofNat rx.count) crc
    let error := if crc ≠ 0 then some eCrcFail else none
    -- Match station ID with our ID or the broadcast ID
    let error := if slaveRx ≠ transaction.unit ∧ slaveRx ≠ 0 then some eSlaveId else error
    match mbRtuRxEnd os rounds error rx line with
    | none => none
    | some (error, rx, line) =>
      let line := os.eventClr { t1p5 := true, t3p5 := true, rxAvail := true } line
      let transaction := { transaction with data := rx.data }
      -- Set broadcast flag if it was a broadcast station ID
      let rtu := { rtu with broadcast := slaveRx == 0, line }
      match error with
      | some error => some (error, transaction, rtu)
      | none => some (toInt (sizeT ((rx.count : Int) - 2)), transaction, rtu)

def mbRtuRx (rounds : Nat) (transaction : Txn) (tmo : UInt32) (rtu : MbRtu ω)
    : Option (Int × Txn × MbRtu ω) :=
  -- Wait for first character
  match os.eventWait { t1p5 := true, rxAvail := true } (if tmo ≠ 0 then some tmo else none)
      rtu.line with
  | none => none
  | some (flags, line) =>
    if tmo ≠ 0 ∧ flags = none then
      some (eTimeout, transaction, { rtu with line })
    else
      -- Get slave ID
      let r := mbRtuRead os (fun _ => rtu.slaveRx) 0 1 line
      mbRtuRxFrame os rounds transaction (r.2.1 0) rtu r.2.2

def mbRtuRxBc (rtu : MbRtu ω) : Bool :=
  rtu.broadcast

def mbRtu (host : Endian) (rounds : Nat) : Transport (MbRtu ω) where
  -- The name is asserted not to be `NULL`
  bringup := fun name => mbRtuBringup (name.getD "").toUTF8.toList
  shutdown := mbRtuShutdown
  isDown := mbRtuIsDown
  tx := mbRtuTx os host rounds
  rx := mbRtuRx os rounds
  rxIsBc := mbRtuRxBc
  rxAvail := mbRtuRxAvail os

end Rtu

end Modbus
