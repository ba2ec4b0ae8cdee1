import Modbus.Transport.Basic

/-!
This module contains the TCP transport of `mb_tcp.c` together with the transfer loops of its ports
`mbal_tcp.c`. What the loops call is a record of system calls over a state `ω`, which stands for the
operating system and the network behind it.
-/

namespace Modbus

inductive MbalPort where
  | linux
  | rtKernel
  | windows
  deriving DecidableEq, Repr

/-- The variable `remain` of the transfer loops is a `size_t`, on Windows it is an `int`. -/
def MbalPort.remain : MbalPort → Int → Int
  | linux, n | rtKernel, n => sizeT n
  | windows, n => toInt n

/--
The system calls. `send` is handed a buffer, the offset of the first byte and the number of bytes,
`recv` is handed the last two and returns the bytes it has stored, or nothing if it fails. Setting
up a connection, with all its socket options, is one call.
-/
structure TcpOs (ω : Type) where
  port : MbalPort
  acceptConnection : UInt16 → ω → Int × ω
  connect : Option String → UInt16 → ω → Int × ω
  close : Int → ω → ω
  send : Int → Mem → Int → Int → ω → Int × ω
  recv : Int → Int → Int → ω → Option (List UInt8) × ω
  select : Int → UInt32 → ω → Int × ω

section Transfer

/--
The loop of `os_tcp_send` and `os_tcp_recv`, of which each has its own `transfer`. There is no
result if the loop takes more rounds than one for each byte and one more.
-/
def osTcpTransfer {α : Type} (port : MbalPort) (transfer : Int → Int → α → Int × α) (size : Nat)
    (a : α)
    : Option (Int × α) :=
  go (size + 1) 0 (port.remain size) a
where
  go : Nat → Int → Int → α → Option (Int × α)
    | 0, _, _, _ => none
    | rounds + 1, p, remain, a =>
      let r := transfer p remain a
      -- The result of a call is kept in an `int`
      let n := toInt r.1
      let remain := port.remain (remain - n)
      let p := p + n
      if remain > 0 ∧ n > 0 then
        go rounds p remain r.2
      else if remain = 0 then
        -- Successfully transferred all data
        some (toInt size, r.2)
      else
        -- Connection closed or error
        some (n, r.2)

variable {ω : Type} (os : TcpOs ω) (peer : Int)

def osTcpSend (buffer : Mem) (size : Nat) (w : ω) : Option (Int × ω) :=
  osTcpTransfer os.port (os.send peer buffer) size w

def osTcpRecv.recv (p remain : Int) (s : Mem × ω) : Int × Mem × ω :=
  let r := os.recv peer p remain s.2
  let n : Int :=
    match r.1 with
    | some bs => bs.length
    | none => -1
  (n, s.1.copyAt p (r.1.getD []), r.2)

def osTcpRecv (buffer : Mem) (size : Nat) (w : ω) : Option (Int × Mem × ω) :=
  osTcpTransfer os.port (osTcpRecv.recv os peer) size (buffer, w)

def osTcpRecvWait (tmo : UInt32) (w : ω) : Int × ω :=
  os.select peer (tmo * 1000) w

end Transfer

def mbapHeaderSize : Nat := 7

structure MbTcp (ω : Type) where
  isServer : Bool
  port : UInt16
  isDown : Bool
  mbap : Mem
  net : ω

section Tcp

variable {ω : Type} (os : TcpOs ω) (host : Endian)

def mbTcpBringup (name : Option String) (t : MbTcp ω) : Int × MbTcp ω :=
  let r :=
    if t.isServer then
      os.acceptConnection t.port t.net
    else
      os.connect name t.port t.net
  let peer := r.1
  if peer > 0 then
    (peer, { t with isDown := false, net := r.2 })
  else
    (peer, { t with net := r.2 })

def mbTcpShutdown (arg : Int) (t : MbTcp ω) : Int × MbTcp ω :=
  let peer := arg
  if t.isDown = false then
    (0, { t with isDown := true, net := os.close peer t.net })
  else
    (0, t)

def mbTcpIsDown (t : MbTcp ω) : Bool :=
  t.isDown

def mbTcpTx (transaction : Txn) (size : Nat) (t : MbTcp ω) : Option (MbTcp ω) :=
  let peer := transaction.arg
  let mbap := t.mbap.store16 host 0 (ccToBe16 host transaction.id)
  -- Includes size of unit id
  let mbap := mbap.store16 host 4 (ccToBe16 host (UInt16.ofNat size + 1))
  let mbap := mbap.store16 host 2 0
  let mbap := mbap.store 6 transaction.unit
  let mbap := mbap.copy mbapHeaderSize (transaction.data.load 0 size)
  match osTcpSend os peer mbap (mbapHeaderSize + size) t.net with
  | none => none
  | some (result, net) =>
    if result ≤ 0 then
      -- Peer closed their connection or some other error. Close connection.
      some { t with mbap, net := os.close peer net, isDown := true }
    else
      some { t with mbap, net }

def mbTcpPduSize (mbap : Mem) : Nat :=
  -- The size of the PDU includes the unit id we already read
  let length := ccFromBe16 host (mbap.load16 host 4)
  let size := (((length.toNat : Int) - 1) % 2 ^ 64).toNat
  -- Never overflow buffer
  if size > maxPduSize then maxPduSize else size

def mbTcpRx (transaction : Txn) (tmo : UInt32) (t : MbTcp ω) : Option (Int × Txn × MbTcp ω) :=
  let peer := transaction.arg
  -- Wait for next message until timeout
  let wait := osTcpRecvWait os peer tmo t.net
  if wait.1 = -1 then
    some (eFrameNok, transaction, { t with net := os.close peer wait.2, isDown := true })
  else if wait.1 = 0 then
    -- Timeout
    some (eTimeout, transaction, { t with net := wait.2 })
  else
    -- Get message
    match osTcpRecv os peer t.mbap mbapHeaderSize wait.2 with
    | none => none
    | some (result, mbap, net) =>
      let size := if result = mbapHeaderSize then mbTcpPduSize host mbap else 0
      let message :=
        if result = mbapHeaderSize then
          osTcpRecv os peer transaction.data size net
        else
          some (result, transaction.data, net)
      match message with
      | none => none
      | some (result, data, net) =>
        let transaction := { transaction with data }
        if result ≤ 0 then
          -- Peer closed their connection or some other error. Drop message, close connection.
          some (eFrameNok, transaction, { t with mbap, net := os.close peer net, isDown := true })
        else if mbap.load16 host 2 ≠ 0 then
          -- Drop message if protocol field invalid
          some (eFrameNok, transaction, { t with mbap, net })
        else
          let id := ccFromBe16 host (mbap.load16 host 0)
          some (size, { transaction with id, unit := mbap 6 }, { t with mbap, net })

def mbTcpRxIsBc (_t : MbTcp ω) : Bool :=
  -- No broadcasts in Modbus/TCP
  false

def mbTcpRxAvail (t : MbTcp ω) : Bool × MbTcp ω :=
  -- In the TCP case the transaction ID is used to differentiate between replies so we can always
  -- send the reply.
  (false, t)

def mbTcp : Transport (MbTcp ω) where
  bringup := mbTcpBringup os
  shutdown := mbTcpShutdown os
  isDown := mbTcpIsDown
  tx := mbTcpTx os host
  rx := mbTcpRx os host
  rxIsBc := mbTcpRxIsBc
  rxAvail := mbTcpRxAvail

@[simp]
theorem mbPduTx_mbTcp (transaction : Txn) (size : Nat) (t : MbTcp ω)
    : mbPduTx (mbTcp os host) transaction size t = mbTcpTx os host transaction size t := by
  rfl

@[simp]
theorem mbPduRx_mbTcp (transaction : Txn) (tmo : UInt32) (t : MbTcp ω)
    : mbPduRx (mbTcp os host) transaction tmo t = mbTcpRx os host transaction tmo t := by
  rfl

@[simp]
theorem mbPduRxBc_mbTcp (t : MbTcp ω) : mbPduRxBc (mbTcp os host) t = false := by
  rfl

@[simp]
theorem mbPduRxAvail_mbTcp (t : MbTcp ω) : mbPduRxAvail (mbTcp os host) t = (false, t) := by
  rfl

def mbTcpInit (port : UInt16) (isServer : Bool) (mbap : Mem) (net : ω) : MbTcp ω :=
  { isServer, port, isDown := true, mbap, net }

end Tcp

end Modbus
