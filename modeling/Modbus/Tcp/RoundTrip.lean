import Modbus.Tcp.Sync

/-!
This module contains the round trip of messages over a connection: what one end sends, in whatever
pieces, the other end receives, in whatever pieces.
-/

namespace Modbus

structure Outgoing where
  transaction : Txn
  size : Nat
  size_pos : 1 ≤ size
  size_le : size ≤ maxPduSize

def Outgoing.message (o : Outgoing) : Mbap :=
  o.transaction.message o.size o.size_pos o.size_le

def mbTcpTxAll (host : Endian) : List Outgoing → MbTcp Sock → Option (MbTcp Sock)
  | [], t => some t
  | o :: os, t =>
    match mbTcpTx sock host o.transaction o.size t with
    | none => none
    | some t => mbTcpTxAll host os t

structure Received where
  result : Int
  id : UInt16
  unit : UInt8
  pdu : List UInt8
  deriving DecidableEq, Repr

def mbTcpRxAll (host : Endian) (tmo : UInt32)
    : Nat → Txn → MbTcp Sock → Option (List Received × MbTcp Sock)
  | 0, _, t => some ([], t)
  | n + 1, transaction, t =>
    match mbTcpRx sock host transaction tmo t with
    | none => none
    | some (result, transaction, t) =>
      let received :=
        {
          result
          id := transaction.id
          unit := transaction.unit
          pdu := transaction.data.load 0 result.toNat
        }
      match mbTcpRxAll host tmo n transaction t with
      | none => none
      | some (rest, t) => some (received :: rest, t)

def Outgoing.received (o : Outgoing) : Received :=
  {
    result := o.size
    id := o.transaction.id
    unit := o.transaction.unit
    pdu := o.transaction.data.load 0 o.size
  }

theorem mbTcpTxAll_cons {host : Endian} {o : Outgoing} {t t' : MbTcp Sock}
    (h : mbTcpTx sock host o.transaction o.size t = some t') (os : List Outgoing)
    : mbTcpTxAll host (o :: os) t = mbTcpTxAll host os t' := by
  conv_lhs => unfold mbTcpTxAll
  rw [h]

theorem mbTcpTxAll_sock (host : Endian) (os : List Outgoing) (t : MbTcp Sock)
    : ∃ (t' : MbTcp Sock),
        mbTcpTxAll host os t = some t'
          ∧
        t'.isDown = t.isDown
          ∧
        t'.net.outbox = t.net.outbox ++ os.flatMap (fun o => o.message.encode) := by
  induction os generalizing t with
  | nil => exact ⟨t, rfl, rfl, by simp⟩
  | cons o os ih =>
    obtain ⟨mbap, k, htx⟩ := mbTcpTx_sock host o.transaction o.size_pos o.size_le t
    rw [mbTcpTxAll_cons htx]
    generalize hnext : ({ t with mbap := mbap, net := _ } : MbTcp Sock) = next
    obtain ⟨t', hall, hdown, houtbox⟩ := ih next
    refine ⟨t', hall, ?_, ?_⟩
    . rw [hdown, ← hnext]
    . rw [houtbox, ← hnext]
      simp [Outgoing.message]

theorem mbTcpRxAll_sock (host : Endian) (tmo : UInt32) (os : List Outgoing) (transaction : Txn)
    (t : MbTcp Sock) (hpeer : t.net.peer = fun _ => []) (hready : ∀ n, t.net.ready n = true)
    (hinbox : t.net.inbox = os.flatMap (fun o => o.message.encode))
    : ∃ (t' : MbTcp Sock),
        mbTcpRxAll host tmo os.length transaction t = some (os.map Outgoing.received, t')
          ∧
        t'.isDown = t.isDown
          ∧
        t'.net.inbox = [] := by
  induction os generalizing transaction t with
  | nil => exact ⟨t, rfl, rfl, by simpa using hinbox⟩
  | cons o os ih =>
    rw [List.flatMap_cons] at hinbox
    have harrive := Sock.arrive_inbox hpeer
    have hselect := Sock.select_ready (hready _)
      (by rw [harrive, hinbox]; simp [Mbap.encode_ne_nil])
    obtain ⟨k, hrx⟩ := mbTcpRx_encode host transaction tmo t hselect o.message _
      (harrive.trans hinbox)
    rw [List.length_cons, mbTcpRxAll, hrx]
    dsimp only
    generalize hnext : ({ t with mbap := _, net := _ } : MbTcp Sock) = next
    obtain ⟨t', hall, hdown, hnil⟩ := ih _ next (by rw [← hnext]; exact hpeer)
      (by rw [← hnext]; exact hready) (by rw [← hnext])
    rw [hall]
    refine ⟨t', ?_, ?_, hnil⟩
    . have hload := Mem.load_copy transaction.data 0 (o.transaction.data.load 0 o.size)
      rw [Mem.length_load] at hload
      simp [Outgoing.message, Txn.message, Outgoing.received, hload]
    . rw [hdown, ← hnext]

/--
Whatever is sent on one end of a connection, in whatever pieces `send` takes it, and in whatever
pieces `recv` delivers it, the other end receives just that, and nothing else is in the stream.
-/
theorem mbTcp_roundTrip (host : Endian) (os : List Outgoing) (sender : MbTcp Sock)
    (hsender : sender.net.outbox = [])
    : ∃ (sender' : MbTcp Sock),
        mbTcpTxAll host os sender = some sender'
          ∧
        sender'.isDown = sender.isDown
          ∧
        ∀ (host' : Endian) (receiver : MbTcp Sock) (transaction : Txn) (tmo : UInt32),
          receiver.net.inbox = sender'.net.outbox →
          receiver.net.peer = (fun _ => []) →
          (∀ n, receiver.net.ready n = true) →
            ∃ (receiver' : MbTcp Sock),
              mbTcpRxAll host' tmo os.length transaction receiver
                =
              some (os.map Outgoing.received, receiver')
                ∧
              receiver'.isDown = receiver.isDown
                ∧
              receiver'.net.inbox = [] := by
  obtain ⟨sender', hall, hdown, houtbox⟩ := mbTcpTxAll_sock host os sender
  refine ⟨sender', hall, hdown, ?_⟩
  intro host' receiver transaction tmo hinbox hpeer hready
  apply mbTcpRxAll_sock
  . exact hpeer
  . exact hready
  . rw [hinbox, houtbox, hsender]
    simp

def twoMessages : List Outgoing :=
  [
    ⟨⟨1, 7, 3, fun _ => 8⟩, 2, by decide, by decide⟩,
    ⟨⟨1, 8, 4, fun i => UInt8.ofNat i⟩, 3, by decide, by decide⟩
  ]

/--
An end that sends four bytes at a time and receives two messages of nine and ten bytes as if they
came in segments of five bytes, of which the second has the end of one and the start of the other.
-/
def segmentedEnd (inbox : List UInt8) : MbTcp Sock :=
  let t := MbTcp.receiving inbox
  { t with
    net :=
      { t.net with
        sendPiece := fun _ => 4
        recvPiece := fun n => [5, 2, 2, 1, 5, 1, 3].getD n 1 } }

theorem mbTcp_roundTrip_loopback
    : ∃ (sender' receiver' : MbTcp Sock),
        mbTcpTxAll .little twoMessages (segmentedEnd []) = some sender'
          ∧
        mbTcpRxAll .big 1000 2 ⟨1, 0, 0, fun _ => 0⟩ (segmentedEnd sender'.net.outbox)
          =
        some ([⟨2, 7, 3, [8, 8]⟩, ⟨3, 8, 4, [0, 1, 2]⟩], receiver')
          ∧
        receiver'.net.inbox = [] := by
  obtain ⟨sender', hsend, -, hreceive⟩ :=
    mbTcp_roundTrip .little twoMessages (segmentedEnd []) rfl
  obtain ⟨receiver', hreceived, -, hnil⟩ :=
    hreceive .big (segmentedEnd sender'.net.outbox) ⟨1, 0, 0, fun _ => 0⟩ 1000 rfl rfl
      (fun _ => rfl)
  exact ⟨sender', receiver', hsend, hreceived, hnil⟩

end Modbus
