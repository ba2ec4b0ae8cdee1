import Modbus.Tcp.Mbap

/-!
This module contains the question whether a receive leaves the stream at the start of the next
message.
-/

namespace Modbus

/--
A receive from a stream whose next message has the given length field either closes the connection,
or it has used up the message, which is 6 bytes longer than its length field says. If it returns a
size then this is the size of the PDU, and the bytes of the PDU have been stored.
-/
def KeepsSync (host : Endian) (transaction : Txn) (tmo : UInt32) (t : MbTcp Sock) (length : UInt16)
    : Prop :=
  ∃ (result : Int) (transaction' : Txn) (t' : MbTcp Sock),
    mbTcpRx sock host transaction tmo t = some (result, transaction', t') ∧
      (t'.isDown = false →
        ∃ (used : List UInt8),
          t.net.arrive.inbox = used ++ t'.net.inbox ∧ used.length = 6 + length.toNat ∧
            (0 ≤ result →
              result = (length.toNat : Int) - 1 ∧
                transaction'.data.load 0 result.toNat = used.drop mbapHeaderSize))

section Sync

variable (host : Endian) (transaction : Txn) (tmo : UInt32) {t : MbTcp Sock}
  (hready : t.net.ready t.net.waits = true) {id protocol length : UInt16} {unit : UInt8}
  {rest : List UInt8} (hinbox : t.net.arrive.inbox = mbapHeader id protocol length unit ++ rest)

include hready hinbox

theorem length_of_keepsSync (hdown : t.isDown = false)
    (h : KeepsSync host transaction tmo t length)
    : (1 ≤ length.toNat ∧ length.toNat ≤ maxPduSize + 1) ∨ rest.length < maxPduSize := by
  have hselect := Sock.select_ready hready (by simp [hinbox, mbapHeader])
  have hmax : maxPduSize = 253 := rfl
  by_cases hbroken : pduSize length = 0 ∨ rest.length < pduSize length
  . unfold pduSize at hbroken
    split at hbroken <;> omega
  . -- The bytes that were used up are the header and as many as were computed from the length.
    obtain ⟨k, hrx⟩ :=
      mbTcpRx_message host transaction tmo t hselect hinbox (by omega) (by omega)
    obtain ⟨result, transaction', t', hrx', hsync⟩ := h
    rw [hrx] at hrx'
    cases hrx'
    obtain ⟨used, happend, hlen, -⟩ := hsync hdown
    have htotal := congrArg List.length happend
    simp only [hinbox, mbapHeader, List.length_append, List.length_cons, List.length_nil,
      List.length_drop, hlen] at htotal
    unfold pduSize at htotal hbroken
    split at htotal <;> omega

theorem keepsSync_of_length
    (h : (1 ≤ length.toNat ∧ length.toNat ≤ maxPduSize + 1) ∨ rest.length < maxPduSize)
    : KeepsSync host transaction tmo t length := by
  have hselect := Sock.select_ready hready (by simp [hinbox, mbapHeader])
  have hmax : maxPduSize = 253 := rfl
  by_cases hbroken : pduSize length = 0 ∨ rest.length < pduSize length
  . -- The stream ends before the PDU does, or there is none, so that the connection is closed.
    obtain ⟨transaction', t', hrx, hdown, -⟩ :=
      mbTcpRx_broken host transaction tmo t hselect hinbox hbroken
    refine ⟨eFrameNok, transaction', t', hrx, ?_⟩
    simp [hdown]
  . obtain ⟨k, hrx⟩ :=
      mbTcpRx_message host transaction tmo t hselect hinbox (by omega) (by omega)
    have hsize : pduSize length = length.toNat - 1 := by
      unfold pduSize at hbroken ⊢
      split at hbroken <;> split <;> omega
    refine ⟨_, _, _, hrx, fun _ => ?_⟩
    refine ⟨mbapHeader id protocol length unit ++ rest.take (pduSize length), ?_, ?_, ?_⟩
    . rw [hinbox, List.append_assoc, List.take_append_drop]
    . simp only [mbapHeader, List.length_append, List.length_cons, List.length_nil,
        List.length_take]
      omega
    . intro hnonneg
      by_cases hprotocol : protocol = 0
      . have hload := Mem.load_copy transaction.data 0 (rest.take (pduSize length))
        rw [List.length_take, Nat.min_eq_left (by omega)] at hload
        simp only [hprotocol, ↓reduceIte, Int.toNat_natCast, hload]
        exact ⟨by omega, rfl⟩
      . simp only [hprotocol, ↓reduceIte] at hnonneg
        exact absurd hnonneg (by decide)

end Sync

/--
A receive keeps the stream in sync unless the length field is 0, for which the size computed from
it wraps around, or more than 254, for which the size is cut off, and the stream has the 253 bytes
that the receive then takes to be the PDU.
-/
theorem keepsSync_iff (host : Endian) (transaction : Txn) (tmo : UInt32) (t : MbTcp Sock)
    (hdown : t.isDown = false) (hready : t.net.ready t.net.waits = true)
    (id protocol length : UInt16) (unit : UInt8) (rest : List UInt8)
    (hinbox : t.net.arrive.inbox = mbapHeader id protocol length unit ++ rest)
    : KeepsSync host transaction tmo t length
        ↔
      (1 ≤ length.toNat ∧ length.toNat ≤ maxPduSize + 1) ∨ rest.length < maxPduSize := by
  constructor
  . exact length_of_keepsSync host transaction tmo hready hinbox hdown
  . exact keepsSync_of_length host transaction tmo hready hinbox

def MbTcp.receiving (inbox : List UInt8) : MbTcp Sock :=
  {
    isServer := true
    port := 502
    isDown := false
    mbap := fun _ => 0
    net :=
      {
        inbox
        outbox := []
        peer := fun _ => []
        emitted := 0
        hangup := false
        closed := false
        recvPiece := fun _ => inbox.length
        recvs := 0
        sendPiece := fun _ => inbox.length
        sends := 0
        ready := fun _ => true
        waits := 0
      }
  }

theorem keepsSync_iff_readCoils
    : KeepsSync .little ⟨1, 0, 0, fun _ => 0⟩ 1000
        (.receiving (mbapHeader 1 0 6 1 ++ [0x01, 0x00, 0x0A, 0x00, 0x06])) 6 := by
  rw [keepsSync_iff .little ⟨1, 0, 0, fun _ => 0⟩ 1000 _ rfl rfl 1 0 6 1
    [0x01, 0x00, 0x0A, 0x00, 0x06] rfl]
  left
  decide

theorem not_keepsSync_zero
    : ¬KeepsSync .little ⟨1, 0, 0, fun _ => 0⟩ 1000
        (.receiving (mbapHeader 1 0 0 1 ++ List.replicate 253 0)) 0 := by
  intro h
  have hlength := length_of_keepsSync .little ⟨1, 0, 0, fun _ => 0⟩ 1000 rfl
    (t := .receiving (mbapHeader 1 0 0 1 ++ List.replicate 253 0)) (List.append_nil _) rfl h
  rw [List.length_replicate] at hlength
  exact absurd hlength (by decide)

end Modbus
