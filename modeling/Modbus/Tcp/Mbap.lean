import Modbus.Tcp.Sock

/-!
This module contains the messages on a TCP connection and what sending and receiving them does to
the stream: a message that is sent is appended to the bytes that go out, and a receive takes a
header and as many bytes as the size computed from its length field.
-/

namespace Modbus

structure Mbap where
  id : UInt16
  protocol : UInt16
  unit : UInt8
  pdu : List UInt8
  pdu_pos : 1 ≤ pdu.length
  pdu_le : pdu.length ≤ maxPduSize

def mbapHeader (id protocol length : UInt16) (unit : UInt8) : List UInt8 :=
  [hiByte id, loByte id, hiByte protocol, loByte protocol, hiByte length, loByte length, unit]

def Mbap.length (m : Mbap) : UInt16 :=
  UInt16.ofNat (m.pdu.length + 1)

def Mbap.encode (m : Mbap) : List UInt8 :=
  mbapHeader m.id m.protocol m.length m.unit ++ m.pdu

theorem Mbap.toNat_length (m : Mbap) : m.length.toNat = m.pdu.length + 1 := by
  have hle := m.pdu_le
  have hmax : maxPduSize = 253 := rfl
  simp only [Mbap.length, UInt16.toNat_ofNat']
  omega

theorem Mbap.encode_ne_nil (m : Mbap) : m.encode ≠ [] := by
  simp [Mbap.encode, mbapHeader]

def Txn.message (transaction : Txn) (size : Nat) (h1 : 1 ≤ size) (h2 : size ≤ maxPduSize) : Mbap :=
  {
    id := transaction.id
    protocol := 0
    unit := transaction.unit
    pdu := transaction.data.load 0 size
    pdu_pos := by simpa using h1
    pdu_le := by simpa using h2
  }

theorem mbTcpTx_sock (host : Endian) (transaction : Txn) {size : Nat} (h1 : 1 ≤ size)
    (h2 : size ≤ maxPduSize) (t : MbTcp Sock)
    : ∃ (mbap : Mem) (k : Nat),
        mbTcpTx sock host transaction size t
          =
        some
          { t with
            mbap
            net :=
              { t.net with
                outbox := t.net.outbox ++ (transaction.message size h1 h2).encode
                sends := t.net.sends + k } } := by
  have hzero (m : Mem) : m.store16 host 2 0 = (m.store 2 (hiByte 0)).store 3 (loByte 0) := by
    cases host <;> rfl
  have hlength : UInt16.ofNat size + 1 = UInt16.ofNat (size + 1) := by
    simp
  rw [mbTcpTx]
  generalize hmbap : Mem.copy _ mbapHeaderSize (transaction.data.load 0 size) = mbap
  have hload : mbap.load 0 (mbapHeaderSize + size) = (transaction.message size h1 h2).encode := by
    have hpdu := Mem.load_copy ((((t.mbap.store16 host 0 (ccToBe16 host transaction.id)).store16
      host 4 (ccToBe16 host (UInt16.ofNat size + 1))).store16 host 2 0).store 6 transaction.unit)
      mbapHeaderSize (transaction.data.load 0 size)
    rw [hmbap, Mem.length_load] at hpdu
    rw [Mem.load_add, Nat.zero_add, hpdu]
    simp only [Mbap.encode, Txn.message, Mbap.length, Mem.length_load]
    congr 1
    rw [← hmbap]
    simp only [ccToBe16, hlength]
    simp only [hzero, Mem.store16_swapBe, mbapHeaderSize, mbapHeader]
    simp [Mem.load, List.range_succ, Mem.copy_lt]
  have hmax : maxPduSize = 253 := rfl
  have hheader : mbapHeaderSize = 7 := rfl
  obtain ⟨k, hsend⟩ := @osTcpSend_sock transaction.arg mbap (mbapHeaderSize + size) (by omega)
    (by omega) t.net
  refine ⟨mbap, k, ?_⟩
  rw [hsend, hload]
  dsimp only
  rw [if_neg (by omega)]

def pduSize (length : UInt16) : Nat :=
  if length.toNat = 0 ∨ length.toNat > maxPduSize + 1 then maxPduSize else length.toNat - 1

theorem pduSize_lt (length : UInt16) : pduSize length < 2 ^ 31 := by
  have hlt := length.toNat_lt
  have hmax : maxPduSize = 253 := rfl
  unfold pduSize
  split
  . omega
  . omega

theorem mbTcpPduSize_header (host : Endian) (m : Mem) (id protocol length : UInt16) (unit : UInt8)
    : mbTcpPduSize host (m.copy 0 (mbapHeader id protocol length unit)) = pduSize length := by
  have hlength : ccFromBe16 host ((m.copy 0 (mbapHeader id protocol length unit)).load16 host 4)
      = length := by
    rw [ccFromBe16, Mem.swapBe_load16]
    apply word_hiByte_loByte
  have hlt := length.toNat_lt
  have hmax : maxPduSize = 253 := rfl
  unfold mbTcpPduSize pduSize
  simp only [hlength]
  by_cases h : length.toNat = 0 ∨ length.toNat > maxPduSize + 1
  . rw [if_pos h]
    rw [if_pos (by omega)]
  . rw [if_neg h]
    rw [if_neg (by omega)]
    omega

section Receive

variable (host : Endian) (transaction : Txn) (tmo : UInt32) (t : MbTcp Sock) {s : Sock}

theorem mbTcpRx_timeout (hselect : t.net.select = (0, s))
    : mbTcpRx sock host transaction tmo t = some (eTimeout, transaction, { t with net := s }) := by
  unfold mbTcpRx osTcpRecvWait
  simp [sock_select, hselect]

variable (hselect : t.net.select = (1, s)) {id protocol length : UInt16} {unit : UInt8}
  {rest : List UInt8} (hinbox : s.inbox = mbapHeader id protocol length unit ++ rest)

include hselect hinbox

theorem mbTcpRx_header
    : ∃ k,
        mbTcpRx sock host transaction tmo t
          =
        match
          osTcpRecv sock transaction.arg transaction.data (pduSize length)
            { s with inbox := rest, recvs := s.recvs + k } with
        | none => none
        | some (result, data, net) =>
          let mbap := t.mbap.copy 0 (mbapHeader id protocol length unit)
          if result ≤ 0 then
            some (eFrameNok, { transaction with data },
              { t with mbap, net := sock.close transaction.arg net, isDown := true })
          else if protocol ≠ 0 then
            some (eFrameNok, { transaction with data }, { t with mbap, net })
          else
            some ((pduSize length : Int), { transaction with data, id, unit },
              { t with mbap, net }) := by
  obtain ⟨k, hrecv⟩ := @osTcpRecv_sock_of_le transaction.arg mbapHeaderSize (by decide) t.mbap s
    (by simp [hinbox, mbapHeader, mbapHeaderSize])
  have htake : s.inbox.take mbapHeaderSize = mbapHeader id protocol length unit := by
    rw [hinbox]
    rfl
  have hdrop : s.inbox.drop mbapHeaderSize = rest := by
    rw [hinbox]
    rfl
  rw [htake, hdrop] at hrecv
  have hprotocol : (t.mbap.copy 0 (mbapHeader id protocol length unit)).load16 host 2 ≠ 0
      ↔ protocol ≠ 0 := by
    have hfield : host.swapBe ((t.mbap.copy 0 (mbapHeader id protocol length unit)).load16 host 2)
        = protocol := by
      rw [Mem.swapBe_load16]
      apply word_hiByte_loByte
    rw [ne_eq, ← Endian.swapBe_eq_zero host, hfield]
  have hid : ccFromBe16 host ((t.mbap.copy 0 (mbapHeader id protocol length unit)).load16 host 0)
      = id := by
    rw [ccFromBe16, Mem.swapBe_load16]
    apply word_hiByte_loByte
  have hunit : t.mbap.copy 0 (mbapHeader id protocol length unit) 6 = unit := rfl
  refine ⟨k, ?_⟩
  unfold mbTcpRx osTcpRecvWait
  simp only [sock_select, hselect]
  rw [if_neg (by decide)]
  rw [if_neg (by decide)]
  rw [hrecv]
  simp only [↓reduceIte, mbTcpPduSize_header, hid]
  generalize osTcpRecv sock transaction.arg transaction.data (pduSize length) _ = r
  rcases r with _ | ⟨result, data, net⟩
  . rfl
  . simp only [hprotocol, hunit]

theorem mbTcpRx_message (hpos : 1 ≤ pduSize length) (hle : pduSize length ≤ rest.length)
    : ∃ k,
        mbTcpRx sock host transaction tmo t
          =
        some
          (if protocol = 0 then (pduSize length : Int) else eFrameNok,
            { transaction with
              data := transaction.data.copy 0 (rest.take (pduSize length))
              id := if protocol = 0 then id else transaction.id
              unit := if protocol = 0 then unit else transaction.unit },
            { t with
              mbap := t.mbap.copy 0 (mbapHeader id protocol length unit)
              net := { s with inbox := rest.drop (pduSize length), recvs := s.recvs + k } }) := by
  obtain ⟨k, hheader⟩ := mbTcpRx_header host transaction tmo t hselect hinbox
  obtain ⟨k', hrecv⟩ := osTcpRecv_sock_of_le transaction.arg (pduSize_lt length) transaction.data
    { s with inbox := rest, recvs := s.recvs + k } hle
  refine ⟨k + k', ?_⟩
  rw [hheader, hrecv]
  dsimp only
  rw [if_neg (by omega)]
  by_cases hzero : protocol = 0
  . simp [hzero, Nat.add_assoc]
  . simp [hzero, Nat.add_assoc]

theorem mbTcpRx_broken (h : pduSize length = 0 ∨ rest.length < pduSize length)
    : ∃ (transaction' : Txn) (t' : MbTcp Sock),
        mbTcpRx sock host transaction tmo t = some (eFrameNok, transaction', t')
          ∧
        t'.isDown = true
          ∧
        transaction'.data = transaction.data.copy 0 (rest.take (pduSize length)) := by
  obtain ⟨k, hheader⟩ := mbTcpRx_header host transaction tmo t hselect hinbox
  have hrecv : ∃ (result : Int) (s' : Sock),
      osTcpRecv sock transaction.arg transaction.data (pduSize length)
          { s with inbox := rest, recvs := s.recvs + k }
        =
      some (result, transaction.data.copy 0 (rest.take (pduSize length)), s')
        ∧
      result ≤ 0 := by
    obtain hzero | hlt := h
    . obtain ⟨k', hrecv⟩ := osTcpRecv_sock_of_le transaction.arg (pduSize_lt length)
        transaction.data { s with inbox := rest, recvs := s.recvs + k } (by omega)
      exact ⟨_, _, hrecv, by omega⟩
    . rw [List.take_of_length_le (by omega)]
      apply osTcpRecv_sock_of_lt
      . exact pduSize_lt length
      . exact hlt
  obtain ⟨result, net, hrecv, hresult⟩ := hrecv
  rw [hheader, hrecv]
  dsimp only
  rw [if_pos hresult]
  exact ⟨_, _, rfl, rfl, rfl⟩

end Receive

theorem mbTcpRx_short (host : Endian) (transaction : Txn) (tmo : UInt32) (t : MbTcp Sock) {s : Sock}
    (hselect : t.net.select = (1, s)) (h : s.inbox.length < mbapHeaderSize)
    : ∃ (t' : MbTcp Sock),
        mbTcpRx sock host transaction tmo t = some (eFrameNok, transaction, t') := by
  obtain ⟨result, net, hrecv, hresult⟩ :=
    osTcpRecv_sock_of_lt transaction.arg (by decide) t.mbap s h
  have hne : result ≠ mbapHeaderSize := by
    simp only [mbapHeaderSize]
    omega
  unfold mbTcpRx osTcpRecvWait
  simp only [sock_select, hselect]
  rw [if_neg (by decide)]
  rw [if_neg (by decide)]
  rw [hrecv]
  simp only [hne, hresult, ↓reduceIte]
  exact ⟨_, rfl⟩

theorem Mbap.pduSize_length (m : Mbap) : pduSize m.length = m.pdu.length := by
  have hpos := m.pdu_pos
  have hle := m.pdu_le
  unfold pduSize
  rw [m.toNat_length]
  rw [if_neg (by omega)]
  omega

theorem mbTcpRx_encode (host : Endian) (transaction : Txn) (tmo : UInt32) (t : MbTcp Sock)
    {s : Sock} (hselect : t.net.select = (1, s)) (m : Mbap) (rest : List UInt8)
    (hinbox : s.inbox = m.encode ++ rest)
    : ∃ k,
        mbTcpRx sock host transaction tmo t
          =
        some
          (if m.protocol = 0 then (m.pdu.length : Int) else eFrameNok,
            { transaction with
              data := transaction.data.copy 0 m.pdu
              id := if m.protocol = 0 then m.id else transaction.id
              unit := if m.protocol = 0 then m.unit else transaction.unit },
            { t with
              mbap := t.mbap.copy 0 (mbapHeader m.id m.protocol m.length m.unit)
              net := { s with inbox := rest, recvs := s.recvs + k } }) := by
  have hsize := m.pduSize_length
  have hpos := m.pdu_pos
  rw [Mbap.encode, List.append_assoc] at hinbox
  obtain ⟨k, hrx⟩ := mbTcpRx_message host transaction tmo t hselect hinbox (by omega)
    (by rw [hsize, List.length_append]; omega)
  refine ⟨k, ?_⟩
  rw [hrx, hsize]
  rw [List.take_left, List.drop_left]

end Modbus
