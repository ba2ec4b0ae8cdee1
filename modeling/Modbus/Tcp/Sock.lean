import Modbus.Tcp.Transfer

/-!
This module contains a connection as the two ends of a byte stream see it. How many bytes a call
takes from the stream or puts into it, and whether it has to wait too long, is decided by functions
of the number of the call, so that these stand for every segmentation and every delay.
-/

namespace Modbus

structure Sock where
  inbox : List UInt8
  outbox : List UInt8
  -- All the bytes that the peer has sent in return for the bytes it was sent, of which the first
  -- `emitted` have been put into the inbox.
  peer : List UInt8 → List UInt8
  emitted : Nat
  -- The peer has closed its end: once the inbox is empty `recv` returns 0 and does not fail.
  hangup : Bool
  closed : Bool
  recvPiece : Nat → Nat
  recvs : Nat
  sendPiece : Nat → Nat
  sends : Nat
  ready : Nat → Bool
  waits : Nat

namespace Sock

def recv (remain : Nat) (s : Sock) : Option (List UInt8) × Sock :=
  let n := min remain (max 1 (s.recvPiece s.recvs))
  if s.inbox = [] ∧ remain > 0 ∧ s.hangup = false then
    (none, { s with recvs := s.recvs + 1 })
  else
    (some (s.inbox.take n), { s with inbox := s.inbox.drop n, recvs := s.recvs + 1 })

def send (p : List UInt8) (s : Sock) : Int × Sock :=
  let n := min p.length (max 1 (s.sendPiece s.sends))
  (n, { s with outbox := s.outbox ++ p.take n, sends := s.sends + 1 })

def arrive (s : Sock) : Sock :=
  { s with
    inbox := s.inbox ++ (s.peer s.outbox).drop s.emitted
    emitted := max s.emitted (s.peer s.outbox).length
    waits := s.waits + 1 }

def select (s : Sock) : Int × Sock :=
  if s.ready s.waits then
    if s.arrive.inbox = [] ∧ s.hangup = false then (0, s.arrive) else (1, s.arrive)
  else
    (0, { s with waits := s.waits + 1 })

theorem select_ready {s : Sock} (hready : s.ready s.waits = true) (hinbox : s.arrive.inbox ≠ [])
    : s.select = (1, s.arrive) := by
  simp [select, hready, hinbox]

theorem arrive_inbox {s : Sock} (hpeer : s.peer = fun _ => []) : s.arrive.inbox = s.inbox := by
  simp [arrive, hpeer]

end Sock

def sock : TcpOs Sock where
  port := .linux
  acceptConnection _ s := (1, s)
  connect _ _ s := (1, s)
  close _ s := { s with closed := true }
  send _ buffer p remain s := s.send (buffer.load p.toNat remain.toNat)
  recv _ _ remain s := s.recv remain.toNat
  select _ _ s := s.select

section Transfer

variable (peer : Int)

theorem sock_select (tmo : UInt32) (s : Sock) : sock.select peer tmo s = s.select := by
  rfl

theorem sock_send (buffer : Mem) (p remain : Nat) (s : Sock)
    : ∃ (n : Nat),
        sock.send peer buffer p remain s
          =
        ((n : Int), { s with outbox := s.outbox ++ buffer.load p n, sends := s.sends + 1 })
          ∧
        n ≤ remain
          ∧
        (0 < remain → 0 < n) := by
  simp only [sock, Sock.send, Mem.length_load, Int.toNat_natCast]
  generalize hn : min remain (max 1 (s.sendPiece s.sends)) = n
  refine ⟨n, ?_, by omega, by omega⟩
  rw [show remain = n + (remain - n) by omega, Mem.load_add, List.take_left' (by simp)]

theorem osTcpSend_sock (buffer : Mem) {size : Nat} (hpos : 0 < size) (hsize : size < 2 ^ 31)
    (s : Sock)
    : ∃ k,
        osTcpSend sock peer buffer size s
          =
        some ((size : Int),
          { s with outbox := s.outbox ++ buffer.load 0 size, sends := s.sends + k }) := by
  have hallowed : AllowedResults (sock.send peer buffer) := by
    intro p remain s
    simp only [sock, Sock.send, Mem.length_load]
    omega
  obtain ⟨result, s', hsend, hends⟩ :=
    @osTcpTransfer_rule _ sock.port _ hallowed _ hsize
      (fun p s' => ∃ k,
        s' = { s with outbox := s.outbox ++ buffer.load 0 p, sends := s.sends + k })
      (by
        rintro p n _ s' - ⟨k, rfl⟩ htransfer -
        obtain ⟨m, hsend, -, -⟩ := sock_send peer buffer p (size - p)
          { s with outbox := s.outbox ++ buffer.load 0 p, sends := s.sends + k }
        rw [hsend] at htransfer
        cases htransfer
        refine ⟨k + 1, ?_⟩
        simp only [Mem.load_add, Nat.zero_add, List.append_assoc, Nat.add_assoc])
      s ⟨0, by simp⟩
  rw [osTcpSend, hsend]
  cases hends with
  | whole _ h =>
    obtain ⟨k, rfl⟩ := h
    exact ⟨k, rfl⟩
  | @failed p a _ _ hp _ htransfer hn =>
    -- Something is taken whenever there is something to be sent.
    obtain ⟨n, hsend, -, hpos'⟩ := sock_send peer buffer p (size - p) a
    rw [hsend] at htransfer
    cases htransfer
    omega

theorem sock_recv (m : Mem) (p remain : Nat) (s : Sock)
    : ∃ (result : Int) (n : Nat),
        osTcpRecv.recv sock peer p remain (m, s)
          =
        (result, m.copy p (s.inbox.take n),
          { s with inbox := s.inbox.drop n, recvs := s.recvs + 1 })
          ∧
        n ≤ remain
          ∧
        n ≤ s.inbox.length
          ∧
        (result = n ∨ result = -1 ∧ s.inbox = [] ∧ 0 < remain)
          ∧
        (0 < remain → s.inbox ≠ [] → 0 < n) := by
  generalize hk : min remain (max 1 (s.recvPiece s.recvs)) = k
  by_cases hempty : s.inbox = [] ∧ remain > 0 ∧ s.hangup = false
  . have hrecv : sock.recv peer p remain s = (none, { s with recvs := s.recvs + 1 }) := by
      simp [sock, Sock.recv, hempty]
    refine ⟨-1, 0, ?_, by omega, by omega, ?_, ?_⟩
    . rw [osTcpRecv.recv_none hrecv]
      simp
    . exact .inr ⟨rfl, hempty.1, hempty.2.1⟩
    . intro _ hne
      exact absurd hempty.1 hne
  . have hrecv : sock.recv peer p remain s
        =
        (some (s.inbox.take k), { s with inbox := s.inbox.drop k, recvs := s.recvs + 1 }) := by
      simp only [sock, Sock.recv, Int.toNat_natCast, hempty, hk, ↓reduceIte]
    refine ⟨_, min k s.inbox.length, ?_, by omega, by omega, .inl rfl, ?_⟩
    . rw [osTcpRecv.recv_some hrecv, ← List.take_eq_take_min]
      simp
    . intro hpos hne
      have hlength := List.length_pos_iff.mpr hne
      omega

/-- The first `p` bytes of the inbox have been received. -/
structure Sock.Delivered (s : Sock) (buffer : Mem) (p : Nat) (r : Mem × Sock) : Prop where
  le : p ≤ s.inbox.length
  buffer_eq : r.1 = buffer.copy 0 (s.inbox.take p)
  sock_eq : ∃ k, r.2 = { s with inbox := s.inbox.drop p, recvs := s.recvs + k }

theorem Sock.Delivered.recv {buffer : Mem} {s : Sock} {p : Nat} {r : Mem × Sock}
    (h : s.Delivered buffer p r) (remain : Nat)
    : ∃ (result : Int) (n : Nat) (r' : Mem × Sock),
        osTcpRecv.recv sock peer p remain r = (result, r')
          ∧
        s.Delivered buffer (p + n) r'
          ∧
        n ≤ remain
          ∧
        (result = n ∨ result = -1 ∧ n = 0 ∧ 0 < remain)
          ∧
        (n = 0 → remain = 0 ∨ p = s.inbox.length) := by
  obtain ⟨k, hs⟩ := h.sock_eq
  have hle := h.le
  have hinbox : r.2.inbox = s.inbox.drop p := by
    rw [hs]
  obtain ⟨result, n, hrecv, hn, hlength, hresult, hpos⟩ := sock_recv peer r.1 p remain r.2
  rw [hinbox, List.length_drop] at hlength
  refine ⟨result, n, _, hrecv, ⟨by omega, ?_, k + 1, ?_⟩, hn, ?_, ?_⟩
  . have hcopy := Mem.copy_append buffer 0 (s.inbox.take p) ((s.inbox.drop p).take n)
    rw [List.length_take, Nat.min_eq_left hle, Nat.zero_add] at hcopy
    rw [h.buffer_eq, hinbox, List.take_add]
    exact hcopy.symm
  . rw [hs]
    simp [Nat.add_assoc]
  . obtain hresult | ⟨hresult, hnil, hremain⟩ := hresult
    . exact .inl hresult
    . rw [hinbox, List.drop_eq_nil_iff] at hnil
      exact .inr ⟨hresult, by omega, hremain⟩
  . intro hzero
    by_cases hnil : r.2.inbox = []
    . rw [hinbox, List.drop_eq_nil_iff] at hnil
      omega
    . have hpos' : 0 < remain → 0 < n := fun hremain => hpos hremain hnil
      omega

theorem osTcpRecv_sock (buffer : Mem) {size : Nat} (hsize : size < 2 ^ 31) (s : Sock)
    : ∃ (result : Int) (r : Mem × Sock),
        osTcpRecv sock peer buffer size s = some (result, r)
          ∧
        s.Delivered buffer (min size s.inbox.length) r
          ∧
        (size ≤ s.inbox.length → result = size)
          ∧
        (s.inbox.length < size → result ≤ 0) := by
  have hallowed : AllowedResults (osTcpRecv.recv sock peer) := by
    apply allowed_recv
    intro p remain s bs hbs
    simp only [sock, Sock.recv] at hbs
    split at hbs
    . contradiction
    . cases hbs
      rw [List.length_take]
      omega
  obtain ⟨result, r, hrecv, hends⟩ :=
    @osTcpTransfer_rule _ sock.port _ hallowed _ hsize (s.Delivered buffer)
      (by
        intro p n r r' _ h htransfer hn
        obtain ⟨result, m, r'', hrecv, hdelivered, -, hresult, -⟩ := h.recv peer (size - p)
        rw [htransfer] at hrecv
        cases hrecv
        obtain rfl : n = m := by omega
        exact hdelivered)
      (buffer, s) ⟨Nat.zero_le _, by simp, 0, by simp⟩
  refine ⟨result, r, hrecv, ?_⟩
  cases hends with
  | whole _ h =>
    have hle := h.le
    rw [Nat.min_eq_left hle]
    exact ⟨h, fun _ => rfl, by omega⟩
  | @failed p r₀ _ _ hp h htransfer hn =>
    obtain ⟨result, n, r', hrecv', hdelivered, hle, hresult, hpos⟩ := h.recv peer (size - p)
    rw [htransfer] at hrecv'
    cases hrecv'
    have hend : p + n = min size s.inbox.length := by
      have hle := hdelivered.le
      omega
    rw [← hend]
    refine ⟨hdelivered, ?_, ?_⟩
    . omega
    . omega

theorem osTcpRecv_sock_of_le {size : Nat} (hsize : size < 2 ^ 31) (buffer : Mem) (s : Sock)
    (h : size ≤ s.inbox.length)
    : ∃ k,
        osTcpRecv sock peer buffer size s
          =
        some ((size : Int), buffer.copy 0 (s.inbox.take size),
          { s with inbox := s.inbox.drop size, recvs := s.recvs + k }) := by
  obtain ⟨result, r, hrecv, hdelivered, hresult, -⟩ := osTcpRecv_sock peer buffer hsize s
  rw [Nat.min_eq_left h] at hdelivered
  obtain ⟨k, hs⟩ := hdelivered.sock_eq
  refine ⟨k, ?_⟩
  rw [hrecv, hresult h, ← hdelivered.buffer_eq, ← hs]

/-- A transfer that cannot be completed has stored all that there was. -/
theorem osTcpRecv_sock_of_lt {size : Nat} (hsize : size < 2 ^ 31) (buffer : Mem) (s : Sock)
    (h : s.inbox.length < size)
    : ∃ (result : Int) (s' : Sock),
        osTcpRecv sock peer buffer size s = some (result, buffer.copy 0 s.inbox, s')
          ∧
        result ≤ 0 := by
  obtain ⟨result, r, hrecv, hdelivered, -, hresult⟩ := osTcpRecv_sock peer buffer hsize s
  have hbuffer := hdelivered.buffer_eq
  rw [List.take_of_length_le (by omega)] at hbuffer
  refine ⟨result, r.2, ?_, hresult h⟩
  rw [hrecv, ← hbuffer]

end Transfer

end Modbus
