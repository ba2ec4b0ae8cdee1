import Mathlib.Data.List.Forall2
import Modbus.Slave.Answer
import Modbus.Tcp.Sync

/-!
This module contains a slave that serves a TCP connection. Each round of its loop either times out,
or it takes one message from the stream and leaves at most one in return, so that over a whole run
the messages that go out are those that answer the messages that came in.
-/

namespace Modbus

variable {σ : Type}

structure Mbap.Answers (iomap : Iomap σ) (request response : Mbap) : Prop where
  id : response.id = request.id
  unit : response.unit = request.unit
  protocol : response.protocol = 0
  function : ∀ (code : UInt8), request.pdu.head? = some code → ¬iomap.IsVendor code →
    response.pdu.head? = some code ∨ response.pdu.head? = some (code ||| bit8 7)

section HandleRequest

variable (host : Endian) (iomap : Iomap σ) (transaction : Txn) (app : σ) (t : MbTcp Sock) {s : Sock}

theorem mbSlaveHandleRequest_timeout (hselect : t.net.select = (0, s))
    : mbSlaveHandleRequest host (mbTcp sock host) iomap transaction app t
        =
      some
        { transaction, app, transport := { t with net := s }, calls := [], pads := [] } := by
  have hrx := mbTcpRx_timeout host transaction pduTimeout t hselect
  unfold mbSlaveHandleRequest
  rw [mbPduRx_mbTcp, hrx]
  rfl

variable (hselect : t.net.select = (1, s)) (request : Mbap) {rest : List UInt8}
  (hinbox : s.inbox = request.encode ++ rest)

include hselect hinbox

theorem mbSlaveHandleRequest_dropped (hprotocol : request.protocol ≠ 0)
    : ∃ (transaction' : Txn) (mbap : Mem) (k : Nat),
        transaction'.arg = transaction.arg
          ∧
        mbSlaveHandleRequest host (mbTcp sock host) iomap transaction app t
          =
        some
          {
            transaction := transaction'
            app
            transport := { t with mbap, net := { s with inbox := rest, recvs := s.recvs + k } }
            calls := []
            pads := []
          } := by
  obtain ⟨k, hrx⟩ := mbTcpRx_encode host transaction pduTimeout t hselect request rest hinbox
  simp only [hprotocol, ↓reduceIte] at hrx
  refine ⟨{ transaction with data := transaction.data.copy 0 request.pdu },
    t.mbap.copy 0 (mbapHeader request.id request.protocol request.length request.unit), k, rfl, ?_⟩
  unfold mbSlaveHandleRequest
  rw [mbPduRx_mbTcp, hrx]
  rfl

theorem mbSlaveHandleRequest_answered (hiomap : iomap.Returns) (hprotocol : request.protocol = 0)
    : ∃ (served : Served σ (MbTcp Sock)) (response : Mbap) (mbap : Mem) (k l : Nat),
        request.Answers iomap response
          ∧
        served.transaction.arg = transaction.arg
          ∧
        served.transport
          =
        { t with
          mbap
          net :=
            { s with
              inbox := rest
              outbox := s.outbox ++ response.encode
              recvs := s.recvs + k
              sends := s.sends + l } }
          ∧
        mbSlaveHandleRequest host (mbTcp sock host) iomap transaction app t = some served := by
  obtain ⟨k, hrx⟩ := mbTcpRx_encode host transaction pduTimeout t hselect request rest hinbox
  simp only [hprotocol, ↓reduceIte] at hrx
  have hpos := request.pdu_pos
  have hle := request.pdu_le
  have hsized := mbSlaveProcess_sized host hiomap hpos hle
    (.init (transaction.data.copy 0 request.pdu) app)
  generalize hres : mbSlaveProcess host iomap request.pdu.length false
    (.init (transaction.data.copy 0 request.pdu) app) = res at hsized
  obtain ⟨⟨h1, h2⟩, hfunction⟩ := hsized
  -- The transaction has the ids of the request when its PDU is replaced by the response.
  generalize htransaction : ({
      arg := transaction.arg, id := request.id, unit := request.unit, data := res.2.pdu } : Txn)
    = transaction'
  have htx := @mbTcpTx_sock host transaction' res.1.toNat (by omega) (by omega)
    { t with
      mbap := t.mbap.copy 0 (mbapHeader request.id 0 request.length request.unit)
      net := { s with inbox := rest, recvs := s.recvs + k } }
  obtain ⟨mbap, l, htx⟩ := htx
  refine ⟨⟨transaction', res.2.app, _, res.2.calls, res.2.pads⟩,
    transaction'.message res.1.toNat (by omega) (by omega), mbap, k, l, ?_, ?_, rfl, ?_⟩
  . subst htransaction
    refine ⟨rfl, rfl, rfl, ?_⟩
    intro code hcode hvendor
    obtain ⟨size, hsize⟩ : ∃ size, res.1.toNat = size + 1 := ⟨res.1.toNat - 1, by omega⟩
    have hhead := Mem.copy_head transaction.data hcode
    simp only [SlaveState.init, hhead] at hfunction
    simpa [Txn.message, hsize, Mem.load_succ] using hfunction hvendor
  . rw [← htransaction]
  . unfold mbSlaveHandleRequest
    rw [mbPduRx_mbTcp, hrx]
    unfold mbSlaveProcess SlaveState.init at hres
    dsimp only
    rw [if_pos (by omega)]
    simp only [mbPduRxBc_mbTcp, mbPduRxAvail_mbTcp, Int.toNat_natCast, hres, htransaction]
    simp [htx]

end HandleRequest

structure MbTcp.Serving (requests : List Mbap) (t : MbTcp Sock) : Prop where
  isDown : t.isDown = false
  closed : t.net.closed = false
  hangup : t.net.hangup = false
  peer : t.net.peer = fun _ => []
  inbox : t.net.inbox = requests.flatMap Mbap.encode

structure MbTcp.Serves (iomap : Iomap σ) (requests : List Mbap) (t t' : MbTcp Sock) : Prop where
  ready : t'.net.ready = t.net.ready
  outbox : ∃ (responses : List Mbap),
    t'.net.outbox = t.net.outbox ++ responses.flatMap Mbap.encode ∧
      List.Forall₂ (Mbap.Answers iomap) (requests.filter (fun m => m.protocol = 0)) responses

theorem MbTcp.Serves.of_silent (iomap : Iomap σ) {requests : List Mbap} {t t' : MbTcp Sock}
    (hready : t'.net.ready = t.net.ready) (houtbox : t'.net.outbox = t.net.outbox)
    (hrequests : requests.filter (fun m => m.protocol = 0) = [])
    : MbTcp.Serves iomap requests t t' := by
  refine ⟨hready, [], ?_, ?_⟩
  . simp [houtbox]
  . rw [hrequests]
    exact List.Forall₂.nil

theorem MbTcp.Serves.trans {iomap : Iomap σ} {requests requests' : List Mbap}
    {t t' t'' : MbTcp Sock} (h : MbTcp.Serves iomap requests t t')
    (h' : MbTcp.Serves iomap requests' t' t'')
    : MbTcp.Serves iomap (requests ++ requests') t t'' := by
  obtain ⟨responses, houtbox, hanswers⟩ := h.outbox
  obtain ⟨responses', houtbox', hanswers'⟩ := h'.outbox
  refine ⟨h'.ready.trans h.ready, responses ++ responses', ?_, ?_⟩
  . rw [houtbox', houtbox]
    simp
  . rw [List.filter_append]
    apply List.rel_append
    . exact hanswers
    . exact hanswers'

theorem mbSlaveHandleRequest_serves (host : Endian) {iomap : Iomap σ} (hiomap : iomap.Returns)
    (transaction : Txn) (app : σ) {t : MbTcp Sock} {requests : List Mbap}
    (h : t.Serving requests)
    : ∃ (served : Served σ (MbTcp Sock)),
        mbSlaveHandleRequest host (mbTcp sock host) iomap transaction app t = some served
          ∧
        served.transaction.arg = transaction.arg
          ∧
        served.transport.net.waits = t.net.waits + 1
          ∧
        let count := if t.net.ready t.net.waits then 1 else 0
        served.transport.Serving (requests.drop count) ∧
          MbTcp.Serves iomap (requests.take count) t served.transport := by
  have harrive := Sock.arrive_inbox h.peer
  cases hready : t.net.ready t.net.waits with
  | false =>
    have hselect : t.net.select = (0, { t.net with waits := t.net.waits + 1 }) := by
      simp [Sock.select, hready]
    have hserved := mbSlaveHandleRequest_timeout host iomap transaction app t hselect
    refine ⟨_, hserved, rfl, rfl, ?_, ?_⟩
    . exact ⟨h.isDown, h.closed, h.hangup, h.peer, h.inbox⟩
    . exact .of_silent iomap rfl rfl rfl
  | true =>
    cases requests with
    | nil =>
      have hselect : t.net.select = (0, t.net.arrive) := by
        simp [Sock.select, hready, harrive, h.inbox, h.hangup]
      have hserved := mbSlaveHandleRequest_timeout host iomap transaction app t hselect
      refine ⟨_, hserved, rfl, rfl, ?_, ?_⟩
      . exact ⟨h.isDown, h.closed, h.hangup, h.peer, harrive.trans h.inbox⟩
      . exact .of_silent iomap rfl rfl rfl
    | cons request requests =>
      have hinbox := harrive.trans h.inbox
      rw [List.flatMap_cons] at hinbox
      have hselect := Sock.select_ready hready (by rw [hinbox]; simp [Mbap.encode_ne_nil])
      by_cases hprotocol : request.protocol = 0
      . obtain ⟨served, response, mbap, k, l, hanswers, harg, htransport, hserved⟩ :=
          mbSlaveHandleRequest_answered host iomap transaction app t hselect request hinbox hiomap
            hprotocol
        refine ⟨served, hserved, harg, ?_, ?_, ?_⟩
        . rw [htransport]
          rfl
        . rw [htransport]
          exact ⟨h.isDown, h.closed, h.hangup, h.peer, rfl⟩
        . rw [htransport]
          refine ⟨rfl, [response], ?_, ?_⟩
          . simp [Sock.arrive]
          . simpa [hprotocol] using hanswers
      . obtain ⟨transaction', mbap, k, harg, hserved⟩ :=
          mbSlaveHandleRequest_dropped host iomap transaction app t hselect request hinbox hprotocol
        refine ⟨_, hserved, harg, rfl, ?_, ?_⟩
        . exact ⟨h.isDown, h.closed, h.hangup, h.peer, rfl⟩
        . apply MbTcp.Serves.of_silent
          . rfl
          . rfl
          . simp [hprotocol]

def readyCount (ready : Nat → Bool) : Nat → Nat → Nat
  | _, 0 => 0
  | waits, n + 1 => (if ready waits then 1 else 0) + readyCount ready (waits + 1) n

/--
A slave on a connection answers the messages in the order in which they come, each with one message
and those for another protocol with none, and never closes the connection. A message is taken by
each of the rounds that do not time out.
-/
theorem mbSlave_answers (host : Endian) (iomap : Iomap σ) (hiomap : iomap.Returns) (tries : Nat)
    (htries : 1 ≤ tries) (ids : List UInt8) (task : SlaveTask σ (MbTcp Sock))
    (harg : task.transaction.arg ≠ -1) (requests : List Mbap)
    (h : task.transport.Serving requests)
    : ∃ (task' : SlaveTask σ (MbTcp Sock)),
        mbSlave host (mbTcp sock host) iomap tries ids task = some task'
          ∧
        let count := readyCount task.transport.net.ready task.transport.net.waits ids.length
        task'.transport.Serving (requests.drop count) ∧
          MbTcp.Serves iomap (requests.take count) task.transport task'.transport := by
  induction ids generalizing task requests with
  | nil => exact ⟨task, rfl, by simpa [readyCount] using h, .of_silent iomap rfl rfl rfl⟩
  | cons id ids ih =>
    obtain ⟨tries, rfl⟩ : ∃ n, tries = n + 1 := ⟨tries - 1, by omega⟩
    obtain ⟨served, hserved, harg', hwaits, hserving, hserves⟩ :=
      mbSlaveHandleRequest_serves host hiomap { task.transaction with unit := id } task.app h
    obtain ⟨task', hrun, hserving', hserves'⟩ :=
      ih ⟨served.transaction, served.app, served.transport⟩ (by rw [harg']; exact harg) _ hserving
    refine ⟨task', ?_, ?_⟩
    . have hup : mbTransportIsDown (mbTcp sock host) task.transport = false := h.isDown
      unfold mbSlave mbSlaveBringup
      rw [hup]
      simp only [Bool.false_eq_true, ↓reduceIte]
      rw [if_neg harg]
      rw [hserved]
      exact hrun
    . dsimp only at hserving' hserves'
      rw [hserves.ready, hwaits] at hserving' hserves'
      dsimp only
      rw [List.length_cons, readyCount]
      constructor
      . rw [← List.drop_drop]
        exact hserving'
      . rw [List.take_add]
        exact hserves.trans hserves'

theorem mbSlave_answers_pipelined
    : ∃ (task' : SlaveTask Store (MbTcp Sock)) (response : Mbap),
        mbSlave .little (mbTcp sock .little) (storageIomap 16 2 4 5 none) 1 [1, 1, 1]
            {
              transaction := ⟨1, 0, 0, fun _ => 0x55⟩
              app := ⟨fun _ => 0, fun _ => 0, fun _ => 0, fun _ => 0⟩
              transport := .receiving
                ((Mbap.mk 7 5 1 [0x01] (by decide) (by decide)).encode ++
                  (Mbap.mk 8 0 1 [0x01, 0x00, 0x0A, 0x00, 0x06] (by decide) (by decide)).encode)
            } = some task'
          ∧
        task'.transport.isDown = false
          ∧
        task'.transport.net.outbox = response.encode
          ∧
        response.id = 8 := by
  obtain ⟨task', hrun, hserving, hserves⟩ :=
    mbSlave_answers .little (storageIomap 16 2 4 5 none) (storageIomap_returns 16 2 4 5) 1
      (by decide) [1, 1, 1]
      {
        transaction := ⟨1, 0, 0, fun _ => 0x55⟩
        app := ⟨fun _ => 0, fun _ => 0, fun _ => 0, fun _ => 0⟩
        transport := .receiving
          ((Mbap.mk 7 5 1 [0x01] (by decide) (by decide)).encode ++
            (Mbap.mk 8 0 1 [0x01, 0x00, 0x0A, 0x00, 0x06] (by decide) (by decide)).encode)
      }
      (by decide)
      [Mbap.mk 7 5 1 [0x01] (by decide) (by decide),
        Mbap.mk 8 0 1 [0x01, 0x00, 0x0A, 0x00, 0x06] (by decide) (by decide)]
      ⟨rfl, rfl, rfl, rfl, by simp [MbTcp.receiving]⟩
  obtain ⟨responses, houtbox, hanswers⟩ := hserves.outbox
  simp only [MbTcp.receiving, readyCount, List.length_cons, List.length_nil] at hanswers
  obtain ⟨response, rfl⟩ : ∃ response, responses = [response] := by
    simpa [List.length_eq_one_iff] using hanswers.length_eq.symm
  refine ⟨task', response, hrun, hserving.isDown, ?_, ?_⟩
  . simpa [MbTcp.receiving] using houtbox
  . simp at hanswers
    exact hanswers.id

end Modbus
