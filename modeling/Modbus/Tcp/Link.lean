import Modbus.Data.Runs
import Modbus.Master.Build
import Modbus.Master.Spec
import Modbus.Slave.Serve
import Modbus.Tcp.Server

/-!
This module contains a master and a slave at the two ends of a TCP connection. While the master
waits for a response the slave goes through rounds of its loop, and it is left open how many of
these find a request and whether a response arrives before the master gives up. Requests and
responses queue up in the meantime.
-/

namespace Modbus

/-- A round of the loop of the slave. It may time out before anything has arrived. -/
structure Round where
  id : UInt8
  arrived : Bool

/-- What happens while the master waits. -/
structure Timing where
  rounds : List Round
  -- What the slave has sent has arrived before the master gives up.
  replied : Bool

def Timing.arrivals (timing : Timing) : Nat :=
  timing.rounds.countP Round.arrived

structure Timing.InTime (timing : Timing) : Prop where
  arrived : 0 < timing.arrivals
  replied : timing.replied = true

structure TcpLink (σ : Type) where
  master : MbTcp Sock
  slave : SlaveTask σ (MbTcp Sock)
  timing : Timing

section Link

variable {σ : Type}

/-- The bytes go to the other end of the connection. -/
def MbTcp.hear (bytes : List UInt8) (ready : Nat → Bool) (t : MbTcp Sock) : MbTcp Sock :=
  { t with net := { t.net with inbox := t.net.inbox ++ bytes, ready } }

def MbTcp.emptied (t : MbTcp Sock) : MbTcp Sock :=
  { t with net := { t.net with outbox := [] } }

def TcpLink.slaveReady (link : TcpLink σ) (n : Nat) : Bool :=
  match link.timing.rounds[n - link.slave.transport.net.waits]? with
  | some round => round.arrived
  | none => false

/-- The TCP transport of the master, with the slave at the other end. -/
def tcpLink (masterHost slaveHost : Endian) (iomap : Iomap σ) (tries : Nat)
    : Transport (TcpLink σ) where
  bringup name link :=
    let r := mbTcpBringup sock name link.master
    (r.1, { link with master := r.2 })
  shutdown arg link :=
    let r := mbTcpShutdown sock arg link.master
    (r.1, { link with master := r.2 })
  isDown link := mbTcpIsDown link.master
  tx transaction size link :=
    match mbTcpTx sock masterHost transaction size link.master with
    | none => none
    | some master =>
      let transport := link.slave.transport.hear master.net.outbox link.slave.transport.net.ready
      some { link with master := master.emptied, slave := { link.slave with transport } }
  rx transaction tmo link :=
    let transport := link.slave.transport.hear [] link.slaveReady
    match mbSlave slaveHost (mbTcp sock slaveHost) iomap tries (link.timing.rounds.map Round.id)
        { link.slave with transport } with
    | none => none
    | some slave =>
      let master := link.master.hear slave.transport.net.outbox (fun _ => link.timing.replied)
      match mbTcpRx sock masterHost transaction tmo master with
      | none => none
      | some (result, transaction, master) =>
        let slave := { slave with transport := slave.transport.emptied }
        some (result, transaction, { link with master, slave })
  rxIsBc link := mbTcpRxIsBc link.master
  rxAvail link :=
    let r := mbTcpRxAvail link.master
    (r.1, { link with master := r.2 })

/-- An operation of the master, with what happens while it waits. -/
def tcpLinkCall (masterHost slaveHost : Endian) (iomap : Iomap σ) (tries : Nat) (slave : Int)
    (input : MasterOp × Timing) (state : Mbus × TcpLink σ)
    : Option ((Int × Mem) × Mbus × TcpLink σ) :=
  (input.1.call (tcpLink masterHost slaveHost iomap tries) masterHost slave state.1
    { state.2 with timing := input.2 }).map (fun r => ((r.result, r.buffer), r.mbus, r.transport))

end Link

/-- Requests on their way to the tables of a slave, and responses on their way back. -/
structure Queue where
  model : DataModel
  requests : List Request
  responses : List (List UInt8)

/-- An operation of the master on a queue, with what happens while it waits and what it returns. -/
inductive Queue.Step (slave : Int) (q : Queue)
    : (MasterOp × Timing) × (Int × Mem) → Queue → Prop where
  | refused {op : MasterOp} {timing : Timing} (hasks : op.asks slave = none)
    : Step slave q ((op, timing), (-1, op.buffer)) q
  | late {op : MasterOp} {timing : Timing} {r : Request} {model : DataModel}
      {answered : List (List UInt8)} (hasks : op.asks slave = some r)
      (hrun : DataModel.Run q.model ((q.requests ++ [r]).take timing.arrivals) answered model)
      (hlate : timing.replied = false ∨ q.responses ++ answered = [])
    : Step slave q ((op, timing), (eTimeout, op.buffer))
        ⟨model, (q.requests ++ [r]).drop timing.arrivals, q.responses ++ answered⟩
  | reply {op : MasterOp} {timing : Timing} {r : Request} {model : DataModel}
      {answered responses : List (List UInt8)} {response : List UInt8} {scratch : Mem}
      (hasks : op.asks slave = some r)
      (hrun : DataModel.Run q.model ((q.requests ++ [r]).take timing.arrivals) answered model)
      (hreplied : timing.replied = true)
      (hresponses : q.responses ++ answered = response :: responses)
      (hload : scratch.load 0 response.length = response)
    : Step slave q ((op, timing), op.finish response.length scratch)
        ⟨model, (q.requests ++ [r]).drop timing.arrivals, responses⟩

theorem DataModel.Run.append {d d' d'' : DataModel} {rs rs' : List Request}
    {responses responses' : List (List UInt8)} (h : Run d rs responses d')
    (h' : Run d' rs' responses' d'')
    : Run d (rs ++ rs') (responses ++ responses') d'' := by
  induction h with
  | nil => exact h'
  | cons answers _ ih => exact .cons answers (ih h')

theorem readyCount_rounds {ready : Nat → Bool} {waits : Nat} (rounds : List Round)
    (h : ∀ (i : Nat) (hi : i < rounds.length), ready (waits + i) = rounds[i].arrived)
    : readyCount ready waits rounds.length = rounds.countP Round.arrived := by
  induction rounds generalizing waits with
  | nil => rfl
  | cons round rounds ih =>
    have hfirst := h 0 (by simp)
    simp only [Nat.add_zero, List.getElem_cons_zero] at hfirst
    have hrest := @ih (waits + 1) (by
      intro i hi
      have hnext := h (i + 1) (by simpa using hi)
      rw [show waits + (i + 1) = waits + 1 + i by omega] at hnext
      simpa using hnext)
    rw [List.length_cons, readyCount, hrest, hfirst, List.countP_cons]
    omega

section Executes

variable (coils inputs hold inputRegisters : Nat) (vendorFuncs : Option (List (VendorFunc Store)))
  (host : Endian)

structure Mbap.Carries (m : Mbap) (r : Request) : Prop where
  protocol : m.protocol = 0
  decode : Request.decode m.pdu = some r

/-- What rounds of a slave have done: the first requests were answered, each by one message. -/
structure Executes (t t' : MbTcp Sock) (store store' : Store) (rs : List Request)
    (responses : List Mbap) : Prop where
  ready : t'.net.ready = t.net.ready
  outbox : t'.net.outbox = t.net.outbox ++ responses.flatMap Mbap.encode
  protocol : ∀ m ∈ responses, m.protocol = 0
  run : DataModel.Run (store.dataModel coils inputs hold inputRegisters) rs
    (responses.map Mbap.pdu) (store'.dataModel coils inputs hold inputRegisters)

theorem Executes.trans {coils inputs hold inputRegisters : Nat} {t t' t'' : MbTcp Sock}
    {store store' store'' : Store} {rs rs' : List Request} {responses responses' : List Mbap}
    (h : Executes coils inputs hold inputRegisters t t' store store' rs responses)
    (h' : Executes coils inputs hold inputRegisters t' t'' store' store'' rs' responses')
    : Executes coils inputs hold inputRegisters t t'' store store'' (rs ++ rs')
        (responses ++ responses') := by
  refine ⟨h'.ready.trans h.ready, ?_, ?_, ?_⟩
  . rw [h'.outbox, h.outbox]
    simp
  . rw [List.forall_mem_append]
    exact ⟨h.protocol, h'.protocol⟩
  . rw [List.map_append]
    exact h.run.append h'.run

theorem mbSlaveHandleRequest_executed (transaction : Txn) (app : Store) (t : MbTcp Sock) {s : Sock}
    (hselect : t.net.select = (1, s)) {m : Mbap} {r : Request} (hcarries : m.Carries r)
    {rest : List UInt8} (hinbox : s.inbox = m.encode ++ rest)
    : ∃ (served : Served Store (MbTcp Sock)) (response : Mbap) (mbap : Mem) (k l : Nat),
        mbSlaveHandleRequest host (mbTcp sock host)
            (storageIomap coils inputs hold inputRegisters vendorFuncs) transaction app t
          =
        some served
          ∧
        served.transaction.arg = transaction.arg
          ∧
        response.protocol = 0
          ∧
        (app.dataModel coils inputs hold inputRegisters).Answers r
          (served.app.dataModel coils inputs hold inputRegisters) response.pdu
          ∧
        served.transport
          =
        { t with
          mbap
          net :=
            { s with
              inbox := rest
              outbox := s.outbox ++ response.encode
              recvs := s.recvs + k
              sends := s.sends + l } } := by
  obtain ⟨k, hrx⟩ := mbTcpRx_encode host transaction pduTimeout t hselect m rest hinbox
  simp only [hcarries.protocol, ↓reduceIte] at hrx
  rw [← mbPduRx_mbTcp] at hrx
  have hload := Mem.load_copy transaction.data 0 m.pdu
  obtain ⟨response, hsize, hresponse, hanswers⟩ := mbSlaveProcess_answers coils inputs hold
    inputRegisters vendorFuncs host hcarries.decode hload app
  have hpos := hanswers.length_le.2
  have hle := hanswers.length_le_maxPduSize
  have hserved := mbSlaveHandleRequest_of_rx host
    (storageIomap coils inputs hold inputRegisters vendorFuncs) app hrx m.pdu_pos rfl
  rw [mbPduRxBc_mbTcp] at hserved
  generalize mbSlaveProcess host (storageIomap coils inputs hold inputRegisters vendorFuncs)
    m.pdu.length false (.init (transaction.data.copy 0 m.pdu) app) = res
    at hserved hsize hresponse hanswers
  obtain ⟨mbap, l, htx⟩ := @mbTcpTx_sock host
    ⟨transaction.arg, m.id, m.unit, res.2.pdu⟩ response.length (by omega) hle
    { t with
      mbap := t.mbap.copy 0 (mbapHeader m.id 0 m.length m.unit)
      net := { s with inbox := rest, recvs := s.recvs + k } }
  simp only [hsize, Int.toNat_natCast, mbPduTx_mbTcp, htx, Bool.false_eq_true, ↓reduceIte,
    Option.map_some] at hserved
  refine ⟨_, _, mbap, k, l, hserved, rfl, rfl, ?_, rfl⟩
  change (app.dataModel coils inputs hold inputRegisters).Answers r _ (res.2.pdu.load 0 _)
  rw [hresponse]
  exact hanswers

/-- One round of the loop. -/
theorem mbSlaveHandleRequest_executes (transaction : Txn) (app : Store) {t : MbTcp Sock}
    {ms : List Mbap} {rs : List Request} (hcarry : List.Forall₂ Mbap.Carries ms rs)
    (h : t.Serving ms)
    : ∃ (served : Served Store (MbTcp Sock)) (responses : List Mbap),
        mbSlaveHandleRequest host (mbTcp sock host)
            (storageIomap coils inputs hold inputRegisters vendorFuncs) transaction app t
          =
        some served
          ∧
        served.transaction.arg = transaction.arg
          ∧
        served.transport.net.waits = t.net.waits + 1
          ∧
        let count := if t.net.ready t.net.waits then 1 else 0
        served.transport.Serving (ms.drop count) ∧
          Executes coils inputs hold inputRegisters t served.transport app served.app
            (rs.take count) responses := by
  have harrive := Sock.arrive_inbox h.peer
  cases hready : t.net.ready t.net.waits with
  | false =>
    have hselect : t.net.select = (0, { t.net with waits := t.net.waits + 1 }) := by
      simp [Sock.select, hready]
    have hserved := mbSlaveHandleRequest_timeout host
      (storageIomap coils inputs hold inputRegisters vendorFuncs) transaction app t hselect
    refine ⟨_, [], hserved, rfl, rfl, ?_, ?_⟩
    . exact ⟨h.isDown, h.closed, h.hangup, h.peer, h.inbox⟩
    . exact ⟨rfl, by simp, by simp, .nil _⟩
  | true =>
    cases hcarry with
    | nil =>
      have hselect : t.net.select = (0, t.net.arrive) := by
        simp [Sock.select, hready, harrive, h.inbox, h.hangup]
      have hserved := mbSlaveHandleRequest_timeout host
        (storageIomap coils inputs hold inputRegisters vendorFuncs) transaction app t hselect
      refine ⟨_, [], hserved, rfl, rfl, ?_, ?_⟩
      . exact ⟨h.isDown, h.closed, h.hangup, h.peer, harrive.trans h.inbox⟩
      . exact ⟨rfl, by simp [Sock.arrive], by simp, .nil _⟩
    | @cons m r ms rs hm hcarry =>
      have hinbox := harrive.trans h.inbox
      rw [List.flatMap_cons] at hinbox
      have hselect := Sock.select_ready hready (by rw [hinbox]; simp [Mbap.encode_ne_nil])
      obtain ⟨served, response, mbap, k, l, hserved, harg, hprotocol, hanswers, htransport⟩ :=
        mbSlaveHandleRequest_executed coils inputs hold inputRegisters vendorFuncs host transaction
          app t hselect hm hinbox
      refine ⟨served, [response], hserved, harg, ?_, ?_, ?_⟩
      . rw [htransport]
        rfl
      . rw [htransport]
        exact ⟨h.isDown, h.closed, h.hangup, h.peer, rfl⟩
      . rw [htransport]
        refine ⟨rfl, ?_, by simpa using hprotocol, .cons hanswers (.nil _)⟩
        simp [Sock.arrive]

/-- Any number of rounds of the loop. -/
theorem mbSlave_executes {tries : Nat} (htries : 1 ≤ tries) (ids : List UInt8)
    (task : SlaveTask Store (MbTcp Sock)) (harg : task.transaction.arg ≠ -1) {ms : List Mbap}
    {rs : List Request} (hcarry : List.Forall₂ Mbap.Carries ms rs)
    (h : task.transport.Serving ms)
    : ∃ (task' : SlaveTask Store (MbTcp Sock)) (responses : List Mbap),
        mbSlave host (mbTcp sock host)
            (storageIomap coils inputs hold inputRegisters vendorFuncs) tries ids task
          =
        some task'
          ∧
        task'.transaction.arg = task.transaction.arg
          ∧
        let count := readyCount task.transport.net.ready task.transport.net.waits ids.length
        task'.transport.Serving (ms.drop count) ∧
          Executes coils inputs hold inputRegisters task.transport task'.transport task.app
            task'.app (rs.take count) responses := by
  induction ids generalizing task ms rs with
  | nil =>
    refine ⟨task, [], rfl, rfl, by simpa [readyCount] using h, ?_⟩
    exact ⟨rfl, by simp, by simp, by simpa [readyCount] using .nil _⟩
  | cons id ids ih =>
    obtain ⟨tries, rfl⟩ : ∃ n, tries = n + 1 := ⟨tries - 1, by omega⟩
    obtain ⟨served, responses, hserved, harg', hwaits, hserving, hexecutes⟩ :=
      mbSlaveHandleRequest_executes coils inputs hold inputRegisters vendorFuncs host
        { task.transaction with unit := id } task.app hcarry h
    obtain ⟨task', responses', hrun, harg'', hserving', hexecutes'⟩ :=
      ih ⟨served.transaction, served.app, served.transport⟩ (by rw [harg']; exact harg)
        (List.forall₂_drop _ hcarry) hserving
    dsimp only at hserving' hexecutes'
    rw [hexecutes.ready, hwaits] at hserving' hexecutes'
    refine ⟨task', responses ++ responses', ?_, harg''.trans harg', ?_⟩
    . have hup : mbTransportIsDown (mbTcp sock host) task.transport = false := h.isDown
      unfold mbSlave mbSlaveBringup
      rw [hup]
      simp only [Bool.false_eq_true, ↓reduceIte]
      rw [if_neg harg, hserved]
      exact hrun
    . rw [List.length_cons, readyCount]
      constructor
      . rw [← List.drop_drop]
        exact hserving'
      . rw [List.take_add]
        exact hexecutes.trans hexecutes'

/-- What is on its way on the connection. -/
structure TcpLink.Holds (q : Queue) (link : TcpLink Store) : Prop where
  master : ∃ (ms : List Mbap), link.master.Serving ms ∧ (∀ m ∈ ms, m.protocol = 0) ∧
    ms.map Mbap.pdu = q.responses
  slave : ∃ (ms : List Mbap), link.slave.transport.Serving ms ∧
    List.Forall₂ Mbap.Carries ms q.requests
  sent : link.master.net.outbox = []
  answered : link.slave.transport.net.outbox = []
  arg : link.slave.transaction.arg ≠ -1
  model : link.slave.app.dataModel coils inputs hold inputRegisters = q.model

variable (masterHost : Endian) {tries : Nat} (htries : 1 ≤ tries) {link : TcpLink Store} {q : Queue}
  (h : link.Holds coils inputs hold inputRegisters q)

include h in
theorem tcpLink_tx (transaction : Txn) {size : Nat} (h1 : 1 ≤ size) (h2 : size ≤ maxPduSize)
    {r : Request} (hdecode : Request.decode (transaction.data.load 0 size) = some r)
    : ∃ (link' : TcpLink Store),
        mbPduTx
            (tcpLink masterHost host (storageIomap coils inputs hold inputRegisters vendorFuncs)
              tries) transaction size link
          =
        some link'
          ∧
        link'.timing = link.timing
          ∧
        link'.Holds coils inputs hold inputRegisters { q with requests := q.requests ++ [r] } := by
  obtain ⟨ms, hmaster, hprotocol, hpdus⟩ := h.master
  obtain ⟨ms', hserving, hcarry⟩ := h.slave
  obtain ⟨mbap, k, htx⟩ := @mbTcpTx_sock masterHost transaction size h1 h2 link.master
  change ∃ (link' : TcpLink Store), (match mbTcpTx sock masterHost transaction size link.master with
    | none => none
    | some master => some _) = some link' ∧ _
  rw [htx, h.sent]
  refine ⟨_, rfl, rfl, ?_, ?_, rfl, h.answered, h.arg, h.model⟩
  . exact ⟨ms, ⟨hmaster.isDown, hmaster.closed, hmaster.hangup, hmaster.peer, hmaster.inbox⟩,
      hprotocol, hpdus⟩
  . refine ⟨ms' ++ [transaction.message size h1 h2], ?_, ?_⟩
    . refine ⟨hserving.isDown, hserving.closed, hserving.hangup, hserving.peer, ?_⟩
      simp [MbTcp.hear, hserving.inbox]
    . apply List.rel_append
      . exact hcarry
      . exact .cons ⟨rfl, hdecode⟩ .nil

theorem TcpLink.readyCount_slaveReady (link : TcpLink Store)
    : readyCount link.slaveReady link.slave.transport.net.waits link.timing.rounds.length
        =
      link.timing.arrivals := by
  apply readyCount_rounds
  intro i hi
  simp [TcpLink.slaveReady, hi]

theorem mbTcpRx_serving (transaction : Txn) (tmo : UInt32) {t : MbTcp Sock} {ms : List Mbap}
    (h : t.Serving ms) (hprotocol : ∀ m ∈ ms, m.protocol = 0)
    : ∃ (result : Int) (transaction' : Txn) (t' : MbTcp Sock),
        mbTcpRx sock host transaction tmo t = some (result, transaction', t')
          ∧
        t'.net.outbox = t.net.outbox
          ∧
        ((t.net.ready t.net.waits = false ∨ ms = []) ∧ result = eTimeout ∧ t'.Serving ms
          ∨
        t.net.ready t.net.waits = true ∧ ∃ (m : Mbap) (rest : List Mbap), ms = m :: rest ∧
          result = m.pdu.length ∧ transaction'.data.load 0 m.pdu.length = m.pdu ∧
          t'.Serving rest) := by
  have harrive := Sock.arrive_inbox h.peer
  cases hready : t.net.ready t.net.waits with
  | false =>
    have hselect : t.net.select = (0, { t.net with waits := t.net.waits + 1 }) := by
      simp [Sock.select, hready]
    refine ⟨_, _, _, mbTcpRx_timeout host transaction tmo t hselect, rfl, .inl ⟨.inl rfl, rfl, ?_⟩⟩
    exact ⟨h.isDown, h.closed, h.hangup, h.peer, h.inbox⟩
  | true =>
    cases ms with
    | nil =>
      have hselect : t.net.select = (0, t.net.arrive) := by
        simp [Sock.select, hready, harrive, h.inbox, h.hangup]
      refine ⟨_, _, _, mbTcpRx_timeout host transaction tmo t hselect, rfl,
        .inl ⟨.inr rfl, rfl, ?_⟩⟩
      exact ⟨h.isDown, h.closed, h.hangup, h.peer, harrive.trans h.inbox⟩
    | cons m ms =>
      have hinbox := harrive.trans h.inbox
      rw [List.flatMap_cons] at hinbox
      have hselect := Sock.select_ready hready (by rw [hinbox]; simp [Mbap.encode_ne_nil])
      obtain ⟨k, hrx⟩ := mbTcpRx_encode host transaction tmo t hselect m _ hinbox
      have hzero := hprotocol m (by simp)
      simp only [hzero, ↓reduceIte] at hrx
      refine ⟨_, _, _, hrx, rfl, .inr ⟨rfl, m, ms, rfl, rfl, ?_, ?_⟩⟩
      . exact Mem.load_copy transaction.data 0 m.pdu
      . exact ⟨h.isDown, h.closed, h.hangup, h.peer, rfl⟩

/-- What the master receives: nothing in time, or the oldest of the responses. -/
inductive Queue.Receives (timing : Timing) (q : Queue) (result : Int) (data : Mem)
    : Queue → Prop where
  | late {model : DataModel} {answered : List (List UInt8)}
      (hrun : DataModel.Run q.model (q.requests.take timing.arrivals) answered model)
      (hlate : timing.replied = false ∨ q.responses ++ answered = [])
      (hresult : result = eTimeout)
    : Receives timing q result data
        ⟨model, q.requests.drop timing.arrivals, q.responses ++ answered⟩
  | reply {model : DataModel} {answered responses : List (List UInt8)} {response : List UInt8}
      (hrun : DataModel.Run q.model (q.requests.take timing.arrivals) answered model)
      (hreplied : timing.replied = true)
      (hresponses : q.responses ++ answered = response :: responses)
      (hresult : result = response.length) (hload : data.load 0 response.length = response)
    : Receives timing q result data ⟨model, q.requests.drop timing.arrivals, responses⟩

include htries h in
theorem tcpLink_rx (transaction : Txn) (tmo : UInt32)
    : ∃ (result : Int) (transaction' : Txn) (link' : TcpLink Store) (q' : Queue),
        mbPduRx
            (tcpLink masterHost host (storageIomap coils inputs hold inputRegisters vendorFuncs)
              tries) transaction tmo link
          =
        some (result, transaction', link')
          ∧
        Queue.Receives link.timing q result transaction'.data q'
          ∧
        link'.Holds coils inputs hold inputRegisters q' := by
  obtain ⟨ms, hmaster, hprotocol, hpdus⟩ := h.master
  obtain ⟨ms', hserving, hcarry⟩ := h.slave
  have hheard : (link.slave.transport.hear [] link.slaveReady).Serving ms' := by
    refine ⟨hserving.isDown, hserving.closed, hserving.hangup, hserving.peer, ?_⟩
    simp [MbTcp.hear, hserving.inbox]
  obtain ⟨slave', responses, hrun, harg, hserving', hexecutes⟩ :=
    mbSlave_executes coils inputs hold inputRegisters vendorFuncs host htries
      (link.timing.rounds.map Round.id)
      { link.slave with transport := link.slave.transport.hear [] link.slaveReady } h.arg hcarry
      hheard
  have hcount : readyCount link.slaveReady link.slave.transport.net.waits
      (link.timing.rounds.map Round.id).length = link.timing.arrivals := by
    rw [List.length_map, link.readyCount_slaveReady]
  dsimp only [MbTcp.hear] at hserving' hexecutes
  rw [hcount] at hserving' hexecutes
  have houtbox : slave'.transport.net.outbox = responses.flatMap Mbap.encode := by
    have houtbox := hexecutes.outbox
    dsimp only at houtbox
    rw [houtbox, h.answered, List.nil_append]
  have hdata := hexecutes.run
  rw [h.model] at hdata
  generalize hmaster' : link.master.hear slave'.transport.net.outbox
    (fun _ => link.timing.replied) = master
  have hreplies : master.Serving (ms ++ responses) := by
    rw [← hmaster']
    refine ⟨hmaster.isDown, hmaster.closed, hmaster.hangup, hmaster.peer, ?_⟩
    simp [MbTcp.hear, hmaster.inbox, houtbox]
  have hready : master.net.ready master.net.waits = link.timing.replied := by
    rw [← hmaster']
    rfl
  have hsent : master.net.outbox = [] := by
    rw [← hmaster']
    exact h.sent
  obtain ⟨result, transaction', master', hrx, houtbox', hcases⟩ :=
    mbTcpRx_serving masterHost transaction tmo hreplies (by
      rw [List.forall_mem_append]
      exact ⟨hprotocol, hexecutes.protocol⟩)
  rw [hready] at hcases
  have hlink : mbPduRx
        (tcpLink masterHost host (storageIomap coils inputs hold inputRegisters vendorFuncs) tries)
        transaction tmo link
      =
      some (result, transaction',
        { link with
          master := master'
          slave := { slave' with transport := slave'.transport.emptied } }) := by
    dsimp only [mbPduRx, tcpLink]
    rw [hrun]
    dsimp only
    rw [hmaster', hrx]
  have hsent' : master'.net.outbox = [] := houtbox'.trans hsent
  have hcarry' := List.forall₂_drop link.timing.arrivals hcarry
  have hemptied : slave'.transport.emptied.Serving (ms'.drop link.timing.arrivals) :=
    ⟨hserving'.isDown, hserving'.closed, hserving'.hangup, hserving'.peer, hserving'.inbox⟩
  have harg' : slave'.transaction.arg ≠ -1 := by
    rw [harg]
    exact h.arg
  have hpdus' : (ms ++ responses).map Mbap.pdu = q.responses ++ responses.map Mbap.pdu := by
    rw [List.map_append, hpdus]
  obtain ⟨hlate, hresult, hserving''⟩ | ⟨hreplied, m, rest, hms, hresult, hload, hserving''⟩ :=
    hcases
  . refine ⟨result, transaction', _, _, hlink, .late hdata ?_ hresult, ?_⟩
    . obtain hlate | hnil := hlate
      . exact .inl hlate
      . right
        rw [← hpdus', hnil, List.map_nil]
    . refine ⟨⟨_, hserving'', ?_, hpdus'⟩, ⟨_, hemptied, hcarry'⟩, hsent', rfl, harg', rfl⟩
      rw [List.forall_mem_append]
      exact ⟨hprotocol, hexecutes.protocol⟩
  . have hprotocol' : ∀ m' ∈ m :: rest, m'.protocol = 0 := by
      rw [← hms, List.forall_mem_append]
      exact ⟨hprotocol, hexecutes.protocol⟩
    rw [hms, List.map_cons] at hpdus'
    rw [List.forall_mem_cons] at hprotocol'
    refine ⟨result, transaction', _, _, hlink, .reply hdata hreplied hpdus'.symm hresult hload, ?_⟩
    exact ⟨⟨rest, hserving'', hprotocol'.2, rfl⟩, ⟨_, hemptied, hcarry'⟩, hsent', rfl, harg', rfl⟩


include htries h in
/-- One operation on the connection is one on the queue. -/
theorem tcpLinkCall_step {slave : Int} (hslave : slave ≠ 0) (mbus : Mbus)
    (input : MasterOp × Timing)
    : ∃ (out : Int × Mem) (mbus' : Mbus) (link' : TcpLink Store) (q' : Queue),
        tcpLinkCall masterHost host (storageIomap coils inputs hold inputRegisters vendorFuncs)
            tries slave input (mbus, link)
          =
        some (out, mbus', link')
          ∧
        Queue.Step slave q (input, out) q'
          ∧
        link'.Holds coils inputs hold inputRegisters q' := by
  obtain ⟨op, timing⟩ := input
  have htimed : TcpLink.Holds coils inputs hold inputRegisters q { link with timing } :=
    ⟨h.master, h.slave, h.sent, h.answered, h.arg, h.model⟩
  unfold tcpLinkCall
  dsimp only
  cases hasks : op.asks slave with
  | none =>
    rw [MasterOp.call_of_not_asks _ _ hasks]
    exact ⟨_, _, _, q, rfl, .refused hasks, htimed⟩
  | some r =>
    obtain ⟨request, size, hrequest, hdecode⟩ :=
      MasterOp.request_of_asks masterHost hasks mbus.scratch
    have hbounds := op.request_bounds masterHost slave hrequest
    obtain ⟨link₁, htx, htiming, hsent⟩ := tcpLink_tx coils inputs hold inputRegisters vendorFuncs
      host masterHost htimed (Mbus.request { mbus with scratch := request } slave) hbounds.pos
      hbounds.le hdecode
    obtain ⟨result, transaction', link₂, q', hrx, hreceives, hholds⟩ := tcpLink_rx coils inputs
      hold inputRegisters vendorFuncs host masterHost htries hsent
      (Mbus.request { mbus with scratch := request } slave) mbus.timeout
    have hexchange := mbusExchange_of_rx hslave htx hrx
    rw [MasterOp.call_eq, hrequest]
    dsimp only
    rw [hexchange]
    refine ⟨_, _, _, q', rfl, ?_, hholds⟩
    rw [htiming] at hreceives
    cases hreceives with
    | late hrun hlate hresult =>
      rw [hresult]
      dsimp only
      rw [MasterOp.finish_neg op (by decide)]
      exact .late hasks hrun hlate
    | reply hrun hreplied hresponses hresult hload =>
      rw [hresult]
      exact .reply hasks hrun hreplied hresponses hload

end Executes

/-- What an operation does if nothing is late. -/
def Timely (slave : Int) (d : DataModel) (e : (MasterOp × Timing) × (Int × Mem)) (d' : DataModel)
    : Prop :=
  e.1.1.Outcome slave d e.2.1 e.2.2 d'

section Queue

variable {slave : Int}

/-- If nothing is on its way and the response is in time then the operation does what it is for. -/
theorem Queue.Step.outcome {d : DataModel} {q' : Queue} {op : MasterOp} {timing : Timing}
    {out : Int × Mem} (h : Queue.Step slave ⟨d, [], []⟩ ((op, timing), out) q')
    (htiming : timing.InTime)
    : ∃ (d' : DataModel), op.Outcome slave d out.1 out.2 d' ∧ q' = ⟨d', [], []⟩ := by
  obtain ⟨n, hn⟩ : ∃ n, timing.arrivals = n + 1 := ⟨timing.arrivals - 1, by
    have := htiming.arrived
    omega⟩
  cases h with
  | refused hasks => exact ⟨d, .refused hasks, rfl⟩
  | late hasks hrun hlate =>
    simp only [List.nil_append, hn, List.take_succ_cons, List.take_nil] at hrun hlate
    cases hrun with
    | cons hanswers hrest =>
      obtain hlate | hnil := hlate
      . rw [htiming.replied] at hlate
        contradiction
      . contradiction
  | reply hasks hrun hreplied hresponses hload =>
    simp only [List.nil_append, hn, List.take_succ_cons, List.take_nil] at hrun hresponses
    cases hrun with
    | cons hanswers hrest =>
      cases hrest
      cases hresponses
      refine ⟨_, MasterOp.outcome_of_answers hasks hanswers (Int.natCast_nonneg _) hload, ?_⟩
      simp [hn]

/-- The results of operations, some of which took one of the given responses and some none. -/
inductive Takes (slave : Int)
    : List ((MasterOp × Timing) × (Int × Mem)) → List (List UInt8) → Prop where
  | nil : Takes slave [] []
  | refused {op : MasterOp} {timing : Timing} {es : List ((MasterOp × Timing) × (Int × Mem))}
      {responses : List (List UInt8)} (hasks : op.asks slave = none)
      (rest : Takes slave es responses)
    : Takes slave (((op, timing), (-1, op.buffer)) :: es) responses
  | late {op : MasterOp} {r : Request} {timing : Timing}
      {es : List ((MasterOp × Timing) × (Int × Mem))} {responses : List (List UInt8)}
      (hasks : op.asks slave = some r) (rest : Takes slave es responses)
    : Takes slave (((op, timing), (eTimeout, op.buffer)) :: es) responses
  | reply {op : MasterOp} {r : Request} {timing : Timing}
      {es : List ((MasterOp × Timing) × (Int × Mem))} {response : List UInt8}
      {responses : List (List UInt8)} {scratch : Mem} (hasks : op.asks slave = some r)
      (hload : scratch.load 0 response.length = response) (rest : Takes slave es responses)
    : Takes slave (((op, timing), op.finish response.length scratch) :: es) (response :: responses)

def issued (slave : Int) (inputs : List (MasterOp × Timing)) : List Request :=
  inputs.filterMap (fun input => input.1.asks slave)

theorem Queue.split_issued {slave : Int} {requests rest served : List Request} {r : Request}
    {n : Nat} {op : MasterOp} {timing : Timing} {inputs : List (MasterOp × Timing)}
    (hasks : op.asks slave = some r)
    (h : (requests ++ [r]).drop n ++ issued slave inputs = served ++ rest)
    : requests ++ issued slave ((op, timing) :: inputs)
        =
      (requests ++ [r]).take n ++ served ++ rest := by
  have hissued : issued slave ((op, timing) :: inputs) = r :: issued slave inputs := by
    simp [issued, hasks]
  rw [hissued, List.append_assoc, ← h, ← List.append_assoc, List.take_append_drop]
  simp

/-- Nothing is lost, repeated or reordered on a queue, in either direction. -/
theorem Queue.runs_fifo {q q' : Queue} {es : List ((MasterOp × Timing) × (Int × Mem))}
    (h : Runs (Queue.Step slave) q es q')
    : ∃ (served : List Request) (answered taken : List (List UInt8)),
        q.requests ++ issued slave (es.map Prod.fst) = served ++ q'.requests
          ∧
        DataModel.Run q.model served answered q'.model
          ∧
        q.responses ++ answered = taken ++ q'.responses
          ∧
        Takes slave es taken := by
  induction h with
  | nil q => exact ⟨[], [], [], by simp [issued], .nil _, by simp, .nil⟩
  | cons head _ ih =>
    obtain ⟨served, answered, taken, hrequests, hrun, hresponses, htakes⟩ := ih
    cases head with
    | refused hasks =>
      refine ⟨served, answered, taken, ?_, hrun, hresponses, .refused hasks htakes⟩
      simpa [issued, hasks] using hrequests
    | late hasks hserved hlate =>
      refine ⟨_, _, taken, Queue.split_issued hasks hrequests, hserved.append hrun, ?_,
        .late hasks htakes⟩
      rw [← List.append_assoc, hresponses]
    | reply hasks hserved hreplied hfirst hload =>
      refine ⟨_, _, _ :: taken, Queue.split_issued hasks hrequests, hserved.append hrun, ?_,
        .reply hasks hload htakes⟩
      rw [← List.append_assoc, hfirst, List.cons_append, hresponses, List.cons_append]

end Queue

/-- Nothing is on its way on the connection. -/
def TcpLink.Rest (link : TcpLink Store) : Prop :=
  link.master.Serving [] ∧ link.slave.transport.Serving [] ∧ link.master.net.outbox = [] ∧
    link.slave.transport.net.outbox = [] ∧ link.slave.transaction.arg ≠ -1

section Runs

variable (coils inputs hold inputRegisters : Nat) (vendorFuncs : Option (List (VendorFunc Store)))
  (masterHost slaveHost : Endian) (tries : Nat) (htries : 1 ≤ tries) (slave : Int)
  (hslave : slave ≠ 0) (mbus : Mbus) (link : TcpLink Store) (hrest : link.Rest)
  (ops : List (MasterOp × Timing))

theorem TcpLink.rest_iff {link : TcpLink Store} {model : DataModel}
    : link.Holds coils inputs hold inputRegisters ⟨model, [], []⟩
        ↔
      link.Rest ∧ link.slave.app.dataModel coils inputs hold inputRegisters = model := by
  constructor
  . intro h
    obtain ⟨ms, hmaster, -, hpdus⟩ := h.master
    obtain ⟨ms', hserving, hcarry⟩ := h.slave
    obtain rfl := List.map_eq_nil_iff.mp hpdus
    obtain rfl := List.forall₂_nil_right_iff.mp hcarry
    exact ⟨⟨hmaster, hserving, h.sent, h.answered, h.arg⟩, h.model⟩
  . rintro ⟨⟨hmaster, hserving, hsent, hanswered, harg⟩, hmodel⟩
    exact ⟨⟨[], hmaster, by simp, rfl⟩, ⟨[], hserving, .nil⟩, hsent, hanswered, harg, hmodel⟩

include htries hslave hrest

/--
A little-endian master and a slave at the two ends of a TCP connection are the data model. If every
response comes in time then each of the operations does what it is for, one after the other,
whatever the segmentation of the stream, the rounds of the slave and the byte order of its host are.
-/
theorem mbus_tcpLink (htiming : ∀ op ∈ ops, op.2.InTime)
    : ∃ (outs : List (Int × Mem)) (mbus' : Mbus) (link' : TcpLink Store),
        runAll
            (tcpLinkCall .little slaveHost
              (storageIomap coils inputs hold inputRegisters vendorFuncs) tries slave)
            ops (mbus, link)
          =
        some (outs, mbus', link')
          ∧
        outs.length = ops.length
          ∧
        link'.Rest
          ∧
        Runs (Timely slave)
          (link.slave.app.dataModel coils inputs hold inputRegisters) (ops.zip outs)
          (link'.slave.app.dataModel coils inputs hold inputRegisters) := by
  have hcall (op : MasterOp × Timing) (s : Mbus × TcpLink Store) (d : DataModel)
      (hop : op.2.InTime) (hholds : s.2.Holds coils inputs hold inputRegisters ⟨d, [], []⟩)
      : ∃ (out : Int × Mem) (s' : Mbus × TcpLink Store) (d' : DataModel),
          tcpLinkCall .little slaveHost
              (storageIomap coils inputs hold inputRegisters vendorFuncs) tries slave op s
            =
          some (out, s')
            ∧
          Timely slave d (op, out) d'
            ∧
          s'.2.Holds coils inputs hold inputRegisters ⟨d', [], []⟩ := by
    obtain ⟨out, mbus', link', q', hcall, hstep, hholds'⟩ := tcpLinkCall_step coils inputs hold
      inputRegisters vendorFuncs slaveHost .little htries hholds hslave s.1 op
    obtain ⟨d', houtcome, rfl⟩ := hstep.outcome hop
    exact ⟨out, (mbus', link'), d', hcall, houtcome, hholds'⟩
  obtain ⟨outs, ⟨mbus', link'⟩, d', hrun, hlen, hruns, hholds⟩ :=
    runAll_simulates (R := fun s d => s.2.Holds coils inputs hold inputRegisters ⟨d, [], []⟩)
      hcall htiming (s := (mbus, link)) ((TcpLink.rest_iff ..).mpr ⟨hrest, rfl⟩)
  obtain ⟨hrest', rfl⟩ := (TcpLink.rest_iff ..).mp hholds
  exact ⟨outs, mbus', link', hrun, hlen, hrest', hruns⟩

/--
Whatever comes too late on a TCP connection, the slave carries out the requests in the order in
which they were issued, each once or not yet, and the master takes the responses in the order in
which they were given. What is left of both is still on its way.
-/
theorem mbus_tcpLink_fifo
    : ∃ (outs : List (Int × Mem)) (mbus' : Mbus) (link' : TcpLink Store)
        (served rest : List Request) (answered : List (List UInt8)) (taken : Nat),
        runAll
            (tcpLinkCall masterHost slaveHost
              (storageIomap coils inputs hold inputRegisters vendorFuncs) tries slave)
            ops (mbus, link)
          =
        some (outs, mbus', link')
          ∧
        outs.length = ops.length
          ∧
        issued slave ops = served ++ rest
          ∧
        DataModel.Run (link.slave.app.dataModel coils inputs hold inputRegisters) served answered
          (link'.slave.app.dataModel coils inputs hold inputRegisters)
          ∧
        Takes slave (ops.zip outs) (answered.take taken)
          ∧
        link'.Holds coils inputs hold inputRegisters
          ⟨link'.slave.app.dataModel coils inputs hold inputRegisters, rest,
            answered.drop taken⟩ := by
  have hcall (op : MasterOp × Timing) (s : Mbus × TcpLink Store) (q : Queue) (_ : True)
      (hholds : s.2.Holds coils inputs hold inputRegisters q)
      : ∃ (out : Int × Mem) (s' : Mbus × TcpLink Store) (q' : Queue),
          tcpLinkCall masterHost slaveHost
              (storageIomap coils inputs hold inputRegisters vendorFuncs) tries slave op s
            =
          some (out, s')
            ∧
          Queue.Step slave q (op, out) q'
            ∧
          s'.2.Holds coils inputs hold inputRegisters q' := by
    obtain ⟨out, mbus', link', q', hcall, hstep, hholds'⟩ := tcpLinkCall_step coils inputs hold
      inputRegisters vendorFuncs slaveHost masterHost htries hholds hslave s.1 op
    exact ⟨out, (mbus', link'), q', hcall, hstep, hholds'⟩
  obtain ⟨outs, ⟨mbus', link'⟩, q', hrun, hlen, hruns, hholds⟩ :=
    runAll_simulates (R := fun s q => s.2.Holds coils inputs hold inputRegisters q) hcall
      (fun op (_ : op ∈ ops) => trivial) (s := (mbus, link))
      ((TcpLink.rest_iff ..).mpr ⟨hrest, rfl⟩)
  obtain ⟨served, answered, taken, hrequests, hserved, hresponses, htakes⟩ := Queue.runs_fifo hruns
  rw [List.map_fst_zip hlen.ge] at hrequests
  rw [List.nil_append] at hrequests hresponses
  refine ⟨outs, mbus', link', served, q'.requests, answered, taken.length, hrun, hlen, hrequests,
    ?_, ?_, ?_⟩
  . rw [hholds.model]
    exact hserved
  . rw [hresponses, List.take_left]
    exact htakes
  . rw [hholds.model, hresponses, List.drop_left]
    exact hholds

end Runs

def sampleLink : TcpLink Store where
  master := .receiving []
  slave :=
    {
      transaction := ⟨1, 0, 0, fun _ => 0x55⟩
      app := ⟨fun _ => 0, fun _ => 0, fun _ => 0, fun _ => 0⟩
      transport := .receiving []
    }
  timing := ⟨[], false⟩

theorem sampleLink_rest : sampleLink.Rest := by
  have hserving : (MbTcp.receiving []).Serving [] := ⟨rfl, rfl, rfl, rfl, rfl⟩
  exact ⟨hserving, hserving, rfl, rfl, by decide⟩

theorem mbus_tcpLink_writeSingle
    : ∃ (outs : List (Int × Mem)) (mbus' : Mbus) (link' : TcpLink Store),
        runAll (tcpLinkCall .little .big (storageIomap 16 2 4 5 none) 1 7)
            [(.writeSingle 0x40001 0x1234, ⟨[⟨1, false⟩, ⟨1, true⟩], true⟩),
              (.read 0x40001 2 (fun _ => 0), ⟨[⟨2, true⟩, ⟨2, true⟩], true⟩)]
            (mbusInit 1000 ⟨0, 0, 0, fun _ => 0⟩ (fun _ => 0), sampleLink)
          =
        some (outs, mbus', link')
          ∧
        outs.map (fun out => (out.1, out.2.load 0 4))
          =
        [(0, [0x00, 0x00, 0x00, 0x00]), (0, [0x34, 0x12, 0x00, 0x00])]
          ∧
        link'.Rest
          ∧
        Runs (Timely 7) (sampleLink.slave.app.dataModel 16 2 4 5)
          (List.zip
            [(.writeSingle 0x40001 0x1234, ⟨[⟨1, false⟩, ⟨1, true⟩], true⟩),
              (.read 0x40001 2 (fun _ => 0), ⟨[⟨2, true⟩, ⟨2, true⟩], true⟩)]
            outs)
          (link'.slave.app.dataModel 16 2 4 5) := by
  obtain ⟨outs, mbus', link', hrun, -, hrest, hruns⟩ :=
    mbus_tcpLink 16 2 4 5 none .big 1 (Nat.le_refl 1) 7 (by decide)
      (mbusInit 1000 ⟨0, 0, 0, fun _ => 0⟩ (fun _ => 0)) sampleLink sampleLink_rest
      [(.writeSingle 0x40001 0x1234, ⟨[⟨1, false⟩, ⟨1, true⟩], true⟩),
        (.read 0x40001 2 (fun _ => 0), ⟨[⟨2, true⟩, ⟨2, true⟩], true⟩)]
      (by
        simp only [List.forall_mem_cons, List.not_mem_nil, false_implies, implies_true, and_true]
        exact ⟨⟨by decide, rfl⟩, ⟨by decide, rfl⟩⟩)
  refine ⟨outs, mbus', link', hrun, ?_, hrest, hruns⟩
  have houts :
      (runAll (tcpLinkCall .little .big (storageIomap 16 2 4 5 none) 1 7)
          [(.writeSingle 0x40001 0x1234, ⟨[⟨1, false⟩, ⟨1, true⟩], true⟩),
            (.read 0x40001 2 (fun _ => 0), ⟨[⟨2, true⟩, ⟨2, true⟩], true⟩)]
          (mbusInit 1000 ⟨0, 0, 0, fun _ => 0⟩ (fun _ => 0), sampleLink)).map
        (fun r => r.1.map (fun out => (out.1, out.2.load 0 4)))
        =
      some [(0, [0x00, 0x00, 0x00, 0x00]), (0, [0x34, 0x12, 0x00, 0x00])] := by
    decide +kernel
  rw [hrun] at houts
  exact Option.some.inj houts

theorem mbus_tcpLink_fifo_late
    : ∃ (outs : List (Int × Mem)) (mbus' : Mbus) (link' : TcpLink Store)
        (served rest : List Request),
        runAll (tcpLinkCall .little .little (storageIomap 16 2 4 5 none) 1 7)
            [(.writeSingle 0x40001 0x1234, ⟨[⟨1, false⟩], true⟩),
              (.read 0x40001 2 (fun _ => 0), ⟨[⟨1, true⟩], true⟩)]
            (mbusInit 1000 ⟨0, 0, 0, fun _ => 0⟩ (fun _ => 0), sampleLink)
          =
        some (outs, mbus', link')
          ∧
        [Request.writeHoldingRegister 0 0x1234, .readHoldingRegisters 0 2] = served ++ rest := by
  obtain ⟨outs, mbus', link', served, rest, answered, taken, hrun, -, hissued, -⟩ :=
    mbus_tcpLink_fifo 16 2 4 5 none .little .little 1 (Nat.le_refl 1) 7 (by decide)
      (mbusInit 1000 ⟨0, 0, 0, fun _ => 0⟩ (fun _ => 0)) sampleLink sampleLink_rest
      [(.writeSingle 0x40001 0x1234, ⟨[⟨1, false⟩], true⟩),
        (.read 0x40001 2 (fun _ => 0), ⟨[⟨1, true⟩], true⟩)]
  exact ⟨outs, mbus', link', served, rest, hrun, hissued⟩

end Modbus
