import Modbus.Master.Op
import Modbus.Tcp.Trace

/-!
This module contains the transaction ids of a master on TCP. Its counter is the id of the
transaction record, which a receive overwrites with the id of the message, so that the peer has a
say in the ids of the requests that follow, and which a request increments even if it is not sent.
-/

namespace Modbus

inductive WireEvent where
  | request (id : UInt16)
  -- A request of which the socket has not accepted all bytes.
  | unsent
  | reply (id : UInt16)
  deriving DecidableEq, Repr

namespace WireEvent

def requestId : WireEvent → Option UInt16
  | request id => some id
  | unsent | reply _ => none

/-- What becomes of the counter. -/
def count (counter : UInt16) : WireEvent → UInt16
  | request id | reply id => id
  | unsent => counter + 1

end WireEvent

def countAfter (counter : UInt16) (log : List WireEvent) : UInt16 :=
  log.foldl WireEvent.count counter

def requestIds (log : List WireEvent) : List UInt16 :=
  log.filterMap WireEvent.requestId

def MbTcp.wireId {ω : Type} (t : MbTcp ω) : UInt16 :=
  word (t.mbap 0) (t.mbap 1)

/-- What the socket has accepted of a message, and from it whether the request is on the wire. -/
def wireRequest {ω : Type} (t : MbTcp ω) (size : Nat) (bytes : List UInt8) : WireEvent :=
  if bytes = t.mbap.load 0 (mbapHeaderSize + size) then .request t.wireId else .unsent

/--
The TCP transport with a log of the requests that it transmits, of those it fails to, and of the
messages that it accepts.
-/
def mbTcpWire (env : TcpEnv) (host : Endian)
    : Transport (MbTcp (List TcpEvent) × List WireEvent) where
  bringup name w :=
    let r := mbTcpBringup env.os name w.1
    (r.1, r.2, w.2)
  shutdown arg w :=
    let r := mbTcpShutdown env.os arg w.1
    (r.1, r.2, w.2)
  isDown w := mbTcpIsDown w.1
  tx transaction size w :=
    match mbTcpTx env.os host transaction size w.1 with
    | none => none
    | some t =>
      let bytes := accepted (t.net.drop w.1.net.length)
      some (t, w.2 ++ [wireRequest t size bytes])
  rx transaction tmo w :=
    match mbTcpRx env.os host transaction tmo w.1 with
    | none => none
    | some (result, transaction, t) =>
      some (result, transaction, t, if 0 ≤ result then w.2 ++ [.reply t.wireId] else w.2)
  rxIsBc w := mbTcpRxIsBc w.1
  rxAvail w := (false, w)

def mbusRun {τ : Type} (transport : Transport τ) (host : Endian)
    : List (MbusOp × Int) → Mbus → τ → Option (Mbus × τ)
  | [], mbus, w => some (mbus, w)
  | (op, slave) :: ops, mbus, w =>
    match op.run transport host slave mbus w with
    | none => none
    | some (_, mbus, w) => mbusRun transport host ops mbus w

/--
A log that began with `start` as the counter and has made it `counter`: each request has the id that
follows the counter before it.
-/
structure Counted (start : UInt16) (log : List WireEvent) (counter : UInt16) : Prop where
  last : countAfter start log = counter
  next : ∀ (before : List WireEvent) (q : UInt16) (after : List WireEvent),
    log = before ++ .request q :: after → q = countAfter start before + 1

namespace Counted

variable {start counter : UInt16} {log : List WireEvent}

theorem nil (counter : UInt16) : Counted counter [] counter := by
  refine ⟨rfl, ?_⟩
  intro before q after hlog
  simp at hlog

theorem append (h : Counted start log counter) (e : WireEvent)
    (he : ∀ (q : UInt16), e = .request q → q = counter + 1)
    : Counted start (log ++ [e]) (e.count counter) := by
  refine ⟨?_, ?_⟩
  . unfold countAfter
    rw [List.foldl_append]
    exact congrArg (WireEvent.count · e) h.last
  . intro before q after hlog
    obtain ⟨rfl, he', -⟩ | ⟨after', hlog', -⟩ := concat_eq_append_cons hlog
    . rw [he q he', h.last]
    . exact h.next before q after' hlog'

theorem request (h : Counted start log counter)
    : Counted start (log ++ [.request (counter + 1)]) (counter + 1) := by
  apply h.append (.request (counter + 1))
  intro q hq
  injection hq with hq
  exact hq.symm

theorem unsent (h : Counted start log counter)
    : Counted start (log ++ [.unsent]) (counter + 1) := by
  apply h.append .unsent
  intro q hq
  cases hq

theorem reply (h : Counted start log counter) (id : UInt16)
    : Counted start (log ++ [.reply id]) id := by
  apply h.append (.reply id)
  intro q hq
  cases hq

end Counted

section Wire

variable (env : TcpEnv) (host : Endian) {start : UInt16}

theorem wireId_mbTcpMessage {ω : Type} (transaction : Txn) (size : Nat) (mbap : Mem)
    {t : MbTcp ω} (h : t.mbap = mbTcpMessage host transaction size mbap)
    : t.wireId = transaction.id := by
  unfold MbTcp.wireId
  rw [h]
  simp only [mbTcpMessage, ccToBe16, Mem.store16_swapBe]
  rw [Mem.copy_lt _ _ _ _ (by decide), Mem.copy_lt _ _ _ _ (by decide)]
  simp [Mem.store16]

theorem mbTcpWire_tx {transaction : Txn} {counter : UInt16} (hid : transaction.id = counter + 1)
    (size : Nat) (t : MbTcp (List TcpEvent)) {log : List WireEvent} (h : Counted start log counter)
    : ∃ (t' : MbTcp (List TcpEvent)) (log' : List WireEvent),
        mbPduTx (mbTcpWire env host) transaction size (t, log) = some (t', log')
          ∧
        Counted start log' transaction.id := by
  obtain ⟨t', htx, hmbap, -⟩ := mbTcpTx_env host transaction env t size
  have hwire := wireId_mbTcpMessage host transaction size t.mbap hmbap
  refine ⟨t', log ++ [wireRequest t' size (accepted (t'.net.drop t.net.length))], ?_, ?_⟩
  . simp only [mbPduTx, mbTcpWire, htx]
  . unfold wireRequest
    rw [hwire, hid]
    split
    . exact h.request
    . exact h.unsent

theorem mbTcpWire_rx (transaction : Txn) (tmo : UInt32) (t : MbTcp (List TcpEvent))
    {log : List WireEvent} (h : Counted start log transaction.id)
    : ∃ (result : Int) (transaction' : Txn) (t' : MbTcp (List TcpEvent)) (log' : List WireEvent),
        mbPduRx (mbTcpWire env host) transaction tmo (t, log)
          =
        some (result, transaction', t', log')
          ∧
        Counted start log' transaction'.id := by
  obtain ⟨result, transaction', t', hrx, hreceives⟩ := mbTcpRx_env host transaction env t tmo
  refine ⟨result, transaction', t', if 0 ≤ result then log ++ [.reply t'.wireId] else log, ?_, ?_⟩
  . simp only [mbPduRx, mbTcpWire, hrx]
  split
  . next hresult =>
    obtain ⟨-, -, hid⟩ := hreceives.received hresult
    rw [hid, ccFromBe16, Mem.swapBe_load16]
    apply h.reply
  . next hresult =>
    obtain ⟨-, hid⟩ := hreceives.failed (by omega)
    rw [hid]
    exact h

theorem mbusExchange_wire (mbus : Mbus) (slave : Int) (size : Nat) (t : MbTcp (List TcpEvent))
    {log : List WireEvent} (h : Counted start log mbus.transaction.id)
    : ∃ (rxCount : Int) (mbus' : Mbus) (t' : MbTcp (List TcpEvent)) (log' : List WireEvent),
        mbusExchange (mbTcpWire env host) mbus slave size (t, log)
          =
        some (rxCount, mbus', t', log')
          ∧
        Counted start log' mbus'.transaction.id := by
  have hid : (mbus.request slave).id = mbus.transaction.id + 1 := rfl
  obtain ⟨t₁, log₁, htx, hrequest⟩ := mbTcpWire_tx env host hid size t h
  by_cases hslave : slave = 0
  . exact ⟨_, _, _, _, mbusExchange_of_broadcast hslave htx, hrequest⟩
  . obtain ⟨result, transaction', t', log', hrx, hcounted⟩ :=
      mbTcpWire_rx env host (mbus.request slave) mbus.timeout t₁ hrequest
    exact ⟨_, _, _, _, mbusExchange_of_rx hslave htx hrx, hcounted⟩

theorem MbusOp.effect_wire (op : MbusOp) (slave : Int) (mbus : Mbus) (t : MbTcp (List TcpEvent))
    {log : List WireEvent} (h : Counted start log mbus.transaction.id)
    : ∃ (mbus' : Mbus) (t' : MbTcp (List TcpEvent)) (log' : List WireEvent),
        op.effect (mbTcpWire env host) host slave mbus (t, log) = some (mbus', t', log')
          ∧
        Counted start log' mbus'.transaction.id := by
  obtain heffect | ⟨scratch, size, -, heffect⟩ | ⟨msg, size, rfl⟩ | ⟨msg, rfl⟩ :=
    op.effect_cases (mbTcpWire env host) host slave mbus (t, log)
  . exact ⟨mbus, t, log, heffect, h⟩
  . obtain ⟨rxCount, mbus', t', log', hexchange, hcounted⟩ :=
      mbusExchange_wire env host { mbus with scratch } slave size t h
    refine ⟨mbus', t', log', ?_, hcounted⟩
    rw [heffect, hexchange]
    rfl
  . have hid : { mbus.request slave with data := msg }.id = mbus.transaction.id + 1 := rfl
    obtain ⟨t', log', htx, hcounted⟩ := mbTcpWire_tx env host hid size.toNat t h
    refine ⟨{ mbus with transaction := { mbus.request slave with data := msg } }, t', log', ?_,
      hcounted⟩
    simp only [MbusOp.effect, htx]
    rfl
  . obtain ⟨result, transaction', t', log', hrx, hcounted⟩ := mbTcpWire_rx env host
      { mbus.transaction with arg := slave, data := msg, unit := UInt8.ofInt slave } mbus.timeout t
      h
    refine ⟨{ mbus with transaction := transaction' }, t', log', ?_, hcounted⟩
    simp only [MbusOp.effect, hrx]
    rfl

theorem mbusRun_wire (ops : List (MbusOp × Int)) (mbus : Mbus) (t : MbTcp (List TcpEvent))
    {log : List WireEvent} (h : Counted start log mbus.transaction.id)
    : ∃ (mbus' : Mbus) (t' : MbTcp (List TcpEvent)) (log' : List WireEvent),
        mbusRun (mbTcpWire env host) host ops mbus (t, log) = some (mbus', t', log')
          ∧
        Counted start log' mbus'.transaction.id := by
  induction ops generalizing mbus t log with
  | nil => exact ⟨mbus, t, log, rfl, h⟩
  | cons step ops ih =>
    obtain ⟨op, slave⟩ := step
    obtain ⟨mbus₁, t₁, log₁, heffect, hcounted⟩ := op.effect_wire env host slave mbus t h
    rw [← MbusOp.run_effect, Option.map_eq_some_iff] at heffect
    obtain ⟨⟨result, w⟩, hrun, rfl⟩ := heffect
    unfold mbusRun
    rw [hrun]
    exact ih mbus₁ t₁ hcounted

end Wire

def Sequential (ids : List UInt16) : Prop :=
  ∀ (before : List UInt16) (p q : UInt16) (after : List UInt16),
    ids = before ++ p :: q :: after → q = p + 1

/-- Any 65536 requests in a row have different ids. -/
def WindowDistinct (ids : List UInt16) : Prop :=
  ∀ (before : List UInt16) (p : UInt16) (between : List UInt16) (q : UInt16) (after : List UInt16),
    ids = before ++ p :: (between ++ q :: after) → between.length + 1 < 65536 → p ≠ q

/--
From a request to the next one nothing moves the counter for good: the last message that is accepted
in between sets it, each request that is not sent since adds one, and this is the id of the earlier
request again.
-/
def CountKept (log : List WireEvent) : Prop :=
  ∀ (before : List WireEvent) (p : UInt16) (between : List WireEvent) (q : UInt16)
    (after : List WireEvent),
    log = before ++ .request p :: (between ++ .request q :: after) →
      (∀ (id : UInt16), .request id ∉ between) → countAfter p between = p

theorem Sequential.add {ids after : List UInt16} {q : UInt16} (h : Sequential ids)
    (between : List UInt16) (before : List UInt16) (p : UInt16)
    (hids : ids = before ++ p :: (between ++ q :: after))
    : q.toNat = (p.toNat + between.length + 1) % 65536 := by
  induction between generalizing before p with
  | nil =>
    rw [h before p q after hids]
    exact UInt16.toNat_add p 1
  | cons b between ih =>
    have hb := congrArg UInt16.toNat (h before p b (between ++ q :: after) hids)
    rw [UInt16.toNat_add] at hb
    rw [ih (before ++ [p]) b (by rw [hids]; simp), hb, List.length_cons]
    simp only [UInt16.reduceToNat]
    omega

theorem Sequential.windowDistinct {ids : List UInt16} (h : Sequential ids)
    : WindowDistinct ids := by
  intro before p between q after hids hlen heq
  have hadd := h.add between before p hids
  have hlt := p.toNat_lt
  rw [← heq] at hadd
  omega

theorem requestIds_eq_nil {log : List WireEvent} (h : ∀ (id : UInt16), .request id ∉ log)
    : requestIds log = [] := by
  apply List.filterMap_eq_nil_iff.mpr
  intro e he
  cases e with
  | request id => exact absurd he (h id)
  | unsent | reply id => rfl

theorem requestIds_adjacent {log : List WireEvent} {ids ids' : List UInt16} {p q : UInt16}
    (h : requestIds log = ids ++ p :: q :: ids')
    : ∃ (before between after : List WireEvent),
        log = before ++ .request p :: (between ++ .request q :: after)
          ∧
        ∀ (id : UInt16), .request id ∉ between := by
  obtain ⟨front, back, hlog, -, hback⟩ := List.filterMap_eq_append_iff.mp h
  obtain ⟨before, e, rest, hrest, -, he, hids⟩ := List.filterMap_eq_cons_iff.mp hback
  obtain ⟨between, e', after, hafter, hnone, he', -⟩ := List.filterMap_eq_cons_iff.mp hids
  refine ⟨front ++ before, between, after, ?_, ?_⟩
  . cases e with
    | unsent | reply id => simp [WireEvent.requestId] at he
    | request id =>
      cases e' with
      | unsent | reply id' => simp [WireEvent.requestId] at he'
      | request id' =>
        injection he with he
        injection he' with he'
        rw [hlog, hrest, hafter, he, he', List.append_assoc]
  . intro id hmem
    have := hnone _ hmem
    simp [WireEvent.requestId] at this

theorem Counted.next_request {start counter : UInt16} {log before between after : List WireEvent}
    {p q : UInt16} (h : Counted start log counter)
    (hlog : log = before ++ .request p :: (between ++ .request q :: after))
    : q = countAfter p between + 1 := by
  rw [h.next (before ++ .request p :: between) q after (by rw [hlog]; simp)]
  simp [countAfter, WireEvent.count]

theorem Counted.sequential_iff {start counter : UInt16} {log : List WireEvent}
    (h : Counted start log counter)
    : Sequential (requestIds log) ↔ CountKept log := by
  constructor
  . intro hsequential before p between q after hlog hnone
    have hids : requestIds log = requestIds before ++ p :: q :: requestIds after := by
      have hnil := requestIds_eq_nil hnone
      unfold requestIds at hnil ⊢
      rw [hlog]
      simp only [List.filterMap_append, List.filterMap_cons, WireEvent.requestId, hnil,
        List.nil_append]
    have hq := hsequential _ p q _ hids
    rw [h.next_request hlog] at hq
    exact (UInt16.add_left_inj 1).mp hq
  . intro hkept ids p q ids' hids
    obtain ⟨before, between, after, hlog, hnone⟩ := requestIds_adjacent hids
    rw [h.next_request hlog, hkept before p between q after hlog hnone]

/--
In every run the ids of the requests that are transmitted are sequential, and then also different,
exactly if the counter is the same after what happens between two of them: the id of a message that
is accepted sets it, and a request that cannot be sent increments it nevertheless.
-/
theorem mbus_requestIds_iff (env : TcpEnv) (host : Endian) (ops : List (MbusOp × Int)) (mbus : Mbus)
    (t : MbTcp (List TcpEvent))
    : ∃ (mbus' : Mbus) (t' : MbTcp (List TcpEvent)) (log : List WireEvent),
        mbusRun (mbTcpWire env host) host ops mbus (t, []) = some (mbus', t', log)
          ∧
        (Sequential (requestIds log) ∧ WindowDistinct (requestIds log) ↔ CountKept log) := by
  obtain ⟨mbus', t', log, hrun, hcounted⟩ :=
    mbusRun_wire env host ops mbus t (Counted.nil mbus.transaction.id)
  refine ⟨mbus', t', log, hrun, ?_⟩
  rw [← hcounted.sequential_iff]
  constructor
  . intro h
    exact h.1
  . intro h
    exact ⟨h, h.windowDistinct⟩

theorem not_sequential_read
    : ∃ (log : List WireEvent),
        (mbusRun (mbTcpWire (sentEnv [0, 7, 0, 0, 0, 4, 1, 1, 1, 0]) .little) .little
          [(.table (.read (mbAddress 0 1) 1 (fun _ => 0)), 1),
            (.table (.read (mbAddress 0 1) 1 (fun _ => 0)), 1)]
          ⟨1000, ⟨0, 0, 0, fun _ => 0⟩, fun _ => 0x55⟩
          (⟨false, 502, false, fun _ => 0, [.connect 1]⟩, [])).map (fun r => r.2.2)
          =
        some log
          ∧
        ¬Sequential (requestIds log) := by
  refine ⟨[.request 1, .reply 7, .request 8], rfl, ?_⟩
  intro h
  have hnext := h [] 1 8 [] rfl
  exact absurd hnext (by decide)

end Modbus
