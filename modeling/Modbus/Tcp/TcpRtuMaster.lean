import Modbus.Data.Runs
import Modbus.Master.Op
import Modbus.Tcp.Setup

/-!
This module contains the program `tcp_rtu_master.c` over TCP. It connects once and then goes through
its operations, whatever becomes of the connection in the meantime.
-/

namespace Modbus

namespace MbusOp

/-- The operation reaches the transport. -/
def touches : MbusOp → Bool
  | table op => op.issues
  | loopback size _ => decide (size.toNat ≤ 250)
  | sendMsg _ _ | getMsg _ => true

section Run

variable {τ : Type} (transport : Transport τ) (host : Endian) {slave : Int} (mbus : Mbus)

theorem run_of_not_touches {op : MbusOp} (hop : op.touches = false) (w : τ)
    : ∃ (result : Int), op.run transport host slave mbus w = some (result, mbus, w) := by
  cases op with
  | table op => exact ⟨-1, op.run_of_not_issues transport host slave mbus w hop⟩
  | loopback size buffer =>
    simp only [touches, decide_eq_false_iff_not, Nat.not_le] at hop
    refine ⟨-1, ?_⟩
    rw [run, mbusLoopback, if_pos hop]
    rfl
  | sendMsg => cases hop
  | getMsg => cases hop

variable (hslave : slave ≠ 0) {P R : τ → Prop}
  (htx : ∀ (transaction : Txn) (size : Nat) (w : τ), transaction.arg = slave → size < 2 ^ 16 →
    P w → ∃ (w' : τ), mbPduTx transport transaction size w = some w' ∧ P w' ∧ R w')
  (hrx : ∀ (transaction : Txn) (tmo : UInt32) (w : τ), transaction.arg = slave → P w →
    ∃ (rxCount : Int) (transaction' : Txn) (w' : τ),
      mbPduRx transport transaction tmo w = some (rxCount, transaction', w') ∧ R w')

include hslave htx hrx

theorem mbusExchange_rule {size : Nat} (hsize : size < 2 ^ 16) {w : τ} (h : P w)
    : ∃ (rxCount : Int) (mbus' : Mbus) (w' : τ),
        mbusExchange transport mbus slave size w = some (rxCount, mbus', w') ∧ R w' := by
  obtain ⟨w₁, htx, hkept, -⟩ := htx (mbus.request slave) size w rfl hsize h
  obtain ⟨rxCount, transaction, w₂, hrx, hreached⟩ := hrx (mbus.request slave) mbus.timeout w₁ rfl
    hkept
  unfold mbusExchange
  simp only [htx, hrx, if_pos hslave]
  exact ⟨_, _, _, rfl, hreached⟩

/-- What transmitting keeps and both lead to holds after an operation. -/
theorem run_rule {op : MbusOp} (hop : op.touches = true) {w : τ} (h : P w)
    : ∃ (result : Int) (mbus' : Mbus) (w' : τ),
        op.run transport host slave mbus w = some (result, mbus', w') ∧ R w' := by
  cases op with
  | table op =>
    obtain ⟨scratch, size, ⟨-, hsize⟩, hexchanges⟩ :=
      op.exchanges_of_issues transport host slave mbus w hslave hop
    have hmax : maxPduSize = 253 := rfl
    obtain ⟨rxCount, mbus', w', hexchange, hreached⟩ := mbusExchange_rule transport
      { mbus with scratch } hslave htx hrx (show size < 2 ^ 16 by omega) h
    obtain ⟨result, hrun, -⟩ := hexchanges rxCount mbus' w' hexchange
    exact ⟨result, mbus', w', hrun, hreached⟩
  | loopback size buffer =>
    have hsize : ¬size.toNat > 250 := by
      have hle := of_decide_eq_true hop
      omega
    obtain ⟨rxCount, mbus', w', hexchange, hreached⟩ := mbusExchange_rule transport
      { mbus with scratch := ((mbus.scratch.store 0 Function.diagnostics.code).store16 host 1
        pduDiagLoopback).copy PduDiag.data (buffer.load 0 size.toNat) } hslave htx hrx
      (show size.toNat + PduDiag.size < 2 ^ 16 by rw [PduDiag.size]; omega) h
    have hrun := run_effect transport host slave mbus w (.loopback size buffer)
    simp only [effect, request, if_neg hsize, hexchange, Option.map_some,
      Option.map_eq_some_iff] at hrun
    obtain ⟨⟨result, mbus₁, w₁⟩, hrun, heq⟩ := hrun
    cases heq
    exact ⟨result, mbus', w', hrun, hreached⟩
  | sendMsg msg size =>
    obtain ⟨w', htx, -, hreached⟩ := htx { mbus.request slave with data := msg } size.toNat w rfl
      (by have hlt := size.toNat_lt; omega) h
    refine ⟨0, { mbus with transaction := { mbus.request slave with data := msg } }, w', ?_,
      hreached⟩
    rw [run, mbusSendMsg]
    simp only [htx]
  | getMsg msg =>
    obtain ⟨rxCount, transaction, w', hrx, hreached⟩ := hrx
      { mbus.transaction with arg := slave, data := msg, unit := UInt8.ofInt slave } mbus.timeout w
      rfl h
    refine ⟨rxCount, { mbus with transaction }, w', ?_, hreached⟩
    rw [run, mbusGetMsg]
    simp only [hrx, Option.map_some]

end Run

end MbusOp

section Calls

variable (k : Kernel) (host : Endian) {table : Int → Option Socket} {peer : Int}

/-- The descriptors are these, and some call was made on a descriptor that was not in use. -/
structure Fds.Misused (table : Int → Option Socket) (fds : Fds) : Prop where
  table : fds.table = table
  misused : fds.misused = true

theorem Fds.use_free {fds : Fds} (htable : fds.table = table) (hfree : table peer = none)
    : (fds.use peer).Misused table := by
  refine ⟨htable, ?_⟩
  simp [Fds.use, htable, hfree]

theorem Kernel.close_free {fds : Fds} (htable : fds.table = table) (hfree : table peer = none)
    : (k.setupOs.close peer fds).Misused table := by
  obtain ⟨htable', hmisused⟩ := Fds.use_free htable hfree
  refine ⟨?_, hmisused⟩
  change Function.update (fds.use peer).table peer none = table
  rw [htable', ← hfree, Function.update_eq_self]

theorem Kernel.osTcpSend_free {fds : Fds} (hfree : fds.table peer = none) (buffer : Mem)
    {size : Nat} (hsize : size < 2 ^ 31)
    : ∃ (result : Int),
        osTcpSend k.os peer buffer size fds = some (result, fds.use peer) ∧ result ≤ 0 := by
  have hsend (p remain : Int) : k.os.send peer buffer p remain fds = (-1, fds.use peer) := by
    simp [Kernel.os, hfree]
  obtain ⟨result, fds', hgo, hends⟩ := @osTcpTransfer_rule _ k.os.port _
    ((k.keeps_hold fds.table ⟨[]⟩).allowed_send peer buffer) _ hsize
    (fun p fds' => p = 0 ∧ fds' = fds)
    (by
      rintro p n _ fds' - ⟨rfl, rfl⟩ htransfer hpos
      rw [hsend, Prod.mk.injEq] at htransfer
      omega)
    fds ⟨rfl, rfl⟩
  cases hends with
  | whole hpos h => omega
  | failed _ h htransfer hn =>
    obtain ⟨rfl, rfl⟩ := h
    rw [hsend, Prod.mk.injEq] at htransfer
    refine ⟨result, ?_, hn⟩
    rw [htransfer.2]
    exact hgo

theorem Kernel.mbTcpTx_free {transaction : Txn} {t : MbTcp Fds} (htable : t.net.table = table)
    (hfree : table transaction.arg = none) {size : Nat} (hsize : size < 2 ^ 16)
    : ∃ (t' : MbTcp Fds),
        mbTcpTx k.os host transaction size t = some t' ∧ t'.isDown = true ∧ t'.net.Misused table
          := by
  obtain ⟨result, hsend, hresult⟩ := k.osTcpSend_free (htable.symm ▸ hfree)
    (mbTcpMessage host transaction size t.mbap)
    (show mbapHeaderSize + size < 2 ^ 31 by rw [mbapHeaderSize]; omega)
  rw [mbTcpTx_eq, hsend]
  dsimp only
  rw [if_pos hresult]
  exact ⟨_, rfl, rfl, k.close_free (Fds.use_free htable hfree).table hfree⟩

theorem Kernel.mbTcpRx_free {transaction : Txn} {t : MbTcp Fds} (htable : t.net.table = table)
    (hfree : table transaction.arg = none) (tmo : UInt32)
    : ∃ (result : Int) (transaction' : Txn) (t' : MbTcp Fds),
        mbTcpRx k.os host transaction tmo t = some (result, transaction', t')
          ∧
        t'.isDown = true
          ∧
        t'.net.Misused table := by
  have hwait : osTcpRecvWait k.os transaction.arg tmo t.net
      = (-1, t.net.use transaction.arg) := by
    simp [osTcpRecvWait, Kernel.os, htable, hfree]
  unfold mbTcpRx
  simp only [hwait, ↓reduceIte]
  exact ⟨_, _, _, rfl, rfl, k.close_free (Fds.use_free htable hfree).table hfree⟩

variable (hsend : ∀ (n : Nat), 0 < k.send n) {socket : Socket}

include hsend

theorem Kernel.osTcpSend_held {fds : Fds} (h : Fds.Hold table socket (some peer) fds)
    (buffer : Mem) {size : Nat} (hpos : 0 < size) (hsize : size < 2 ^ 31)
    : ∃ (fds' : Fds),
        osTcpSend k.os peer buffer size fds = some ((size : Int), fds')
          ∧
        Fds.Hold table socket (some peer) fds' := by
  have hkeeps := k.keeps_hold table socket
  obtain ⟨result, fds', hgo, hends⟩ := @osTcpTransfer_rule _ k.os.port _
    (hkeeps.allowed_send peer buffer) _ hsize
    (fun _ fds' => Fds.Hold table socket (some peer) fds')
    (by
      intro p n fds fds' _ h htransfer _
      have hkept := hkeeps.send h buffer p (size - p : Nat)
      rw [htransfer] at hkept
      exact hkept)
    fds h
  cases hends with
  | whole _ h => exact ⟨fds', hgo, h⟩
  | @failed p fds₁ _ _ hp h htransfer hn =>
    -- Something is left to be sent, of which something is accepted.
    have hused : (fds₁.table peer).isNone = false := by
      rw [h.2.table, Function.update_self]
      rfl
    have haccepts := hsend fds₁.calls
    simp only [Kernel.os, hused, Bool.false_eq_true, ↓reduceIte, Prod.mk.injEq] at htransfer
    omega

theorem Kernel.mbTcpTx_held {transaction : Txn} {t : MbTcp Fds} (hup : t.isDown = false)
    (h : Fds.Hold table socket (some transaction.arg) t.net) {size : Nat} (hsize : size < 2 ^ 16)
    : ∃ (t' : MbTcp Fds),
        mbTcpTx k.os host transaction size t = some t'
          ∧
        t'.isDown = false
          ∧
        Fds.Hold table socket (some transaction.arg) t'.net := by
  have hheader : mbapHeaderSize = 7 := rfl
  obtain ⟨fds', hsend, hkept⟩ := k.osTcpSend_held hsend h
    (mbTcpMessage host transaction size t.mbap) (show 0 < mbapHeaderSize + size by omega)
    (by omega)
  rw [mbTcpTx_eq, hsend]
  dsimp only
  rw [if_neg (by omega)]
  exact ⟨_, rfl, hup, hkept⟩

end Calls

/-- An operation on the handle. The output is its result, and whether the transport was down. -/
def Kernel.call (k : Kernel) (host : Endian) (slave : Int) (op : MbusOp) (s : Mbus × MbTcp Fds)
    : Option ((Int × Bool) × Mbus × MbTcp Fds) :=
  (op.run (mbTcp k.os host) host slave s.1 s.2).map (fun r => ((r.1, s.2.isDown), r.2))

/--
The program, of which the operations are all the same. It does not look at the handle that it got,
nor at whether an operation failed.
-/
def Kernel.tcpRtuMaster (k : Kernel) (host : Endian) (ip : String) (port : UInt16)
    (ops : List MbusOp) (mbus : Mbus) (mbap : Mem) (fds : Fds)
    : Int × Option (List (Int × Bool) × Mbus × MbTcp Fds) :=
  let r := mbusConnect (mbTcp k.os host) ip (mbTcpInit port false mbap fds)
  (r.1, runAll (k.call host r.1) ops (mbus, r.2))

/-- The descriptor of the handle is in use as long as the transport is up. -/
def Linked (table : Int → Option Socket) (socket : Socket) (slave : Int) (t : MbTcp Fds) : Prop :=
  match t.isDown with
  | false => Fds.Hold table socket (some slave) t.net
  | true => t.net.table = table

section Run

variable (k : Kernel) (hsend : ∀ (n : Nat), 0 < k.send n) (host : Endian)
  {table : Int → Option Socket} {socket : Socket} {slave : Int} (hslave : slave ≠ 0)
  (hfree : table slave = none)

include hsend hslave in
theorem Kernel.run_up {op : MbusOp} (hop : op.touches = true) (mbus : Mbus) {t : MbTcp Fds}
    (h : Linked table socket slave t) (hup : t.isDown = false)
    : ∃ (result : Int) (mbus' : Mbus) (t' : MbTcp Fds),
        op.run (mbTcp k.os host) host slave mbus t = some (result, mbus', t')
          ∧
        Linked table socket slave t'
          ∧
        t'.net.misused = false := by
  have hlinked {t : MbTcp Fds} {transaction : Txn} (harg : transaction.arg = slave)
      (h : Owned (Fds.Hold table socket) transaction t)
      : Linked table socket slave t ∧ t.net.misused = false := by
    rw [Owned, harg] at h
    rw [Linked]
    cases hdown : t.isDown with
    | false =>
      rw [hdown] at h
      exact ⟨h, h.2.misused⟩
    | true =>
      rw [hdown] at h
      exact ⟨h.table, h.misused⟩
  rw [Linked, hup] at h
  apply MbusOp.run_rule (mbTcp k.os host) host mbus hslave (P := fun t =>
    t.isDown = false ∧ Fds.Hold table socket (some slave) t.net) ?_ ?_ hop ⟨hup, h⟩
  . rintro transaction size t rfl hsize ⟨hup, h⟩
    obtain ⟨t', htx, hup', h'⟩ := k.mbTcpTx_held host hsend hup h hsize
    refine ⟨t', htx, ⟨hup', h'⟩, hlinked rfl ?_⟩
    rw [Owned, hup']
    exact h'
  . rintro transaction tmo t rfl ⟨hup, h⟩
    have howned : Owned (Fds.Hold table socket) transaction t := by
      rw [Owned, hup]
      exact h
    obtain ⟨rxCount, transaction', t', hrx, harg, -, h', -⟩ :=
      mbTcpRx_owned (k.keeps_hold table socket) host howned hup tmo
    exact ⟨rxCount, transaction', t', hrx, hlinked harg h'⟩

include hslave hfree in
theorem Kernel.run_down {op : MbusOp} (hop : op.touches = true) (mbus : Mbus) {t : MbTcp Fds}
    (h : Linked table socket slave t) (hdown : t.isDown = true)
    : ∃ (result : Int) (mbus' : Mbus) (t' : MbTcp Fds),
        op.run (mbTcp k.os host) host slave mbus t = some (result, mbus', t')
          ∧
        Linked table socket slave t'
          ∧
        t'.net.misused = true := by
  have hlinked {t : MbTcp Fds} (hdown : t.isDown = true) (h : t.net.Misused table)
      : Linked table socket slave t ∧ t.net.misused = true := by
    rw [Linked, hdown]
    exact ⟨h.table, h.misused⟩
  rw [Linked, hdown] at h
  apply MbusOp.run_rule (mbTcp k.os host) host mbus hslave (P := fun t => t.net.table = table)
    ?_ ?_ hop h
  . rintro transaction size t rfl hsize h
    obtain ⟨t', htx, hdown', h'⟩ := k.mbTcpTx_free host h hfree hsize
    exact ⟨t', htx, h'.table, hlinked hdown' h'⟩
  . rintro transaction tmo t rfl h
    obtain ⟨rxCount, transaction', t', hrx, hdown', h'⟩ := k.mbTcpRx_free host h hfree tmo
    exact ⟨rxCount, transaction', t', hrx, hlinked hdown' h'⟩

theorem Kernel.runAll_call_cons {op : MbusOp} {ops : List MbusOp} {mbus mbus₁ mbus' : Mbus}
    {t t₁ t' : MbTcp Fds} {result : Int} {outs : List (Int × Bool)}
    (hrun : op.run (mbTcp k.os host) host slave mbus t = some (result, mbus₁, t₁))
    (hall : runAll (k.call host slave) ops (mbus₁, t₁) = some (outs, mbus', t'))
    : runAll (k.call host slave) (op :: ops) (mbus, t)
        =
      some ((result, t.isDown) :: outs, mbus', t') := by
  simp only [runAll, Kernel.call, hrun, Option.map_some, hall]

include hsend hslave hfree

/-- Every operation that reaches the transport once it is down makes a call that it must not. -/
theorem Kernel.runAll_call (ops : List MbusOp) (mbus : Mbus) {t : MbTcp Fds}
    (h : Linked table socket slave t)
    : ∃ (outs : List (Int × Bool)) (mbus' : Mbus) (t' : MbTcp Fds),
        runAll (k.call host slave) ops (mbus, t) = some (outs, mbus', t')
          ∧
        outs.length = ops.length
          ∧
        Linked table socket slave t'
          ∧
        (t'.net.misused = false
            ↔
          t.net.misused = false ∧
            ∀ io ∈ ops.zip outs, io.1.touches = true → io.2.2 = false) := by
  induction ops generalizing mbus t with
  | nil => exact ⟨[], mbus, t, rfl, rfl, h, by simp⟩
  | cons op ops ih =>
    cases hop : op.touches with
    | false =>
      obtain ⟨result, hrun⟩ :=
        @MbusOp.run_of_not_touches _ (mbTcp k.os host) host slave mbus op hop t
      obtain ⟨outs, mbus', t', hall, hlen, h', hmisused⟩ := ih mbus h
      refine ⟨_, mbus', t', k.runAll_call_cons host hrun hall,
        congrArg Nat.succ hlen, h', ?_⟩
      rw [hmisused]
      simp [hop]
    | true =>
      cases hdown : t.isDown with
      | false =>
        have hmisused₀ : t.net.misused = false := by
          rw [Linked, hdown] at h
          exact h.2.misused
        obtain ⟨result, mbus₁, t₁, hrun, h₁, hmisused₁⟩ :=
          k.run_up hsend host hslave hop mbus h hdown
        obtain ⟨outs, mbus', t', hall, hlen, h', hmisused⟩ := ih mbus₁ h₁
        refine ⟨_, mbus', t', k.runAll_call_cons host hrun hall,
        congrArg Nat.succ hlen, h', ?_⟩
        rw [hmisused, hmisused₀, hmisused₁]
        simp [hdown]
      | true =>
        obtain ⟨result, mbus₁, t₁, hrun, h₁, hmisused₁⟩ :=
          k.run_down host hslave hfree hop mbus h hdown
        obtain ⟨outs, mbus', t', hall, hlen, h', hmisused⟩ := ih mbus₁ h₁
        refine ⟨_, mbus', t', k.runAll_call_cons host hrun hall,
        congrArg Nat.succ hlen, h', ?_⟩
        rw [hmisused, hmisused₁]
        simp [hop, hdown]

end Run

theorem Kernel.mbusConnect_linked (k : Kernel) (host : Endian) (ip : String) (port : UInt16)
    (mbap : Mem) {fds : Fds} (hzero : (fds.table 0).isSome) (hneg : fds.table (-1) = none)
    (hmisused : fds.misused = false) {slave : Int} {t : MbTcp Fds}
    (hconnect : mbusConnect (mbTcp k.os host) ip (mbTcpInit port false mbap fds) = (slave, t))
    : slave ≠ 0
        ∧
      fds.table slave = none
        ∧
      Linked fds.table ⟨connectOptions⟩ slave t
        ∧
      t.net.misused = false := by
  have hestablished := osTcpConnect_established k ⟨rfl, hmisused⟩ (some ip) port
  have hbringup : mbTcpBringup k.os (some ip) (mbTcpInit port false mbap fds) = (slave, t) :=
    hconnect
  have hos : k.os.connect (some ip) port fds = osTcpConnect k.setupOs (some ip) port fds := rfl
  unfold mbTcpBringup at hbringup
  simp only [mbTcpInit, Bool.false_eq_true, ↓reduceIte, hos] at hbringup
  generalize osTcpConnect k.setupOs (some ip) port fds = r at hestablished hbringup
  cases hestablished with
  | failed h =>
    cases hbringup
    exact ⟨show (-1 : Int) ≠ 0 by decide, hneg, h.table, h.misused⟩
  | @opened fd fds' hpos hfree h =>
    have hne : fd ≠ 0 := by
      rintro rfl
      rw [hfree] at hzero
      contradiction
    rw [if_pos (show fd > 0 by omega)] at hbringup
    cases hbringup
    exact ⟨hne, hfree, ⟨hfree, h⟩, h.misused⟩

/--
As long as what is sent is accepted, the program makes no call on a descriptor that is not in use if
and only if no operation reaches the transport while it is down, which it is from the start if the
program could not connect. In any case it owns one descriptor at most, and a disconnect would close
it.
-/
theorem tcpRtuMaster_descriptors (k : Kernel) (hsend : ∀ (n : Nat), 0 < k.send n) (host : Endian)
    (ip : String) (port : UInt16) (ops : List MbusOp) (mbus : Mbus) (mbap : Mem) {fds : Fds}
    (hzero : (fds.table 0).isSome) (hneg : fds.table (-1) = none) (hmisused : fds.misused = false)
    : ∃ (slave : Int) (outs : List (Int × Bool)) (mbus' : Mbus) (t' : MbTcp Fds),
        k.tcpRtuMaster host ip port ops mbus mbap fds = (slave, some (outs, mbus', t'))
          ∧
        outs.length = ops.length
          ∧
        (t'.net.misused = false
            ↔
          ∀ io ∈ ops.zip outs, io.1.touches = true → io.2.2 = false)
          ∧
        (t'.isDown = true → t'.net.table = fds.table)
          ∧
        (t'.isDown = false →
          fds.table slave = none
            ∧
          t'.net.table = Function.update fds.table slave (some ⟨connectOptions⟩))
          ∧
        (mbusDisconnect (mbTcp k.os host) slave t').2.net.table = fds.table := by
  obtain ⟨slave, t, hconnect⟩ : ∃ (slave : Int) (t : MbTcp Fds),
      mbusConnect (mbTcp k.os host) ip (mbTcpInit port false mbap fds) = (slave, t) := ⟨_, _, rfl⟩
  obtain ⟨hslave, hfree, hlinked, hmisused₀⟩ :=
    k.mbusConnect_linked host ip port mbap hzero hneg hmisused hconnect
  obtain ⟨outs, mbus', t', hall, hlen, h', hmisused'⟩ :=
    k.runAll_call hsend host hslave hfree ops mbus hlinked
  rw [Linked] at h'
  refine ⟨slave, outs, mbus', t', ?_, hlen, ?_, ?_, ?_, ?_⟩
  . rw [Kernel.tcpRtuMaster, hconnect]
    exact congrArg (Prod.mk slave) hall
  . rw [hmisused', hmisused₀]
    simp
  . intro hdown
    rw [hdown] at h'
    exact h'
  . intro hup
    rw [hup] at h'
    exact ⟨hfree, h'.2.table⟩
  . change (mbTcpShutdown k.os slave t').2.net.table = fds.table
    unfold mbTcpShutdown
    cases hdown : t'.isDown with
    | true =>
      rw [hdown] at h'
      exact h'
    | false =>
      rw [hdown] at h'
      exact (k.close_are h'.2 hfree).table

/-- A network in which the peer closes the connection instead of giving a response. -/
def droppingKernel : Kernel where
  mbal := .linux
  fails _ := false
  newFd calls := calls + 3
  send _ := 1460
  recv _ := some []
  select _ := 1

def sampleRepeat : List MbusOp :=
  List.replicate 2 (.table (.read (mbAddress 0 1) 1 (fun _ => 0)))

theorem tcpRtuMaster_descriptors_dropped
    : ∃ (outs : List (Int × Bool)) (mbus' : Mbus) (t' : MbTcp Fds),
        droppingKernel.tcpRtuMaster .little "192.168.10.134" 8502 sampleRepeat
            ⟨1000, ⟨0, 0, 0, fun _ => 0⟩, fun _ => 0x55⟩ (fun _ => 0) sampleFds
          =
        (3, some (outs, mbus', t'))
          ∧
        outs = [(eFrameNok, false), (eFrameNok, true)]
          ∧
        t'.net.misused = true
          ∧
        t'.net.table = sampleFds.table := by
  have hrun : ((droppingKernel.tcpRtuMaster .little "192.168.10.134" 8502 sampleRepeat
        ⟨1000, ⟨0, 0, 0, fun _ => 0⟩, fun _ => 0x55⟩ (fun _ => 0) sampleFds).2.map
          (fun r => (r.1, r.2.2.isDown)))
      =
      some ([(eFrameNok, false), (eFrameNok, true)], true) := rfl
  obtain ⟨slave, outs, mbus', t', hmaster, -, hmisused, hdown, -⟩ :=
    tcpRtuMaster_descriptors droppingKernel (fun _ => show (0 : Int) < 1460 by decide) .little
      "192.168.10.134" 8502 sampleRepeat ⟨1000, ⟨0, 0, 0, fun _ => 0⟩, fun _ => 0x55⟩ (fun _ => 0)
      (show (sampleFds.table 0).isSome from rfl) (show sampleFds.table (-1) = none from rfl) rfl
  rw [hmaster] at hrun
  simp only [Option.map_some, Option.some.injEq, Prod.mk.injEq] at hrun
  obtain ⟨rfl, hdown'⟩ := hrun
  have hslave : 3 = slave := congrArg Prod.fst hmaster
  refine ⟨_, mbus', t', hslave ▸ hmaster, rfl, ?_, hdown hdown'⟩
  rw [← Bool.not_eq_false, hmisused]
  intro hall
  -- The second of them found the transport down.
  have hsecond := hall (.table (.read (mbAddress 0 1) 1 (fun _ => 0)), eFrameNok, true)
    (by simp [sampleRepeat]) rfl
  contradiction

end Modbus
