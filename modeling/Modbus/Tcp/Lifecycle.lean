import Mathlib.Logic.Relation
import Modbus.Slave.Sample
import Modbus.Tcp.Trace

/-!
This module contains the life of the connections of a TCP slave. The state of a connection is spread
over the `is_down` flag of the transport, the socket in the transaction of the task and the socket
itself. They go together at every point of the task, whatever the system calls return.
-/

namespace Modbus

variable {σ : Type}

/-- The points of the task at which it has to decide what to do next. -/
inductive SlavePoint where
  -- The condition of the loop that brings the transport up
  | bringup
  -- The test for a transport that is still down
  | check
  -- The call of `mb_slave_handle_request`
  | handleRequest
  deriving DecidableEq, Repr

/-- One step of `mb_slave`, for the id that the slave has at this time. -/
def mbSlaveStep {τ : Type} (host : Endian) (transport : Transport τ) (iomap : Iomap σ) (id : UInt8)
    : SlavePoint × SlaveTask σ τ → Option (SlavePoint × SlaveTask σ τ)
  | (.bringup, task) =>
    if mbTransportIsDown transport task.transport then
      let r := mbTransportBringup transport none task.transport
      let task :=
        { task with transaction := { task.transaction with arg := r.1 }, transport := r.2 }
      if r.1 = -1 then some (.check, task) else some (.bringup, task)
    else
      some (.check, task)
  | (.check, task) =>
    if task.transaction.arg = -1 then
      some (.bringup, task)
    else
      some (.handleRequest, { task with transaction := { task.transaction with unit := id } })
  | (.handleRequest, task) =>
    match mbSlaveHandleRequest host transport iomap task.transaction task.app task.transport with
    | none => none
    | some served =>
      some
        (.bringup,
          {
            transaction := served.transaction
            app := served.app
            transport := served.transport
          })

/-- What the task may come to, where other tasks may set the id of the slave at any time. -/
def SlaveReaches {τ : Type} (host : Endian) (transport : Transport τ) (iomap : Iomap σ)
    : SlavePoint × SlaveTask σ τ → SlavePoint × SlaveTask σ τ → Prop :=
  Relation.ReflTransGen
    (fun p p' => ∃ (id : UInt8), mbSlaveStep host transport iomap id p = some p')

section Reaches

variable {τ : Type} (host : Endian) (transport : Transport τ) (iomap : Iomap σ)

theorem mbSlaveBringup_reaches {tries : Nat} {task task' : SlaveTask σ τ}
    (h : mbSlaveBringup transport tries task = some task')
    : SlaveReaches host transport iomap (.bringup, task) (.check, task') := by
  induction tries generalizing task with
  | zero => simp [mbSlaveBringup] at h
  | succ tries ih =>
    unfold mbSlaveBringup at h
    dsimp only at h
    split at h
    . next hdown =>
      split at h
      . next hfail =>
        apply Relation.ReflTransGen.single
        refine ⟨0, ?_⟩
        injection h with h
        simp only [mbSlaveStep, hdown, ↓reduceIte, hfail]
        rw [← h, hfail]
      . next hfail =>
        apply Relation.ReflTransGen.head _ (ih h)
        refine ⟨0, ?_⟩
        simp only [mbSlaveStep, hdown, ↓reduceIte, hfail]
    . next hup =>
      apply Relation.ReflTransGen.single
      refine ⟨0, ?_⟩
      injection h with h
      simp only [mbSlaveStep]
      rw [if_neg hup, h]

theorem mbSlave_reaches {tries : Nat} {ids : List UInt8} {task task' : SlaveTask σ τ}
    (h : mbSlave host transport iomap tries ids task = some task')
    : SlaveReaches host transport iomap (.bringup, task) (.bringup, task') := by
  induction ids generalizing task with
  | nil =>
    injection h with h
    rw [h]
    exact Relation.ReflTransGen.refl
  | cons id ids ih =>
    unfold mbSlave at h
    split at h
    . contradiction
    . next task₁ hbringup =>
      have hcheck := mbSlaveBringup_reaches host transport iomap hbringup
      dsimp only at h
      split at h
      . next hdown =>
        apply (hcheck.tail _).trans (ih h)
        refine ⟨id, ?_⟩
        simp only [mbSlaveStep, hdown, ↓reduceIte]
      . next hup =>
        split at h
        . contradiction
        . next served hserved =>
          apply ((hcheck.tail ⟨id, _⟩).tail ⟨id, _⟩).trans (ih h)
          . exact (.handleRequest,
              { task₁ with transaction := { task₁.transaction with unit := id } })
          . simp only [mbSlaveStep, hup, ↓reduceIte]
          . simp only [mbSlaveStep, hserved]

end Reaches

def openSocket (transaction : Txn) (t : MbTcp (List TcpEvent)) : Option Int :=
  if t.isDown then none else some transaction.arg

def Tracks (transaction : Txn) (t : MbTcp (List TcpEvent)) : Prop :=
  Access.Holds (accesses t.net) (openSocket transaction t)

theorem Tracks.touches {transaction transaction' : Txn} {t t' : MbTcp (List TcpEvent)}
    {closes : Prop} (h : Tracks transaction t) (hup : t.isDown = false)
    (harg : transaction'.arg = transaction.arg) (htouches : Touches transaction.arg closes t t')
    : Tracks transaction' t' := by
  unfold Tracks openSocket at h ⊢
  rw [hup] at h
  rw [harg]
  exact htouches.holds hup h

section Slave

variable (env : TcpEnv) (host : Endian) (iomap : Iomap σ)

theorem mbSlaveHandleRequest_tracks {transaction : Txn} {t : MbTcp (List TcpEvent)}
    (h : Tracks transaction t) (hup : t.isDown = false) (app : σ)
    : ∃ served,
        mbSlaveHandleRequest host (mbTcp env.os host) iomap transaction app t = some served
          ∧
        served.transport.isServer = t.isServer
          ∧
        Tracks served.transaction served.transport := by
  obtain ⟨rxCount, transaction₁, t₁, hrx, hreceives⟩ :=
    mbTcpRx_env host transaction env t pduTimeout
  obtain ⟨closes, hcloses, htouches⟩ := hreceives.touches
  have h₁ := h.touches hup hreceives.arg htouches
  unfold mbSlaveHandleRequest
  rw [mbPduRx_mbTcp, hrx]
  dsimp only
  split
  . next hpos =>
    -- The socket is still open, as the receive has not failed.
    have hup₁ : t₁.isDown = false := by
      rw [← hup]
      apply (htouches.kept _).1
      intro hclosed
      rw [hcloses hclosed] at hpos
      exact absurd hpos (by decide)
    simp only [mbPduRxBc_mbTcp, mbPduRxAvail_mbTcp, Bool.false_eq_true, ↓reduceIte, mbPduTx_mbTcp,
      Bool.not_false]
    generalize mbSlaveException _ = res
    obtain ⟨t₂, htx, -, htouches₂⟩ :=
      mbTcpTx_env host { transaction₁ with data := res.2.pdu } env t₁ res.1.toNat
    have h₂ : Tracks { transaction₁ with data := res.2.pdu } t₁ := h₁
    rw [htx]
    exact ⟨_, rfl, htouches₂.isServer.trans htouches.isServer, h₂.touches hup₁ rfl htouches₂⟩
  . exact ⟨_, rfl, htouches.isServer, h₁⟩

def TcpEnv.Accepts : Prop :=
  ∀ (trace : List TcpEvent), env.accept trace = -1 ∨ 0 < env.accept trace

structure Lifecycle (p : SlavePoint × SlaveTask σ (MbTcp (List TcpEvent))) : Prop where
  isServer : p.2.transport.isServer = true
  tracks : Tracks p.2.transaction p.2.transport
  checked : p.1 = .check → p.2.transport.isDown = false ∨ p.2.transaction.arg = -1
  up : p.1 = .handleRequest → p.2.transport.isDown = false

theorem mbTcpBringup_tracks (haccept : env.Accepts) {transaction : Txn}
    {t : MbTcp (List TcpEvent)} (hserver : t.isServer = true) (hdown : t.isDown = true)
    (h : Tracks transaction t)
    : let r := mbTcpBringup env.os none t
      r.2.isServer = true ∧ Tracks { transaction with arg := r.1 } r.2 := by
  unfold Tracks openSocket at h ⊢
  rw [hdown] at h
  unfold mbTcpBringup
  simp only [hserver, ↓reduceIte, TcpEnv.os]
  obtain hfail | hpos := haccept t.net
  . rw [if_neg (by omega)]
    refine ⟨rfl, ?_⟩
    simp only [hdown, ↓reduceIte, accesses_append]
    rw [hfail]
    simpa [accesses, TcpEvent.access] using h
  . rw [if_pos hpos]
    refine ⟨rfl, ?_⟩
    simp only [Bool.false_eq_true, ↓reduceIte, accesses_append]
    have hacquire := h.acquire (env.accept t.net)
    simpa [accesses, TcpEvent.access, hpos] using hacquire

theorem mbSlaveStep_lifecycle (haccept : env.Accepts)
    {p : SlavePoint × SlaveTask σ (MbTcp (List TcpEvent))} (h : Lifecycle p) (id : UInt8)
    : ∃ p', mbSlaveStep host (mbTcp env.os host) iomap id p = some p' ∧ Lifecycle p' := by
  obtain ⟨point, task⟩ := p
  obtain ⟨hserver, htracks, hchecked, hup⟩ := h
  cases point with
  | bringup =>
    simp only [mbSlaveStep]
    split
    . next hdown =>
      obtain ⟨hserver', htracks'⟩ := mbTcpBringup_tracks env haccept hserver hdown htracks
      split
      . next hfail =>
        exact ⟨_, rfl, hserver', htracks', fun _ => .inr hfail, nofun⟩
      . exact ⟨_, rfl, hserver', htracks', nofun, nofun⟩
    . next hdown =>
      exact ⟨_, rfl, hserver, htracks, fun _ => .inl (Bool.not_eq_true _ ▸ hdown), nofun⟩
  | check =>
    simp only [mbSlaveStep]
    split
    . exact ⟨_, rfl, hserver, htracks, nofun, nofun⟩
    . next hne =>
      refine ⟨_, rfl, hserver, htracks, nofun, ?_⟩
      intro _
      exact (hchecked rfl).resolve_right hne
  | handleRequest =>
    obtain ⟨served, hserved, hserver', htracks'⟩ :=
      mbSlaveHandleRequest_tracks env host iomap htracks (hup rfl) task.app
    simp only [mbSlaveStep, hserved]
    exact ⟨_, rfl, hserver'.trans hserver, htracks', nofun, nofun⟩

theorem SlaveReaches.lifecycle (haccept : env.Accepts)
    {p p' : SlavePoint × SlaveTask σ (MbTcp (List TcpEvent))}
    (hreaches : SlaveReaches host (mbTcp env.os host) iomap p p') (h : Lifecycle p)
    : Lifecycle p' := by
  induction hreaches with
  | refl => exact h
  | tail _ hstep ih =>
    obtain ⟨id, hstep⟩ := hstep
    obtain ⟨p'', hstep', hlifecycle⟩ := mbSlaveStep_lifecycle env host iomap haccept ih id
    rw [hstep] at hstep'
    injection hstep' with heq
    rw [heq]
    exact hlifecycle

theorem lifecycle_mbTcpInit (port : UInt16) (mbap : Mem) (transaction : Txn) (app : σ)
    : Lifecycle
        (SlavePoint.bringup, { transaction, app, transport := mbTcpInit port true mbap [] }) := by
  refine ⟨rfl, ?_, nofun, nofun⟩
  exact Access.Holds.nil

/--
Whatever the system calls return, at every point of the task the transport is up exactly if the
socket of the transaction is the one that was accepted last and has not been closed, which it is
whenever a request is handled. Nothing is done with a socket that is not open, a socket is closed
once, and a connection is accepted only if no socket is open. The task never gets stuck.
-/
theorem mbSlave_lifecycle (haccept : env.Accepts) (port : UInt16) (mbap : Mem) (transaction : Txn)
    (app : σ) {point : SlavePoint} {task : SlaveTask σ (MbTcp (List TcpEvent))}
    (hreaches : SlaveReaches host (mbTcp env.os host) iomap
      (.bringup, { transaction, app, transport := mbTcpInit port true mbap [] }) (point, task))
    : (task.transport.isDown = false
        ↔
      Access.Latest (accesses task.transport.net) task.transaction.arg ∧
        Access.Held (accesses task.transport.net) task.transaction.arg)
        ∧
      (point = .handleRequest → task.transport.isDown = false)
        ∧
      Access.Proper (accesses task.transport.net)
        ∧
      (∀ (before between after : List (Access Int)) (peer : Int),
        accesses task.transport.net
          =
        before ++ .release peer :: between ++ .release peer :: after →
          .acquire peer ∈ between)
        ∧
      ∀ (id : UInt8), (mbSlaveStep host (mbTcp env.os host) iomap id (point, task)).isSome := by
  have h := hreaches.lifecycle env host iomap haccept
    (lifecycle_mbTcpInit port mbap transaction app)
  have htracks : Access.Holds (accesses task.transport.net)
    (openSocket task.transaction task.transport) := h.tracks
  refine ⟨?_, h.up, htracks.proper, ?_, ?_⟩
  . constructor
    . intro hup
      have hopen : openSocket task.transaction task.transport = some task.transaction.arg := by
        simp [openSocket, hup]
      exact ⟨htracks.latest _ hopen, (htracks.leaves _).mpr hopen⟩
    . intro ⟨_, hheld⟩
      have hopen := (htracks.leaves _).mp hheld
      unfold openSocket at hopen
      split at hopen
      . contradiction
      . next hdown => exact Bool.not_eq_true _ ▸ hdown
  . intro before between after peer hlog
    exact htracks.proper.acquire_mem hlog
  . intro id
    obtain ⟨p', hstep, -⟩ := mbSlaveStep_lifecycle env host iomap haccept h id
    rw [hstep]
    rfl

end Slave

theorem mbSlave_lifecycle_request
    : ∃ (task : SlaveTask Store (MbTcp (List TcpEvent))),
        SlaveReaches .little (mbTcp (sentEnv [0, 1, 0, 0, 0, 2, 1, 7]).os .little)
            (storageIomap 8 8 8 8 none)
            (.bringup,
              {
                transaction := ⟨0, 0, 0, fun _ => 0x55⟩
                app := ⟨fun _ => 0, fun _ => 0, fun _ => 0, fun _ => 0⟩
                transport := mbTcpInit 502 true (fun _ => 0) []
              })
            (.handleRequest, task)
          ∧
        task.transport.isDown = false
          ∧
        Access.Held (accesses task.transport.net) task.transaction.arg := by
  have haccept : (sentEnv [0, 1, 0, 0, 0, 2, 1, 7]).Accepts := by
    intro _
    exact .inr Int.one_pos
  have hstep (p p' : SlavePoint × SlaveTask Store (MbTcp (List TcpEvent)))
      (h : mbSlaveStep .little (mbTcp (sentEnv [0, 1, 0, 0, 0, 2, 1, 7]).os .little)
        (storageIomap 8 8 8 8 none) 1 p = some p')
      : SlaveReaches .little (mbTcp (sentEnv [0, 1, 0, 0, 0, 2, 1, 7]).os .little)
          (storageIomap 8 8 8 8 none) p p' := by
    exact .single ⟨1, h⟩
  -- The connection is accepted, found to be up, and a request is waited for.
  have hreaches :=
    ((hstep
      (.bringup,
        {
          transaction := ⟨0, 0, 0, fun _ => 0x55⟩
          app := ⟨fun _ => 0, fun _ => 0, fun _ => 0, fun _ => 0⟩
          transport := mbTcpInit 502 true (fun _ => 0) []
        }) _ rfl).trans (hstep _ _ rfl)).trans (hstep _ _ rfl)
  obtain ⟨hup, hhandle, -⟩ := mbSlave_lifecycle _ .little (storageIomap 8 8 8 8 none) haccept 502
    (fun _ => 0) ⟨0, 0, 0, fun _ => 0x55⟩ ⟨fun _ => 0, fun _ => 0, fun _ => 0, fun _ => 0⟩ hreaches
  have hdown := hhandle rfl
  exact ⟨_, hreaches, hdown, (hup.mp hdown).2⟩

end Modbus
