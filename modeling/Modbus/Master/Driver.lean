import Modbus.Data.Tasks
import Modbus.Master.Spec

/-!
This module contains the driver of the rt-kernel port, through which tasks use one master together.
The functions of the driver lock it for the whole of an operation, of which each access to the
buffers of the master and each call of the transport is a step here. A slave is opened and closed
without the lock.
-/

namespace Modbus

namespace MbusOp

/-- An operation together with the buffer of the caller. -/
def call {τ : Type} (transport : Transport τ) (host : Endian) (op : MbusOp) (slave : Int)
    (mbus : Mbus) (w : τ)
    : Option (MbusResult τ) :=
  match op with
  | table op => op.call transport host slave mbus w
  | loopback size buffer => mbusLoopback transport host mbus slave size buffer w
  | sendMsg msg size =>
    (mbusSendMsg transport mbus slave msg size w).map
      (fun r => { result := r.1, mbus := r.2.1, buffer := msg, transport := r.2.2 })
  | getMsg msg => mbusGetMsg transport mbus slave msg w

def buffer : MbusOp → Mem
  | table op => op.buffer
  | loopback _ buffer => buffer
  | sendMsg msg _ | getMsg msg => msg

/-- What the operation makes of a response. -/
def finish (op : MbusOp) (rxCount : Int) (response : Mem) : Int × Mem :=
  match op with
  | table op => op.finish rxCount response
  | loopback size buffer =>
    if rxCount < 0 then
      (rxCount, buffer)
    else if mbIsException response then
      (mbException response, buffer)
    else
      let n := if rxCount > size.toNat then size.toNat else rxCount.toNat
      (rxCount, buffer.copy 0 (response.load 0 n))
  | sendMsg msg _ => (0, msg)
  | getMsg _ => (rxCount, response)

section Steps

variable {τ : Type} (transport : Transport τ) (host : Endian)

def setTransaction (f : Mbus → Txn) (next : Prog (Mbus × τ) (Int × Mem))
    : Prog (Mbus × τ) (Int × Mem) :=
  .step (fun s => some ((), { s.1 with transaction := f s.1 }, s.2)) (fun _ => next)

def pduTx (size : Nat) (next : Prog (Mbus × τ) (Int × Mem)) : Prog (Mbus × τ) (Int × Mem) :=
  .step (fun s => (mbPduTx transport s.1.transaction size s.2).map (fun w => ((), s.1, w)))
    (fun _ => next)

def pduRx (received : Mbus → Txn → Mbus) (next : Int → Prog (Mbus × τ) (Int × Mem))
    : Prog (Mbus × τ) (Int × Mem) :=
  .step
    (fun s => (mbPduRx transport s.1.transaction s.1.timeout s.2).map
      (fun r => (r.1, received s.1 r.2.1, r.2.2)))
    next

def lookAt (op : MbusOp) (response : Mbus → Mem) (rxCount : Int) : Prog (Mbus × τ) (Int × Mem) :=
  .step (fun s => some (response s.1, s)) (fun response => .ret (op.finish rxCount response))

/-- Send the request in the scratch buffer, receive the response into it. -/
def exchange (op : MbusOp) (slave : Int) (size : Nat) : Prog (Mbus × τ) (Int × Mem) :=
  setTransaction (fun mbus => mbus.request slave)
    (pduTx transport size
      (if slave ≠ 0 then
        pduRx transport
          (fun mbus transaction => { mbus with transaction, scratch := transaction.data })
          (lookAt op Mbus.scratch)
      else
        lookAt op Mbus.scratch 0))

/-- The steps of an operation, as they are in `mbus.c`. -/
def prog (op : MbusOp) (slave : Int) : Prog (Mbus × τ) (Int × Mem) :=
  match op with
  | sendMsg msg size =>
    setTransaction (fun mbus => { mbus.request slave with data := msg })
      (pduTx transport size.toNat (.ret (0, msg)))
  | getMsg msg =>
    setTransaction
      (fun mbus =>
        { mbus.transaction with arg := slave, data := msg, unit := UInt8.ofInt slave })
      (pduRx transport (fun mbus transaction => { mbus with transaction })
        (lookAt (getMsg msg) (fun mbus => mbus.transaction.data)))
  | op =>
    -- Build request
    .step
      (fun s =>
        match op.request host slave s.1.scratch with
        | none => some (none, s)
        | some (scratch, size) => some (some size, { s.1 with scratch }, s.2))
      (fun size =>
        match size with
        | none => .ret (-1, op.buffer)
        | some size => exchange transport op slave size)

@[simp]
theorem run_setTransaction (f : Mbus → Txn) (next : Prog (Mbus × τ) (Int × Mem)) (mbus : Mbus)
    (w : τ)
    : (setTransaction f next).run (mbus, w)
        =
      next.run ({ mbus with transaction := f mbus }, w) := by
  rfl

@[simp]
theorem run_pduTx (size : Nat) (next : Prog (Mbus × τ) (Int × Mem)) (mbus : Mbus) (w : τ)
    : (pduTx transport size next).run (mbus, w)
        =
      match mbPduTx transport mbus.transaction size w with
      | none => none
      | some w => next.run (mbus, w) := by
  rw [pduTx, Prog.run]
  cases mbPduTx transport mbus.transaction size w with
  | none => rfl
  | some w => rfl

@[simp]
theorem run_pduRx (received : Mbus → Txn → Mbus) (next : Int → Prog (Mbus × τ) (Int × Mem))
    (mbus : Mbus) (w : τ)
    : (pduRx transport received next).run (mbus, w)
        =
      match mbPduRx transport mbus.transaction mbus.timeout w with
      | none => none
      | some (rxCount, transaction, w) => (next rxCount).run (received mbus transaction, w) := by
  rw [pduRx, Prog.run]
  cases mbPduRx transport mbus.transaction mbus.timeout w with
  | none => rfl
  | some r => rfl

@[simp]
theorem run_lookAt (op : MbusOp) (response : Mbus → Mem) (rxCount : Int) (s : Mbus × τ)
    : (lookAt op response rxCount).run s = some (op.finish rxCount (response s.1), s) := by
  rfl

end Steps

section Run

variable {τ : Type} (transport : Transport τ) (host : Endian) (op : MbusOp) (slave : Int)
  (mbus : Mbus) (w : τ)

theorem call_eq_exchange (hop : (∃ (op' : MasterOp), op = table op') ∨
      ∃ (size : UInt16) (buffer : Mem), op = loopback size buffer)
    : op.call transport host slave mbus w
        =
      match op.request host slave mbus.scratch with
      | none => some { result := -1, mbus, buffer := op.buffer, transport := w }
      | some (scratch, size) =>
        (mbusExchange transport { mbus with scratch } slave size w).map (fun r =>
          {
            result := (op.finish r.1 r.2.1.scratch).1
            mbus := r.2.1
            buffer := (op.finish r.1 r.2.1.scratch).2
            transport := r.2.2
          }) := by
  obtain ⟨op, rfl⟩ | ⟨size, buffer, rfl⟩ := hop
  . exact op.call_eq transport host slave mbus w
  . simp only [call, mbusLoopback, request, finish, MbusOp.buffer]
    split
    . rfl
    . dsimp only
      cases mbusExchange transport _ slave _ w with
      | none => rfl
      | some r =>
        dsimp only [Option.map]
        split
        . rfl
        . split
          . rfl
          . rfl

theorem run_exchange (size : Nat)
    : (exchange transport op slave size).run (mbus, w)
        =
      (mbusExchange transport mbus slave size w).map (fun r =>
        (op.finish r.1 r.2.1.scratch, r.2.1, r.2.2)) := by
  unfold mbusExchange exchange
  simp only [run_setTransaction, run_pduTx]
  cases mbPduTx transport (mbus.request slave) size w with
  | none => rfl
  | some w' =>
    dsimp only
    by_cases hslave : slave = 0
    . rw [if_neg (not_not.mpr hslave), if_neg (not_not.mpr hslave), run_lookAt]
      rfl
    . rw [if_pos hslave, if_pos hslave, run_pduRx]
      cases mbPduRx transport (mbus.request slave) mbus.timeout w' with
      | none => rfl
      | some r => rfl

theorem run_request (hop : (∃ (op' : MasterOp), op = table op') ∨
      ∃ (size : UInt16) (buffer : Mem), op = loopback size buffer)
    : (op.prog transport host slave).run (mbus, w)
        =
      (op.call transport host slave mbus w).map (fun r =>
        ((r.result, r.buffer), r.mbus, r.transport)) := by
  have hrun : (op.prog transport host slave).run (mbus, w)
      = match op.request host slave mbus.scratch with
        | none => some ((-1, op.buffer), mbus, w)
        | some (scratch, size) =>
          (exchange transport op slave size).run ({ mbus with scratch }, w) := by
    obtain ⟨op, rfl⟩ | ⟨size, buffer, rfl⟩ := hop
    all_goals
      simp only [prog, Prog.run]
      cases request host _ slave mbus.scratch with
      | none => rfl
      | some r => rfl
  rw [hrun, op.call_eq_exchange transport host slave mbus w hop]
  cases op.request host slave mbus.scratch with
  | none => rfl
  | some r =>
    dsimp only
    rw [run_exchange, Option.map_map]
    rfl

/-- The steps of an operation one after the other. -/
theorem run_prog
    : (op.prog transport host slave).run (mbus, w)
        =
      (op.call transport host slave mbus w).map (fun r =>
        ((r.result, r.buffer), r.mbus, r.transport)) := by
  cases op with
  | table op => exact run_request transport host (.table op) slave mbus w (.inl ⟨op, rfl⟩)
  | loopback size buffer =>
    exact run_request transport host (.loopback size buffer) slave mbus w
      (.inr ⟨size, buffer, rfl⟩)
  | sendMsg msg size =>
    simp only [prog, call, mbusSendMsg, run_setTransaction, run_pduTx]
    cases mbPduTx transport { mbus.request slave with data := msg } size.toNat w with
    | none => rfl
    | some w' => rfl
  | getMsg msg =>
    simp only [prog, call, mbusGetMsg, run_setTransaction, run_pduRx, run_lookAt]
    cases mbPduRx transport
      { mbus.transaction with arg := slave, data := msg, unit := UInt8.ofInt slave }
      mbus.timeout w with
    | none => rfl
    | some r => rfl

end Run

end MbusOp

/-- A call of one of the functions of the driver. The slave is what `fd_get_arg` returns. -/
structure MbCall where
  slave : Int
  op : MbusOp

inductive DrvEvent (ι γ ρ : Type) where
  | opened (i : ι) (name : String) (slave : Int)
  | closed (i : ι) (slave result : Int)
  | task (e : TaskEvent ι γ ρ)

def DrvEvent.returned {ι γ ρ : Type} : DrvEvent ι γ ρ → Option (γ × ρ)
  | task e => e.returned
  | _ => none

section Driver

variable {τ ι γ : Type} [DecidableEq ι] (transport : Transport τ)
  (prog : γ → Prog (Mbus × τ) (Int × Mem))

/-- What the tasks can do with the driver, in which `prog` are the functions that lock it. -/
inductive DrvStep (t : Tasks ι γ (Mbus × τ) (Int × Mem))
    : DrvEvent ι γ (Int × Mem) → Tasks ι γ (Mbus × τ) (Int × Mem) → Prop where
  | opened (i : ι) (name : String)
    : DrvStep t (.opened i name (mbTransportBringup transport (some name) t.shared.2).1)
        { t with shared := (t.shared.1, (mbTransportBringup transport (some name) t.shared.2).2) }
  | closed (i : ι) (slave : Int)
    : DrvStep t (.closed i slave (mbTransportShutdown transport slave t.shared.2).1)
        { t with shared := (t.shared.1, (mbTransportShutdown transport slave t.shared.2).2) }
  | task {e : TaskEvent ι γ (Int × Mem)} {t' : Tasks ι γ (Mbus × τ) (Int × Mem)}
      (h : t.Step prog e t')
    : DrvStep t (.task e) t'

/-- The driver after `mb_master_init`, before any task has called it. -/
def drvIdle (mbus : Mbus) (w : τ) : Tasks ι γ (Mbus × τ) (Int × Mem) where
  shared := (mbus, w)
  holder := none
  activity _ := .idle

/-- A transport whose bringup and shutdown only look at their arguments. -/
structure Transport.Stateless (transport : Transport τ) : Prop where
  bringup : ∀ (name : Option String) (w : τ), (transport.bringup name w).2 = w
  shutdown : ∀ (arg : Int) (w : τ), (transport.shutdown arg w).2 = w

variable {transport prog}

/-- To open and to close a slave does not get in the way of the other tasks. -/
theorem DrvStep.runs_task (hstateless : transport.Stateless)
    {t t' : Tasks ι γ (Mbus × τ) (Int × Mem)} {es : List (DrvEvent ι γ (Int × Mem))}
    (h : Runs (DrvStep transport prog) t es t')
    : ∃ (es' : List (TaskEvent ι γ (Int × Mem))),
        Runs (Tasks.Step prog) t es' t'
          ∧
        es'.filterMap TaskEvent.returned = es.filterMap DrvEvent.returned := by
  induction h with
  | nil t => exact ⟨[], .nil t, rfl⟩
  | @cons t t' t'' e es head _ ih =>
    obtain ⟨es', hruns, hreturned⟩ := ih
    cases head with
    | opened i name =>
      refine ⟨es', ?_, hreturned⟩
      rw [mbTransportBringup, hstateless.bringup] at hruns
      exact hruns
    | closed i slave =>
      refine ⟨es', ?_, hreturned⟩
      rw [mbTransportShutdown, hstateless.shutdown] at hruns
      exact hruns
    | @task e t' h =>
      refine ⟨e :: es', .cons h hruns, ?_⟩
      rw [List.filterMap_cons, List.filterMap_cons, hreturned]
      rfl

end Driver

end Modbus
