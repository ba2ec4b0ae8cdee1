import Modbus.Master.Driver
import Modbus.Rtu.Network

/-!
This module contains the driver of the rt-kernel port on an RTU line. Its functions are atomic,
however the tasks that call them are scheduled, also while slaves are opened and closed.
-/

namespace Modbus

theorem mbRtu_stateless {ω : Type} (os : RtuOs ω) (host : Endian) (rounds : Nat)
    : (mbRtu os host rounds).Stateless := by
  constructor
  . intro name rtu
    change (mbRtuBringup _ rtu).2 = rtu
    unfold mbRtuBringup
    split
    . rfl
    . split
      . rfl
      . rfl
  . exact fun arg rtu => rfl

section Calls

variable {τ : Type} (transport : Transport τ) (host : Endian)

def mbProg (c : MbCall) : Prog (Mbus × τ) (Int × Mem) :=
  c.op.prog transport host c.slave

/-- A call that is executed at once. -/
def mbCall (c : MbCall) (s : Mbus × τ) : Option ((Int × Mem) × Mbus × τ) :=
  (c.op.call transport host c.slave s.1 s.2).map (fun r =>
    ((r.result, r.buffer), r.mbus, r.transport))

theorem run_mbProg : (fun c => (mbProg transport host c).run) = mbCall transport host := by
  funext c s
  exact c.op.run_prog transport host c.slave s.1 s.2

end Calls

/--
Whatever tasks call the driver of an RTU master, and however their steps interleave with each other
and with slaves being opened and closed, the calls that return have the results that they would have
if each of them had been executed at once, in the order in which they return. No two tasks are in
the middle of a call.
-/
theorem mbRtu_driver_atomic {ω ι : Type} [DecidableEq ι] (os : RtuOs ω) (host : Endian)
    (rounds : Nat) (mbus : Mbus) (rtu : MbRtu ω)
    {es : List (DrvEvent ι MbCall (Int × Mem))}
    {t : Tasks ι MbCall (Mbus × MbRtu ω) (Int × Mem)}
    (h : Runs (DrvStep (mbRtu os host rounds) (mbProg (mbRtu os host rounds) host))
      (drvIdle mbus rtu) es t)
    : let calls := es.filterMap DrvEvent.returned
      ∃ (mbus' : Mbus) (rtu' : MbRtu ω),
        runAll (mbCall (mbRtu os host rounds) host) (calls.map Prod.fst) (mbus, rtu)
          =
        some (calls.map Prod.snd, mbus', rtu')
          ∧
        (t.holder = none → t.shared = (mbus', rtu'))
          ∧
        ∀ (i j : ι) (c c' : MbCall) (p p' : Prog (Mbus × MbRtu ω) (Int × Mem)),
          t.activity i = .inside c p → t.activity j = .inside c' p' → i = j := by
  intro calls
  obtain ⟨es', hruns, hreturned⟩ := DrvStep.runs_task (mbRtu_stateless os host rounds) h
  obtain ⟨⟨mbus', rtu'⟩, hrun, hcoherent⟩ :=
    Tasks.runs_atomic hruns (Tasks.coherent_idle (mbus, rtu))
  rw [hreturned, run_mbProg] at hrun
  refine ⟨mbus', rtu', hrun, hcoherent.free, ?_⟩
  intro i j c c' p p' hi hj
  have hholder := hcoherent.exclusive i c p hi
  rw [hcoherent.exclusive j c' p' hj] at hholder
  exact (Option.some.inj hholder).symm

/--
One task sends a message of its own while the other closes a slave, and then asks for a table that
does not exist.
-/
theorem mbRtu_driver_atomic_two
    : ∃ (mbus' : Mbus) (rtu' : MbRtu Line),
        runAll (mbCall (mbRtu rtuLine .little 2048) .little)
            [⟨1, .sendMsg (fun _ => 0x55) 2⟩, ⟨15, .table (.read 0x20001 1 (fun _ => 0))⟩]
            (mbusInit 1000 ⟨0, 0, 0, fun _ => 0⟩ (fun _ => 0), .idle)
          =
        some ([(0, fun _ => 0x55), (-1, fun _ => 0)], mbus', rtu') := by
  have hidle : MbRtu.idle.line.Idle := ⟨rfl, rfl, rfl, rfl⟩
  obtain ⟨rtu, htx, -, -⟩ := @mbRtuTx_frame .idle hidle 2048 (Nat.le_refl 2048)
    { Mbus.request (mbusInit 1000 ⟨0, 0, 0, fun _ => 0⟩ (fun _ => 0)) 1 with
      data := fun _ => 0x55 } 2 (by decide)
  have htx' : (mbPduTx (mbRtu rtuLine .little 2048)
      { Mbus.request (mbusInit 1000 ⟨0, 0, 0, fun _ => 0⟩ (fun _ => 0)) 1 with
        data := fun _ => 0x55 } 2 MbRtu.idle) = some rtu := htx
  obtain ⟨t, hruns⟩ : ∃ (t : Tasks Bool MbCall (Mbus × MbRtu Line) (Int × Mem)),
      Runs
        (DrvStep (mbRtu rtuLine .little 2048) (mbProg (mbRtu rtuLine .little 2048) .little))
        (drvIdle (mbusInit 1000 ⟨0, 0, 0, fun _ => 0⟩ (fun _ => 0)) .idle)
        [.task (.call true ⟨15, .table (.read 0x20001 1 (fun _ => 0))⟩),
          .task (.call false ⟨1, .sendMsg (fun _ => 0x55) 2⟩), .task (.lock false),
          .task (.step false), .closed true 14 0, .task (.step false),
          .task (.unlock false ⟨1, .sendMsg (fun _ => 0x55) 2⟩ (0, fun _ => 0x55)),
          .task (.lock true), .task (.step true),
          .task (.unlock true ⟨15, .table (.read 0x20001 1 (fun _ => 0))⟩ (-1, fun _ => 0))] t := by
    refine Runs.exists_cons (.task (.call rfl)) ?_
    refine Runs.exists_cons (.task (.call rfl)) ?_
    refine Runs.exists_cons (.task (.lock rfl rfl)) ?_
    refine Runs.exists_cons (.task (.step rfl rfl)) ?_
    refine Runs.exists_cons (.closed true 14) ?_
    refine Runs.exists_cons (.task (.step rfl (congrArg (Option.map _) htx'))) ?_
    refine Runs.exists_cons (.task (.unlock rfl)) ?_
    refine Runs.exists_cons (.task (.lock rfl rfl)) ?_
    refine Runs.exists_cons (.task (.step rfl rfl)) ?_
    exact Runs.exists_cons (.task (.unlock rfl)) ⟨_, .nil _⟩
  obtain ⟨mbus', rtu', hrun, -⟩ := mbRtu_driver_atomic rtuLine .little 2048 _ _ hruns
  exact ⟨mbus', rtu', hrun⟩

section Net

variable {tmo : UInt32}

variable {rounds : Nat} (hrounds : 2048 ≤ rounds)

include hrounds

omit hrounds

end Net

end Modbus
