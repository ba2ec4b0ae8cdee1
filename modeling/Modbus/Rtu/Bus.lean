import Modbus.Rtu.Burst
import Modbus.Slave.Sample

/-!
This module contains slaves that share an RTU bus. Each of them hears the frames in chunks and at
times of its own, and only the one that a frame is addressed to puts anything on the line.
-/

namespace Modbus

section Transmit

theorem Line.happen_of_nil {l : Line} (h : l.script = []) (n : Nat) : l.happen n = l := by
  induction n with
  | zero => rfl
  | succ n ih =>
    have hnext : l.next = l := by simp only [Line.next, h]
    rw [Line.happen, hnext, ih]

theorem Line.tick_of_nil {l : Line} (h : l.script = [])
    : l.tick = { l with calls := l.calls + 1 } := by
  rw [Line.tick, Line.happen_of_nil h]

theorem Line.Idle.tick {l : Line} (h : l.Idle) : l.tick.Idle := by
  rw [Line.tick_of_nil h.script]
  exact ⟨h.fifo, h.rxAvail, h.t1p5, h.script⟩

theorem Line.Idle.eventClr {l : Line} (h : l.Idle) (mask : Flags)
    : (rtuLine.eventClr mask l).Idle := by
  refine ⟨h.tick.fifo, ?_, ?_, h.tick.script⟩
  . simp [rtuLine, Flags.clr, h.tick.rxAvail]
  . simp [rtuLine, Flags.clr, h.tick.t1p5]

theorem mbRtuWrite.go_idle (buffer : Mem) {rounds : Nat} {p : Int} {size : Nat} {l l' : Line}
    (h : l.Idle) (hsome : mbRtuWrite.go rtuLine buffer rounds p size l = some l')
    : l'.Idle
        ∧
      ∃ (more : List UInt8),
        l'.written = l.written ++ more ∧ (0 < size → more.head? = some (buffer p.toNat)) := by
  induction rounds generalizing p size l with
  | zero => simp [mbRtuWrite.go] at hsome
  | succ rounds ih =>
    rw [mbRtuWrite.go] at hsome
    split at hsome
    . next hpos =>
      -- The first of the bytes is written now.
      dsimp only [rtuLine, Line.write] at hsome
      obtain ⟨n, hn⟩ : ∃ n, min size (max 1 (l.writePiece l.calls)) = n + 1 := by
        refine ⟨min size (max 1 (l.writePiece l.calls)) - 1, ?_⟩
        omega
      rw [hn] at hsome
      have hidle : Line.Idle
          { l.tick with written := l.tick.written ++ buffer.load p.toNat (n + 1) } :=
        ⟨h.tick.fifo, h.tick.rxAvail, h.tick.t1p5, h.tick.script⟩
      split at hsome
      . cases hsome
        refine ⟨hidle, buffer.load p.toNat (n + 1), ?_, ?_⟩
        . simp
        . simp [Mem.load_succ]
      . obtain ⟨hidle', more, hwritten, -⟩ := ih hidle hsome
        refine ⟨hidle', buffer.load p.toNat (n + 1) ++ more, ?_, ?_⟩
        . simp [hwritten]
        . simp [Mem.load_succ]
    . cases hsome
      exact ⟨h, [], by simp, by omega⟩

theorem mbRtuWrite_idle (buffer : Mem) {rounds size : Nat} {l l' : Line} (h : l.Idle)
    (hsome : mbRtuWrite rtuLine rounds buffer size l = some l')
    : l'.Idle
        ∧
      ∃ (more : List UInt8),
        l'.written = l.written ++ more ∧ (0 < size → more.head? = some (buffer 0)) := by
  exact mbRtuWrite.go_idle buffer h hsome

/-- The T3P5 timer is running, or it has expired and the line is idle. -/
structure Line.Turning (l : Line) : Prop where
  fifo : l.fifo = []
  rxAvail : l.flags.rxAvail = false
  t1p5 : l.flags.t1p5 = false
  script : l.script = [.t3p5] ∧ l.flags.t3p5 = false ∨ l.script = []

theorem Line.Turning.next {l : Line} (h : l.Turning) : l.next.Turning := by
  obtain ⟨hfifo, hrx, ht1p5, ⟨hl, -⟩ | hl⟩ := h
  . refine ⟨?_, ?_, ?_, .inr ?_⟩
    all_goals simp only [Line.next, hl, Line.occur, Flags.set]
    . exact hfifo
    . simp [hrx]
    . simp [ht1p5]
  . have hnext : l.next = l := by simp only [Line.next, hl]
    rw [hnext]
    exact ⟨hfifo, hrx, ht1p5, .inr hl⟩

theorem Line.Turning.eventWait {l l' : Line} {flags : Option Flags} (h : l.Turning)
    (hwait : rtuLine.eventWait { t3p5 := true } none l = some (flags, l'))
    : l'.Idle ∧ l'.written = l.written := by
  have htick : l.tick.Turning := by
    apply Line.tick_preserves
    . exact fun l' h' => h'.next
    . exact fun l' calls h' => ⟨h'.fifo, h'.rxAvail, h'.t1p5, h'.script⟩
    . exact h
  have hawait : (l.tick.await { t3p5 := true } l.tick.script.length).Turning := by
    apply Line.await_preserves
    . exact fun l' h' => h'.next
    . exact htick
  change Line.eventWait { t3p5 := true } none l = _ at hwait
  unfold Line.eventWait at hwait
  dsimp only at hwait
  split at hwait
  . next hany =>
    cases hwait
    refine ⟨⟨hawait.fifo, hawait.rxAvail, hawait.t1p5, ?_⟩, ?_⟩
    . obtain ⟨-, ht3p5⟩ | hnil := hawait.script
      . simp [Flags.any, Flags.and, ht3p5] at hany
      . exact hnil
    . rw [Line.written_await, Line.written_tick]
  . contradiction

theorem Line.Idle.turning {l : Line} (h : l.Idle) {size : Nat}
    : (rtuLine.tmrStart false
        (mbRtuTxEnable rtuLine 0
          (rtuLine.eventClr { t1p5 := true, t3p5 := true } (rtuLine.txDrain size l)))).Turning := by
  have hidle := (h.tick.eventClr { t1p5 := true, t3p5 := true }).tick
  refine ⟨hidle.fifo, hidle.rxAvail, hidle.t1p5, .inl ⟨?_, ?_⟩⟩
  . change (rtuLine.eventClr { t1p5 := true, t3p5 := true } l.tick).tick.script ++ [] ++ [.t3p5] = _
    rw [hidle.script]
    rfl
  . change (rtuLine.eventClr { t1p5 := true, t3p5 := true } l.tick).tick.flags.t3p5 = false
    rw [Line.tick_of_nil (h.tick.eventClr _).script]
    simp [rtuLine, Flags.clr]

theorem mbRtuTx_idle {host : Endian} {rounds : Nat} {transaction : Txn} {size : Nat}
    {rtu rtu' : MbRtu Line} (h : rtu.line.Idle)
    (hsome : mbRtuTx rtuLine host rounds transaction size rtu = some rtu')
    : rtu'.line.Idle
        ∧
      ∃ (more : List UInt8),
        rtu'.line.written = rtu.line.written ++ transaction.unit :: more := by
  unfold mbRtuTx at hsome
  dsimp only at hsome
  split at hsome
  . contradiction
  . next l₁ hwrite₁ =>
    obtain ⟨hidle₁, more₁, hwritten₁, hhead⟩ := mbRtuWrite_idle _ h.tick hwrite₁
    obtain ⟨more, rfl⟩ : ∃ more, more₁ = transaction.unit :: more := by
      cases more₁ with
      | nil => simp at hhead
      | cons b more => simpa using hhead
    split at hsome
    . contradiction
    . next l₂ hwrite₂ =>
      obtain ⟨hidle₂, more₂, hwritten₂, -⟩ :=
        mbRtuWrite_idle _ (hidle₁.eventClr { txEmpty := true }) hwrite₂
      split at hsome
      . contradiction
      . next l₃ hwrite₃ =>
        obtain ⟨hidle₃, more₃, hwritten₃, -⟩ := mbRtuWrite_idle _ hidle₂ hwrite₃
        split at hsome
        . contradiction
        . next flags l₄ hwait =>
          cases hsome
          obtain ⟨hidle, hwritten⟩ := hidle₃.turning.eventWait hwait
          refine ⟨hidle, more ++ more₂ ++ more₃, ?_⟩
          simp only [rtuLine, mbRtuTxEnable, Line.written_tick] at hwritten hwritten₂ hwritten₁
          rw [hwritten, hwritten₃, hwritten₂, hwritten₁]
          simp

end Transmit

/-- A frame of which some bytes have arrived when the slave is about to respond to another one. -/
structure Overtaker where
  burst : Burst
  schedule : Nat → Nat
  begun : 0 < schedule 0

/-- The transport of a slave. Another frame may begin while a request is being served. -/
def mbRtuOvertaken (host : Endian) (rounds : Nat) (overtaker : Option Overtaker)
    : Transport (MbRtu Line) :=
  { mbRtu rtuLine host rounds with
    rxAvail := fun rtu =>
      match overtaker with
      | none => mbRtuRxAvail rtuLine rtu
      | some frame => mbRtuRxAvail rtuLine (rtu.hear frame.burst frame.schedule) }

theorem Line.fifo_hear_tick (l : Line) (frame : Overtaker)
    : (l.hear frame.burst frame.schedule).tick.fifo ≠ [] := by
  obtain ⟨n, hn⟩ : ∃ n, frame.schedule 0 = n + 1 := ⟨frame.schedule 0 - 1, by
    have := frame.begun
    omega⟩
  change ((l.hear frame.burst frame.schedule).happen (frame.schedule 0)).fifo ≠ []
  rw [hn, Line.happen]
  apply Line.happen_preserves (P := fun l' => l'.fifo ≠ [])
  . intro l' hne
    obtain ⟨bs, hbs⟩ := l'.later_next.fifo
    rw [hbs]
    exact List.append_ne_nil_of_left_ne_nil hne bs
  . exact List.append_ne_nil_of_right_ne_nil _ frame.burst.first_ne

section Serve

variable {σ : Type} {host : Endian} {rounds : Nat} {overtaker : Option Overtaker} {iomap : Iomap σ}
  {transaction : Txn} {app : σ} {rtu : MbRtu Line} (hidle : rtu.line.Idle)

include hidle

theorem mbSlaveHandleRequest_hear (burst : Burst) (schedule : Nat → Nat)
    {served : Served σ (MbRtu Line)}
    (hsome : mbSlaveHandleRequest host (mbRtuOvertaken host rounds overtaker) iomap transaction app
      (rtu.hear burst schedule) = some served)
    : (burst.bytes.length ≤ maxPduSize + 1 →
        (∀ frame ∈ overtaker, frame.burst.bytes.length ≤ maxPduSize + 1) →
        served.transport.line.Idle)
        ∧
      served.transaction = { transaction with data := served.transaction.data }
        ∧
      (served.transport.line.written = rtu.line.written
        ∨
      burst.bytes.head? = some transaction.unit ∧ burst.bytes.head? ≠ some 0 ∧
        crcOf burst.bytes 0xFFFF = 0 ∧
        ∃ (more : List UInt8),
          served.transport.line.written = rtu.line.written ++ transaction.unit :: more) := by
  have hbegins : (rtu.hear burst schedule).line.Begins burst rtu.line.port
      (rtu.line.hear burst schedule).forget := hidle.begins burst schedule
  unfold mbSlaveHandleRequest at hsome
  split at hsome
  . contradiction
  . next rxCount transaction' rtu' hrx =>
    have hends := mbRtuRx_ends hbegins transaction pduTimeout hrx
    have hwritten : rtu'.line.written = rtu.line.written := congrArg Port.written hends.port
    split at hsome
    . next hpos =>
      have hidle' := hends.idle (.inr hpos)
      cases overtaker with
      | none =>
        -- Nothing has arrived after the request.
        have havail : mbRtuRxAvail rtuLine rtu'
            = (false, { rtu' with line := rtu'.line.tick }) := by
          unfold mbRtuRxAvail
          rw [rtuLine_rxAvail, hidle'.tick.fifo]
          rfl
        simp only [mbPduRxAvail, mbRtuOvertaken, mbRtu, havail, Bool.false_eq_true,
          ↓reduceIte] at hsome
        split at hsome
        . next hbc =>
          split at hsome
          . contradiction
          . next rtu'' htx =>
            cases hsome
            obtain ⟨hidle'', more, hmore⟩ := mbRtuTx_idle (h := hidle'.tick) htx
            have hnot : burst.bytes.head? ≠ some 0 := by
              intro hzero
              have hbroadcast := hends.broadcast.mpr hzero
              simp [mbPduRxBc, mbRtuRxBc, hbroadcast] at hbc
            refine ⟨fun _ _ => hidle'', ?_, .inr ⟨?_, hnot, hends.crc hpos, more, ?_⟩⟩
            . rw [hends.data_only]
            . obtain hslave | hzero := hends.slave hpos
              . exact hslave
              . exact absurd hzero hnot
            . rw [hmore, hends.data_only]
              simp [hwritten]
        . cases hsome
          refine ⟨fun _ _ => hidle'.tick, ?_, .inl ?_⟩
          . rw [hends.data_only]
          . simp [hwritten]
      | some frame =>
        -- The next frame is received, and neither of the two is responded to.
        have havail : mbRtuRxAvail rtuLine (rtu'.hear frame.burst frame.schedule)
            = (true, { rtu' with line := (rtu'.line.hear frame.burst frame.schedule).tick }) := by
          have hlen := List.length_pos_iff.mpr (rtu'.line.fifo_hear_tick frame)
          unfold mbRtuRxAvail
          rw [rtuLine_rxAvail]
          simpa [MbRtu.hear] using hlen
        simp only [mbPduRxAvail, mbRtuOvertaken, mbRtu, havail, ↓reduceIte] at hsome
        split at hsome
        . contradiction
        . next result transaction'' rtu'' hrx' =>
          cases hsome
          have hends' := mbRtuRx_ends (h := (hidle'.begins frame.burst frame.schedule).tick) _ _
            hrx'
          refine ⟨?_, ?_, .inl ?_⟩
          . intro _ hlength
            exact hends'.idle (.inl (hlength frame rfl))
          . rw [hends'.data_only, hends.data_only]
          . rw [← hwritten]
            exact congrArg Port.written hends'.port
    . cases hsome
      refine ⟨fun hlength _ => hends.idle (.inl hlength), ?_, .inl hwritten⟩
      exact hends.data_only

theorem mbSlaveHandleRequest_quiet {served : Served σ (MbRtu Line)}
    (hsome : mbSlaveHandleRequest host (mbRtuOvertaken host rounds overtaker) iomap transaction app
      rtu = some served)
    : served.transport.line.Idle ∧ served.transaction = transaction := by
  have hwait : rtuLine.eventWait { t1p5 := true, rxAvail := true } (some pduTimeout) rtu.line
      = some (none, rtu.line.tick) := by
    change Line.eventWait { t1p5 := true, rxAvail := true } (some pduTimeout) rtu.line = _
    unfold Line.eventWait
    rw [hidle.tick.script]
    simp [Line.await, Flags.any, Flags.and, hidle.tick.rxAvail, hidle.tick.t1p5]
  have hrx : mbPduRx (mbRtuOvertaken host rounds overtaker) transaction pduTimeout rtu
      = some (eTimeout, transaction, { rtu with line := rtu.line.tick }) := by
    change mbRtuRx _ _ _ _ _ = _
    unfold mbRtuRx
    rw [if_pos (by decide), hwait]
    rfl
  unfold mbSlaveHandleRequest at hsome
  rw [hrx] at hsome
  cases hsome
  exact ⟨hidle.tick, rfl⟩

end Serve

structure BusSlave (σ : Type) where
  id : UInt8
  id_ne : id ≠ 0
  iomap : Iomap σ

def SlaveTask.hear {σ : Type} (burst : Burst) (schedule : Nat → Nat)
    (task : SlaveTask σ (MbRtu Line))
    : SlaveTask σ (MbRtu Line) :=
  { task with transport := task.transport.hear burst schedule }

section Bus

variable {σ : Type} (host : Endian)

/-- One round of the loop in `mb_slave`. -/
def BusSlave.serve (rounds : Nat) (overtaker : Option Overtaker) (slave : BusSlave σ)
    (task : SlaveTask σ (MbRtu Line))
    : Option (SlaveTask σ (MbRtu Line)) :=
  mbSlave host (mbRtuOvertaken host rounds overtaker) slave.iomap 1 [slave.id] task

/--
The states of a slave after any frames of up to 254 bytes, some of which may have overtaken the one
before, with rounds in between in which it heard nothing.
-/
inductive BusSlave.Reaches (slave : BusSlave σ) : SlaveTask σ (MbRtu Line) → Prop where
  | start {task : SlaveTask σ (MbRtu Line)} (hidle : task.transport.line.Idle)
      (harg : task.transaction.arg = 0)
    : slave.Reaches task
  | quiet {rounds : Nat} {task task' : SlaveTask σ (MbRtu Line)} (h : slave.Reaches task)
      (hserve : slave.serve host rounds none task = some task')
    : slave.Reaches task'
  | frame {rounds : Nat} {burst : Burst} {schedule : Nat → Nat} {overtaker : Option Overtaker}
      {task task' : SlaveTask σ (MbRtu Line)} (h : slave.Reaches task)
      (hlength : burst.bytes.length ≤ maxPduSize + 1)
      (hovertaker : ∀ frame ∈ overtaker, frame.burst.bytes.length ≤ maxPduSize + 1)
      (hserve : slave.serve host rounds overtaker (task.hear burst schedule) = some task')
    : slave.Reaches task'

def BusSlave.Talks (slave : BusSlave σ) (task : SlaveTask σ (MbRtu Line)) (response : List UInt8)
    : Prop :=
  response ≠ []
    ∧
  ∃ (rounds : Nat) (overtaker : Option Overtaker) (task' : SlaveTask σ (MbRtu Line)),
    slave.serve host rounds overtaker task = some task'
      ∧
    task'.transport.line.written = task.transport.line.written ++ response

variable {host} {slave : BusSlave σ} {task task' : SlaveTask σ (MbRtu Line)} {rounds : Nat}
  {overtaker : Option Overtaker}

theorem BusSlave.serve_cases (harg : task.transaction.arg ≠ -1)
    (hserve : slave.serve host rounds overtaker task = some task')
    : ∃ (served : Served σ (MbRtu Line)),
        mbSlaveHandleRequest host (mbRtuOvertaken host rounds overtaker) slave.iomap
          { task.transaction with unit := slave.id } task.app task.transport = some served
          ∧
        task'.transaction = served.transaction
          ∧
        task'.transport = served.transport := by
  have hbringup : mbSlaveBringup (mbRtuOvertaken host rounds overtaker) 1 task = some task := by
    simp [mbSlaveBringup, mbTransportIsDown, mbRtuOvertaken, mbRtu, mbRtuIsDown]
  unfold BusSlave.serve mbSlave at hserve
  rw [hbringup] at hserve
  dsimp only at hserve
  rw [if_neg harg] at hserve
  split at hserve
  . contradiction
  . next served hserved =>
    cases hserve
    exact ⟨served, hserved, rfl, rfl⟩

theorem BusSlave.Reaches.ready (h : slave.Reaches host task)
    : task.transport.line.Idle ∧ task.transaction.arg = 0 := by
  induction h with
  | start hidle harg => exact ⟨hidle, harg⟩
  | quiet h hserve ih =>
    obtain ⟨served, hserved, htransaction, htransport⟩ := serve_cases (by rw [ih.2]; decide) hserve
    obtain ⟨hidle, heq⟩ := mbSlaveHandleRequest_quiet ih.1 hserved
    rw [htransport, htransaction, heq]
    exact ⟨hidle, ih.2⟩
  | frame h hlength hovertaker hserve ih =>
    obtain ⟨served, hserved, htransaction, htransport⟩ :=
      serve_cases (by rw [SlaveTask.hear, ih.2]; decide) hserve
    obtain ⟨hidle, heq, -⟩ := mbSlaveHandleRequest_hear ih.1 _ _ hserved
    rw [htransport, htransaction, heq]
    exact ⟨hidle hlength hovertaker, ih.2⟩

theorem BusSlave.Reaches.talks (h : slave.Reaches host task) {burst : Burst}
    {schedule : Nat → Nat} {response : List UInt8}
    (htalks : slave.Talks host (task.hear burst schedule) response)
    : burst.bytes.head? = some slave.id ∧ crcOf burst.bytes 0xFFFF = 0 ∧
        response.head? = some slave.id := by
  obtain ⟨hne, rounds, overtaker, task', hserve, hwritten⟩ := htalks
  obtain ⟨hidle, harg⟩ := h.ready
  obtain ⟨served, hserved, -, htransport⟩ :=
    serve_cases (by rw [SlaveTask.hear, harg]; decide) hserve
  obtain ⟨-, -, hsilent | ⟨hslave, -, hcrc, more, hmore⟩⟩ :=
    mbSlaveHandleRequest_hear hidle _ _ hserved
  . rw [htransport, hsilent] at hwritten
    exact absurd (List.self_eq_append_right.mp hwritten) hne
  . rw [htransport, hmore] at hwritten
    refine ⟨hslave, hcrc, ?_⟩
    rw [← List.append_cancel_left hwritten]
    rfl

end Bus

/--
Whatever appears on the line as one frame, at most one of the slaves talks. It is the one whose id
the frame begins with, and its response begins with that id too. No slave talks if the frame is a
broadcast or has a wrong checksum.
-/
theorem mbRtu_oneTalks {ι : Type} {σ : ι → Type} (host : Endian) (slaves : ∀ i, BusSlave (σ i))
    (hids : ∀ i j, (slaves i).id = (slaves j).id → i = j)
    (tasks : ∀ i, SlaveTask (σ i) (MbRtu Line))
    (hreaches : ∀ i, (slaves i).Reaches host (tasks i)) (frame : List UInt8) (bursts : ι → Burst)
    (hbursts : ∀ i, (bursts i).bytes = frame) (schedules : ι → Nat → Nat)
    : let Talks i := (slaves i).Talks host ((tasks i).hear (bursts i) (schedules i))
      (∀ i j response response', Talks i response → Talks j response' → i = j)
        ∧
      (∀ i response, Talks i response →
        frame.head? = some (slaves i).id ∧ response.head? = some (slaves i).id)
        ∧
      (frame.head? = some 0 ∨ crcOf frame 0xFFFF ≠ 0 → ∀ i response, ¬Talks i response) := by
  intro Talks
  have htalks (i : ι) (response : List UInt8) (h : Talks i response)
      : frame.head? = some (slaves i).id ∧ crcOf frame 0xFFFF = 0 ∧
          response.head? = some (slaves i).id := by
    rw [← hbursts i]
    exact (hreaches i).talks h
  refine ⟨?_, ?_, ?_⟩
  . intro i j response response' hi hj
    obtain ⟨hslave, -, -⟩ := htalks i response hi
    obtain ⟨hslave', -, -⟩ := htalks j response' hj
    apply hids
    rw [hslave] at hslave'
    exact Option.some.inj hslave'
  . intro i response h
    obtain ⟨hslave, -, hresponse⟩ := htalks i response h
    exact ⟨hslave, hresponse⟩
  . rintro (hzero | hne) i response h
    . obtain ⟨hslave, -, -⟩ := htalks i response h
      rw [hslave] at hzero
      exact (slaves i).id_ne (Option.some.inj hzero)
    . obtain ⟨-, hcrc, -⟩ := htalks i response h
      exact hne hcrc

def sampleSlave (id : UInt8) (hid : id ≠ 0) : BusSlave Store where
  id := id
  id_ne := hid
  iomap := storageIomap 16 16 16 16 none

def sampleTask : SlaveTask Store (MbRtu Line) where
  transaction := ⟨0, 0, 0, fun _ => 0x55⟩
  app := ⟨fun _ => 0, fun _ => 0, fun _ => 0x1234, fun _ => 0⟩
  transport := .idle

def sampleRequest : Burst :=
  .single (1 :: rtuTail 1 [3, 0, 0, 0, 1]) (by simp) (by simp [length_rtuTail])

theorem sampleSlave_talks
    : (sampleSlave 1 (by decide)).Talks .little (sampleTask.hear sampleRequest (fun _ => 5))
        [1, 3, 2, 0x12, 0x34, 0xB5, 0x33] := by
  have hwritten : ((sampleSlave 1 (by decide)).serve .little 10 none
      (sampleTask.hear sampleRequest (fun _ => 5))).map (fun task => task.transport.line.written)
      = some [1, 3, 2, 0x12, 0x34, 0xB5, 0x33] := by
    decide +kernel
  obtain ⟨task', hserve, hwritten⟩ := Option.map_eq_some_iff.mp hwritten
  exact ⟨by simp, 10, none, task', hserve, hwritten⟩

theorem mbRtu_oneTalks_sample
    : (sampleSlave 1 (by decide)).Talks .little (sampleTask.hear sampleRequest (fun _ => 5))
          [1, 3, 2, 0x12, 0x34, 0xB5, 0x33]
        ∧
      ∀ (response : List UInt8),
        ¬(sampleSlave 2 (by decide)).Talks .little (sampleTask.hear sampleRequest (fun _ => 5))
          response := by
  refine ⟨sampleSlave_talks, ?_⟩
  intro response htalks
  have hreaches (slave : BusSlave Store) : slave.Reaches .little sampleTask :=
    .start ⟨rfl, rfl, rfl, rfl⟩ rfl
  have hids (i j : Bool)
      (h : (sampleSlave (if i then 1 else 2) (by split <;> decide)).id
        = (sampleSlave (if j then 1 else 2) (by split <;> decide)).id)
      : i = j := by
    revert i j
    decide
  obtain ⟨hone, -, -⟩ := mbRtu_oneTalks .little
    (fun i : Bool => sampleSlave (if i then 1 else 2) (by split <;> decide)) hids
    (fun _ => sampleTask) (fun i => hreaches _) sampleRequest.bytes (fun _ => sampleRequest)
    (fun _ => rfl) (fun _ _ => 5)
  exact absurd (hone true false _ _ sampleSlave_talks htalks) (by decide)

end Modbus
