import Modbus.Rtu.Accept
import Modbus.Rtu.Bus
import Modbus.Slave.Serve

/-!
This module contains a station on an RTU bus and what it makes of a frame that another one sends. It
hears the frame in chunks and at times of its own, and some of the frame may have been damaged. The
sender is a little-endian host, like the station.
-/

namespace Modbus

/-- What `mb_rtu_tx` puts on the line. -/
def rtuFrame (slave : UInt8) (pdu : List UInt8) : List UInt8 :=
  slave :: rtuTail slave pdu

theorem length_rtuFrame (slave : UInt8) (pdu : List UInt8)
    : (rtuFrame slave pdu).length = pdu.length + 3 := by
  simp [rtuFrame, length_rtuTail]

/-- A frame as it is heard at some place. What has been damaged does not pass for a frame. -/
structure Heard (frame : List UInt8) where
  burst : Burst
  schedule : Nat → Nat
  intact : burst.bytes = frame
    ∨
  crcOf burst.bytes 0xFFFF ≠ 0 ∧ burst.bytes.length ≤ maxPduSize + 1

/-- Nothing was damaged, and T1P5 has only expired after the last character. -/
structure Heard.Clear {frame : List UInt8} (heard : Heard frame) : Prop where
  bytes : heard.burst.bytes = frame
  whole : ∃ (chunks : List (List UInt8)), heard.burst.script = frameScript chunks

section Rounds

theorem BurstScript.length_le {script : List LineEvent} (h : BurstScript script)
    : script.length ≤ 4 * (arrivals script).length + 2
        ∧
      ((∃ (bs : List UInt8), script.head? = some (.arrive bs)) →
        script.length ≤ 4 * (arrivals script).length + 1) := by
  induction h with
  | @chunk bs script hbs h ih =>
    have hpos := List.length_pos_iff.mpr hbs
    have harrivals : arrivals (.arrive bs :: .clr :: .set :: script) = bs ++ arrivals script := by
      rfl
    rw [harrivals, List.length_append]
    simp only [List.length_cons]
    constructor
    . omega
    . intro _
      omega
  | @gap bs script h ih =>
    have hle := ih.2 ⟨bs, rfl⟩
    have harrivals : arrivals (.t1p5 :: .arrive bs :: script)
        = arrivals (.arrive bs :: script) := by
      rfl
    rw [harrivals, List.length_cons]
    refine ⟨by omega, ?_⟩
    rintro ⟨bs', hhead⟩
    cases hhead
  | expires => simp

theorem Burst.length_events (burst : Burst)
    : burst.events.length ≤ 4 * burst.bytes.length + 1 := by
  have hpos := List.length_pos_iff.mpr burst.first_ne
  have hle := burst.script_burst.length_le.1
  simp only [events, bytes, List.length_cons, List.length_append]
  omega

end Rounds

section Rx

variable {burst : Burst} {port : Port} {rtu : MbRtu Line} {l' : Line}
  (h : rtu.line.Begins burst port l') (transaction : Txn) (tmo : UInt32)

include h

theorem mbRtuRx_rounds (hlength : burst.bytes.length ≤ maxPduSize + 1) {rounds : Nat}
    (hrounds : 2 * rtu.line.tick.script.length + 2 ≤ rounds)
    : ∃ (result : Int × Txn × MbRtu Line),
        mbRtuRx rtuLine rounds transaction tmo rtu = some result := by
  have hmax : maxPduSize = 253 := rfl
  obtain ⟨slave, rest, l, hbytes, hl, hle, hrx⟩ := mbRtuRx_begins h transaction tmo
  rw [hbytes] at hl hlength
  rw [List.length_cons] at hlength
  have hremaining := l.remaining_le
  obtain ⟨taken, rx, l₁, hmessage, hholds, htaken, hl₁, hscript, -⟩ :=
    @mbRtuRxMessage_returns slave rest [] l _ transaction.data _
      (Line.Hearing.invariant (slave :: rest) port) (by omega) hl
      (RxBuffer.holds_nil transaction.data) (Nat.zero_le _) rounds (by omega)
  have hremaining' := l₁.remaining_le
  have hcount := hholds.count
  obtain ⟨error, rx', l₂, hend⟩ :=
    @mbRtuRxEnd_returns _ _ _ _ rx (by simp; omega) hl₁ (by omega)
      (by simp only [List.length_cons]; omega) rounds (by omega)
      (messageError transaction.unit slave rx)
  refine ⟨rxEnded rtuLine slave transaction rtu error rx' l₂, ?_⟩
  rw [hrx rtu (.inl rfl), mbRtuRxFrame_eq, hmessage]
  dsimp only
  rw [hend]

/-- A burst is rejected with one of three errors, or it was a frame that has been taken whole. -/
theorem mbRtuRx_result {rounds : Nat} {result : Int} {transaction' : Txn} {rtu' : MbRtu Line}
    (hsome : mbRtuRx rtuLine rounds transaction tmo rtu = some (result, transaction', rtu'))
    : ∃ (slave : UInt8) (rest : List UInt8),
        burst.bytes = slave :: rest
          ∧
        (result ∈ [eSlaveId, eCrcFail, eFrameNok]
          ∨
        rest.length ≤ maxPduSize ∧ (slave = transaction.unit ∨ slave = 0) ∧
          crcOf burst.bytes 0xFFFF = 0 ∧ result = toInt (sizeT ((rest.length : Int) - 2)) ∧
          transaction'.data = transaction.data.copy 0 rest) := by
  have hmax : maxPduSize = 253 := rfl
  have hlt := burst.length_bytes
  obtain ⟨slave, rest, l, hbytes, hl, -, hrx⟩ := mbRtuRx_begins h transaction tmo
  rw [hbytes] at hl hlt
  rw [List.length_cons] at hlt
  rw [hrx rtu (.inl rfl)] at hsome
  obtain ⟨rx, rx', error, l₁, l₂, hmessage, hend, hended⟩ := mbRtuRxFrame_cases hsome
  obtain ⟨taken, hholds, hle, hl₁, -⟩ :=
    mbRtuRxMessage_keeps (Line.Hearing.invariant (slave :: rest) port) (by omega) hl
      (RxBuffer.holds_nil transaction.data) (Nat.zero_le _) hmessage
  have hcount := hholds.count
  obtain ⟨got, hl₂, hnil, hcases, -⟩ :=
    mbRtuRxEnd_keeps (by rw [List.length_cons]; omega) hl₁ (by omega) hend
  refine ⟨slave, rest, hbytes, ?_⟩
  cases error with
  | some error =>
    left
    rw [show result = error from congrArg Prod.fst hended]
    obtain hnok | ⟨herror, -⟩ := hcases
    . cases hnok
      simp
    . obtain rfl | rfl := messageError_of_some herror.symm <;> simp
  | none =>
    right
    obtain hnok | ⟨hnone, hrx', rfl, hfifo⟩ := hcases
    . contradiction
    . obtain ⟨hslave, hcrc⟩ := messageError_of_none hnone.symm
      have htaken := hl₂.bytes
      simp only [Line.pending, hnil, hfifo, arrivals, List.flatMap_nil, List.append_nil,
        List.cons.injEq, true_and] at htaken
      rw [htaken] at hholds hle
      refine ⟨hle, by tauto, ?_, ?_, ?_⟩
      . rw [hbytes, ← mbCrc_frame hle hholds]
        exact hcrc
      . rw [show result = _ from congrArg Prod.fst hended, hrx', ← hholds.count]
        rfl
      . rw [show transaction' = _ from congrArg (fun r => r.2.1) hended, hrx', ← hholds.data]
        rfl

end Rx

theorem Line.Idle.awaits {l : Line} (h : l.Idle) (burst : Burst) (schedule : Nat → Nat)
    {chunks : List (List UInt8)} (hscript : burst.script = frameScript chunks)
    : (l.hear burst schedule).Awaits (burst.first :: chunks) := by
  refine ⟨h.fifo, h.rxAvail, h.t1p5, ?_, ?_⟩
  . simp only [Line.hear, Burst.events, hscript, frameScript]
  . have hburst := burst.script_burst
    rw [hscript] at hburst
    rw [List.forall_mem_cons]
    refine ⟨burst.first_ne, ?_⟩
    clear hscript
    induction chunks with
    | nil => simp
    | cons chunk chunks ih =>
      rw [frameScript] at hburst
      cases hburst with
      | chunk hne hburst =>
        rw [List.forall_mem_cons]
        exact ⟨hne, ih hburst⟩

section Heard

variable {rtu : MbRtu Line} (hidle : rtu.line.Idle) {rounds : Nat} (hrounds : 2048 ≤ rounds)
  (transaction : Txn)

include hidle

theorem mbRtuRx_quiet {tmo : UInt32} (htmo : tmo ≠ 0)
    : mbRtuRx rtuLine rounds transaction tmo rtu
        =
      some (eTimeout, transaction, { rtu with line := rtu.line.tick }) := by
  have hwait : rtuLine.eventWait { t1p5 := true, rxAvail := true } (some tmo) rtu.line
      = some (none, rtu.line.tick) := by
    change Line.eventWait { t1p5 := true, rxAvail := true } (some tmo) rtu.line = _
    unfold Line.eventWait
    rw [hidle.tick.script]
    simp [Line.await, Flags.any, Flags.and, hidle.tick.rxAvail, hidle.tick.t1p5]
  unfold mbRtuRx
  rw [if_pos htmo, hwait]
  dsimp only
  rw [if_pos ⟨htmo, rfl⟩]

include hrounds

theorem mbRtuTx_frame {size : Nat} (hsize : size ≤ maxPduSize)
    : ∃ (rtu' : MbRtu Line),
        mbRtuTx rtuLine .little rounds transaction size rtu = some rtu'
          ∧
        rtu'.line.Idle
          ∧
        rtu'.line.written
          =
        rtu.line.written ++ rtuFrame transaction.unit (transaction.data.load 0 size) := by
  have hmax : maxPduSize = 253 := rfl
  obtain ⟨rtu', htx, hwritten⟩ :=
    @mbRtuTx_host .little transaction size (by omega) rounds (by omega) rtu
  exact ⟨rtu', htx, (mbRtuTx_idle hidle htx).1, hwritten⟩

/--
A frame that was heard is rejected, or accepted with its PDU by one that it is addressed to. One
that it is addressed to accepts it if nothing went wrong.
-/
theorem mbRtuRx_heard (tmo : UInt32) {slave : UInt8} {pdu : List UInt8}
    (hpdu : pdu.length + 2 ≤ maxPduSize) (heard : Heard (rtuFrame slave pdu))
    : ∃ (result : Int) (data : Mem) (rtu' : MbRtu Line),
        mbRtuRx rtuLine rounds transaction tmo (rtu.hear heard.burst heard.schedule)
          =
        some (result, { transaction with data }, rtu')
          ∧
        rtu'.line.Idle
          ∧
        rtu'.line.written = rtu.line.written
          ∧
        (result ∈ [eSlaveId, eCrcFail, eFrameNok] ∧
          (heard.Clear → slave ≠ transaction.unit ∧ slave ≠ 0)
          ∨
        (slave = transaction.unit ∨ slave = 0) ∧ rtu'.broadcast = (slave == 0) ∧
          result = pdu.length ∧ data.load 0 pdu.length = pdu) := by
  have hmax : maxPduSize = 253 := rfl
  have hframe := length_rtuFrame slave pdu
  have htail := length_rtuTail slave pdu
  have hlength : heard.burst.bytes.length ≤ maxPduSize + 1 := by
    obtain hbytes | ⟨-, hle⟩ := heard.intact
    . rw [hbytes]
      omega
    . exact hle
  have hbegins : (rtu.hear heard.burst heard.schedule).line.Begins heard.burst rtu.line.port
      (rtu.line.hear heard.burst heard.schedule).forget :=
    hidle.begins heard.burst heard.schedule
  have hevents := heard.burst.length_events
  have hscript := (rtu.hear heard.burst heard.schedule).line.later_tick.script
  have hscript' : (rtu.hear heard.burst heard.schedule).line.script = heard.burst.events := rfl
  rw [hscript'] at hscript
  obtain ⟨⟨result, transaction', rtu'⟩, hrx⟩ :=
    @mbRtuRx_rounds _ _ _ _ hbegins transaction tmo hlength rounds (by omega)
  have hends := mbRtuRx_ends hbegins transaction tmo hrx
  obtain ⟨slave', rest, hbytes, hresult⟩ := mbRtuRx_result hbegins transaction tmo hrx
  have haccepted (hdata : transaction'.data = transaction.data.copy 0 (rtuTail slave pdu))
      : transaction'.data.load 0 pdu.length = pdu := by
    rw [hdata]
    apply Mem.load_copy_left
  have hcount (hsize : result = toInt (sizeT (((rtuTail slave pdu).length : Int) - 2)))
      : result = pdu.length := by
    rw [hsize, rxResult_eq (by omega) (by omega), htail]
    omega
  have hbroadcast (hintact : heard.burst.bytes = rtuFrame slave pdu)
      : rtu'.broadcast = (slave == 0) := by
    have hiff := hends.broadcast
    rw [hintact, rtuFrame, List.head?_cons, Option.some.injEq] at hiff
    rw [Bool.eq_iff_iff, hiff, beq_iff_eq]
  refine ⟨result, transaction'.data, rtu', ?_, hends.idle (.inl hlength),
    congrArg Port.written hends.port, ?_⟩
  . rw [← hends.data_only]
    exact hrx
  . obtain herror | ⟨hle, hslave, hcrc, hsize, hdata⟩ := hresult
    . left
      refine ⟨herror, ?_⟩
      rintro ⟨hintact, chunks, hwhole⟩
      -- The whole frame has been received, so that the result says whose it is.
      have huntouched := (hidle.awaits heard.burst heard.schedule hwhole).untouched
      have hflatten : (heard.burst.first :: chunks).flatten = slave :: rtuTail slave pdu := by
        rw [List.flatten_cons, ← arrivals_frameScript, ← hwhole]
        exact hintact
      rw [hflatten] at huntouched
      obtain ⟨-, -, hresult⟩ := mbRtuRx_frame (by omega) huntouched hrx
      rw [rxResult, if_neg (by omega), crcOf_rtuFrame] at hresult
      by_contra hmine
      rw [if_neg (by tauto)] at hresult
      simp only [ne_eq, not_true_eq_false, ↓reduceIte] at hresult
      rw [hcount hresult] at herror
      simp only [eSlaveId, eCrcFail, eFrameNok, List.mem_cons, List.not_mem_nil, or_false]
        at herror
      omega
    . right
      obtain hintact | ⟨hne, -⟩ := heard.intact
      . rw [hintact, rtuFrame, List.cons.injEq] at hbytes
        obtain ⟨rfl, rfl⟩ := hbytes
        exact ⟨hslave, hbroadcast hintact, hcount hsize, haccepted hdata⟩
      . exact absurd hcrc hne

end Heard

/-- A slave of the network, with the sizes of its tables. -/
structure Station where
  id : UInt8
  id_ne : id ≠ 0
  coils : Nat
  inputs : Nat
  hold : Nat
  inputRegisters : Nat
  vendorFuncs : Option (List (VendorFunc Store))
  task : SlaveTask Store (MbRtu Line)

namespace Station

def slave (st : Station) : BusSlave Store where
  id := st.id
  id_ne := st.id_ne
  iomap := storageIomap st.coils st.inputs st.hold st.inputRegisters st.vendorFuncs

def model (st : Station) : DataModel :=
  st.task.app.dataModel st.coils st.inputs st.hold st.inputRegisters

def written (st : Station) : List UInt8 :=
  st.task.transport.line.written

/-- The station goes through a round of its loop if it hears anything. -/
def listen (rounds : Nat) {frame : List UInt8} (heard : Option (Heard frame)) (st : Station)
    : Option Station :=
  match heard with
  | none => some st
  | some heard =>
    (st.slave.serve .little rounds none (st.task.hear heard.burst heard.schedule)).map
      (fun task => { st with task })

structure Ready (st : Station) : Prop where
  idle : st.task.transport.line.Idle
  arg : st.task.transaction.arg = 0

/-- What the frame of a request has made a station do. -/
inductive Heeds (unit : UInt8) (r : Request) (clear : Prop) (st st' : Station) : Prop where
  | ignored (hmodel : st'.model = st.model) (hwritten : st'.written = st.written)
      (hother : clear → unit ≠ st.id ∧ unit ≠ 0)
  | broadcast (hunit : unit = 0) (hmodel : st'.model = st.model.after r)
      (hwritten : st'.written = st.written)
  | answered {response : List UInt8} (hunit : unit = st.id)
      (hanswers : st.model.Answers r st'.model response)
      (hwritten : st'.written = st.written ++ rtuFrame st.id response)

end Station

theorem BusSlave.serve_eq {σ : Type} {host : Endian} {rounds : Nat} {overtaker : Option Overtaker}
    (slave : BusSlave σ) {task : SlaveTask σ (MbRtu Line)} (harg : task.transaction.arg ≠ -1)
    : slave.serve host rounds overtaker task
        =
      (mbSlaveHandleRequest host (mbRtuOvertaken host rounds overtaker) slave.iomap
        { task.transaction with unit := slave.id } task.app task.transport).map
        (fun served => ⟨served.transaction, served.app, served.transport⟩) := by
  have hbringup : mbSlaveBringup (mbRtuOvertaken host rounds overtaker) 1 task = some task := by
    simp [mbSlaveBringup, mbTransportIsDown, mbRtuOvertaken, mbRtu, mbRtuIsDown]
  unfold BusSlave.serve mbSlave
  rw [hbringup]
  dsimp only
  rw [if_neg harg]
  cases mbSlaveHandleRequest host (mbRtuOvertaken host rounds overtaker) slave.iomap
    { task.transaction with unit := slave.id } task.app task.transport with
  | none => rfl
  | some served => rfl

theorem Station.listen_eq {rounds : Nat} {st : Station} (harg : st.task.transaction.arg = 0)
    {frame : List UInt8} (heard : Heard frame)
    : st.listen rounds (some heard)
        =
      (mbSlaveHandleRequest .little (mbRtuOvertaken .little rounds none) st.slave.iomap
        { st.task.transaction with unit := st.id } st.task.app
        (st.task.transport.hear heard.burst heard.schedule)).map
        (fun served =>
          { st with task := ⟨served.transaction, served.app, served.transport⟩ }) := by
  have harg' : (st.task.hear heard.burst heard.schedule).transaction.arg ≠ -1 := by
    rw [SlaveTask.hear, harg]
    decide
  rw [Station.listen, st.slave.serve_eq harg', Option.map_map]
  rfl

theorem mbRtuRxAvail_idle {host : Endian} {rounds : Nat} {rtu : MbRtu Line}
    (hidle : rtu.line.Idle)
    : mbPduRxAvail (mbRtuOvertaken host rounds none) rtu
        =
      (false, { rtu with line := rtu.line.tick }) := by
  change mbRtuRxAvail rtuLine rtu = _
  unfold mbRtuRxAvail
  rw [rtuLine_rxAvail, hidle.tick.fifo]
  rfl

theorem neg_of_mem_errors {result : Int} (h : result ∈ [eSlaveId, eCrcFail, eFrameNok])
    : result < 0 := by
  simp only [List.mem_cons, List.not_mem_nil, or_false] at h
  obtain rfl | rfl | rfl := h <;> decide

section Listen

variable {rounds : Nat} (hrounds : 2048 ≤ rounds) {unit : UInt8} {pdu : List UInt8}
  (hpdu : pdu.length + 2 ≤ maxPduSize) {st : Station} (hready : st.Ready)

include hrounds hpdu hready

/-- A frame that is for another one leaves a station as it is. -/
theorem Station.listen_other (heard : Option (Heard (rtuFrame unit pdu)))
    (hother : unit ≠ st.id ∧ unit ≠ 0)
    : ∃ (task : SlaveTask Store (MbRtu Line)),
        st.listen rounds heard = some { st with task }
          ∧
        { st with task }.Ready
          ∧
        { st with task }.model = st.model
          ∧
        { st with task }.written = st.written := by
  cases heard with
  | none => exact ⟨st.task, rfl, hready, rfl, rfl⟩
  | some heard =>
    obtain ⟨result, data, rtu, hrx, hidle, hwritten, hresult⟩ := mbRtuRx_heard hready.idle hrounds
      { st.task.transaction with unit := st.id } pduTimeout hpdu heard
    obtain ⟨herror, -⟩ | ⟨hmine, -⟩ := hresult
    . have hneg := neg_of_mem_errors herror
      have hserved := mbSlaveHandleRequest_of_not_received .little st.slave.iomap st.task.app
        (show mbPduRx (mbRtuOvertaken .little rounds none) _ _ _ = _ from hrx) (by omega)
      rw [Station.listen_eq hready.arg, hserved]
      exact ⟨_, rfl, ⟨hidle, hready.arg⟩, rfl, hwritten⟩
    . exact absurd hmine (not_or.mpr hother)

/-- What a request makes of a station, whoever it is for. -/
theorem Station.listen_request (heard : Option (Heard (rtuFrame unit pdu))) {r : Request}
    (hdecode : Request.decode pdu = some r)
    : ∃ (task : SlaveTask Store (MbRtu Line)),
        st.listen rounds heard = some { st with task }
          ∧
        { st with task }.Ready
          ∧
        Heeds unit r (∃ clear ∈ heard, clear.Clear) st { st with task } := by
  have hmax : maxPduSize = 253 := rfl
  cases heard with
  | none => exact ⟨st.task, rfl, hready, .ignored rfl rfl (by simp)⟩
  | some heard =>
    obtain ⟨result, data, rtu, hrx, hidle, hwritten, hresult⟩ := mbRtuRx_heard hready.idle hrounds
      { st.task.transaction with unit := st.id } pduTimeout hpdu heard
    rw [Station.listen_eq hready.arg]
    obtain ⟨herror, hclear⟩ | ⟨hmine, hbroadcast, rfl, hload⟩ := hresult
    . have hneg := neg_of_mem_errors herror
      have hserved := mbSlaveHandleRequest_of_not_received .little st.slave.iomap st.task.app
        (show mbPduRx (mbRtuOvertaken .little rounds none) _ _ _ = _ from hrx) (by omega)
      rw [hserved]
      refine ⟨_, rfl, ⟨hidle, hready.arg⟩, .ignored rfl hwritten ?_⟩
      rintro ⟨clear, hmem, h⟩
      cases hmem
      exact hclear h
    . have hpos : 0 < pdu.length := by
        apply List.length_pos_iff.mpr
        rintro rfl
        simp [Request.decode] at hdecode
      have hserved := mbSlaveHandleRequest_of_rx .little st.slave.iomap st.task.app
        (show mbPduRx (mbRtuOvertaken .little rounds none) _ _ _ = _ from hrx) hpos
        (mbRtuRxAvail_idle hidle)
      have hrxBc : mbPduRxBc (mbRtuOvertaken .little rounds none) rtu = (unit == 0) := hbroadcast
      have hrxBc' : mbPduRxBc (mbRtuOvertaken .little rounds none)
          { rtu with line := rtu.line.tick } = (unit == 0) := hbroadcast
      rw [hserved, hrxBc, hrxBc']
      by_cases hzero : unit = 0
      . have hafter := mbSlaveProcess_broadcast st.coils st.inputs st.hold st.inputRegisters
          st.vendorFuncs .little hdecode hload st.task.app
        simp only [hzero, BEq.rfl, ↓reduceIte, Option.map_some]
        refine ⟨_, rfl, ⟨hidle.tick, hready.arg⟩, .broadcast rfl hafter ?_⟩
        exact rtu.line.written_tick.trans hwritten
      . have hid : unit = st.id := hmine.resolve_right hzero
        obtain ⟨response, hcount, hresponse, hanswers⟩ := mbSlaveProcess_answers st.coils st.inputs
          st.hold st.inputRegisters st.vendorFuncs .little hdecode hload st.task.app
        have hle := hanswers.length_le_maxPduSize
        rw [beq_false_of_ne hzero]
        generalize hres : mbSlaveProcess .little _ pdu.length false (.init data st.task.app) = res
          at hcount hresponse hanswers
        have hres' : mbSlaveProcess .little st.slave.iomap pdu.length false
            (.init data st.task.app) = res := hres
        obtain ⟨rtu', htx, hidle', hwritten'⟩ := mbRtuTx_frame
          (show ({ rtu with line := rtu.line.tick } : MbRtu Line).line.Idle from hidle.tick) hrounds
          ⟨st.task.transaction.arg, st.task.transaction.id, st.id, res.2.pdu⟩ hle
        have hmbPduTx : mbPduTx (mbRtuOvertaken .little rounds none)
            ⟨st.task.transaction.arg, st.task.transaction.id, st.id, res.2.pdu⟩ response.length
            { rtu with line := rtu.line.tick } = some rtu' := htx
        simp only [hres', hcount, Int.toNat_natCast, hmbPduTx, Bool.false_eq_true, ↓reduceIte,
          Option.map_some]
        refine ⟨_, rfl, ⟨hidle', hready.arg⟩, .answered hid hanswers ?_⟩
        have hbefore : rtu.line.tick.written = st.written := rtu.line.written_tick.trans hwritten
        rw [hresponse] at hwritten'
        rw [← hbefore]
        exact hwritten'

end Listen

end Modbus
