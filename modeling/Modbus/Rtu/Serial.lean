import Modbus.Rtu.Detect
import Modbus.Rtu.InTime
import Modbus.Rtu.Station
import Modbus.Rtu.Timer

/-!
This module contains the configuration of a serial port, and a task that receives from the port over
whole conversations. How long a character takes decides when the timers expire, and when the hook is
called.
-/

namespace Modbus

inductive Parity where
  | odd
  | even
  | none
  deriving DecidableEq

structure SerialCfg where
  baudrate : Int
  parity : Parity

/-- What the line discipline is told. The speed is in bits per second. -/
structure Termios where
  speed : Nat
  parenb : Bool
  parodd : Bool
  inpck : Bool
  istrip : Bool

/-- Input is stripped to seven bits if `ISTRIP` is set. -/
def Termios.receive (tio : Termios) (b : UInt8) : UInt8 :=
  if tio.istrip then b &&& 0x7F else b

/-- The time of the eleven bits of a character in microseconds, rounded up. -/
def Termios.charTime (tio : Termios) : Nat :=
  (11 * 1000 * 1000 + tio.speed - 1) / tio.speed

def osRtuSetSerialCfg (cfg : SerialCfg) : Termios :=
  let tio : Termios :=
    { speed := 0, parenb := false, parodd := false, inpck := false, istrip := false }
  let tio :=
    match cfg.baudrate with
    | 1200 => { tio with speed := 1200 }
    | 1800 => { tio with speed := 1800 }
    | 2400 => { tio with speed := 2400 }
    | 4800 => { tio with speed := 4800 }
    | 9600 => { tio with speed := 9600 }
    | 19200 => { tio with speed := 19200 }
    | 38400 => { tio with speed := 38400 }
    | 57600 => { tio with speed := 57600 }
    | 115200 => { tio with speed := 115200 }
    | 230400 => { tio with speed := 230400 }
    | 460800 => { tio with speed := 460800 }
    | _ => { tio with speed := 19200 }
  match cfg.parity with
  | .odd => { tio with parenb := true, parodd := true, inpck := true, istrip := true }
  | .even => { tio with parenb := true, inpck := true, istrip := true }
  | .none => tio

structure RtuPort where
  termios : Termios
  charTimeUs : UInt32
  bsp : Bsp

/-- There is no result if it divides by zero. -/
def mbRtuCharTime (baudrate : Int) : Option UInt32 :=
  if baudrate > 19200 then
    -- This char_time makes 1p5 = 750 us and 3p5 = 1750 us
    some 500
  else if baudrate = 0 then
    none
  else
    -- Calculate the time for 1 character in us. 1 character is always 11 bits.
    some (UInt32.ofInt (Int.tdiv (11 * 1000 * 1000) baudrate))

def mbRtuSerialCfg (cfg : SerialCfg) (port : RtuPort) : Option RtuPort :=
  -- Configure serial port
  let port := { port with termios := osRtuSetSerialCfg cfg }
  match mbRtuCharTime cfg.baudrate with
  | none => none
  | some charTime =>
    let port := { port with charTimeUs := charTime }
    -- Calculate T1P5 and T3P5 timeouts
    let t1p5 : UInt32 := 15 * port.charTimeUs / 10
    let t3p5 : UInt32 := 35 * port.charTimeUs / 10
    -- Configure timers
    some { port with bsp := mbTmrInit t1p5 t3p5 port.bsp }

def mbRtuInit (cfg : SerialCfg) (port : RtuPort) : Option RtuPort :=
  -- Configure RTU layer
  mbRtuSerialCfg cfg port

def mbRtuCreate (cfg : SerialCfg) (port : RtuPort) : Option RtuPort :=
  mbRtuInit cfg
    { port with bsp := { port.bsp with tmr1p5 := osTimerCreate, tmr3p5 := osTimerCreate } }

/-- The baud rates that the port can be set to. -/
def baudrates : List Nat :=
  [1200, 1800, 2400, 4800, 9600, 19200, 38400, 57600, 115200, 230400, 460800]

theorem osRtuSetSerialCfg_speed (cfg : SerialCfg)
    : (osRtuSetSerialCfg cfg).speed ∈ baudrates
        ∧
      ((osRtuSetSerialCfg cfg).speed = cfg.baudrate ∨ (osRtuSetSerialCfg cfg).speed = 19200) := by
  obtain ⟨baudrate, parity⟩ := cfg
  unfold osRtuSetSerialCfg
  cases parity
  all_goals
    dsimp only
    split
    all_goals exact ⟨by decide, by simp⟩

theorem osRtuSetSerialCfg_istrip (cfg : SerialCfg)
    : (osRtuSetSerialCfg cfg).istrip = decide (cfg.parity ≠ .none) := by
  obtain ⟨baudrate, parity⟩ := cfg
  unfold osRtuSetSerialCfg
  cases parity with
  | odd => rfl
  | even => rfl
  | none =>
    dsimp only
    split
    all_goals rfl

theorem toNat_receive {tio : Termios} (h : tio.istrip = true) (b : UInt8)
    : (tio.receive b).toNat = b.toNat % 128 := by
  rw [Termios.receive, if_pos h, UInt8.toNat_and]
  exact Nat.and_two_pow_sub_one_eq_mod b.toNat 7

theorem receive_of_lt (tio : Termios) {b : UInt8} (h : b < 0x80) : tio.receive b = b := by
  by_cases hstrip : tio.istrip = true
  . have hlt : b.toNat < 128 := h
    apply UInt8.toNat_inj.mp
    rw [toNat_receive hstrip]
    omega
  . rw [Termios.receive, if_neg hstrip]

/-- The number of the characters above `0x7F`. -/
def eightBit (bytes : List UInt8) : Nat :=
  bytes.countP (fun b => 0x80 ≤ b)

theorem differences_append {bits bits' rest rest' : List Bool} (h : bits.length = bits'.length)
    : Lfsr.differences (bits ++ rest) (bits' ++ rest')
        =
      Lfsr.differences bits bits' ++ Lfsr.differences rest rest' := by
  exact List.zipWith_append h

theorem count_differences_seven : ∀ (v : BitVec 8),
    (Lfsr.differences (Lfsr.bitsOf v) (Lfsr.bitsOf (v &&& 0x7F#8))).count true
      =
    if 0x80#8 ≤ v then 1 else 0 := by
  decide +kernel

theorem count_differences_receive {tio : Termios} (h : tio.istrip = true) (b : UInt8)
    : (Lfsr.differences (Lfsr.bitsOf b.toBitVec) (Lfsr.bitsOf (tio.receive b).toBitVec)).count true
        =
      if 0x80 ≤ b then 1 else 0 := by
  rw [Termios.receive, if_pos h]
  exact count_differences_seven b.toBitVec

theorem count_differences_map {tio : Termios} (h : tio.istrip = true) (bytes : List UInt8)
    : (Lfsr.differences (serialBits bytes) (serialBits (bytes.map tio.receive))).count true
        =
      eightBit bytes := by
  induction bytes with
  | nil => rfl
  | cons b bytes ih =>
    simp only [serialBits, List.map_cons, List.flatMap_cons] at ih ⊢
    rw [differences_append (by simp [Lfsr.bitsOf]), List.count_append, ih,
      count_differences_receive h, eightBit, eightBit, List.countP_cons]
    simp only [decide_eq_true_eq]
    omega

section Cfg

variable {cfg : SerialCfg} (hbaudrate : 0 < cfg.baudrate)

/-- The speed of the line, and the timeouts for a character of that many microseconds. -/
structure RtuPort.Configured (cfg : SerialCfg) (port : RtuPort) : Prop where
  termios : port.termios = osRtuSetSerialCfg cfg
  quiet (now : Nat) : Clock.Quiet ⟨now, port.bsp⟩
  apart : port.bsp.tmr1p5.us.toNat + 1000 ≤ port.bsp.tmr3p5.us.toNat
  charTime : port.termios.charTime + 176 < port.bsp.tmr1p5.us.toNat

include hbaudrate

theorem mbRtuCharTime_of_pos
    : ∃ (charTime : UInt32),
        mbRtuCharTime cfg.baudrate = some charTime
          ∧
        charTime.toNat = if cfg.baudrate > 19200 then 500 else 11000000 / cfg.baudrate.toNat := by
  obtain ⟨n, hn⟩ := Int.eq_ofNat_of_zero_le (Int.le_of_lt hbaudrate)
  unfold mbRtuCharTime
  rw [hn] at hbaudrate ⊢
  by_cases hfast : (n : Int) > 19200
  . exact ⟨500, by rw [if_pos hfast], by rw [if_pos hfast]; rfl⟩
  . refine ⟨_, by rw [if_neg hfast, if_neg (by omega)], ?_⟩
    rw [if_neg hfast]
    have hle : 11000000 / n ≤ 11000000 := Nat.div_le_self _ _
    have hdiv : Int.tdiv (11 * 1000 * 1000) (n : Int) = ((11000000 / n : Nat) : Int) := by
      exact Int.ofNat_tdiv 11000000 n
    rw [hdiv, UInt32.ofInt, UInt32.toNat_ofNat']
    rw [Int.toNat_natCast]
    generalize 11000000 / n = charTime at hle ⊢
    omega

theorem mbRtuCreate_of_pos (port : RtuPort)
    : ∃ (port' : RtuPort), mbRtuCreate cfg port = some port' ∧ port'.Configured cfg := by
  obtain ⟨charTime, hsome, htime⟩ := mbRtuCharTime_of_pos hbaudrate
  obtain ⟨hmem, hspeed⟩ := osRtuSetSerialCfg_speed cfg
  have hle : 500 ≤ charTime.toNat ∧ charTime.toNat ≤ 11000000 := by
    rw [htime]
    split
    . omega
    . have hpos : cfg.baudrate.toNat ≤ 19200 ∧ 0 < cfg.baudrate.toNat := by omega
      constructor
      . rw [Nat.le_div_iff_mul_le hpos.2]
        omega
      . exact Nat.div_le_self _ _
  have h1p5 : (15 * charTime / 10).toNat = 15 * charTime.toNat / 10 := by
    rw [UInt32.toNat_div, UInt32.toNat_mul]
    change 15 * charTime.toNat % 4294967296 / 10 = _
    omega
  have h3p5 : (35 * charTime / 10).toNat = 35 * charTime.toNat / 10 := by
    rw [UInt32.toNat_div, UInt32.toNat_mul]
    change 35 * charTime.toNat % 4294967296 / 10 = _
    omega
  refine ⟨_, by simp only [mbRtuCreate, mbRtuInit, mbRtuSerialCfg, hsome]; rfl, rfl, ?_, ?_, ?_⟩
  . intro now
    exact ⟨rfl, rfl⟩
  . change (15 * charTime / 10).toNat + 1000 ≤ (35 * charTime / 10).toNat
    omega
  . change (osRtuSetSerialCfg cfg).charTime + 176 < (15 * charTime / 10).toNat
    rw [h1p5, htime, Termios.charTime]
    generalize (osRtuSetSerialCfg cfg).speed = speed at hmem hspeed
    obtain hspeed | rfl := hspeed
    . have hbaudrate' : cfg.baudrate.toNat = speed := by omega
      rw [hbaudrate', ← hspeed]
      clear * - hmem
      revert speed
      decide
    . split
      . omega
      . have hpos : cfg.baudrate.toNat ≤ 19200 ∧ 0 < cfg.baudrate.toNat := by omega
        have htime : 572 ≤ 11000000 / cfg.baudrate.toNat := by
          rw [Nat.le_div_iff_mul_le hpos.2]
          omega
        omega

end Cfg

/-- What has the checksum 0 is a frame, unless it is too short for one. -/
theorem eq_rtuFrame_of_crcOf {bytes : List UInt8} (hlen : 3 ≤ bytes.length)
    (hcrc : crcOf bytes 0xFFFF = 0)
    : ∃ (slave : UInt8) (pdu : List UInt8), bytes = rtuFrame slave pdu := by
  obtain ⟨slave, rest, rfl⟩ := List.exists_cons_of_length_pos (show 0 < bytes.length by omega)
  obtain ⟨rest, last, rfl⟩ := rest.eq_nil_or_concat.resolve_left (by rintro rfl; simp at hlen)
  obtain ⟨pdu, first, rfl⟩ := rest.eq_nil_or_concat.resolve_left (by rintro rfl; simp at hlen)
  refine ⟨slave, pdu, ?_⟩
  have hsplit : slave :: (pdu.concat first).concat last = [slave] ++ pdu ++ [first, last] := by
    simp
  rw [hsplit, crcOf_append, crcOf_append] at hcrc
  rw [rtuFrame, rtuTail]
  generalize crcOf pdu (crcOf [slave] 0xFFFF) = crc at hcrc ⊢
  obtain ⟨hhi, hlo⟩ := word_eq_zero hcrc
  simp only [List.foldl_cons, List.foldl_nil] at hhi hlo
  have hlast := Crc.crcHi_step_eq_zero hhi
  rw [hlast, Crc.step_self] at hlo
  have hfirst := Crc.crcHi_step_eq_zero hlo
  rw [hfirst, Crc.step_self ⟨hiByte crc, loByte crc⟩] at hlast
  rw [hlast, hfirst]
  simp

/-- What a call of `mb_rtu_rx` is given. -/
structure RxArgs where
  transaction : Txn
  tmo : UInt32

/-- A call of the task. What is still to happen on the line goes on from the call before. -/
def mbRtuRxNext (rounds : Nat) (args : RxArgs) (rtu : MbRtu Line)
    : Option ((Int × Txn) × MbRtu Line) :=
  (mbRtuRx rtuLine rounds args.transaction args.tmo rtu).map (fun r => ((r.1, r.2.1), r.2.2))

/-- All of that is still to happen. -/
def MbRtu.hearAll (events : List LineEvent) (schedule : Nat → Nat) (rtu : MbRtu Line)
    : MbRtu Line :=
  { rtu with line := { rtu.line with script := events, schedule, calls := 0 } }

/-- The task makes a call for each of the bursts, and has returned before the next one begins. -/
def AllInTime (rounds : Nat) : List Burst → List RxArgs → MbRtu Line → Prop
  | _ :: bursts, args :: calls, rtu =>
    RxInTime (bursts.flatMap Burst.events) args.transaction args.tmo rtu
      ∧
    ∀ (out : Int × Txn) (rtu' : MbRtu Line),
      mbRtuRxNext rounds args rtu = some (out, rtu') → AllInTime rounds bursts calls rtu'
  | _, _, _ => True

/-- What a call is given, and what happens meanwhile. -/
structure RxCall extends RxArgs where
  schedule : Nat → Nat

/-- A call that is in time for a burst. What comes later begins after it has returned. -/
def mbRtuRxCall (rounds : Nat) (input : Burst × RxCall) (rtu : MbRtu Line)
    : Option ((Int × Txn) × MbRtu Line) :=
  (mbRtuRx rtuLine rounds input.2.transaction input.2.tmo
    (rtu.hear input.1 input.2.schedule)).map (fun r => ((r.1, r.2.1), r.2.2))

namespace RxArgs

def Mine (args : RxArgs) (slave : UInt8) : Prop :=
  slave = args.transaction.unit ∨ slave = 0

/-- The PDU has been returned. -/
def Returns (pdu : List UInt8) (out : Int × Txn) : Prop :=
  out.1 = pdu.length ∧ out.2.data.load 0 pdu.length = pdu

/-- Nothing is accepted but a frame that is for the receiver. -/
def Sound (bytes : List UInt8) (args : RxArgs) (out : Int × Txn) : Prop :=
  out.1 < 0 ∨ ∃ (slave : UInt8) (pdu : List UInt8),
    bytes = rtuFrame slave pdu ∧ args.Mine slave ∧ Returns pdu out

/-- Every frame that is for the receiver is accepted. -/
def Complete (bytes : List UInt8) (args : RxArgs) (out : Int × Txn) : Prop :=
  ∀ (slave : UInt8) (pdu : List UInt8), bytes = rtuFrame slave pdu → args.Mine slave →
    Returns pdu out

end RxArgs

section Rx

variable {rounds : Nat} (hrounds : 2048 ≤ rounds) {rtu : MbRtu Line} (hidle : rtu.line.Idle)
  (call : RxCall) {burst : Burst} (hle : burst.bytes.length ≤ maxPduSize + 1)

include hrounds hidle hle

theorem mbRtuRxCall_burst
    : ∃ (out : Int × Txn) (rtu' : MbRtu Line),
        mbRtuRxCall rounds (burst, call) rtu = some (out, rtu')
          ∧
        (rtu'.line.Idle ∧ rtu'.line.written = rtu.line.written)
          ∧
        call.Sound burst.bytes out := by
  have hmax : maxPduSize = 253 := rfl
  have hbegins : (rtu.hear burst call.schedule).line.Begins burst rtu.line.port
      (rtu.line.hear burst call.schedule).forget := hidle.begins burst call.schedule
  have hevents := burst.length_events
  have hscript := (rtu.hear burst call.schedule).line.later_tick.script
  have hscript' : (rtu.hear burst call.schedule).line.script = burst.events := rfl
  rw [hscript'] at hscript
  obtain ⟨⟨result, transaction', rtu'⟩, hrx⟩ :=
    @mbRtuRx_rounds _ _ _ _ hbegins call.transaction call.tmo hle rounds (by omega)
  have hends := mbRtuRx_ends hbegins call.transaction call.tmo hrx
  refine ⟨(result, transaction'), rtu', by rw [mbRtuRxCall, hrx]; rfl,
    ⟨hends.idle (.inl hle), congrArg Port.written hends.port⟩, ?_⟩
  obtain ⟨slave, rest, hbytes, herror | ⟨hrest, hmine, hcrc, hresult, hdata⟩⟩ :=
    mbRtuRx_result hbegins call.transaction call.tmo hrx
  . exact .inl (neg_of_mem_errors herror)
  . obtain hshort | hlong := Nat.lt_or_ge rest.length 2
    . left
      change result < 0
      rw [hresult]
      clear * - hshort
      generalize rest.length = n at hshort
      revert n
      decide
    . right
      have hlen : 3 ≤ burst.bytes.length := by
        rw [hbytes, List.length_cons]
        omega
      obtain ⟨slave', pdu, hframe⟩ := eq_rtuFrame_of_crcOf hlen hcrc
      have hcons := hbytes.symm.trans hframe
      rw [rtuFrame, List.cons.injEq] at hcons
      obtain ⟨rfl, rfl⟩ := hcons
      have htail := length_rtuTail slave pdu
      refine ⟨slave, pdu, hframe, hmine, ?_, ?_⟩
      . rw [hresult, rxResult_eq (by omega) (by omega), htail]
        omega
      . rw [hdata]
        apply Mem.load_copy_left

/-- A frame that has been heard whole is accepted by whom it is for. -/
theorem mbRtuRxCall_frame {chunks : List (List UInt8)}
    (hscript : burst.script = frameScript chunks)
    : ∃ (out : Int × Txn) (rtu' : MbRtu Line),
        mbRtuRxCall rounds (burst, call) rtu = some (out, rtu')
          ∧
        (rtu'.line.Idle ∧ rtu'.line.written = rtu.line.written)
          ∧
        call.Sound burst.bytes out ∧ call.Complete burst.bytes out := by
  obtain ⟨out, rtu', hrx, hidle', hsound⟩ := mbRtuRxCall_burst hrounds hidle call hle
  refine ⟨out, rtu', hrx, hidle', hsound, ?_⟩
  intro slave pdu hbytes hmine
  have hlen := length_rtuFrame slave pdu
  rw [hbytes] at hle
  obtain ⟨result, data, rtu'', hheard, -, -, ⟨-, hclear⟩ | ⟨-, -, hresult, hload⟩⟩ :=
    mbRtuRx_heard hidle hrounds call.transaction call.tmo (by omega)
      { burst, schedule := call.schedule, intact := .inl hbytes }
  . have hother := hclear ⟨hbytes, chunks, hscript⟩
    rw [RxArgs.Mine] at hmine
    tauto
  . rw [mbRtuRxCall, hheard, Option.map_some, Option.some.injEq] at hrx
    obtain ⟨rfl, rfl⟩ := Prod.mk.inj hrx
    exact ⟨hresult, hload⟩

end Rx

/-- One call for each of the bursts. -/
theorem runAll_mbRtuRxCall {rounds : Nat} {rtu : MbRtu Line} (hidle : rtu.line.Idle)
    {Q : Burst → RxCall → Int × Txn → Prop} {inputs : List (Burst × RxCall)}
    (hstep : ∀ input ∈ inputs, ∀ (rtu : MbRtu Line), rtu.line.Idle →
      ∃ (out : Int × Txn) (rtu' : MbRtu Line),
        mbRtuRxCall rounds input rtu = some (out, rtu')
          ∧
        (rtu'.line.Idle ∧ rtu'.line.written = rtu.line.written)
          ∧
        Q input.1 input.2 out)
    : ∃ (outs : List (Int × Txn)) (rtu' : MbRtu Line),
        runAll (mbRtuRxCall rounds) inputs rtu = some (outs, rtu')
          ∧
        outs.length = inputs.length
          ∧
        (rtu'.line.Idle ∧ rtu'.line.written = rtu.line.written)
          ∧
        ∀ io ∈ inputs.zip outs, Q io.1.1 io.1.2 io.2 := by
  obtain ⟨outs, rtu', _, hrun, hlen, hruns, hidle'⟩ := @runAll_simulates _ Unit _ _
    (mbRtuRxCall rounds) (fun _ io _ => Q io.1.1 io.1.2 io.2) (fun input => input ∈ inputs)
    (fun rtu' _ => rtu'.line.Idle ∧ rtu'.line.written = rtu.line.written)
    (by
      rintro input rtu' - hinput ⟨hidle', hwritten⟩
      obtain ⟨out, rtu'', hrx, ⟨hidle'', hwritten'⟩, hQ⟩ := hstep input hinput rtu' hidle'
      exact ⟨out, rtu'', (), hrx, hQ, hidle'', hwritten'.trans hwritten⟩)
    inputs (by simp) rtu () ⟨hidle, rfl⟩
  exact ⟨outs, rtu', hrun, hlen, hidle', hruns.forall_mem (fun _ _ _ h => h)⟩

theorem Burst.length_le_arrivals {bursts : List Burst} {burst : Burst} (h : burst ∈ bursts)
    : burst.bytes.length ≤ (arrivals (bursts.flatMap Burst.events)).length := by
  have harrivals : arrivals (bursts.flatMap Burst.events) = bursts.flatMap Burst.bytes := by
    rw [arrivals, List.flatMap_assoc]
    rfl
  rw [harrivals, List.flatMap_def]
  exact (List.sublist_flatten_of_mem (List.mem_map_of_mem h)).length_le

/-- The line as it is if nothing more happens. -/
def Line.rest (l : Line) : Line :=
  { l with script := [] }

theorem Line.Idle.rest {l : Line} (h : l.Idle) (events : List LineEvent) (schedule : Nat → Nat)
    : ({ l with script := events, schedule, calls := 0 } : Line).rest.Idle := by
  exact ⟨h.fifo, h.rxAvail, h.t1p5, rfl⟩

/-- What the task is given, on a line on which the burst is all that is still to happen. -/
def RxArgs.alone (args : RxArgs) (l : Line) : RxCall :=
  { args with schedule := fun n => l.schedule (l.calls + n) }

section InTime

variable {rounds : Nat} {rtu : MbRtu Line} (hrest : rtu.line.rest.Idle) {burst : Burst}
  {later : List LineEvent} (hscript : rtu.line.script = burst.events ++ later) {args : RxArgs}
  (hintime : RxInTime later args.transaction args.tmo rtu)

include hrest hscript hintime

theorem mbRtuRxNext_inTime {out : Int × Txn} {rtu₁ : MbRtu Line}
    (hcall : mbRtuRxCall rounds (burst, args.alone rtu.line) { rtu with line := rtu.line.rest }
      =
    some (out, rtu₁))
    : ∃ (point : RxPoint Line) (rtu' : MbRtu Line),
        mbRtuRxNext rounds args rtu = some (out, rtu')
          ∧
        rtu₁.line.Ahead later rtu'.line
          ∧
        RxReaches rtuLine args.transaction args.tmo rtu point
          ∧
        rtu'.line.schedule = point.line.tick.schedule := by
  obtain ⟨⟨result, transaction, rtu₂⟩, hrx, heq⟩ := Option.map_eq_some_iff.mp hcall
  cases heq
  generalize hschedule : (args.alone rtu.line).schedule = schedule at hrx
  have hahead : (rtu.line.rest.hear burst schedule).Ahead later rtu.line :=
    ⟨rfl, rfl, rfl, hscript, fun n => by simp [← hschedule, Line.hear, RxArgs.alone]⟩
  obtain ⟨point, l', hrx', hahead', hreaches, hschedule'⟩ :=
    @mbRtuRx_inTime burst _ { rtu with line := rtu.line.rest.hear burst schedule } _ _ _
      (hrest.begins burst schedule) _ hahead _ _ _ hintime _ _ hrx
  exact ⟨point, _, congrArg (Option.map _) hrx', hahead', hreaches, hschedule'⟩

/-- What comes later is left on the line, and the next call goes on from there. -/
theorem mbRtuRxNext_takes {Q : RxArgs → Int × Txn → Prop}
    (hcall : ∀ (call : RxCall) (rtu : MbRtu Line), rtu.line.Idle →
      ∃ (out : Int × Txn) (rtu' : MbRtu Line),
        mbRtuRxCall rounds (burst, call) rtu = some (out, rtu')
          ∧
        (rtu'.line.Idle ∧ rtu'.line.written = rtu.line.written)
          ∧
        Q call.toRxArgs out)
    : ∃ (point : RxPoint Line) (out : Int × Txn) (rtu' : MbRtu Line),
        mbRtuRxNext rounds args rtu = some (out, rtu')
          ∧
        (rtu'.line.rest.Idle ∧ rtu'.line.script = later ∧ rtu'.line.written = rtu.line.written)
          ∧
        Q args out
          ∧
        RxReaches rtuLine args.transaction args.tmo rtu point
          ∧
        rtu'.line.schedule = point.line.tick.schedule := by
  obtain ⟨out, rtu₁, hsome, ⟨hidle, hwritten⟩, hQ⟩ :=
    hcall (args.alone rtu.line) { rtu with line := rtu.line.rest } hrest
  obtain ⟨point, rtu', hnext, hahead, hreaches⟩ := mbRtuRxNext_inTime hrest hscript hintime hsome
  refine ⟨point, out, rtu', hnext, ⟨⟨?_, ?_, ?_, rfl⟩, ?_, ?_⟩, hQ, hreaches⟩
  . exact hahead.fifo.trans hidle.fifo
  . exact (congrArg Flags.rxAvail hahead.flags).trans hidle.rxAvail
  . exact (congrArg Flags.t1p5 hahead.flags).trans hidle.t1p5
  . rw [hahead.script, hidle.script, List.nil_append]
  . exact hahead.written.trans hwritten

end InTime

section Calls

variable {rounds : Nat} {bursts : List Burst}

/-- One call for each of the bursts, on one line. -/
theorem runAll_mbRtuRxNext {Q : Burst → RxArgs → Int × Txn → Prop}
    (hcall : ∀ burst ∈ bursts, ∀ (call : RxCall) (rtu : MbRtu Line), rtu.line.Idle →
      ∃ (out : Int × Txn) (rtu' : MbRtu Line),
        mbRtuRxCall rounds (burst, call) rtu = some (out, rtu')
          ∧
        (rtu'.line.Idle ∧ rtu'.line.written = rtu.line.written)
          ∧
        Q burst call.toRxArgs out)
    {calls : List RxArgs} (hlen : calls.length = bursts.length) {rtu : MbRtu Line}
    (hrest : rtu.line.rest.Idle) (hscript : rtu.line.script = bursts.flatMap Burst.events)
    (hintime : AllInTime rounds bursts calls rtu)
    : ∃ (outs : List (Int × Txn)) (rtu' : MbRtu Line),
        runAll (mbRtuRxNext rounds) calls rtu = some (outs, rtu')
          ∧
        outs.length = bursts.length
          ∧
        (rtu'.line.Idle ∧ rtu'.line.written = rtu.line.written)
          ∧
        ∀ io ∈ (bursts.zip calls).zip outs, Q io.1.1 io.1.2 io.2 := by
  induction bursts generalizing calls rtu with
  | nil =>
    obtain rfl := List.length_eq_zero_iff.mp hlen
    exact ⟨[], rtu, rfl, rfl, ⟨⟨hrest.fifo, hrest.rxAvail, hrest.t1p5, hscript⟩, rfl⟩, by simp⟩
  | cons burst bursts ih =>
    obtain ⟨args, calls, rfl⟩ := List.exists_cons_of_length_eq_add_one hlen
    rw [List.forall_mem_cons] at hcall
    rw [List.length_cons, List.length_cons, Nat.add_right_cancel_iff] at hlen
    obtain ⟨hintime, hintimes⟩ := hintime
    obtain ⟨-, out, rtu', hnext, ⟨hrest', hscript', hwritten⟩, hQ, -⟩ :=
      mbRtuRxNext_takes hrest hscript hintime (Q := Q burst) hcall.1
    obtain ⟨outs, rtu'', hrun, hlen', ⟨hidle, hwritten'⟩, hQs⟩ :=
      ih hcall.2 hlen hrest' hscript' (hintimes out rtu' hnext)
    refine ⟨out :: outs, rtu'', ?_, ?_, ⟨hidle, hwritten'.trans hwritten⟩, ?_⟩
    . rw [runAll, hnext]
      dsimp only
      rw [hrun]
    . rw [List.length_cons, List.length_cons, hlen']
    . rw [List.zip_cons_cons, List.zip_cons_cons, List.forall_mem_cons]
      exact ⟨hQ, hQs⟩

/-- A task that does everything at once is in time for all of them. -/
theorem allInTime_of_still (hrounds : 2048 ≤ rounds)
    (hle : ∀ burst ∈ bursts, burst.bytes.length ≤ maxPduSize + 1) (calls : List RxArgs)
    {rtu : MbRtu Line} (hstill : ∀ (n : Nat), rtu.line.schedule n = 0) (hrest : rtu.line.rest.Idle)
    (hscript : rtu.line.script = bursts.flatMap Burst.events)
    : AllInTime rounds bursts calls rtu := by
  induction bursts generalizing calls rtu with
  | nil => trivial
  | cons burst bursts ih =>
    cases calls with
    | nil => trivial
    | cons args calls =>
      rw [List.forall_mem_cons] at hle
      have hexpiring := Line.expiring_of_still hstill hscript
      have hintime := hexpiring.rxInTime args.transaction args.tmo
      refine ⟨hintime, ?_⟩
      intro out rtu' hnext
      obtain ⟨point, out', rtu'', hnext', ⟨hrest', hscript', -⟩, -, hreaches, hschedule⟩ :=
        mbRtuRxNext_takes hrest hscript hintime (Q := fun args out => args.Sound burst.bytes out)
          (fun call rtu hidle => mbRtuRxCall_burst hrounds hidle call hle.1)
      rw [hnext, Option.some.injEq, Prod.mk.injEq] at hnext'
      obtain ⟨rfl, rfl⟩ := hnext'
      apply ih hle.2 calls _ hrest' hscript'
      rw [hschedule]
      exact (hreaches.expiring hexpiring).tick.still

end Calls

theorem burstScript_frameScript {chunks : List (List UInt8)} (h : ∀ chunk ∈ chunks, chunk ≠ [])
    : BurstScript (frameScript chunks) := by
  induction chunks with
  | nil => exact .expires
  | cons chunk chunks ih =>
    rw [List.forall_mem_cons] at h
    exact .chunk h.1 (ih h.2)

/-- A frame that is heard whole. -/
theorem exists_burst {frame : List Chunk} (hne : frame ≠ [])
    (hchunk : ∀ chunk ∈ frame, chunk.bytes ≠ [])
    (hlt : (frame.flatMap Chunk.bytes).length < 2 ^ 63)
    : ∃ (burst : Burst),
        burst.events = Chunk.script frame
          ∧
        burst.bytes = frame.flatMap Chunk.bytes
          ∧
        ∃ (chunks : List (List UInt8)), burst.script = frameScript chunks := by
  obtain ⟨chunk, chunks, rfl⟩ := List.exists_cons_of_ne_nil hne
  rw [List.forall_mem_cons] at hchunk
  have hbytes : chunk.bytes ++ arrivals (frameScript (chunks.map Chunk.bytes))
      = (chunk :: chunks).flatMap Chunk.bytes := by
    rw [arrivals_frameScript]
    rfl
  have hscript : BurstScript (frameScript (chunks.map Chunk.bytes)) := by
    apply burstScript_frameScript
    simpa using hchunk.2
  exact ⟨⟨chunk.bytes, hchunk.1, _, hscript, hbytes ▸ hlt⟩, rfl, hbytes, _, rfl⟩

theorem exists_bursts {frames : List (List Chunk)} (hne : [] ∉ frames)
    (hchunk : ∀ frame ∈ frames, ∀ chunk ∈ frame, chunk.bytes ≠ [])
    (hlt : ∀ frame ∈ frames, (frame.flatMap Chunk.bytes).length < 2 ^ 63)
    : ∃ (bursts : List Burst),
        bursts.flatMap Burst.events = frames.flatMap Chunk.script
          ∧
        bursts.map Burst.bytes = frames.map (fun frame => frame.flatMap Chunk.bytes)
          ∧
        ∀ burst ∈ bursts, ∃ (chunks : List (List UInt8)), burst.script = frameScript chunks := by
  induction frames with
  | nil => exact ⟨[], rfl, rfl, by simp⟩
  | cons frame frames ih =>
    rw [List.forall_mem_cons] at hchunk hlt
    rw [List.mem_cons, not_or] at hne
    obtain ⟨burst, hevents, hbytes, hscript⟩ := exists_burst (Ne.symm hne.1) hchunk.1 hlt.1
    obtain ⟨bursts, hevents', hbytes', hscripts⟩ := ih hne.2 hchunk.2 hlt.2
    refine ⟨burst :: bursts, ?_, ?_, ?_⟩
    . rw [List.flatMap_cons, List.flatMap_cons, hevents, hevents']
    . rw [List.map_cons, List.map_cons, hbytes, hbytes']
    . rw [List.forall_mem_cons]
      exact ⟨hscript, hscripts⟩

theorem RtuPort.Configured.runs_phases {cfg : SerialCfg} {port : RtuPort}
    (h : port.Configured cfg) {late : Nat} (hlate : late < 1000) {now : Nat} {c : Clock}
    (hquiet : c.Quiet) {es : List Stamped} (hruns : Runs (Clock.Step late) ⟨now, port.bsp⟩ es c)
    : ∃ (t : Nat),
        Runs (Phase.Step port.bsp.tmr1p5.us.toNat port.bsp.tmr3p5.us.toNat late) (.quiet now) es
          (.quiet t) := by
  have hapart := h.apart
  exact Clock.runs_phases (by omega) hruns ⟨rfl, rfl⟩ (h.quiet now) hquiet

/-- The hook is called for every character, at most 176 microseconds late, or after the silence. -/
def RtuPort.Spaced (port : RtuPort) (late : Nat) (chunk chunk' : Chunk) : Prop :=
  chunk'.time ≤ chunk.time + port.termios.charTime + 176
    ∨
  chunk.time + port.bsp.tmr3p5.us.toNat + late < chunk'.time

section Timed

variable {rounds : Nat} (hrounds : 2048 ≤ rounds) {rtu : MbRtu Line} (hidle : rtu.line.Idle)
  {cfg : SerialCfg} (hbaudrate : 0 < cfg.baudrate) {late : Nat} (hlate : late < 1000)
  {port port' : RtuPort} (hcreate : mbRtuCreate cfg port = some port') {now : Nat} {c : Clock}
  (hquiet : c.Quiet) {es : List Stamped} (hruns : Runs (Clock.Step late) ⟨now, port'.bsp⟩ es c)

include hbaudrate hlate hcreate hquiet hruns

/-- Frames that are heard whole. -/
theorem mbRtu_hears (hspaced : (chunks es).IsChain (port'.Spaced late)) {heard : List (List UInt8)}
    (hheard : (frames port'.bsp.tmr1p5.us.toNat es).map (fun frame => frame.flatMap Chunk.bytes)
      =
    heard)
    (hfit : ∀ bytes ∈ heard, bytes.length ≤ maxPduSize + 1)
    : ∃ (bursts : List Burst),
        lineEvents es = bursts.flatMap Burst.events
          ∧
        bursts.map Burst.bytes = heard
          ∧
        ∀ burst ∈ bursts,
          burst.bytes.length ≤ maxPduSize + 1
            ∧
          ∃ (chunks : List (List UInt8)), burst.script = frameScript chunks := by
  have hmax : maxPduSize = 253 := rfl
  obtain ⟨_, hsome, hport⟩ := mbRtuCreate_of_pos hbaudrate port
  rw [hcreate, Option.some.injEq] at hsome
  subst hsome
  subst hheard
  have hapart := hport.apart
  have hcharTime := hport.charTime
  obtain ⟨t, hphases⟩ := hport.runs_phases hlate hquiet hruns
  have hclear : (chunks es).IsChain
      (Chunk.Clear port'.bsp.tmr1p5.us.toNat port'.bsp.tmr3p5.us.toNat late) := by
    apply hspaced.imp
    rintro chunk chunk' (hnear | hfar)
    . left
      omega
    . exact .inr hfar
  have hevents := Phase.lineEvents_runs (by omega) hphases hclear
  obtain ⟨bursts, hbursts, hbytes, hscripts⟩ := exists_bursts
    (show [] ∉ frames port'.bsp.tmr1p5.us.toNat es from List.nil_notMem_splitBy _ _)
    (fun frame hframe chunk hchunk => Phase.chunks_ne_nil hphases chunk
      (mem_chunks_of_mem_frames hframe hchunk))
    (fun frame hframe => Nat.lt_of_le_of_lt (hfit _ (List.mem_map_of_mem hframe)) (by omega))
  refine ⟨bursts, hevents.trans hbursts.symm, hbytes, ?_⟩
  intro burst hburst
  refine ⟨?_, hscripts burst hburst⟩
  apply hfit
  rw [← hbytes]
  exact List.mem_map_of_mem hburst

include hrounds hidle

/--
Whatever the times at which the hook is called, the events are those of bursts. If each call of the
receiver is in time for one of them, whatever happens when, it takes that burst and no other: it is
a frame and for the receiver, or rejected.
-/
theorem mbRtu_timed (schedule : Nat → Nat) (hlt : (arrivals (lineEvents es)).length < 2 ^ 63)
    : ∃ (bursts : List Burst),
        lineEvents es = bursts.flatMap Burst.events
          ∧
        ∀ (calls : List RxArgs), calls.length = bursts.length →
          (∀ burst ∈ bursts, burst.bytes.length ≤ maxPduSize + 1) →
          AllInTime rounds bursts calls (rtu.hearAll (lineEvents es) schedule) →
            ∃ (outs : List (Int × Txn)) (rtu' : MbRtu Line),
              runAll (mbRtuRxNext rounds) calls (rtu.hearAll (lineEvents es) schedule)
                =
              some (outs, rtu')
                ∧
              outs.length = bursts.length
                ∧
              (rtu'.line.Idle ∧ rtu'.line.written = rtu.line.written)
                ∧
              ∀ io ∈ (bursts.zip calls).zip outs, io.1.2.Sound io.1.1.bytes io.2 := by
  obtain ⟨_, hsome, hport⟩ := mbRtuCreate_of_pos hbaudrate port
  rw [hcreate, Option.some.injEq] at hsome
  subst hsome
  obtain ⟨t, hphases⟩ := hport.runs_phases hlate hquiet hruns
  obtain ⟨rest, bursts, hrest, hevents⟩ := Phase.runs_bursts hphases hlt
  subst hrest
  refine ⟨bursts, hevents, ?_⟩
  intro calls hcalls hle hintime
  exact runAll_mbRtuRxNext (Q := fun burst args out => args.Sound burst.bytes out)
    (fun burst hburst call rtu hidle => mbRtuRxCall_burst hrounds hidle call (hle burst hburst))
    hcalls (hidle.rest (lineEvents es) schedule) hevents hintime

/--
A conversation on the line of frames whose characters follow each other at the speed that the port
has been set to. Each call of the receiver that is in time for its frame takes that frame, and
returns its PDU if it is for the receiver.
-/
theorem mbRtu_conversation (schedule : Nat → Nat)
    (hspaced : (chunks es).IsChain (port'.Spaced late)) {sent : List (UInt8 × List UInt8)}
    (hfit : ∀ frame ∈ sent, frame.2.length + 2 ≤ maxPduSize)
    (hsent : (frames port'.bsp.tmr1p5.us.toNat es).map (fun frame => frame.flatMap Chunk.bytes)
      =
    sent.map (fun frame => (rtuFrame frame.1 frame.2).map port'.termios.receive))
    (hseven : cfg.parity ≠ .none → ∀ frame ∈ sent, ∀ b ∈ rtuFrame frame.1 frame.2, b < 0x80)
    : ∃ (bursts : List Burst),
        lineEvents es = bursts.flatMap Burst.events
          ∧
        bursts.map Burst.bytes = sent.map (fun frame => rtuFrame frame.1 frame.2)
          ∧
        ∀ (calls : List RxArgs), calls.length = sent.length →
          AllInTime rounds bursts calls (rtu.hearAll (lineEvents es) schedule) →
            ∃ (outs : List (Int × Txn)) (rtu' : MbRtu Line),
              runAll (mbRtuRxNext rounds) calls (rtu.hearAll (lineEvents es) schedule)
                =
              some (outs, rtu')
                ∧
              outs.length = sent.length
                ∧
              (rtu'.line.Idle ∧ rtu'.line.written = rtu.line.written)
                ∧
              ∀ io ∈ (bursts.zip calls).zip outs,
                io.1.2.Sound io.1.1.bytes io.2 ∧ io.1.2.Complete io.1.1.bytes io.2 := by
  obtain ⟨_, hsome, hport⟩ := mbRtuCreate_of_pos hbaudrate port
  rw [hcreate, Option.some.injEq] at hsome
  subst hsome
  -- Nothing is stripped from the characters.
  have hreceive : ∀ frame ∈ sent,
      (rtuFrame frame.1 frame.2).map port'.termios.receive = rtuFrame frame.1 frame.2 := by
    intro frame hframe
    refine (List.map_congr_left (g := id) ?_).trans (List.map_id _)
    intro b hb
    by_cases hparity : cfg.parity = .none
    . rw [hport.termios, Termios.receive, osRtuSetSerialCfg_istrip]
      simp [hparity]
    . exact receive_of_lt _ (hseven hparity frame hframe b hb)
  rw [List.map_congr_left hreceive] at hsent
  obtain ⟨bursts, hevents, hbytes, hbursts⟩ := mbRtu_hears hbaudrate hlate hcreate hquiet hruns
    hspaced hsent (by
      rw [List.forall_mem_map]
      intro frame hframe
      have hle := hfit frame hframe
      rw [length_rtuFrame]
      omega)
  have hcount := congrArg List.length hbytes
  rw [List.length_map, List.length_map] at hcount
  refine ⟨bursts, hevents, hbytes, ?_⟩
  intro calls hcalls hintime
  rw [← hcount] at hcalls ⊢
  exact runAll_mbRtuRxNext
    (Q := fun burst args out => args.Sound burst.bytes out ∧ args.Complete burst.bytes out)
    (fun burst hburst call rtu hidle => by
      obtain ⟨hle, chunks, hscript⟩ := hbursts burst hburst
      exact mbRtuRxCall_frame hrounds hidle call hle hscript)
    hcalls (hidle.rest (lineEvents es) schedule) hevents hintime

/--
With a parity bit the port strips the characters to seven bits. Of a conversation of frames of which
each has an odd number of characters above `0x7F`, or two, a receiver that is in time for each of
them accepts nothing.
-/
theorem mbRtu_conversation_stripped (hparity : cfg.parity ≠ .none)
    (hspaced : (chunks es).IsChain (port'.Spaced late)) {sent : List (UInt8 × List UInt8)}
    (hfit : ∀ frame ∈ sent, frame.2.length + 2 ≤ maxPduSize)
    (hsent : (frames port'.bsp.tmr1p5.us.toNat es).map (fun frame => frame.flatMap Chunk.bytes)
      =
    sent.map (fun frame => (rtuFrame frame.1 frame.2).map port'.termios.receive))
    (height : ∀ frame ∈ sent,
      Odd (eightBit (rtuFrame frame.1 frame.2)) ∨ eightBit (rtuFrame frame.1 frame.2) = 2)
    : ∃ (bursts : List Burst),
        lineEvents es = bursts.flatMap Burst.events
          ∧
        bursts.length = sent.length
          ∧
        ∀ (calls : List RxCall), calls.length = sent.length →
          ∃ (outs : List (Int × Txn)) (rtu' : MbRtu Line),
            runAll (mbRtuRxCall rounds) (bursts.zip calls) rtu = some (outs, rtu')
              ∧
            outs.length = sent.length
              ∧
            rtu'.line.Idle
              ∧
            ∀ out ∈ outs, out.1 < 0 := by
  have hmax : maxPduSize = 253 := rfl
  obtain ⟨_, hsome, hport⟩ := mbRtuCreate_of_pos hbaudrate port
  rw [hcreate, Option.some.injEq] at hsome
  subst hsome
  have hstrip : port'.termios.istrip = true := by
    rw [hport.termios, osRtuSetSerialCfg_istrip]
    simpa using hparity
  obtain ⟨bursts, hevents, hbytes, hbursts⟩ := mbRtu_hears hbaudrate hlate hcreate hquiet hruns
    hspaced hsent (by
      rw [List.forall_mem_map]
      intro frame hframe
      have hle := hfit frame hframe
      rw [List.length_map, length_rtuFrame]
      omega)
  have hcount := congrArg List.length hbytes
  rw [List.length_map, List.length_map] at hcount
  refine ⟨bursts, hevents, hcount, ?_⟩
  intro calls hlen
  obtain ⟨outs, rtu', hrun, hlen', ⟨hidle', -⟩, hreceived⟩ := runAll_mbRtuRxCall hidle
    (Q := fun burst call out => call.Sound burst.bytes out)
    (fun input (hinput : input ∈ bursts.zip calls) rtu hidle =>
      mbRtuRxCall_burst hrounds hidle input.2 (hbursts _ (List.of_mem_zip hinput).1).1)
  rw [List.length_zip, hlen, hcount, Nat.min_self] at hlen'
  refine ⟨outs, rtu', hrun, hlen', hidle', ?_⟩
  intro out hout
  -- Some burst was heard when that was returned.
  have hzip : (bursts.zip calls).length = outs.length := by
    rw [List.length_zip, hlen, hcount, Nat.min_self, hlen']
  rw [← List.map_snd_zip (Nat.le_of_eq hzip.symm), List.mem_map] at hout
  obtain ⟨⟨⟨burst, call⟩, out⟩, hio, rfl⟩ := hout
  obtain hneg | ⟨slave, pdu, hframe, -⟩ := hreceived _ hio
  . exact hneg
  . have hburst := List.mem_map_of_mem (f := Burst.bytes)
      (List.of_mem_zip (List.of_mem_zip hio).1).1
    rw [hbytes, List.mem_map] at hburst
    obtain ⟨frame, hmem, heq⟩ := hburst
    have hcrc := crcOf_rtuFrame slave pdu
    rw [← rtuFrame, ← hframe, ← heq] at hcrc
    have hle := hfit frame hmem
    refine absurd hcrc (@crcOf_ne_zero_of_detectable (rtuFrame frame.1 frame.2) _
      (List.length_map _) ?_ (crcOf_rtuFrame frame.1 frame.2) ?_)
    . rw [length_rtuFrame]
      omega
    . rw [Detectable, count_differences_map hstrip]
      have hcases := height frame hmem
      tauto

end Timed

section Sample

def samplePort (parity : Parity) : RtuPort where
  termios := osRtuSetSerialCfg ⟨9600, parity⟩
  charTimeUs := 1145
  bsp :=
    {
      tmr1p5 := ⟨1717, none⟩
      t1p5Callback := none
      tmr3p5 := ⟨4007, none⟩
      t3p5Callback := none
    }

theorem mbRtuCreate_sample (parity : Parity)
    : mbRtuCreate ⟨9600, parity⟩ (samplePort parity) = some (samplePort parity) := by
  have hcharTime : mbRtuCharTime 9600 = some 1145 := by decide
  rw [mbRtuCreate, mbRtuInit, mbRtuSerialCfg]
  dsimp only
  rw [hcharTime]
  rfl

/-- The characters of a frame arrive in two chunks. -/
def sampleFrame (t : Nat) (first rest : List UInt8) : List Stamped :=
  [.hook t first, .hook (t + 1300) rest, ⟨t + 3017, [.t1p5]⟩, ⟨t + 5307, [.t3p5]⟩]

theorem runs_sampleFrame {c : Clock} (htimeouts : c.Timeouts 1717 4007) (hquiet : c.Quiet)
    {t : Nat} (hnow : c.now ≤ t) {first rest : List UInt8} (hfirst : first ≠ []) (hrest : rest ≠ [])
    : ∃ (c' : Clock),
        Runs (Clock.Step 0) c (sampleFrame t first rest) c'
          ∧
        c'.Timeouts 1717 4007 ∧ c'.Quiet ∧ c'.now = t + 5307 := by
  obtain ⟨now, ⟨⟨us1p5, due1p5⟩, callback1p5, ⟨us3p5, due3p5⟩, callback3p5⟩⟩ := c
  obtain ⟨h1p5, h3p5⟩ := htimeouts
  obtain ⟨hdue1p5, hdue3p5⟩ := hquiet
  dsimp only at h1p5 h3p5 hdue1p5 hdue3p5 hnow
  subst hdue1p5 hdue3p5
  refine ⟨_, .cons (.hook hfirst hnow ?_) (.cons (.hook hrest ?_ ?_)
    (.cons (.t1p5 rfl ?_ ?_ ?_) (.cons (.t3p5 rfl ?_ ?_ ?_) (.nil _)))),
    ⟨h1p5, h3p5⟩, ⟨rfl, rfl⟩, rfl⟩
  all_goals simp [Bsp.Punctual, mbRxHook, mbTmrStart, osTimerStart, h1p5, h3p5]

/-- A frame to the slave 1, of which the last character is above `0x7F`, and one to the slave 2. -/
def sampleRun : List Stamped :=
  sampleFrame 0 [1] [0x07, 0x41, 0xE2] ++ sampleFrame 10000 [2] [0x07, 0x41, 0x12]

theorem runs_sampleRun (parity : Parity)
    : ∃ (c : Clock), Runs (Clock.Step 0) ⟨0, (samplePort parity).bsp⟩ sampleRun c ∧ c.Quiet := by
  obtain ⟨c, hruns, htimeouts, hquiet, hnow⟩ := @runs_sampleFrame ⟨0, (samplePort parity).bsp⟩
    ⟨rfl, rfl⟩ ⟨rfl, rfl⟩ 0 (Nat.le_refl 0) [1] [0x07, 0x41, 0xE2] (by decide) (by decide)
  obtain ⟨c', hruns', -, hquiet', -⟩ := @runs_sampleFrame c htimeouts hquiet 10000 (by omega)
    [2] [0x07, 0x41, 0x12] (by decide) (by decide)
  exact ⟨c', hruns.append hruns', hquiet'⟩

theorem allInTime_sampleRun {bursts : List Burst}
    (hevents : lineEvents sampleRun = bursts.flatMap Burst.events) (calls : List RxArgs)
    : (∀ burst ∈ bursts, burst.bytes.length ≤ maxPduSize + 1)
        ∧
      AllInTime 2048 bursts calls (MbRtu.idle.hearAll (lineEvents sampleRun) (fun _ => 0)) := by
  have hle : ∀ burst ∈ bursts, burst.bytes.length ≤ maxPduSize + 1 := by
    intro burst hburst
    have hlength := Burst.length_le_arrivals hburst
    rw [← hevents] at hlength
    apply Nat.le_trans hlength
    decide
  have hidle : MbRtu.idle.line.Idle := ⟨rfl, rfl, rfl, rfl⟩
  refine ⟨hle, ?_⟩
  exact allInTime_of_still (Nat.le_refl 2048) hle calls (fun _ => rfl) (hidle.rest _ _) hevents

theorem mbRtu_timed_sample
    : ∃ (bursts : List Burst),
        lineEvents sampleRun = bursts.flatMap Burst.events
          ∧
        ∀ (calls : List RxArgs), calls.length = bursts.length →
          ∃ (outs : List (Int × Txn)) (rtu' : MbRtu Line),
            runAll (mbRtuRxNext 2048) calls
              (MbRtu.idle.hearAll (lineEvents sampleRun) (fun _ => 0))
              =
            some (outs, rtu')
              ∧
            ∀ io ∈ (bursts.zip calls).zip outs, io.1.2.Sound io.1.1.bytes io.2 := by
  obtain ⟨c, hruns, hquiet⟩ := runs_sampleRun .none
  obtain ⟨bursts, hevents, hcalls⟩ := mbRtu_timed (Nat.le_refl 2048)
    (show MbRtu.idle.line.Idle from ⟨rfl, rfl, rfl, rfl⟩) (show 0 < (9600 : Int) by decide)
    (show 0 < 1000 by decide) (mbRtuCreate_sample .none) hquiet hruns (fun _ => 0) (by decide)
  refine ⟨bursts, hevents, fun calls hlen => ?_⟩
  obtain ⟨hle, hintime⟩ := allInTime_sampleRun hevents calls
  obtain ⟨outs, rtu', hrun, -, -, hsound⟩ := hcalls calls hlen hle hintime
  exact ⟨outs, rtu', hrun, hsound⟩

theorem mbRtu_conversation_sample
    : ∃ (bursts : List Burst),
        lineEvents sampleRun = bursts.flatMap Burst.events
          ∧
        bursts.map Burst.bytes = [[1, 0x07, 0x41, 0xE2], [2, 0x07, 0x41, 0x12]]
          ∧
        ∀ (calls : List RxArgs), calls.length = 2 →
          ∃ (outs : List (Int × Txn)) (rtu' : MbRtu Line),
            runAll (mbRtuRxNext 2048) calls
              (MbRtu.idle.hearAll (lineEvents sampleRun) (fun _ => 0))
              =
            some (outs, rtu')
              ∧
            ∀ io ∈ (bursts.zip calls).zip outs,
              io.1.2.Sound io.1.1.bytes io.2 ∧ io.1.2.Complete io.1.1.bytes io.2 := by
  obtain ⟨c, hruns, hquiet⟩ := runs_sampleRun .none
  have hspaced : (chunks sampleRun).IsChain ((samplePort .none).Spaced 0) := by
    refine .cons_cons (.inl ?_) (.cons_cons (.inr ?_) (.cons_cons (.inl ?_) (.singleton _)))
    all_goals decide
  obtain ⟨bursts, hevents, hbytes, hcalls⟩ := mbRtu_conversation
    (Nat.le_refl 2048) (show MbRtu.idle.line.Idle from ⟨rfl, rfl, rfl, rfl⟩)
    (show 0 < (9600 : Int) by decide) (show 0 < 1000 by decide) (mbRtuCreate_sample .none) hquiet
    hruns (fun _ => 0) hspaced
    (show ∀ frame ∈ [((1 : UInt8), [7]), (2, [7])], frame.2.length + 2 ≤ maxPduSize by decide)
    (by decide) (by simp)
  refine ⟨bursts, hevents, hbytes, fun calls hlen => ?_⟩
  obtain ⟨outs, rtu', hrun, -, -, hreceived⟩ :=
    hcalls calls hlen (allInTime_sampleRun hevents calls).2
  exact ⟨outs, rtu', hrun, hreceived⟩

/-- To a task that is late the two frames are one, and it waits for a second one for ever. -/
example
    : let args : RxArgs := ⟨⟨0, 0, 1, fun _ => 0⟩, 0⟩
      let rtu := MbRtu.idle.hearAll (lineEvents sampleRun) (fun _ => 20)
      (runAll (mbRtuRxNext 64) [args] rtu).map (fun r => r.1.map Prod.fst) = some [eCrcFail]
        ∧
      (runAll (mbRtuRxNext 64) [args, args] rtu).isNone = true := by
  decide +kernel

/-- The last character of the frame is received as `0x62`. -/
theorem mbRtu_conversation_stripped_sample
    : ∃ (bursts : List Burst),
        lineEvents (sampleFrame 0 [1] [0x07, 0x41, 0x62]) = bursts.flatMap Burst.events
          ∧
        bursts.length = 1
          ∧
        ∀ (calls : List RxCall), calls.length = 1 →
          ∃ (outs : List (Int × Txn)) (rtu' : MbRtu Line),
            runAll (mbRtuRxCall 2048) (bursts.zip calls) .idle = some (outs, rtu')
              ∧
            ∀ out ∈ outs, out.1 < 0 := by
  obtain ⟨c, hruns, -, hquiet, -⟩ := @runs_sampleFrame ⟨0, (samplePort .odd).bsp⟩
    ⟨rfl, rfl⟩ ⟨rfl, rfl⟩ 0 (Nat.le_refl 0) [1] [0x07, 0x41, 0x62] (by decide) (by decide)
  have hspaced : (chunks (sampleFrame 0 [1] [0x07, 0x41, 0x62])).IsChain
      ((samplePort .odd).Spaced 0) := by
    refine .cons_cons (.inl ?_) (.singleton _)
    decide
  obtain ⟨bursts, hevents, hcount, hcalls⟩ := mbRtu_conversation_stripped
    (Nat.le_refl 2048) (show MbRtu.idle.line.Idle from ⟨rfl, rfl, rfl, rfl⟩)
    (show 0 < (9600 : Int) by decide) (show 0 < 1000 by decide) (mbRtuCreate_sample .odd)
    hquiet hruns (by decide) hspaced
    (show ∀ frame ∈ [((1 : UInt8), [7])], frame.2.length + 2 ≤ maxPduSize by decide)
    (by decide) (by decide)
  refine ⟨bursts, hevents, hcount, fun calls hlen => ?_⟩
  obtain ⟨outs, rtu', hrun, -, -, hneg⟩ := hcalls calls hlen
  exact ⟨outs, rtu', hrun, hneg⟩

end Sample

end Modbus
