import Modbus.Data.Runs
import Modbus.Rtu.Serial

/-!
This module contains a serial port that sends, and the silence that `mb_rtu_tx` leaves after a
frame. The characters that are written are sent one after the other, each in the time that it takes,
while the task goes on. Every call may take any time.
-/

namespace Modbus

structure TxPort where
  now : Nat
  -- When all the characters will have been sent
  busy : Nat
  -- The characters, with the times at which they begin
  wire : List (Nat × UInt8)
  -- When T3P5 is due, and whether its flag is set, which may be since an earlier frame
  due : Nat
  t3p5 : Bool
  -- Some character was on its way when the transceiver was disabled.
  cut : Bool
  writePiece : Nat → Nat
  latency : Nat → Nat
  calls : Nat

namespace TxPort

def tick (s : TxPort) : TxPort :=
  { s with now := s.now + s.latency s.calls, calls := s.calls + 1 }

def wait (us : Nat) (s : TxPort) : TxPort :=
  { s with now := s.now + us }

def put (charTime : Nat) (b : UInt8) (s : TxPort) : TxPort :=
  {
    s with
    wire := s.wire ++ [(max s.busy s.now, b)]
    busy := max s.busy s.now + charTime
  }

def write (charTime : Nat) (buffer : Mem) (p : Int) (size : Nat) (s : TxPort) : Int × TxPort :=
  let n := min size (max 1 (s.writePiece s.calls))
  (n, (buffer.load p.toNat n).foldl (fun s b => s.put charTime b) s.tick)

/-- It sleeps for the time of a character at 115200 baud. -/
def drainLinux (s : TxPort) : TxPort :=
  s.wait 95

/-- It asks the driver until there is nothing left to be sent. -/
def drainRtKernel (s : TxPort) : TxPort :=
  { s with now := max s.now s.busy }

/-- A port whose calls take no time. -/
def still : TxPort where
  now := 0
  busy := 0
  wire := []
  due := 0
  t3p5 := true
  cut := false
  writePiece _ := 256
  latency _ := 0
  calls := 0

end TxPort

/--
The calls of `mb_rtu_tx`. A wait for `FLAG_T3P5` ends when the timer is due, or at once if the flag
is still set. The wait for `FLAG_TX_EMPTY` may end at any time, as the flag is also set if the port
runs empty between two writes.
-/
def txLine (charTime t3p5 : Nat) (drain : TxPort → TxPort) : RtuOs TxPort where
  write := TxPort.write charTime
  read _ s := (none, s.tick)
  rxAvail s := (0, s.tick)
  txDrain _ s := drain s.tick
  eventSet mask s := { s.tick with t3p5 := mask.t3p5 || s.t3p5 }
  eventClr mask s := { s.tick with t3p5 := !mask.t3p5 && s.t3p5 }
  eventWait mask _ s :=
    if mask.t3p5 then
      if s.t3p5 then
        some (some { t3p5 := true }, s.tick)
      else
        some (some { t3p5 := true }, { s.tick with now := max s.tick.now s.due, t3p5 := true })
    else
      some (some mask, s.tick)
  txEnable := some (fun level s =>
    { s.tick with cut := s.cut || (level == 0 && s.tick.now < s.busy) })
  tmrStart _ s := { s.tick with due := s.tick.now + t3p5 }

/-- The `mb_rtu_tx` of the ports other than Linux. -/
def mbRtuTxEmpty {ω : Type} (os : RtuOs ω) (host : Endian) (rounds : Nat) (transaction : Txn)
    (size : Nat) (rtu : MbRtu ω)
    : Option (MbRtu ω) :=
  let slave := transaction.unit
  -- Compute CRC
  let crc := mbCrc (fun _ => slave) 1 0xFFFF
  let crc := mbCrc transaction.data (UInt8.ofNat size) crc
  -- Enable Tx
  let line := mbRtuTxEnable os 1 rtu.line
  -- Send slave address
  match mbRtuWrite os rounds (fun _ => slave) 1 line with
  | none => none
  | some line =>
    -- Send PDU
    let line := os.eventClr { txEmpty := true } line
    match mbRtuWrite os rounds transaction.data size line with
    | none => none
    | some line =>
      -- Send CRC
      match mbRtuWrite os rounds (Mem.store16 host (fun _ => 0) 0 crc) 2 line with
      | none => none
      | some line =>
        -- Wait for emission of last character
        match os.eventWait { txEmpty := true } none line with
        | none => none
        | some (_, line) =>
          let line := os.txDrain (3 + size) line
          -- Clear state for reception
          let line := os.eventClr { t1p5 := true, t3p5 := true } line
          -- Disable Tx
          let line := mbRtuTxEnable os 0 line
          -- Start and wait for T3P5 timer
          let line := os.tmrStart false line
          match os.eventWait { t3p5 := true } none line with
          | none => none
          | some (_, line) => some { rtu with line }

/-- The port has sent these characters, or will have by the time at which it is no longer busy. -/
structure TxPort.Sends (charTime : Nat) (s s' : TxPort) (chars : List (Nat × UInt8)) : Prop where
  wire : s'.wire = s.wire ++ chars
  begins : ∀ c ∈ chars, max s.busy s.now ≤ c.1
  ends : ∀ c ∈ chars, c.1 + charTime ≤ s'.busy
  now : s.now ≤ s'.now
  le_busy : chars ≠ [] → max s.busy s.now + chars.length * charTime ≤ s'.busy
  busy_le : s'.busy ≤ max s.busy s'.now + chars.length * charTime
  first : ∀ c ∈ chars.head?, c.1 ≤ max s.busy s'.now
  last : ∀ c ∈ chars.getLast?, c.1 + charTime = s'.busy
  none : chars = [] → s'.busy = s.busy
  cut : s'.cut = s.cut
  latency : s'.latency = s.latency
  still : (∀ (n : Nat), s.latency n = 0) → s'.now = s.now

namespace TxPort.Sends

variable {charTime : Nat} {s s' s'' : TxPort} {chars chars' : List (Nat × UInt8)}

theorem mono (h : s.Sends charTime s' chars)
    : s.busy ≤ s'.busy := by
  by_cases hnil : chars = []
  . rw [h.none hnil]
  . have hle := h.le_busy hnil
    omega

theorem trans (h : s.Sends charTime s' chars) (h' : s'.Sends charTime s'' chars')
    : s.Sends charTime s'' (chars ++ chars') := by
  have hnow := h.now
  have hnow' := h'.now
  have hle := h.mono
  have hle' := h'.mono
  have hge := h.busy_le
  have hge' := h'.busy_le
  constructor
  case wire => rw [h'.wire, h.wire, List.append_assoc]
  case begins =>
    intro c hc
    obtain hc | hc := List.mem_append.mp hc
    . exact h.begins c hc
    . have hbegins := h'.begins c hc
      omega
  case ends =>
    intro c hc
    obtain hc | hc := List.mem_append.mp hc
    . have hends := h.ends c hc
      omega
    . exact h'.ends c hc
  case now => omega
  case le_busy =>
    intro hne
    rw [List.length_append, Nat.add_mul]
    by_cases hnil : chars = []
    . subst hnil
      have hlast := h'.le_busy hne
      have hnone := h.none rfl
      rw [List.length_nil]
      omega
    . have hlast := h.le_busy hnil
      by_cases hnil' : chars' = []
      . rw [h'.none hnil', hnil', List.length_nil]
        omega
      . have hlast' := h'.le_busy hnil'
        omega
  case busy_le =>
    rw [List.length_append, Nat.add_mul]
    omega
  case first =>
    intro c hc
    cases chars with
    | nil =>
      have hfirst := h'.first c hc
      have hnone := h.none rfl
      omega
    | cons c₀ chars =>
      have hfirst := h.first c hc
      omega
  case last =>
    intro c hc
    obtain rfl | ⟨chars', c', rfl⟩ := chars'.eq_nil_or_concat
    . rw [List.append_nil] at hc
      rw [h'.none rfl]
      exact h.last c hc
    . apply h'.last
      simpa using hc
  case none =>
    intro hnil
    obtain ⟨hnil, hnil'⟩ := List.append_eq_nil_iff.mp hnil
    rw [h'.none hnil', h.none hnil]
  case cut => rw [h'.cut, h.cut]
  case latency => rw [h'.latency, h.latency]
  case still =>
    intro hstill
    rw [h'.still (by rw [h.latency]; exact hstill), h.still hstill]

theorem refl (s : TxPort) : s.Sends charTime s [] := by
  refine ⟨by rw [List.append_nil], by simp, by simp, Nat.le_refl _, by simp, ?_, by simp, by simp,
    fun _ => rfl, rfl, rfl, fun _ => rfl⟩
  rw [List.length_nil, Nat.zero_mul]
  exact Nat.le_max_left _ _

theorem tick (s : TxPort) : s.Sends charTime s.tick [] := by
  have hnow : s.tick.now = s.now + s.latency s.calls := rfl
  refine ⟨by rw [List.append_nil]; rfl, by simp, by simp, by omega, by simp, ?_, by simp, by simp,
    fun _ => rfl, rfl, rfl, ?_⟩
  . rw [List.length_nil, Nat.zero_mul]
    exact Nat.le_max_left _ _
  . intro hstill
    rw [hnow, hstill, Nat.add_zero]

theorem put (b : UInt8) : s.Sends charTime (s.put charTime b) [(max s.busy s.now, b)] := by
  have hbusy : (s.put charTime b).busy = max s.busy s.now + charTime := rfl
  have hnow : (s.put charTime b).now = s.now := rfl
  refine ⟨rfl, ?_, ?_, Nat.le_refl _, ?_, ?_, ?_, ?_, nofun, rfl, rfl, fun _ => rfl⟩
  . intro c hc
    rw [List.mem_singleton.mp hc]
  . intro c hc
    rw [List.mem_singleton.mp hc, hbusy]
  . intro _
    rw [List.length_singleton, Nat.one_mul, hbusy]
  . rw [List.length_singleton, Nat.one_mul, hbusy, hnow]
  . intro c hc
    cases hc
    rw [hnow]
  . intro c hc
    cases hc
    exact hbusy.symm

theorem foldl_put (bytes : List UInt8)
    : ∃ (chars : List (Nat × UInt8)),
        s.Sends charTime (bytes.foldl (fun s b => s.put charTime b) s) chars
          ∧
        chars.map Prod.snd = bytes := by
  induction bytes generalizing s with
  | nil => exact ⟨[], refl s, rfl⟩
  | cons b bytes ih =>
    obtain ⟨chars, hsends, hmap⟩ := @ih (s.put charTime b)
    exact ⟨_, (put b).trans hsends, by rw [List.map_append, hmap]; rfl⟩

end TxPort.Sends

section Write

variable {charTime t3p5 : Nat} {drain : TxPort → TxPort}

theorem mbRtuWrite.go_txLine (buffer : Mem) {size : Nat} (hsize : size < 2 ^ 63) (p : Nat)
    {rounds : Nat} (hrounds : size < rounds) (s : TxPort)
    : ∃ (s' : TxPort) (chars : List (Nat × UInt8)),
        mbRtuWrite.go (txLine charTime t3p5 drain) buffer rounds p size s = some s'
          ∧
        s.Sends charTime s' chars
          ∧
        chars.map Prod.snd = buffer.load p size := by
  induction rounds generalizing p size s with
  | zero => omega
  | succ rounds ih =>
    rw [mbRtuWrite.go]
    by_cases hpos : size > 0
    . rw [if_pos hpos]
      dsimp only [txLine, TxPort.write]
      generalize hn : min size (max 1 (s.writePiece s.calls)) = n
      rw [sizeT_natCast (by omega)]
      rw [if_neg (by omega)]
      rw [ptrAdd, if_pos (by omega)]
      rw [← Int.natCast_sub (by omega), sizeT_natCast (by omega), ← Int.natCast_add]
      obtain ⟨chars, hsends, hmap⟩ := @TxPort.Sends.foldl_put charTime s.tick
        (buffer.load (p : Int).toNat n)
      obtain ⟨s', chars', hgo, hsends', hmap'⟩ := @ih (size - n) (by omega) (p + n) (by omega)
        ((buffer.load (p : Int).toNat n).foldl (fun s b => s.put charTime b) s.tick)
      refine ⟨s', _, hgo, ((TxPort.Sends.tick s).trans hsends).trans hsends', ?_⟩
      rw [List.map_append, List.map_append, hmap, hmap', Int.toNat_natCast]
      rw [List.map_nil, List.nil_append, ← Mem.load_add, show n + (size - n) = size by omega]
    . rw [if_neg hpos]
      refine ⟨s, [], rfl, TxPort.Sends.refl s, ?_⟩
      rw [show size = 0 by omega, Mem.load_zero, List.map_nil]

theorem mbRtuWrite_txLine (buffer : Mem) {size : Nat} (hsize : size < 2 ^ 63) {rounds : Nat}
    (hrounds : size < rounds) (s : TxPort)
    : ∃ (s' : TxPort) (chars : List (Nat × UInt8)),
        mbRtuWrite (txLine charTime t3p5 drain) rounds buffer size s = some s'
          ∧
        s.Sends charTime s' chars
          ∧
        chars.map Prod.snd = buffer.load 0 size := by
  exact mbRtuWrite.go_txLine buffer hsize 0 hrounds s

/-- Nothing has been sent any more, and T3P5 has gone by. -/
structure TxPort.Rests (t3p5 : Nat) (s s' : TxPort) : Prop where
  wire : s'.wire = s.wire
  busy : s'.busy = s.busy
  now : s.now + t3p5 ≤ s'.now
  cut : s.busy ≤ s.now → s'.cut = s.cut
  latency : s'.latency = s.latency
  still : (∀ (n : Nat), s.latency n = 0) → s'.now = s.now + t3p5

/-- How both builds end. -/
theorem rests_txLine (s : TxPort)
    : ∃ (flags : Flags) (s' : TxPort),
        (txLine charTime t3p5 drain).eventWait { t3p5 := true } none
            ((txLine charTime t3p5 drain).tmrStart false
              (mbRtuTxEnable (txLine charTime t3p5 drain) 0
                ((txLine charTime t3p5 drain).eventClr { t1p5 := true, t3p5 := true } s)))
          =
        some (some flags, s')
          ∧
        s.Rests t3p5 s' := by
  refine ⟨_, _, rfl, rfl, rfl, ?_, ?_, rfl, ?_⟩
  . simp only [txLine, mbRtuTxEnable, TxPort.tick]
    omega
  . intro hbusy
    have hlt : ¬s.tick.tick.now < s.busy := by
      simp only [TxPort.tick]
      omega
    change (s.cut || ((0 : Int) == 0 && decide (s.tick.tick.now < s.busy))) = s.cut
    simp [hlt]
  . intro hstill
    simp only [txLine, mbRtuTxEnable, TxPort.tick, hstill]
    omega

variable (transaction : Txn) {size : Nat} (hsize : size ≤ maxPduSize) {rounds : Nat}
  (hrounds : 256 ≤ rounds) (rtu : MbRtu TxPort)

include hsize hrounds

/-- How both builds begin. -/
theorem sends_txLine
    : ∃ (s₁ s₂ s₃ : TxPort) (chars : List (Nat × UInt8)),
        mbRtuWrite (txLine charTime t3p5 drain) rounds (fun _ => transaction.unit) 1
            (mbRtuTxEnable (txLine charTime t3p5 drain) 1 rtu.line)
          =
        some s₁
          ∧
        mbRtuWrite (txLine charTime t3p5 drain) rounds transaction.data size
            ((txLine charTime t3p5 drain).eventClr { txEmpty := true } s₁)
          =
        some s₂
          ∧
        mbRtuWrite (txLine charTime t3p5 drain) rounds
            (Mem.store16 .little (fun _ => 0) 0 (mbCrc transaction.data (UInt8.ofNat size)
              (mbCrc (fun _ => transaction.unit) 1 0xFFFF))) 2 s₂
          =
        some s₃
          ∧
        rtu.line.Sends charTime s₃ chars
          ∧
        chars.map Prod.snd = rtuFrame transaction.unit (transaction.data.load 0 size) := by
  have hmax : maxPduSize = 253 := rfl
  have hcrc : mbCrc transaction.data (UInt8.ofNat size) (mbCrc (fun _ => transaction.unit) 1 0xFFFF)
      = crcOf (transaction.data.load 0 size) (crcOf [transaction.unit] 0xFFFF) := by
    rw [mbCrc_one, mbCrc]
    rw [show (UInt8.ofNat size).toNat = size by rw [UInt8.toNat_ofNat']; omega]
  have henable : rtu.line.Sends charTime (mbRtuTxEnable (txLine charTime t3p5 drain) 1 rtu.line)
      [] := by
    have htick := @TxPort.Sends.tick charTime rtu.line
    exact { htick with cut := by simp [mbRtuTxEnable, txLine] }
  obtain ⟨s₁, chars₁, hwrite₁, hsends₁, hmap₁⟩ := @mbRtuWrite_txLine charTime t3p5 drain
    (fun _ => transaction.unit) 1 (by omega) rounds (by omega)
    (mbRtuTxEnable (txLine charTime t3p5 drain) 1 rtu.line)
  obtain ⟨s₂, chars₂, hwrite₂, hsends₂, hmap₂⟩ := @mbRtuWrite_txLine charTime t3p5 drain
    transaction.data size (by omega) rounds (by omega) s₁.tick
  obtain ⟨s₃, chars₃, hwrite₃, hsends₃, hmap₃⟩ := @mbRtuWrite_txLine charTime t3p5 drain
    (Mem.store16 .little (fun _ => 0) 0 (mbCrc transaction.data (UInt8.ofNat size)
      (mbCrc (fun _ => transaction.unit) 1 0xFFFF))) 2 (by omega) rounds (by omega) s₂
  refine ⟨s₁, s₂, s₃, _, hwrite₁, hwrite₂, hwrite₃,
    (((henable.trans hsends₁).trans (TxPort.Sends.tick s₁)).trans hsends₂).trans hsends₃, ?_⟩
  simp only [List.map_append, hmap₁, hmap₂, hmap₃, List.nil_append, List.append_nil]
  rw [hcrc, rtuFrame, rtuTail]
  rfl

theorem mbRtuTx_txLine
    : ∃ (rtu' : MbRtu TxPort) (s : TxPort) (chars : List (Nat × UInt8)),
        mbRtuTx (txLine charTime t3p5 drain) .little rounds transaction size rtu = some rtu'
          ∧
        rtu.line.Sends charTime s chars
          ∧
        chars.map Prod.snd = rtuFrame transaction.unit (transaction.data.load 0 size)
          ∧
        (drain s.tick).Rests t3p5 rtu'.line := by
  obtain ⟨s₁, s₂, s₃, chars, hwrite₁, hwrite₂, hwrite₃, hsends, hmap⟩ :=
    @sends_txLine charTime t3p5 drain transaction size hsize rounds hrounds rtu
  obtain ⟨flags, s', hwait, hrests⟩ := @rests_txLine charTime t3p5 drain (drain s₃.tick)
  refine ⟨{ rtu with line := s' }, s₃, chars, ?_, hsends, hmap, hrests⟩
  unfold mbRtuTx
  dsimp only
  rw [hwrite₁]
  dsimp only
  rw [hwrite₂]
  dsimp only
  rw [hwrite₃]
  dsimp only
  have hdrain : (txLine charTime t3p5 drain).txDrain (3 + size) s₃ = drain s₃.tick := rfl
  rw [hdrain, hwait]

theorem mbRtuTxEmpty_txLine
    : ∃ (rtu' : MbRtu TxPort) (s : TxPort) (chars : List (Nat × UInt8)),
        mbRtuTxEmpty (txLine charTime t3p5 drain) .little rounds transaction size rtu = some rtu'
          ∧
        rtu.line.Sends charTime s chars
          ∧
        chars.map Prod.snd = rtuFrame transaction.unit (transaction.data.load 0 size)
          ∧
        (drain s.tick).Rests t3p5 rtu'.line := by
  obtain ⟨s₁, s₂, s₃, chars, hwrite₁, hwrite₂, hwrite₃, hsends, hmap⟩ :=
    @sends_txLine charTime t3p5 drain transaction size hsize rounds hrounds rtu
  obtain ⟨flags, s', hwait, hrests⟩ := @rests_txLine charTime t3p5 drain (drain s₃.tick.tick)
  have htick := hsends.trans (TxPort.Sends.tick s₃)
  rw [List.append_nil] at htick
  refine ⟨{ rtu with line := s' }, s₃.tick, chars, ?_, htick, hmap, hrests⟩
  have hempty : (txLine charTime t3p5 drain).eventWait { txEmpty := true } none s₃
      = some (some { txEmpty := true }, s₃.tick) := rfl
  have hdrain : (txLine charTime t3p5 drain).txDrain (3 + size) s₃.tick = drain s₃.tick.tick := rfl
  unfold mbRtuTxEmpty
  dsimp only
  rw [hwrite₁]
  dsimp only
  rw [hwrite₂]
  dsimp only
  rw [hwrite₃]
  dsimp only
  rw [hempty]
  dsimp only
  rw [hdrain, hwait]

end Write

/-- The characters of the first frame have been sent at least T3P5 before those of the second. -/
def Apart (charTime t3p5 : Nat) (chars chars' : List (Nat × UInt8)) : Prop :=
  ∀ c ∈ chars, ∀ c' ∈ chars', c.1 + charTime + t3p5 ≤ c'.1

/-- A frame to be sent, and how long the task waits before it does so. -/
structure TxCall where
  idle : Nat
  transaction : Txn
  size : Nat

def TxCall.frame (call : TxCall) : List UInt8 :=
  rtuFrame call.transaction.unit (call.transaction.data.load 0 call.size)

def TxCall.before (call : TxCall) (rtu : MbRtu TxPort) : MbRtu TxPort :=
  { rtu with line := rtu.line.wait call.idle }

/-- The characters of the frame. -/
def TxCall.chars (rtu rtu' : MbRtu TxPort) : List (Nat × UInt8) :=
  rtu'.line.wire.drop rtu.line.wire.length

def TxCall.linux (charTime t3p5 rounds : Nat) (call : TxCall) (rtu : MbRtu TxPort)
    : Option (List (Nat × UInt8) × MbRtu TxPort) :=
  (mbRtuTx (txLine charTime t3p5 .drainLinux) .little rounds call.transaction call.size
    (call.before rtu)).map (fun rtu' => (chars rtu rtu', rtu'))

def TxCall.rtKernel (charTime t3p5 rounds : Nat) (call : TxCall) (rtu : MbRtu TxPort)
    : Option (List (Nat × UInt8) × MbRtu TxPort) :=
  (mbRtuTxEmpty (txLine charTime t3p5 .drainRtKernel) .little rounds call.transaction call.size
    (call.before rtu)).map (fun rtu' => (chars rtu rtu', rtu'))

structure TxCall.Sent (charTime t3p5 : Nat) (drain : TxPort → TxPort) (call : TxCall)
    (rtu rtu' : MbRtu TxPort) (chars : List (Nat × UInt8)) (s : TxPort) : Prop where
  frame : chars.map Prod.snd = call.frame
  sends : (rtu.line.wait call.idle).Sends charTime s chars
  rests : (drain s.tick).Rests t3p5 rtu'.line

section Calls

variable (charTime t3p5 : Nat) {rounds : Nat} (hrounds : 256 ≤ rounds) {call : TxCall}
  (hsize : call.size ≤ maxPduSize) (rtu : MbRtu TxPort)

theorem TxCall.chars_eq {rtu rtu' : MbRtu TxPort} {frame : List (Nat × UInt8)}
    (h : rtu'.line.wire = rtu.line.wire ++ frame)
    : chars rtu rtu' = frame := by
  rw [chars, h, List.drop_left]

include hrounds hsize

theorem TxCall.linux_sent
    : ∃ (chars : List (Nat × UInt8)) (rtu' : MbRtu TxPort) (s : TxPort),
        call.linux charTime t3p5 rounds rtu = some (chars, rtu')
          ∧
        call.Sent charTime t3p5 .drainLinux rtu rtu' chars s := by
  obtain ⟨rtu', s, frame, htx, hsends, hmap, hrests⟩ := @mbRtuTx_txLine charTime t3p5
    .drainLinux call.transaction call.size hsize rounds hrounds (call.before rtu)
  have hchars : chars rtu rtu' = frame := chars_eq (hrests.wire.trans hsends.wire)
  exact ⟨frame, rtu', s, by rw [TxCall.linux, htx, Option.map_some, hchars], hmap, hsends, hrests⟩

theorem TxCall.rtKernel_sent
    : ∃ (chars : List (Nat × UInt8)) (rtu' : MbRtu TxPort) (s : TxPort),
        call.rtKernel charTime t3p5 rounds rtu = some (chars, rtu')
          ∧
        call.Sent charTime t3p5 .drainRtKernel rtu rtu' chars s := by
  obtain ⟨rtu', s, frame, htx, hsends, hmap, hrests⟩ := @mbRtuTxEmpty_txLine charTime t3p5
    .drainRtKernel call.transaction call.size hsize rounds hrounds (call.before rtu)
  have hchars : chars rtu rtu' = frame := chars_eq (hrests.wire.trans hsends.wire)
  exact ⟨frame, rtu', s, by rw [TxCall.rtKernel, htx, Option.map_some, hchars], hmap, hsends,
    hrests⟩

end Calls

theorem TxPort.now_wait (us : Nat) (s : TxPort) : (s.wait us).now = s.now + us := by
  rfl

theorem TxPort.busy_wait (us : Nat) (s : TxPort) : (s.wait us).busy = s.busy := by
  rfl

theorem TxPort.now_le_tick (s : TxPort) : s.now ≤ s.tick.now := by
  exact Nat.le_add_right _ _

/-- A frame follows the ones before it. -/
theorem isChain_apart_cons {charTime t3p5 busy : Nat} {chars : List (Nat × UInt8)}
    {frames : List (List (Nat × UInt8))} (hends : ∀ c ∈ chars, c.1 + charTime ≤ busy)
    (hbegins : ∀ frame ∈ frames.head?, ∀ c ∈ frame, busy + t3p5 ≤ c.1)
    (hchain : frames.IsChain (Apart charTime t3p5))
    : (chars :: frames).IsChain (Apart charTime t3p5) := by
  cases frames with
  | nil => exact .singleton _
  | cons frame frames =>
    refine .cons_cons ?_ hchain
    intro c hc c' hc'
    have hle := hends c hc
    have hle' := hbegins frame rfl c' hc'
    omega

section RtKernel

variable (charTime t3p5 : Nat) {rounds : Nat} (hrounds : 256 ≤ rounds)

include hrounds

theorem runAll_rtKernel {calls : List TxCall} (hsize : ∀ call ∈ calls, call.size ≤ maxPduSize)
    {rtu : MbRtu TxPort} (hrest : rtu.line.busy + t3p5 ≤ rtu.line.now)
    : ∃ (frames : List (List (Nat × UInt8))) (rtu' : MbRtu TxPort),
        runAll (TxCall.rtKernel charTime t3p5 rounds) calls rtu = some (frames, rtu')
          ∧
        frames.map (List.map Prod.snd) = calls.map TxCall.frame
          ∧
        rtu'.line.wire = rtu.line.wire ++ frames.flatten
          ∧
        frames.IsChain (Apart charTime t3p5)
          ∧
        rtu'.line.cut = rtu.line.cut
          ∧
        ∀ frame ∈ frames.head?, ∀ c ∈ frame, rtu.line.busy + t3p5 ≤ c.1 := by
  induction calls generalizing rtu with
  | nil => exact ⟨[], rtu, rfl, rfl, by simp, .nil, rfl, by simp⟩
  | cons call calls ih =>
    rw [List.forall_mem_cons] at hsize
    obtain ⟨chars, rtu₁, s, hcall, hsent⟩ :=
      TxCall.rtKernel_sent charTime t3p5 hrounds hsize.1 rtu
    have hdrained : (s.tick.drainRtKernel).now = max s.tick.now s.busy := rfl
    have hnow := hsent.rests.now
    have hbusy : rtu₁.line.busy = s.busy := hsent.rests.busy
    have hcut : rtu₁.line.cut = rtu.line.cut := by
      rw [hsent.rests.cut (by rw [hdrained]; exact Nat.le_max_right _ _)]
      exact hsent.sends.cut
    have hwire : rtu₁.line.wire = rtu.line.wire ++ chars :=
      hsent.rests.wire.trans hsent.sends.wire
    obtain ⟨frames, rtu', hrun, hframes, hwire', hchain, hcut', hbegins⟩ :=
      @ih hsize.2 rtu₁ (by omega)
    refine ⟨chars :: frames, rtu', by simp only [runAll, hcall, hrun], ?_, ?_, ?_, ?_, ?_⟩
    . rw [List.map_cons, List.map_cons, hsent.frame, hframes]
    . rw [hwire', hwire, List.flatten_cons, List.append_assoc]
    . exact isChain_apart_cons (by rw [hbusy]; exact hsent.sends.ends) hbegins hchain
    . rw [hcut', hcut]
    . intro frame hframe c hc
      cases hframe
      have hle := hsent.sends.begins c hc
      rw [TxPort.now_wait, TxPort.busy_wait] at hle
      omega

/--
On rt-kernel the line is silent for T3P5 between any two frames, and no character is cut off when
the transceiver is disabled, whatever the calls take and however the frames are written.
-/
theorem mbRtuTx_rtKernel {calls : List TxCall} (hsize : ∀ call ∈ calls, call.size ≤ maxPduSize)
    {rtu : MbRtu TxPort} (hrest : rtu.line.busy + t3p5 ≤ rtu.line.now)
    : ∃ (frames : List (List (Nat × UInt8))) (rtu' : MbRtu TxPort),
        runAll (TxCall.rtKernel charTime t3p5 rounds) calls rtu = some (frames, rtu')
          ∧
        frames.map (List.map Prod.snd) = calls.map TxCall.frame
          ∧
        rtu'.line.wire = rtu.line.wire ++ frames.flatten
          ∧
        frames.IsChain (Apart charTime t3p5)
          ∧
        rtu'.line.cut = rtu.line.cut := by
  obtain ⟨frames, rtu', hrun, hframes, hwire, hchain, hcut, -⟩ :=
    runAll_rtKernel charTime t3p5 hrounds hsize hrest
  exact ⟨frames, rtu', hrun, hframes, hwire, hchain, hcut⟩

end RtKernel

def sampleTxCalls (idle : Nat) : List TxCall :=
  [
    { idle := 0, transaction := ⟨0, 0, 1, fun _ => 7⟩, size := 1 },
    { idle, transaction := ⟨0, 0, 2, fun _ => 7⟩, size := 1 }
  ]

theorem frame_sampleTxCalls (idle : Nat)
    : (sampleTxCalls idle).map TxCall.frame
        =
      [[1, 0x07, 0x41, 0xE2], [2, 0x07, 0x41, 0x12]] := by
  change [rtuFrame 1 [7], rtuFrame 2 [7]] = _
  decide

theorem size_sampleTxCalls (idle : Nat)
    : ∀ call ∈ sampleTxCalls idle, call.size ≤ maxPduSize := by
  simp [sampleTxCalls, maxPduSize]

theorem mbRtuTx_rtKernel_two
    : ∃ (frames : List (List (Nat × UInt8))) (rtu' : MbRtu TxPort),
        runAll (TxCall.rtKernel 95 1750 256) (sampleTxCalls 0)
          ⟨false, 0, TxPort.still.wait 1750⟩ = some (frames, rtu')
          ∧
        frames.map (List.map Prod.snd) = [[1, 0x07, 0x41, 0xE2], [2, 0x07, 0x41, 0x12]]
          ∧
        frames.IsChain (Apart 95 1750)
          ∧
        rtu'.line.cut = false := by
  obtain ⟨frames, rtu', hrun, hframes, -, hchain, hcut⟩ := mbRtuTx_rtKernel 95 1750
    (Nat.le_refl 256) (size_sampleTxCalls 0)
    (show (MbRtu.mk false 0 (TxPort.still.wait 1750)).line.busy + 1750 ≤ 0 + 1750 by decide)
  exact ⟨frames, rtu', hrun, hframes.trans (frame_sampleTxCalls 0), hchain, hcut⟩

section Linux

variable (charTime t3p5 : Nat) {rounds : Nat} (hrounds : 256 ≤ rounds)

/-- The task waits for long enough between the two frames. -/
def TxCall.Leaves (call next : TxCall) : Prop :=
  (call.size + 3) * charTime ≤ 95 + next.idle

theorem TxCall.Sent.length {drain : TxPort → TxPort} {call : TxCall} {rtu rtu' : MbRtu TxPort}
    {chars : List (Nat × UInt8)} {s : TxPort}
    (h : call.Sent charTime t3p5 drain rtu rtu' chars s)
    : chars.length = call.size + 3 := by
  rw [← List.length_map Prod.snd, h.frame, TxCall.frame, length_rtuFrame, Mem.length_load]

/-- The task goes on after the pause, and the frame has been sent T3P5 before it begins the next. -/
theorem TxCall.Sent.pause_linux {call next : TxCall} {rtu rtu' : MbRtu TxPort}
    {chars : List (Nat × UInt8)} {s : TxPort}
    (h : call.Sent charTime t3p5 .drainLinux rtu rtu' chars s)
    (hbusy : rtu.line.busy ≤ rtu.line.now + call.idle) (hleaves : call.Leaves charTime next)
    : rtu'.line.busy + t3p5 ≤ rtu'.line.now + next.idle := by
  have hnow : (rtu.line.wait call.idle).now = rtu.line.now + call.idle := rfl
  have hslept : s.tick.drainLinux.now = s.tick.now + 95 := rfl
  have hbusy' : rtu'.line.busy = s.busy := h.rests.busy
  have htick := s.now_le_tick
  have hrests := h.rests.now
  have hmono := h.sends.now
  have hle := h.sends.busy_le
  rw [TxPort.busy_wait, h.length] at hle
  rw [TxCall.Leaves] at hleaves
  omega

/-- On a port whose calls take no time there is not more silence than the pause gives. -/
theorem TxCall.leaves_of_apart (ht3p5 : 0 < t3p5) {call next : TxCall}
    {rtu rtu₁ rtu₂ : MbRtu TxPort} {chars chars' : List (Nat × UInt8)} {s s' : TxPort}
    (hstill : ∀ (n : Nat), rtu.line.latency n = 0)
    (hsent : call.Sent charTime t3p5 .drainLinux rtu rtu₁ chars s)
    (hsent' : next.Sent charTime t3p5 .drainLinux rtu₁ rtu₂ chars' s')
    (hapart : Apart charTime t3p5 chars chars')
    : call.Leaves charTime next := by
  have hnow : s.now = rtu.line.now + call.idle := hsent.sends.still hstill
  have hdrained : s.tick.drainLinux.now = s.now + 95 := by
    change s.now + s.latency s.calls + 95 = s.now + 95
    rw [hsent.sends.latency, TxPort.wait, hstill, Nat.add_zero]
  have hlatency : ∀ (n : Nat), s.tick.drainLinux.latency n = 0 := by
    intro n
    exact (congrFun hsent.sends.latency n).trans (hstill n)
  have hnow₁ : rtu₁.line.now = s.now + 95 + t3p5 := by
    rw [hsent.rests.still hlatency, hdrained]
  have hbusy₁ : rtu₁.line.busy = s.busy := hsent.rests.busy
  have hnow₂ : s'.now = rtu₁.line.now + next.idle := by
    apply hsent'.sends.still
    intro n
    exact (congrFun hsent.rests.latency n).trans (hlatency n)
  have hne : chars ≠ [] := List.ne_nil_of_length_pos (by rw [hsent.length]; omega)
  have hne' : chars' ≠ [] := List.ne_nil_of_length_pos (by rw [hsent'.length]; omega)
  have hle := hsent.sends.le_busy hne
  have hlast := hsent.sends.last _ (List.getLast?_eq_some_getLast hne)
  have hfirst := hsent'.sends.first _ (List.head?_eq_some_head hne')
  have hgap := hapart _ (List.getLast_mem hne) _ (List.head_mem hne')
  rw [TxPort.now_wait, hsent.length] at hle
  rw [TxPort.busy_wait] at hfirst
  rw [TxCall.Leaves]
  omega

include hrounds

theorem runAll_linux {calls : List TxCall} (hsize : ∀ call ∈ calls, call.size ≤ maxPduSize)
    (hleaves : calls.IsChain (TxCall.Leaves charTime)) {rtu : MbRtu TxPort}
    (hbusy : ∀ call ∈ calls.head?, rtu.line.busy ≤ rtu.line.now + call.idle)
    : ∃ (frames : List (List (Nat × UInt8))) (rtu' : MbRtu TxPort),
        runAll (TxCall.linux charTime t3p5 rounds) calls rtu = some (frames, rtu')
          ∧
        frames.map (List.map Prod.snd) = calls.map TxCall.frame
          ∧
        frames.IsChain (Apart charTime t3p5)
          ∧
        ∀ call ∈ calls.head?, ∀ frame ∈ frames.head?, ∀ c ∈ frame,
          rtu.line.now + call.idle ≤ c.1 := by
  induction calls generalizing rtu with
  | nil => exact ⟨[], rtu, rfl, rfl, .nil, by simp⟩
  | cons call calls ih =>
    rw [List.forall_mem_cons] at hsize
    obtain ⟨chars, rtu₁, s, hcall, hsent⟩ := TxCall.linux_sent charTime t3p5 hrounds hsize.1 rtu
    have hnext : ∀ next ∈ calls.head?,
        rtu₁.line.busy + t3p5 ≤ rtu₁.line.now + next.idle := by
      intro next hnext
      apply hsent.pause_linux charTime t3p5 (hbusy call rfl)
      cases calls with
      | nil => cases hnext
      | cons call' calls =>
        cases hnext
        exact (List.isChain_cons_cons.mp hleaves).1
    obtain ⟨frames, rtu', hrun, hframes, hchain, hbegins⟩ :=
      @ih hsize.2 hleaves.tail rtu₁ (fun next hmem => by
        have hle := hnext next hmem
        omega)
    refine ⟨chars :: frames, rtu', by simp only [runAll, hcall, hrun], ?_, ?_, ?_⟩
    . rw [List.map_cons, List.map_cons, hsent.frame, hframes]
    . have hends : ∀ c ∈ chars, c.1 + charTime ≤ rtu₁.line.busy := by
        rw [hsent.rests.busy]
        exact hsent.sends.ends
      refine isChain_apart_cons hends ?_ hchain
      intro frame hframe c hc
      cases calls with
      | nil =>
        rw [List.map_nil, List.map_eq_nil_iff] at hframes
        rw [hframes] at hframe
        cases hframe
      | cons next calls =>
        have hle := hnext next rfl
        have hle' := hbegins next rfl frame hframe c hc
        omega
    . intro call' hcall' frame hframe c hc
      cases hcall'
      cases hframe
      exact Nat.le_trans (Nat.le_max_right _ _) (hsent.sends.begins c hc)

theorem TxCall.sent_of_linux {call : TxCall} (hsize : call.size ≤ maxPduSize)
    {rtu rtu' : MbRtu TxPort} {chars : List (Nat × UInt8)}
    (hcall : call.linux charTime t3p5 rounds rtu = some (chars, rtu'))
    : ∃ (s : TxPort), call.Sent charTime t3p5 .drainLinux rtu rtu' chars s := by
  obtain ⟨chars', rtu'', s, hcall', hsent⟩ := TxCall.linux_sent charTime t3p5 hrounds hsize rtu
  rw [hcall] at hcall'
  cases hcall'
  exact ⟨s, hsent⟩

theorem isChain_leaves_of_apart (ht3p5 : 0 < t3p5) {calls : List TxCall}
    (hsize : ∀ call ∈ calls, call.size ≤ maxPduSize) {rtu rtu' : MbRtu TxPort}
    (hstill : ∀ (n : Nat), rtu.line.latency n = 0) {frames : List (List (Nat × UInt8))}
    (hrun : runAll (TxCall.linux charTime t3p5 rounds) calls rtu = some (frames, rtu'))
    (hchain : frames.IsChain (Apart charTime t3p5))
    : calls.IsChain (TxCall.Leaves charTime) := by
  induction calls generalizing rtu frames with
  | nil => exact .nil
  | cons call calls ih =>
    rw [List.forall_mem_cons] at hsize
    obtain ⟨chars, rtu₁, frames₁, hcall, hrun₁, rfl⟩ := runAll_cons hrun
    obtain ⟨s, hsent⟩ := TxCall.sent_of_linux charTime t3p5 hrounds hsize.1 hcall
    have hstill' : ∀ (n : Nat), rtu₁.line.latency n = 0 := by
      intro n
      rw [hsent.rests.latency]
      exact (congrFun hsent.sends.latency n).trans (hstill n)
    have ih' := ih hsize.2 hstill' hrun₁ hchain.tail
    cases calls with
    | nil => exact .singleton _
    | cons next calls =>
      obtain ⟨chars', rtu₂, frames₂, hcall', -, rfl⟩ := runAll_cons hrun₁
      obtain ⟨s', hsent'⟩ := TxCall.sent_of_linux charTime t3p5 hrounds
        (hsize.2 next List.mem_cons_self) hcall'
      refine .cons_cons ?_ ih'
      exact TxCall.leaves_of_apart charTime t3p5 ht3p5 hstill hsent hsent'
        (List.isChain_cons_cons.mp hchain).1

/--
On Linux the pause is that of one character at 115200 baud. There is silence for T3P5 between the
frames if and only if the task waits for the rest of the time that each of them takes to be sent.
-/
theorem mbRtuTx_linux_iff (ht3p5 : 0 < t3p5) {calls : List TxCall}
    (hsize : ∀ call ∈ calls, call.size ≤ maxPduSize)
    : (∀ (rtu : MbRtu TxPort), rtu.line.busy ≤ rtu.line.now →
        ∃ (frames : List (List (Nat × UInt8))) (rtu' : MbRtu TxPort),
          runAll (TxCall.linux charTime t3p5 rounds) calls rtu = some (frames, rtu')
            ∧
          frames.map (List.map Prod.snd) = calls.map TxCall.frame
            ∧
          frames.IsChain (Apart charTime t3p5))
        ↔
      calls.IsChain (fun call next => (call.size + 3) * charTime ≤ 95 + next.idle) := by
  constructor
  . intro hruns
    obtain ⟨frames, rtu', hrun, -, hchain⟩ := hruns ⟨false, 0, .still⟩ (Nat.le_refl 0)
    exact isChain_leaves_of_apart charTime t3p5 hrounds ht3p5 hsize (fun _ => rfl) hrun hchain
  . intro hleaves rtu hbusy
    obtain ⟨frames, rtu', hrun, hframes, hchain, -⟩ := runAll_linux charTime t3p5 hrounds hsize
      hleaves (fun call _ => Nat.le_trans hbusy (Nat.le_add_right _ call.idle))
    exact ⟨frames, rtu', hrun, hframes, hchain⟩

end Linux

theorem mbRtuTx_linux_iff_two
    : (∃ (frames : List (List (Nat × UInt8))) (rtu' : MbRtu TxPort),
        runAll (TxCall.linux 95 1750 256) (sampleTxCalls 300) ⟨false, 0, .still⟩
          =
        some (frames, rtu')
          ∧
        frames.map (List.map Prod.snd) = [[1, 0x07, 0x41, 0xE2], [2, 0x07, 0x41, 0x12]]
          ∧
        frames.IsChain (Apart 95 1750))
        ∧
      ¬∀ (rtu : MbRtu TxPort), rtu.line.busy ≤ rtu.line.now →
        ∃ (frames : List (List (Nat × UInt8))) (rtu' : MbRtu TxPort),
          runAll (TxCall.linux 95 1750 256) (sampleTxCalls 0) rtu = some (frames, rtu')
            ∧
          frames.map (List.map Prod.snd) = (sampleTxCalls 0).map TxCall.frame
            ∧
          frames.IsChain (Apart 95 1750) := by
  constructor
  . obtain ⟨frames, rtu', hrun, hframes, hchain⟩ := (mbRtuTx_linux_iff 95 1750 (Nat.le_refl 256)
      (by decide) (size_sampleTxCalls 300)).mpr (by simp [sampleTxCalls]) ⟨false, 0, .still⟩
      (Nat.le_refl 0)
    exact ⟨frames, rtu', hrun, hframes.trans (frame_sampleTxCalls 300), hchain⟩
  . intro hruns
    have hpause := (mbRtuTx_linux_iff 95 1750 (Nat.le_refl 256) (by decide)
      (size_sampleTxCalls 0)).mp hruns
    simp [sampleTxCalls] at hpause

end Modbus
