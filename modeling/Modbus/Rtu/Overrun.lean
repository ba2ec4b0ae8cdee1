import Modbus.Rtu.Frame

/-!
This module contains where `mb_rtu_rx` reads to, whatever the serial port does. A read that fails
moves the end of the message back by one byte, which is harmless unless there is no byte yet.
-/

namespace Modbus

section Read

variable {ω : Type} (os : RtuOs ω)

def mbRtuReadSize (size : Nat) (line : ω) : Nat :=
  let avail := os.rxAvail (os.eventClr { rxAvail := true } line)
  if sizeT avail.1 > size then size else sizeT avail.1

def mbRtuReadCall (size : Nat) (line : ω) : Option (List UInt8) × ω :=
  let avail := os.rxAvail (os.eventClr { rxAvail := true } line)
  os.read (mbRtuReadSize os size line)
    (if sizeT avail.1 > size then os.eventSet { rxAvail := true } avail.2 else avail.2)

theorem mbRtuReadSize_le (size : Nat) (line : ω) : mbRtuReadSize os size line ≤ size := by
  unfold mbRtuReadSize
  dsimp only
  split
  . exact Nat.le_refl _
  . omega

variable (buffer : Mem) (p : Int) {size : Nat} {line : ω}

def readResult : Option (List UInt8) → Int
  | some bs => bs.length
  | none => -1

theorem mbRtuRead_fst
    : (mbRtuRead os buffer p size line).1 = sizeT (readResult (mbRtuReadCall os size line).1) := by
  rfl

theorem mbRtuRead_of_none (h : (mbRtuReadCall os size line).1 = none)
    : (mbRtuRead os buffer p size line).1 = 2 ^ 64 - 1 := by
  rw [mbRtuRead_fst, h]
  rfl

def RtuOs.ReadsAtMost : Prop :=
  ∀ (n : Nat) (line : ω) (bs : List UInt8), (os.read n line).1 = some bs → bs.length ≤ n

theorem mbRtuRead_of_some (hreads : os.ReadsAtMost) (hsize : size < 2 ^ 64) {bs : List UInt8}
    (h : (mbRtuReadCall os size line).1 = some bs)
    : (mbRtuRead os buffer p size line).1 = bs.length ∧ bs.length ≤ size := by
  have hle : bs.length ≤ size := by
    apply Nat.le_trans (hreads _ _ _ h)
    apply mbRtuReadSize_le
  refine ⟨?_, hle⟩
  rw [mbRtuRead_fst, h]
  apply sizeT_natCast
  omega

end Read

/-- The points of `mb_rtu_rx` at which it waits in one of its loops, and the end of both. -/
inductive RxPoint (ω : Type) where
  | message (slaveRx : UInt8) (rx : RxBuffer) (line : ω)
  | ending (slaveRx : UInt8) (error : Option Int) (rx : RxBuffer) (line : ω)
  | done (slaveRx : UInt8) (error : Option Int) (rx : RxBuffer) (line : ω)

namespace RxPoint

variable {ω : Type}

def rx : RxPoint ω → RxBuffer
  | message _ rx _ | ending _ _ rx _ | done _ _ rx _ => rx

def wait (os : RtuOs ω) : RxPoint ω → Option (Flags × ω)
  | message _ _ line =>
    (os.eventWait { t1p5 := true, rxAvail := true } none line).map (fun r => (r.1.getD {}, r.2))
  | ending _ _ _ line =>
    (os.eventWait { t3p5 := true, rxAvail := true } none line).map (fun r => (r.1.getD {}, r.2))
  | done _ _ _ _ => none

def room (point : RxPoint ω) : Nat :=
  sizeT ((maxPduSize : Int) - point.rx.count)

/-- A round of one of the loops of `mb_rtu_rx`, after the wait. -/
def next (os : RtuOs ω) (unit : UInt8) (flags : Flags) (line : ω) (point : RxPoint ω)
    : RxPoint ω :=
  let r := mbRtuRead os point.rx.data point.rx.p point.room line
  let line := if flags.rxAvail then r.2.2 else line
  match point with
  | message slaveRx rx _ =>
    let rx :=
      if flags.rxAvail then
        { p := ptrAdd rx.p r.1, count := sizeT ((rx.count : Int) + r.1), data := r.2.1 }
      else
        rx
    if flags.t1p5 then
      ending slaveRx (messageError unit slaveRx rx) rx line
    else
      message slaveRx rx line
  | ending slaveRx error rx _ =>
    let error := if flags.rxAvail then some eFrameNok else error
    let rx := if flags.rxAvail then { rx with data := r.2.1 } else rx
    if flags.t3p5 then done slaveRx error rx line else ending slaveRx error rx line
  | done slaveRx error rx line => done slaveRx error rx line

def step (os : RtuOs ω) (unit : UInt8) (point : RxPoint ω) : Option (RxPoint ω) :=
  (point.wait os).map (fun r => point.next os unit r.1 r.2)

theorem step_of_wait {os : RtuOs ω} {point : RxPoint ω} {flags : Flags} {line : ω}
    (hwait : point.wait os = some (flags, line)) (unit : UInt8)
    : point.step os unit = some (point.next os unit flags line) := by
  rw [step, hwait]
  rfl

theorem step_message {os : RtuOs ω} {flags : Option Flags} {line line' : ω}
    (hwait : os.eventWait { t1p5 := true, rxAvail := true } none line = some (flags, line'))
    (unit slaveRx : UInt8) (rx : RxBuffer)
    : (message slaveRx rx line).step os unit
        =
      some ((message slaveRx rx line).next os unit (flags.getD {}) line') := by
  apply step_of_wait
  rw [wait, hwait]
  rfl

theorem step_ending {os : RtuOs ω} {flags : Option Flags} {line line' : ω}
    (hwait : os.eventWait { t3p5 := true, rxAvail := true } none line = some (flags, line'))
    (unit slaveRx : UInt8) (error : Option Int) (rx : RxBuffer)
    : (ending slaveRx error rx line).step os unit
        =
      some ((ending slaveRx error rx line).next os unit (flags.getD {}) line') := by
  apply step_of_wait
  rw [wait, hwait]
  rfl

section Next

variable (os : RtuOs ω) (unit : UInt8) {flags : Flags} (line : ω)

theorem rx_next_of_read (slaveRx : UInt8) (rx : RxBuffer) (line' : ω) (hrx : flags.rxAvail = true)
    : ((message slaveRx rx line').next os unit flags line).rx
        =
      let r := mbRtuRead os rx.data rx.p (message slaveRx rx line').room line
      { p := ptrAdd rx.p r.1, count := sizeT ((rx.count : Int) + r.1), data := r.2.1 } := by
  simp only [next, hrx, ↓reduceIte]
  cases flags.t1p5 with
  | false => rfl
  | true => rfl

/-- Only a read for the message moves its end. -/
theorem rx_next_of_not_read {point : RxPoint ω}
    (h : ∀ slaveRx rx line', point = message slaveRx rx line' → flags.rxAvail = false)
    : (point.next os unit flags line).rx.count = point.rx.count
        ∧
      (point.next os unit flags line).rx.p = point.rx.p := by
  cases point with
  | message slaveRx rx line' =>
    simp only [next, h slaveRx rx line' rfl, Bool.false_eq_true, ↓reduceIte]
    cases flags.t1p5 with
    | false => exact ⟨rfl, rfl⟩
    | true => exact ⟨rfl, rfl⟩
  | ending slaveRx error rx line' =>
    simp only [next]
    cases flags.rxAvail with
    | false =>
      cases flags.t3p5 with
      | false => exact ⟨rfl, rfl⟩
      | true => exact ⟨rfl, rfl⟩
    | true =>
      cases flags.t3p5 with
      | false => exact ⟨rfl, rfl⟩
      | true => exact ⟨rfl, rfl⟩
  | done slaveRx error rx line' => exact ⟨rfl, rfl⟩

end Next

def Reads (os : RtuOs ω) (point : RxPoint ω) (n : Nat) : Prop :=
  ∃ (flags : Flags) (line : ω),
    point.wait os = some (flags, line) ∧ flags.rxAvail = true ∧
      n = mbRtuReadSize os point.room line

def ReadFails (os : RtuOs ω) (point : RxPoint ω) : Prop :=
  ∃ (flags : Flags) (line : ω),
    point.wait os = some (flags, line) ∧ flags.rxAvail = true ∧
      (mbRtuReadCall os point.room line).1 = none

end RxPoint

section Reaches

variable {ω : Type} (os : RtuOs ω) (transaction : Txn) (tmo : UInt32) (rtu : MbRtu ω)

inductive RxReaches : RxPoint ω → Prop where
  | start {flags : Option Flags} {line : ω}
    (hwait : os.eventWait { t1p5 := true, rxAvail := true } (if tmo ≠ 0 then some tmo else none)
      rtu.line = some (flags, line))
    (hready : ¬(tmo ≠ 0 ∧ flags = none))
    : RxReaches
        (.message ((mbRtuRead os (fun _ => rtu.slaveRx) 0 1 line).2.1 0)
          { p := 0, count := 0, data := transaction.data }
          (mbRtuRead os (fun _ => rtu.slaveRx) 0 1 line).2.2)
  | step {point point' : RxPoint ω} (h : RxReaches point)
    (hstep : point.step os transaction.unit = some point')
    : RxReaches point'

variable {os transaction tmo rtu}

theorem mbRtuRxMessage_reaches {slaveRx : UInt8} {rx rx' : RxBuffer} {line line' : ω}
    (h : RxReaches os transaction tmo rtu (.message slaveRx rx line)) {rounds : Nat}
    (hmessage : mbRtuRxMessage os rounds rx line = some (rx', line'))
    : RxReaches os transaction tmo rtu
        (.ending slaveRx (messageError transaction.unit slaveRx rx') rx' line') := by
  induction rounds generalizing rx line with
  | zero => simp [mbRtuRxMessage] at hmessage
  | succ rounds ih =>
    rw [mbRtuRxMessage] at hmessage
    split at hmessage
    . contradiction
    . next flags line₁ hwait =>
      have hstep := RxPoint.step_message hwait transaction.unit slaveRx rx
      dsimp only at hmessage
      split at hmessage
      . next hrx =>
        split at hmessage
        . next ht1p5 =>
          cases hmessage
          apply h.step
          simp [hstep, RxPoint.next, RxPoint.room, RxPoint.rx, hrx, ht1p5]
        . next ht1p5 =>
          apply ih (h.step _) hmessage
          simp [hstep, RxPoint.next, RxPoint.room, RxPoint.rx, hrx, ht1p5]
      . next hrx =>
        split at hmessage
        . next ht1p5 =>
          cases hmessage
          apply h.step
          simp [hstep, RxPoint.next, hrx, ht1p5]
        . next ht1p5 =>
          apply ih (h.step _) hmessage
          simp [hstep, RxPoint.next, hrx, ht1p5]

theorem mbRtuRxEnd_reaches {slaveRx : UInt8} {error error' : Option Int} {rx rx' : RxBuffer}
    {line line' : ω} (h : RxReaches os transaction tmo rtu (.ending slaveRx error rx line))
    {rounds : Nat} (hend : mbRtuRxEnd os rounds error rx line = some (error', rx', line'))
    : RxReaches os transaction tmo rtu (.done slaveRx error' rx' line') := by
  induction rounds generalizing error rx line with
  | zero => simp [mbRtuRxEnd] at hend
  | succ rounds ih =>
    rw [mbRtuRxEnd] at hend
    split at hend
    . contradiction
    . next flags line₁ hwait =>
      have hstep := RxPoint.step_ending hwait transaction.unit slaveRx error rx
      dsimp only at hend
      split at hend
      . next hrx =>
        split at hend
        . next ht3p5 =>
          cases hend
          apply h.step
          simp [hstep, RxPoint.next, RxPoint.room, RxPoint.rx, hrx, ht3p5]
        . next ht3p5 =>
          apply ih (h.step _) hend
          simp [hstep, RxPoint.next, RxPoint.room, RxPoint.rx, hrx, ht3p5]
      . next hrx =>
        split at hend
        . next ht3p5 =>
          cases hend
          apply h.step
          simp [hstep, RxPoint.next, hrx, ht3p5]
        . next ht3p5 =>
          apply ih (h.step _) hend
          simp [hstep, RxPoint.next, hrx, ht3p5]

theorem mbRtuRx_reaches {rounds : Nat} {result : Int × Txn × MbRtu ω}
    (h : mbRtuRx os rounds transaction tmo rtu = some result)
    : result.1 = eTimeout
        ∨
      ∃ (slaveRx : UInt8) (error : Option Int) (rx : RxBuffer) (line : ω),
        RxReaches os transaction tmo rtu (.done slaveRx error rx line)
          ∧
        (∀ e ∈ error, e < 0)
          ∧
        result = rxEnded os slaveRx transaction rtu error rx line := by
  unfold mbRtuRx at h
  split at h
  . contradiction
  . next flags line hwait =>
    split at h
    . cases h
      exact .inl rfl
    . next hready =>
      obtain ⟨rx, rx', error, line₁, line₂, hmessage, hend, hresult⟩ := mbRtuRxFrame_cases h
      have hending := mbRtuRxMessage_reaches (.start hwait hready) hmessage
      have herror : ∀ e ∈ error, e < 0 := by
        intro e he
        obtain ⟨-, herror | herror⟩ := mbRtuRxEnd_cases os hend
        . rw [herror] at he
          obtain rfl | rfl := messageError_of_some he <;> decide
        . rw [herror] at he
          cases he
          decide
      exact .inr ⟨_, error, rx', line₂, mbRtuRxEnd_reaches hending hend, herror, hresult⟩

end Reaches

section Inside

variable {ω : Type} (os : RtuOs ω)

structure RxPoint.Inside (point : RxPoint ω) : Prop where
  count_le : point.rx.count ≤ maxPduSize
  p_eq : point.rx.p = point.rx.count

/--
At every point of `mb_rtu_rx` the end of the message is where it should be and within the buffer, a
read asks for no more than there is room for, and what is returned fits into the buffer.
-/
def StaysInside (transaction : Txn) (tmo : UInt32) (rtu : MbRtu ω) : Prop :=
  (∀ (point : RxPoint ω), RxReaches os transaction tmo rtu point →
    point.Inside ∧ ∀ (n : Nat), point.Reads os n → n ≤ maxPduSize - point.rx.count)
    ∧
  ∀ (rounds : Nat) (result : Int) (transaction' : Txn) (rtu' : MbRtu ω),
    mbRtuRx os rounds transaction tmo rtu = some (result, transaction', rtu') →
      result ≤ maxPduSize

variable {os}

theorem RxPoint.Inside.room {point : RxPoint ω} (h : point.Inside)
    : point.room = maxPduSize - point.rx.count := by
  have hmax : maxPduSize = 253 := rfl
  have hle := h.count_le
  unfold RxPoint.room
  rw [← Int.natCast_sub hle]
  apply sizeT_natCast
  omega

theorem RxPoint.Inside.read (hreads : os.ReadsAtMost) {point : RxPoint ω} (h : point.Inside)
    {line : ω} (hok : point.rx.count = 0 → (mbRtuReadCall os point.room line).1 ≠ none)
    : sizeT ((point.rx.count : Int) +
          (mbRtuRead os point.rx.data point.rx.p point.room line).1) ≤ maxPduSize
        ∧
      ptrAdd point.rx.p (mbRtuRead os point.rx.data point.rx.p point.room line).1
        =
      sizeT ((point.rx.count : Int) +
        (mbRtuRead os point.rx.data point.rx.p point.room line).1) := by
  have hmax : maxPduSize = 253 := rfl
  have hle := h.count_le
  have hroom := h.room
  rw [h.p_eq]
  cases hcall : (mbRtuReadCall os point.room line).1 with
  | some bs =>
    obtain ⟨hread, hlen⟩ := @mbRtuRead_of_some _ os point.rx.data point.rx.count _ _ hreads
      (by omega) _ hcall
    rw [hread, ← Int.natCast_add, sizeT_natCast (by omega), ptrAdd, if_pos (by omega)]
    omega
  | none =>
    have hpos : point.rx.count ≠ 0 := fun hzero => hok hzero hcall
    rw [mbRtuRead_of_none os _ _ hcall]
    unfold sizeT ptrAdd
    omega

theorem RxPoint.Inside.next (hreads : os.ReadsAtMost) (unit : UInt8) {point : RxPoint ω}
    (h : point.Inside) {flags : Flags} {line : ω}
    (hok : ∀ slaveRx rx line', point = .message slaveRx rx line' → flags.rxAvail = true →
      rx.count = 0 → (mbRtuReadCall os point.room line).1 ≠ none)
    : (point.next os unit flags line).Inside := by
  by_cases hread : ∀ slaveRx rx line', point = .message slaveRx rx line' → flags.rxAvail = false
  . obtain ⟨hcount, hp⟩ := RxPoint.rx_next_of_not_read os unit line hread
    constructor
    . rw [hcount]
      exact h.count_le
    . rw [hcount, hp]
      exact h.p_eq
  . simp only [not_forall, Bool.not_eq_false] at hread
    obtain ⟨slaveRx, rx, line', rfl, hrx⟩ := hread
    obtain ⟨hcount, hp⟩ := h.read hreads (hok slaveRx rx line' rfl hrx)
    constructor
    . rw [RxPoint.rx_next_of_read os unit line slaveRx rx line' hrx]
      exact hcount
    . rw [RxPoint.rx_next_of_read os unit line slaveRx rx line' hrx]
      exact hp

variable {transaction : Txn} {tmo : UInt32} {rtu : MbRtu ω}

theorem RxReaches.inside (hreads : os.ReadsAtMost)
    (hok : ∀ slaveRx rx line, RxReaches os transaction tmo rtu (.message slaveRx rx line) →
      rx.count = 0 → ¬(RxPoint.message slaveRx rx line).ReadFails os)
    {point : RxPoint ω} (h : RxReaches os transaction tmo rtu point)
    : point.Inside := by
  induction h with
  | start => exact ⟨Nat.zero_le _, rfl⟩
  | @step point point' hpoint hstep ih =>
    unfold RxPoint.step at hstep
    obtain ⟨⟨flags, line⟩, hwait, rfl⟩ := Option.map_eq_some_iff.mp hstep
    apply ih.next hreads
    rintro slaveRx rx line' rfl hrx hzero hcall
    exact hok slaveRx rx line' hpoint hzero ⟨flags, line, hwait, hrx, hcall⟩

theorem mbRtuRx_result_le (hinside : ∀ point, RxReaches os transaction tmo rtu point → point.Inside)
    {rounds : Nat} {result : Int × Txn × MbRtu ω}
    (h : mbRtuRx os rounds transaction tmo rtu = some result)
    : result.1 ≤ maxPduSize := by
  obtain htimeout | ⟨slaveRx, error, rx, line, hreaches, herror, rfl⟩ := mbRtuRx_reaches h
  . rw [htimeout]
    decide
  . have hle := (hinside _ hreaches).count_le
    cases error with
    | none =>
      have hmax : maxPduSize = 253 := rfl
      have hresult := toInt_sub_two_le hle
      simp only [RxPoint.rx] at hresult
      simp only [rxEnded]
      omega
    | some e =>
      apply Int.le_of_lt
      apply Int.lt_of_lt_of_le (herror e rfl)
      decide

end Inside

/--
The reads of `mb_rtu_rx` stay inside of the buffer if and only if no read for the message fails
while the message has no byte yet.
-/
theorem mbRtuRx_staysInside_iff {ω : Type} (os : RtuOs ω) (hreads : os.ReadsAtMost)
    (transaction : Txn) (tmo : UInt32) (rtu : MbRtu ω)
    : StaysInside os transaction tmo rtu
        ↔
      ∀ (slaveRx : UInt8) (rx : RxBuffer) (line : ω),
        RxReaches os transaction tmo rtu (.message slaveRx rx line) → rx.count = 0 →
          ¬(RxPoint.message slaveRx rx line).ReadFails os := by
  constructor
  . rintro ⟨hinside, -⟩ slaveRx rx line hreaches hzero ⟨flags, line', hwait, hrx, hcall⟩
    have hstep := RxPoint.step_of_wait hwait transaction.unit
    have hle := (hinside _ (hreaches.step hstep)).1.count_le
    rw [RxPoint.rx_next_of_read os transaction.unit line' slaveRx rx line hrx] at hle
    dsimp only at hle
    rw [mbRtuRead_of_none os rx.data rx.p hcall, hzero] at hle
    exact absurd hle (by decide)
  . intro hok
    have hinside (point : RxPoint ω) (h : RxReaches os transaction tmo rtu point) : point.Inside :=
      h.inside hreads hok
    refine ⟨?_, ?_⟩
    . intro point hpoint
      refine ⟨hinside point hpoint, ?_⟩
      rintro n ⟨flags, line, -, -, rfl⟩
      rw [← (hinside point hpoint).room]
      apply mbRtuReadSize_le
    . intro rounds result transaction' rtu' hrx
      exact mbRtuRx_result_le hinside hrx

/-- A port on which every wait finds data and the given reads succeed, one byte at a time. -/
def readPort (reads : Nat → Option UInt8) : RtuOs Nat where
  write _ _ _ calls := (-1, calls)
  read n calls :=
    match reads calls with
    | some b => (some ([b].take n), calls + 1)
    | none => (none, calls + 1)
  rxAvail calls := (1, calls)
  txDrain _ calls := calls
  eventSet _ calls := calls
  eventClr _ calls := calls
  eventWait mask _ calls :=
    some (some (Flags.and { rxAvail := true, t1p5 := 4 ≤ calls, t3p5 := 4 ≤ calls } mask), calls)
  txEnable := none
  tmrStart _ calls := calls

theorem readsAtMost_readPort (reads : Nat → Option UInt8) : (readPort reads).ReadsAtMost := by
  intro n calls bs h
  simp only [readPort] at h
  split at h
  . injection h with h
    rw [← h]
    exact List.length_take_le n _
  . contradiction

theorem mbRtuRx_staysInside_readPort
    : StaysInside (readPort (fun _ => some 1)) ⟨0, 0, 1, fun _ => 0⟩ 0 ⟨false, 0, 0⟩ := by
  rw [mbRtuRx_staysInside_iff _ (readsAtMost_readPort _)]
  rintro slaveRx rx line - - ⟨flags, line', -, -, hcall⟩
  simp [mbRtuReadCall, readPort] at hcall

theorem not_staysInside_failing
    : ¬StaysInside (readPort (fun k => if k = 0 then some 1 else none)) ⟨0, 0, 1, fun _ => 0⟩ 0
        ⟨false, 0, 0⟩ := by
  rintro ⟨hinside, -⟩
  have hle := (hinside _ (.step (.start rfl (by decide)) rfl)).1.count_le
  exact absurd hle (by decide)

end Modbus
