import Modbus.Rtu.Burst
import Modbus.Rtu.Overrun

/-!
This module contains when the task that receives is in time for a burst. What is to happen later may
then still be on its way, and makes no difference to it.
-/

namespace Modbus

/--
The lines differ in what is to happen later on the second one, and in how the calls of the task are
counted.
-/
structure Line.Ahead (later : List LineEvent) (l l' : Line) : Prop where
  fifo : l'.fifo = l.fifo
  written : l'.written = l.written
  flags : l'.flags = l.flags
  script : l'.script = l.script ++ later
  schedule (n : Nat) : l'.schedule (l'.calls + n) = l.schedule (l.calls + n)

/-! What has not happened yet at the end of a call had not happened before. -/

namespace Line

theorem next_of_nil {l : Line} (hnil : l.script = []) : l.next = l := by
  simp only [Line.next, hnil]

theorem next_suffix (l : Line) : l.next.script <:+ l.script := by
  cases hl : l.script with
  | nil =>
    rw [next_of_nil hl]
    exact ⟨[], hl⟩
  | cons e script =>
    have hnext : l.next.script = script := by
      unfold Line.next
      rw [hl]
      cases e <;> rfl
    rw [hnext]
    apply List.suffix_cons

theorem happen_suffix (n : Nat) (l : Line) : (l.happen n).script <:+ l.script := by
  apply Line.happen_preserves (P := fun l' => l'.script <:+ l.script)
  . exact fun l' h => l'.next_suffix.trans h
  . apply List.suffix_refl

theorem tick_suffix (l : Line) : l.tick.script <:+ l.script := by
  apply Line.tick_preserves (P := fun l' => l'.script <:+ l.script)
  . exact fun l' h => l'.next_suffix.trans h
  . exact fun l' calls h => h
  . apply List.suffix_refl

theorem await_of_nil {l : Line} (hnil : l.script = []) (mask : Flags) (n : Nat)
    : l.await mask n = l := by
  induction n with
  | zero => rfl
  | succ n ih =>
    rw [Line.await, next_of_nil hnil, ih]
    split <;> rfl

theorem flags_of_eventWait {mask : Flags} {flags : Option Flags} {l l' : Line}
    (h : rtuLine.eventWait mask none l = some (flags, l'))
    : ∃ (flags' : Flags), flags = some flags' := by
  change Line.eventWait mask none l = _ at h
  unfold Line.eventWait at h
  dsimp only at h
  split at h
  . cases h
    exact ⟨_, rfl⟩
  . contradiction

theorem await_of_any {mask : Flags} {l : Line} (hany : (l.flags.and mask).any = true) (n : Nat)
    : l.await mask n = l := by
  cases n with
  | zero => rfl
  | succ n => rw [Line.await, if_pos hany]

end Line

namespace Line.Ahead

variable {later : List LineEvent} {l l' : Line} (h : l.Ahead later l')

include h

theorem next_of_ne (hne : l.script ≠ []) : l.next.Ahead later l'.next := by
  obtain ⟨e, script, hl⟩ := List.exists_cons_of_ne_nil hne
  have hl' : l'.script = e :: (script ++ later) := by
    rw [h.script, hl]
    rfl
  cases e
  all_goals
    simp only [Line.next, hl, hl', Line.occur]
    exact ⟨by simp [h.fifo], h.written, by simp [h.flags], rfl, h.schedule⟩

theorem next (hlater : later <:+ l'.next.script) : l.next.Ahead later l'.next := by
  by_cases hnil : l.script = []
  . have hscript : l'.script = later := by rw [h.script, hnil, List.nil_append]
    have hnext : l'.next = l' := by
      apply next_of_nil
      have hle := hlater.length_le
      rw [l'.script_next, hscript] at hle
      apply List.length_eq_zero_iff.mp
      rw [hscript]
      omega
    rw [next_of_nil hnil, hnext]
    exact h
  . exact h.next_of_ne hnil

theorem happen (n : Nat) (hlater : later <:+ (l'.happen n).script)
    : (l.happen n).Ahead later (l'.happen n) := by
  induction n generalizing l l' with
  | zero => exact h
  | succ n ih =>
    apply ih
    . apply h.next
      exact hlater.trans (l'.next.happen_suffix n)
    . exact hlater

theorem tick (hlater : later <:+ l'.tick.script) : l.tick.Ahead later l'.tick := by
  have hschedule := h.schedule 0
  rw [Nat.add_zero, Nat.add_zero] at hschedule
  unfold Line.tick at hlater ⊢
  rw [hschedule] at hlater ⊢
  have hhappen := h.happen _ hlater
  refine ⟨hhappen.fifo, hhappen.written, hhappen.flags, hhappen.script, ?_⟩
  intro n
  dsimp only
  rw [(Line.script_happen _ _).2, (Line.script_happen _ _).2, Nat.add_assoc, Nat.add_assoc]
  apply h.schedule

/-- The task wakes up before anything of that happens. -/
theorem await {mask : Flags} {n n' : Nat} (hle : n ≤ n')
    (hany : ((l.await mask n).flags.and mask).any = true)
    : (l.await mask n).Ahead later (l'.await mask n') := by
  induction n generalizing l l' n' with
  | zero =>
    rw [Line.await] at hany ⊢
    rw [await_of_any (by rw [h.flags, hany])]
    exact h
  | succ n ih =>
    by_cases hsat : (l.flags.and mask).any = true
    . rw [await_of_any hsat, await_of_any (by rw [h.flags, hsat])]
      exact h
    . obtain ⟨n', rfl⟩ := Nat.exists_eq_succ_of_ne_zero (show n' ≠ 0 by omega)
      rw [Line.await, if_neg hsat] at hany ⊢
      rw [Line.await, h.flags, if_neg hsat]
      have hne : l.script ≠ [] := by
        intro hnil
        rw [next_of_nil hnil, await_of_nil hnil] at hany
        contradiction
      exact ih (h.next_of_ne hne) (Nat.le_of_succ_le_succ hle) hany

theorem eventWait {mask : Flags} {tmo : Option UInt32} {flags : Flags} {l₁ : Line}
    (hlater : later <:+ l'.tick.script)
    (hwait : rtuLine.eventWait mask tmo l = some (some flags, l₁))
    : ∃ (l₁' : Line),
        rtuLine.eventWait mask tmo l' = some (some flags, l₁') ∧ l₁.Ahead later l₁' := by
  have htick := h.tick hlater
  have hle : l.tick.script.length ≤ l'.tick.script.length := by
    rw [htick.script, List.length_append]
    omega
  change Line.eventWait mask tmo l = _ at hwait
  unfold Line.eventWait at hwait
  dsimp only at hwait
  split at hwait
  . next hany =>
    cases hwait
    have hawait := htick.await hle hany
    refine ⟨_, ?_, hawait⟩
    rw [eventWait_of_any tmo (by rw [hawait.flags, hany]), hawait.flags]
  . split at hwait
    . cases hwait
    . contradiction

theorem eventClr (mask : Flags) (hlater : later <:+ l'.tick.script)
    : (rtuLine.eventClr mask l).Ahead later (rtuLine.eventClr mask l') := by
  have htick := h.tick hlater
  exact ⟨htick.fifo, htick.written, congrArg (Flags.clr · mask) htick.flags, htick.script,
    htick.schedule⟩

theorem eventSet (mask : Flags) (hlater : later <:+ l'.tick.script)
    : (rtuLine.eventSet mask l).Ahead later (rtuLine.eventSet mask l') := by
  have htick := h.tick hlater
  exact ⟨htick.fifo, htick.written, congrArg (Flags.set · mask) htick.flags, htick.script,
    htick.schedule⟩

theorem read (n : Nat) (hlater : later <:+ l'.tick.script)
    : (rtuLine.read n l').1 = (rtuLine.read n l).1
        ∧
      (rtuLine.read n l).2.Ahead later (rtuLine.read n l').2 := by
  have htick := h.tick hlater
  simp only [rtuLine, Line.read, htick.fifo]
  split
  . exact ⟨rfl, htick⟩
  . exact ⟨rfl, rfl, htick.written, htick.flags, htick.script, htick.schedule⟩

end Line.Ahead

theorem Line.read_script (n : Nat) (l : Line) : (rtuLine.read n l).2.script = l.tick.script := by
  simp only [rtuLine, Line.read]
  split <;> rfl

section Read

variable {later : List LineEvent} {l l' : Line} (h : l.Ahead later l') {size : Nat}

include h

theorem Line.Ahead.mbRtuReadCall
    (hlater : later <:+ (mbRtuReadCall rtuLine size l').2.script)
    : (mbRtuReadCall rtuLine size l').1 = (mbRtuReadCall rtuLine size l).1
        ∧
      (mbRtuReadCall rtuLine size l).2.Ahead later (mbRtuReadCall rtuLine size l').2 := by
  unfold Modbus.mbRtuReadCall mbRtuReadSize at hlater ⊢
  simp only [rtuLine_eventClr, rtuLine_rxAvail, Line.read_script] at hlater ⊢
  -- The later events had not happened at the calls before either.
  have hsuffix : later <:+ l'.cleared.tick.script := by
    split at hlater
    . exact (hlater.trans (Line.tick_suffix _)).trans (Line.tick_suffix _)
    . exact hlater.trans (Line.tick_suffix _)
  have hcleared : l.cleared.Ahead later l'.cleared :=
    h.eventClr _ (hsuffix.trans (Line.tick_suffix l'.cleared))
  have htick := hcleared.tick hsuffix
  rw [htick.fifo] at hlater ⊢
  split
  . next hfull =>
    rw [if_pos hfull] at hlater
    apply (htick.eventSet _ (hlater.trans (Line.tick_suffix _))).read
    exact hlater
  . next hfull =>
    rw [if_neg hfull] at hlater
    apply htick.read
    exact hlater

theorem Line.Ahead.mbRtuRead (buffer : Mem) (p : Int)
    (hlater : later <:+ (mbRtuRead rtuLine buffer p size l').2.2.script)
    : ∃ (nread : Nat) (data : Mem) (l₁ l₁' : Line),
        Modbus.mbRtuRead rtuLine buffer p size l = (nread, data, l₁)
          ∧
        Modbus.mbRtuRead rtuLine buffer p size l' = (nread, data, l₁')
          ∧
        l₁.Ahead later l₁' := by
  have hread (l : Line) : Modbus.mbRtuRead rtuLine buffer p size l
      = (sizeT (readResult (Modbus.mbRtuReadCall rtuLine size l).1),
        buffer.copyAt p ((Modbus.mbRtuReadCall rtuLine size l).1.getD []),
        (Modbus.mbRtuReadCall rtuLine size l).2) := by
    rfl
  rw [hread] at hlater
  obtain ⟨hcall, hahead⟩ := h.mbRtuReadCall hlater
  exact ⟨_, _, _, _, hread l, by rw [hread, hcall], hahead⟩

end Read

namespace RxPoint

variable {ω : Type}

def line : RxPoint ω → ω
  | message _ _ line | ending _ _ _ line | done _ _ _ line => line

theorem line_next_message (os : RtuOs ω) (unit slaveRx : UInt8) (rx : RxBuffer) (flags : Flags)
    (line line' : ω)
    : ((message slaveRx rx line').next os unit flags line).line
        =
      if flags.rxAvail then
        (mbRtuRead os rx.data rx.p (sizeT ((maxPduSize : Int) - rx.count)) line).2.2
      else
        line := by
  unfold next
  dsimp only
  cases flags.t1p5 <;> rfl

theorem line_next_ending (os : RtuOs ω) (unit slaveRx : UInt8) (error : Option Int)
    (rx : RxBuffer) (flags : Flags) (line line' : ω)
    : ((ending slaveRx error rx line').next os unit flags line).line
        =
      if flags.rxAvail then
        (mbRtuRead os rx.data rx.p (sizeT ((maxPduSize : Int) - rx.count)) line).2.2
      else
        line := by
  unfold next
  dsimp only
  cases flags.t3p5 <;> rfl

end RxPoint

/--
None of the later events has happened by the time of any of the calls of the OS that `mb_rtu_rx`
makes, up to the last one in which it clears the flags.
-/
structure RxInTime (later : List LineEvent) (transaction : Txn) (tmo : UInt32) (rtu : MbRtu Line)
    : Prop where
  start : later <:+ rtu.line.tick.script
  reaches {point : RxPoint Line} (h : RxReaches rtuLine transaction tmo rtu point)
    : later <:+ point.line.tick.script

section Loops

variable {later : List LineEvent} {transaction : Txn} {tmo : UInt32} {rtu' : MbRtu Line}
  (hintime : RxInTime later transaction tmo rtu')

include hintime

theorem RxInTime.suffix {point : RxPoint Line} (h : RxReaches rtuLine transaction tmo rtu' point)
    : later <:+ point.line.script := by
  exact (hintime.reaches h).trans point.line.tick_suffix

theorem mbRtuRxMessage_ahead {slaveRx : UInt8} {rx rx₁ : RxBuffer} {l l' l₁ : Line}
    (h : l.Ahead later l')
    (hreaches : RxReaches rtuLine transaction tmo rtu' (.message slaveRx rx l')) {rounds : Nat}
    (hmessage : mbRtuRxMessage rtuLine rounds rx l = some (rx₁, l₁))
    : ∃ (l₁' : Line),
        mbRtuRxMessage rtuLine rounds rx l' = some (rx₁, l₁') ∧ l₁.Ahead later l₁' := by
  induction rounds generalizing rx l l' with
  | zero => simp [mbRtuRxMessage] at hmessage
  | succ rounds ih =>
    rw [mbRtuRxMessage] at hmessage ⊢
    split at hmessage
    . contradiction
    . next flags line hwait =>
      obtain ⟨flags, rfl⟩ := Line.flags_of_eventWait hwait
      obtain ⟨line', hwait', hline⟩ := h.eventWait (hintime.reaches hreaches) hwait
      have hnext := hreaches.step (RxPoint.step_message hwait' transaction.unit slaveRx rx)
      have hsuffix := hintime.suffix hnext
      rw [RxPoint.line_next_message] at hsuffix
      rw [hwait']
      simp only [RxPoint.next, RxPoint.rx, RxPoint.room, Option.getD_some]
        at hmessage hnext hsuffix ⊢
      by_cases hrx : flags.rxAvail = true
      . simp only [hrx, ↓reduceIte] at hmessage hnext hsuffix ⊢
        obtain ⟨nread, data, l₂, l₂', hread, hread', hahead⟩ := hline.mbRtuRead _ _ hsuffix
        simp only [hread, hread'] at hmessage hnext ⊢
        split at hmessage
        . next ht1p5 =>
          cases hmessage
          exact ⟨l₂', by rw [if_pos ht1p5], hahead⟩
        . next ht1p5 =>
          rw [if_neg ht1p5] at hnext ⊢
          exact ih hahead hnext hmessage
      . simp only [hrx, Bool.false_eq_true, ↓reduceIte] at hmessage hnext ⊢
        split at hmessage
        . next ht1p5 =>
          cases hmessage
          exact ⟨line', by rw [if_pos ht1p5], hline⟩
        . next ht1p5 =>
          rw [if_neg ht1p5] at hnext ⊢
          exact ih hline hnext hmessage

theorem mbRtuRxEnd_ahead {slaveRx : UInt8} {error error₁ : Option Int} {rx rx₁ : RxBuffer}
    {l l' l₁ : Line} (h : l.Ahead later l')
    (hreaches : RxReaches rtuLine transaction tmo rtu' (.ending slaveRx error rx l'))
    {rounds : Nat} (hend : mbRtuRxEnd rtuLine rounds error rx l = some (error₁, rx₁, l₁))
    : ∃ (l₁' : Line),
        mbRtuRxEnd rtuLine rounds error rx l' = some (error₁, rx₁, l₁') ∧ l₁.Ahead later l₁' := by
  induction rounds generalizing error rx l l' with
  | zero => simp [mbRtuRxEnd] at hend
  | succ rounds ih =>
    rw [mbRtuRxEnd] at hend ⊢
    split at hend
    . contradiction
    . next flags line hwait =>
      obtain ⟨flags, rfl⟩ := Line.flags_of_eventWait hwait
      obtain ⟨line', hwait', hline⟩ := h.eventWait (hintime.reaches hreaches) hwait
      have hnext := hreaches.step (RxPoint.step_ending hwait' transaction.unit slaveRx error rx)
      have hsuffix := hintime.suffix hnext
      rw [RxPoint.line_next_ending] at hsuffix
      rw [hwait']
      simp only [RxPoint.next, RxPoint.rx, RxPoint.room, Option.getD_some]
        at hend hnext hsuffix ⊢
      by_cases hrx : flags.rxAvail = true
      . simp only [hrx, ↓reduceIte] at hend hnext hsuffix ⊢
        obtain ⟨nread, data, l₂, l₂', hread, hread', hahead⟩ := hline.mbRtuRead _ _ hsuffix
        simp only [hread, hread'] at hend hnext ⊢
        split at hend
        . next ht3p5 =>
          cases hend
          exact ⟨l₂', by rw [if_pos ht3p5], hahead⟩
        . next ht3p5 =>
          rw [if_neg ht3p5] at hnext ⊢
          exact ih hahead hnext hend
      . simp only [hrx, Bool.false_eq_true, ↓reduceIte] at hend hnext ⊢
        split at hend
        . next ht3p5 =>
          cases hend
          exact ⟨line', by rw [if_pos ht3p5], hline⟩
        . next ht3p5 =>
          rw [if_neg ht3p5] at hnext ⊢
          exact ih hline hnext hend

end Loops

/-- A task that is in time for a burst receives it as if nothing came later. -/
theorem mbRtuRx_inTime {burst : Burst} {port : Port} {rtu rtu₁ : MbRtu Line} {l₀ l' : Line}
    (hbegins : rtu.line.Begins burst port l₀) {later : List LineEvent} (h : rtu.line.Ahead later l')
    {transaction transaction₁ : Txn} {tmo : UInt32}
    (hintime : RxInTime later transaction tmo { rtu with line := l' }) {rounds : Nat} {result : Int}
    (hrx : mbRtuRx rtuLine rounds transaction tmo rtu = some (result, transaction₁, rtu₁))
    : ∃ (point : RxPoint Line) (l₁' : Line),
        mbRtuRx rtuLine rounds transaction tmo { rtu with line := l' }
          =
        some (result, transaction₁, { rtu₁ with line := l₁' })
          ∧
        rtu₁.line.Ahead later l₁'
          ∧
        RxReaches rtuLine transaction tmo { rtu with line := l' } point
          ∧
        l₁'.schedule = point.line.tick.schedule := by
  obtain ⟨flags, line, hwait, -⟩ := hbegins.eventWait (if tmo ≠ 0 then some tmo else none)
  obtain ⟨line', hwait', hline⟩ := h.eventWait hintime.start hwait
  have hready : ¬(tmo ≠ 0 ∧ some flags = none) := by simp
  have hstart := @RxReaches.start _ rtuLine transaction tmo { rtu with line := l' } _ _ hwait'
    hready
  have hsuffix := hintime.suffix hstart
  obtain ⟨nread, data, l₂, l₂', hread, hread', hahead⟩ := hline.mbRtuRead _ _ hsuffix
  rw [hread'] at hstart
  unfold mbRtuRx at hrx ⊢
  simp only [hwait, hwait', hready, ↓reduceIte, hread, hread'] at hrx ⊢
  obtain ⟨rx, rx', error, l₃, l₄, hmessage, hend, hended⟩ := mbRtuRxFrame_cases hrx
  obtain ⟨l₃', hmessage', hahead₃⟩ := mbRtuRxMessage_ahead hintime hahead hstart hmessage
  have hending := mbRtuRxMessage_reaches hstart hmessage'
  obtain ⟨l₄', hend', hahead₄⟩ := mbRtuRxEnd_ahead hintime hahead₃ hending hend
  have hdone := mbRtuRxEnd_reaches hending hend'
  have hclr := hahead₄.eventClr { t1p5 := true, t3p5 := true, rxAvail := true }
    (hintime.reaches hdone)
  rw [mbRtuRxFrame_eq, hmessage']
  dsimp only
  rw [hend']
  cases error with
  | none =>
    cases hended
    exact ⟨_, _, rfl, hclr, hdone, rfl⟩
  | some error =>
    cases hended
    exact ⟨_, _, rfl, hclr, hdone, rfl⟩

/-! A task that does everything at once is in time. -/

/-- The timers of the burst are still to expire, unless they have. -/
structure Line.Expiring (later : List LineEvent) (l : Line) : Prop where
  still (n : Nat) : l.schedule n = 0
  script : ∃ (script : List LineEvent),
    l.script = script ++ later
      ∧
    ([.t1p5, .t3p5] <:+ script
      ∨
    script = [.t3p5] ∧ l.flags.t1p5 = true
      ∨
    script = [] ∧ l.flags.t1p5 = true ∧ l.flags.t3p5 = true)

theorem BurstScript.timers_suffix {script : List LineEvent} (h : BurstScript script)
    : [.t1p5, .t3p5] <:+ script := by
  induction h with
  | @chunk bs script hbs h ih => exact ih.trans ⟨[.arrive bs, .clr, .set], rfl⟩
  | gap h ih => exact ih.trans (List.suffix_cons _ _)
  | expires => apply List.suffix_refl

namespace Line.Expiring

variable {later : List LineEvent} {l : Line} (h : l.Expiring later)

include h

theorem suffix : later <:+ l.script := by
  obtain ⟨script, hscript, -⟩ := h.script
  exact ⟨script, hscript.symm⟩

omit h in
theorem of_eq {l' : Line} (h : l.Expiring later) (hschedule : l'.schedule = l.schedule)
    (hscript : l'.script = l.script) (ht1p5 : l'.flags.t1p5 = l.flags.t1p5)
    (ht3p5 : l'.flags.t3p5 = l.flags.t3p5)
    : l'.Expiring later := by
  obtain ⟨hstill, hexpiring⟩ := h
  constructor
  . rw [hschedule]
    exact hstill
  . rw [hscript, ht1p5, ht3p5]
    exact hexpiring

theorem tick : l.tick.Expiring later := by
  rw [Line.tick, h.still, Line.happen]
  exact h.of_eq rfl rfl rfl rfl

theorem cleared : l.cleared.Expiring later := by
  apply h.tick.of_eq
  . rfl
  . rfl
  . simp [Line.cleared, Flags.clr]
  . simp [Line.cleared, Flags.clr]

theorem restored : l.restored.Expiring later := by
  apply h.tick.of_eq
  . rfl
  . rfl
  . simp [Line.restored, Flags.set]
  . simp [Line.restored, Flags.set]

theorem read (n : Nat) : (rtuLine.read n l).2.Expiring later := by
  simp only [rtuLine, Line.read]
  split
  . exact h.tick
  . exact h.tick.of_eq rfl rfl rfl rfl

theorem next (hany : ¬(l.flags.t1p5 = true ∧ l.flags.t3p5 = true)) : l.next.Expiring later := by
  obtain ⟨script, hscript, hsuffix | ⟨rfl, ht1p5⟩ | ⟨rfl, htimers⟩⟩ := h.script
  . cases script with
    | nil => simp at hsuffix
    | cons e script =>
      refine ⟨by rw [l.schedule_next.1]; exact h.still, script, ?_, ?_⟩
      . simp only [Line.next, hscript, List.cons_append]
        cases e <;> rfl
      . obtain heq | hsuffix := List.suffix_cons_iff.mp hsuffix
        . cases heq
          right
          left
          simp [Line.next, hscript, Line.occur, Flags.set]
        . exact .inl hsuffix
  . refine ⟨by rw [l.schedule_next.1]; exact h.still, [], ?_, .inr (.inr ?_)⟩
    . simp [Line.next, hscript, Line.occur]
    . simp [Line.next, hscript, Line.occur, Flags.set, ht1p5]
  . exact absurd htimers hany

theorem await {mask : Flags} (hmask : mask.t1p5 = true ∨ mask.t3p5 = true) (n : Nat)
    : (l.await mask n).Expiring later := by
  induction n generalizing l with
  | zero => exact h
  | succ n ih =>
    rw [Line.await]
    split
    . exact h
    . next hany =>
      apply ih
      apply h.next
      rintro ⟨ht1p5, ht3p5⟩
      -- The task would have been woken up.
      obtain hmask | hmask := hmask
      . simp [Flags.any, Flags.and, ht1p5, hmask] at hany
      . simp [Flags.any, Flags.and, ht3p5, hmask] at hany

theorem eventWait {mask : Flags} (hmask : mask.t1p5 = true ∨ mask.t3p5 = true)
    {tmo : Option UInt32} {flags : Option Flags} {l' : Line}
    (hwait : rtuLine.eventWait mask tmo l = some (flags, l'))
    : l'.Expiring later := by
  have hawait := h.tick.await hmask l.tick.script.length
  change Line.eventWait mask tmo l = _ at hwait
  unfold Line.eventWait at hwait
  dsimp only at hwait
  split at hwait
  . cases hwait
    exact hawait
  . split at hwait
    . cases hwait
      exact hawait
    . contradiction

theorem mbRtuRead (buffer : Mem) (p : Int) (size : Nat)
    : (mbRtuRead rtuLine buffer p size l).2.2.Expiring later := by
  unfold Modbus.mbRtuRead
  simp only [rtuLine_eventClr, rtuLine_rxAvail, rtuLine_eventSet]
  apply read
  split
  . exact h.cleared.tick.restored
  . exact h.cleared.tick

end Line.Expiring

theorem RxReaches.expiring {later : List LineEvent} {transaction : Txn} {tmo : UInt32}
    {rtu : MbRtu Line} (hline : rtu.line.Expiring later) {point : RxPoint Line}
    (h : RxReaches rtuLine transaction tmo rtu point)
    : point.line.Expiring later := by
  induction h with
  | start hwait hready =>
    apply Line.Expiring.mbRtuRead
    exact hline.eventWait (.inl rfl) hwait
  | @step point point' hpoint hstep ih =>
    unfold RxPoint.step at hstep
    obtain ⟨⟨flags, line⟩, hwait, rfl⟩ := Option.map_eq_some_iff.mp hstep
    cases point with
    | message slaveRx rx line' =>
      obtain ⟨⟨flags', line⟩, hevent, heq⟩ := Option.map_eq_some_iff.mp hwait
      cases heq
      have hline' := ih.eventWait (.inl rfl) hevent
      rw [RxPoint.line_next_message]
      split
      . apply hline'.mbRtuRead
      . exact hline'
    | ending slaveRx error rx line' =>
      obtain ⟨⟨flags', line⟩, hevent, heq⟩ := Option.map_eq_some_iff.mp hwait
      cases heq
      have hline' := ih.eventWait (.inr rfl) hevent
      rw [RxPoint.line_next_ending]
      split
      . apply hline'.mbRtuRead
      . exact hline'
    | done slaveRx error rx line' => cases hwait

theorem Line.expiring_of_still {l : Line} (hstill : ∀ (n : Nat), l.schedule n = 0) {burst : Burst}
    {later : List LineEvent} (hscript : l.script = burst.events ++ later)
    : l.Expiring later := by
  refine ⟨hstill, burst.events, hscript, .inl ?_⟩
  exact burst.script_burst.timers_suffix.trans ⟨[.arrive burst.first, .clr, .set], rfl⟩

theorem Line.Expiring.rxInTime {later : List LineEvent} {rtu : MbRtu Line}
    (h : rtu.line.Expiring later) (transaction : Txn) (tmo : UInt32)
    : RxInTime later transaction tmo rtu := by
  constructor
  . exact h.tick.suffix
  . intro point hreaches
    exact (hreaches.expiring h).tick.suffix

end Modbus
