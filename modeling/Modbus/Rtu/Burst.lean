import Modbus.Rtu.Frame

/-!
This module contains what a burst of bytes on the line leaves behind for the next frame. In a burst
T1P5 may also expire between the characters. Up to 254 bytes nothing is left behind. The part of a
longer burst that does not fit into the buffer stays in the FIFO when T3P5 has expired before it is
read.
-/

namespace Modbus

/--
What can happen in a burst, from a point at which no hook is being called. T1P5 may expire before
more bytes arrive, T3P5 expires only once all of them have arrived.
-/
inductive BurstScript : List LineEvent → Prop where
  | chunk {bs : List UInt8} {script : List LineEvent} (hbs : bs ≠ []) (h : BurstScript script)
    : BurstScript (.arrive bs :: .clr :: .set :: script)
  | gap {bs : List UInt8} {script : List LineEvent} (h : BurstScript (.arrive bs :: script))
    : BurstScript (.t1p5 :: .arrive bs :: script)
  | expires : BurstScript [.t1p5, .t3p5]

structure Burst where
  first : List UInt8
  first_ne : first ≠ []
  script : List LineEvent
  script_burst : BurstScript script
  -- `os_rtu_rx_avail` returns an `ssize_t`.
  length_lt : (first ++ arrivals script).length < 2 ^ 63

def Burst.bytes (burst : Burst) : List UInt8 :=
  burst.first ++ arrivals burst.script

theorem Burst.length_bytes (burst : Burst) : burst.bytes.length < 2 ^ 63 := by
  exact burst.length_lt

def Burst.events (burst : Burst) : List LineEvent :=
  .arrive burst.first :: .clr :: .set :: burst.script

inductive BurstTail : List LineEvent → Prop where
  | coming {script : List LineEvent} (h : BurstScript script) : BurstTail script
  | clr {script : List LineEvent} (h : BurstScript script) : BurstTail (.clr :: .set :: script)
  | set {script : List LineEvent} (h : BurstScript script) : BurstTail (.set :: script)
  | expired : BurstTail [.t3p5]
  | finished : BurstTail []

theorem BurstScript.not_expired {script : List LineEvent} (h : BurstScript script)
    : ¬Expired script := by
  cases h <;> simp [Expired]

theorem BurstScript.ne_nil {script : List LineEvent} (h : BurstScript script) : script ≠ [] := by
  cases h <;> simp

structure Port where
  -- The receiving task changes none of these.
  written : List UInt8
  txEmpty : Bool
  writePiece : Nat → Nat

def Line.port (l : Line) : Port :=
  { written := l.written, txEmpty := l.flags.txEmpty, writePiece := l.writePiece }

/-- The task has got some of the bytes of a burst. T3P5 tells it that no more of them will come. -/
structure Line.Hearing (bytes : List UInt8) (port : Port) (got : List UInt8) (k : Nat) (l : Line)
    : Prop where
  bytes : got ++ l.pending = bytes
  script : BurstTail l.script
  notified : k < l.fifo.length → l.flags.rxAvail = true ∨ Hooking l.script
  t1p5 : Expired l.script → l.flags.t1p5 = true
  t3p5 : l.flags.t3p5 = true ↔ l.script = []
  port : l.port = port

theorem Line.port_next (l : Line) : l.next.port = l.port := by
  unfold Line.next
  cases hl : l.script with
  | nil => rfl
  | cons e script => cases e <;> simp [Line.port, Line.occur, Flags.set, Flags.clr]

theorem Line.Hearing.next {bytes : List UInt8} {port : Port} {got : List UInt8} {k : Nat} {l : Line}
    (h : l.Hearing bytes port got k)
    : l.next.Hearing bytes port got k := by
  have hbytes : got ++ l.next.pending = bytes := by rw [l.pending_next, h.bytes]
  have hport : l.next.port = port := by rw [l.port_next, h.port]
  have hnotified := h.notified
  have ht3p5 := h.t3p5
  generalize hl : l.script = script at hnotified ht3p5
  have hscript := h.script
  rw [hl] at hscript
  cases hscript with
  | coming hscript =>
    cases hscript with
    | chunk hbs hscript =>
      refine ⟨hbytes, ?_, ?_, ?_, ?_, hport⟩
      all_goals simp only [Line.next, hl, Line.occur]
      . exact .clr hscript
      . simp [Hooking]
      . simp [Expired]
      . simpa using ht3p5
    | gap hscript =>
      -- T1P5 expires within the burst, until the hook clears it again.
      refine ⟨hbytes, ?_, ?_, ?_, ?_, hport⟩
      all_goals simp only [Line.next, hl, Line.occur]
      . exact .coming hscript
      . simpa [Hooking, Flags.set] using hnotified
      . simp [Flags.set]
      . simpa [Flags.set] using ht3p5
    | expires =>
      refine ⟨hbytes, ?_, ?_, ?_, ?_, hport⟩
      all_goals simp only [Line.next, hl, Line.occur]
      . exact .expired
      . simpa [Hooking, Flags.set] using hnotified
      . simp [Flags.set]
      . simpa [Flags.set] using ht3p5
  | clr hscript =>
    refine ⟨hbytes, ?_, ?_, ?_, ?_, hport⟩
    all_goals simp only [Line.next, hl, Line.occur]
    . exact .set hscript
    . simp [Hooking]
    . simp [Expired]
    . simp [Flags.clr]
  | set hscript =>
    refine ⟨hbytes, ?_, ?_, ?_, ?_, hport⟩
    all_goals simp only [Line.next, hl, Line.occur]
    . exact .coming hscript
    . simp [Flags.set]
    . intro hexpired
      exact absurd hexpired hscript.not_expired
    . have hne := hscript.ne_nil
      simpa [Flags.set, hne] using ht3p5
  | expired =>
    refine ⟨hbytes, ?_, ?_, ?_, ?_, hport⟩
    all_goals simp only [Line.next, hl, Line.occur]
    . exact .finished
    . simpa [Hooking, Flags.set] using hnotified
    . intro _
      simpa [Flags.set] using h.t1p5 (.inl hl)
    . simp [Flags.set]
  | finished =>
    have hnext : l.next = l := by simp only [Line.next, hl]
    rw [hnext]
    exact h

theorem Line.Hearing.invariant (bytes : List UInt8) (port : Port)
    : Line.Invariant bytes (fun got k l => l.Hearing bytes port got k) := by
  constructor
  . exact fun h => h.bytes
  . exact fun h => h.notified
  . exact fun h hnil => ⟨h.t1p5 (.inr hnil), h.t3p5.mpr hnil⟩
  . exact fun h => h.next
  . exact fun calls h => ⟨h.bytes, h.script, h.notified, h.t1p5, h.t3p5, h.port⟩
  . intro got k l h
    refine ⟨h.bytes, h.script, ?_, ?_, ?_, ?_⟩
    . exact fun hlt => absurd hlt (Nat.lt_irrefl _)
    . simpa [Flags.clr] using h.t1p5
    . simpa [Flags.clr] using h.t3p5
    . simpa [Line.port, Flags.clr] using h.port
  . intro got k l h
    refine ⟨h.bytes, h.script, ?_, ?_, ?_, ?_⟩
    . simp [Flags.set]
    . simpa [Flags.set] using h.t1p5
    . simpa [Flags.set] using h.t3p5
    . simpa [Line.port, Flags.set] using h.port
  . intro got k l n h hk
    refine ⟨?_, h.script, ?_, h.t1p5, h.t3p5, h.port⟩
    . rw [← h.bytes, Line.pending, List.append_assoc got, ← List.append_assoc (l.fifo.take n)]
      rw [List.take_append_drop]
      rfl
    . intro hpos
      rw [List.length_drop] at hpos
      exact h.notified (by omega)

section End

variable {bytes : List UInt8} {port : Port} {got : List UInt8} {l : Line} {rx : RxBuffer}

theorem mbRtuRxEnd_round (hbytes : bytes.length < 2 ^ 64) (h : l.Hearing bytes port got 0)
    (hcount : rx.count ≤ maxPduSize) (rounds : Nat) (error : Option Int)
    : ∃ (t3p5 : Bool) (error' : Option Int) (got' : List UInt8) (rx' : RxBuffer) (l' : Line),
        mbRtuRxEnd rtuLine (rounds + 1) error rx l
          =
        (if t3p5 then some (error', rx', l') else mbRtuRxEnd rtuLine rounds error' rx' l')
          ∧
        l'.Hearing bytes port got' 0
          ∧
        rx'.count = rx.count
          ∧
        got.length ≤ got'.length
          ∧
        got'.length ≤ got.length + (maxPduSize - rx.count)
          ∧
        (l.script = [] → t3p5 = true)
          ∧
        (t3p5 = true → l'.script = [])
          ∧
        (error' = some eFrameNok ∨
          error' = error ∧ rx' = rx ∧ got' = got ∧ (t3p5 = true → l'.fifo = []))
          ∧
        (bytes.length ≤ got.length + (maxPduSize - rx.count) →
          if t3p5 then l'.fifo = [] else l'.remaining < l.remaining) := by
  have hmax : maxPduSize = 253 := rfl
  have hI := Line.Hearing.invariant bytes port
  obtain ⟨l₁, hwait, hany, h₁, hlater⟩ :=
    hI.eventWait h { t3p5 := true, rxAvail := true } (.inr rfl) none
  have hscript := hlater.script
  rw [mbRtuRxEnd, hwait]
  simp only [Option.getD_some, Flags.and, Bool.and_true]
  simp only [Flags.any, Flags.and, Bool.and_true, Bool.and_false, Bool.false_or,
    Bool.or_false] at hany
  cases hrxAvail : l₁.flags.rxAvail with
  | false =>
    -- T3P5 has expired and there are no extra characters.
    have ht3p5 : l₁.flags.t3p5 = true := by simpa [hrxAvail] using hany
    have hnil := h₁.t3p5.mp ht3p5
    have hfifo := hI.fifo_of_expired h₁ hrxAvail (.inr hnil)
    refine ⟨true, error, got, rx, l₁, ?_, h₁, rfl, Nat.le_refl _, Nat.le_add_right _ _,
      fun _ => rfl, fun _ => hnil, ?_, fun _ => hfifo⟩
    . simp [ht3p5]
    . exact .inr ⟨rfl, rfl, rfl, fun _ => hfifo⟩
  | true =>
    have hsize : sizeT ((maxPduSize : Int) - rx.count) = maxPduSize - rx.count := by
      rw [← Int.natCast_sub hcount]
      rw [sizeT_natCast (by omega)]
    have hlength := congrArg List.length h₁.bytes
    rw [List.length_append] at hlength
    obtain ⟨bs, l', hread, htakes⟩ := @mbRtuRead_takes l₁ (by omega)
      (maxPduSize - rx.count)
    have hscript' := htakes.script
    refine ⟨l₁.flags.t3p5, some eFrameNok, got ++ bs, { rx with data := rx.data.copyAt rx.p bs },
      l', ?_, htakes.keeps hI h₁, rfl, ?_, ?_, ?_, ?_, .inl rfl, ?_⟩
    . simp only [hsize, hread, ↓reduceIte]
    . rw [List.length_append]
      omega
    . have hlen := htakes.length_le
      rw [List.length_append]
      omega
    . intro hnil
      apply h₁.t3p5.mpr
      exact List.length_eq_zero_iff.mp (by simpa [hnil] using hscript)
    . intro ht3p5
      rw [h₁.t3p5.mp ht3p5] at hscript'
      exact List.length_eq_zero_iff.mp (by simpa using hscript')
    . intro hfits
      split
      . next ht3p5 =>
        obtain ⟨-, hfifo, -⟩ := htakes.drained (by omega) (.inr (h₁.t3p5.mp ht3p5))
        exact hfifo
      . exact htakes.remaining_lt hlater hrxAvail (by omega)

theorem mbRtuRxEnd_returns (hbytes : bytes.length < 2 ^ 64) (h : l.Hearing bytes port got 0)
    (hcount : rx.count ≤ maxPduSize)
    (hfits : bytes.length ≤ got.length + (maxPduSize - rx.count)) {rounds : Nat}
    (hrounds : l.remaining < rounds) (error : Option Int)
    : ∃ (error' : Option Int) (rx' : RxBuffer) (l' : Line),
        mbRtuRxEnd rtuLine rounds error rx l = some (error', rx', l') := by
  induction rounds generalizing error got rx l with
  | zero => omega
  | succ rounds ih =>
    obtain ⟨t3p5, error', got', rx', l', hround, h', hcount', hlen, -, -, -, -, hstep⟩ :=
      mbRtuRxEnd_round hbytes h hcount rounds error
    have hstep := hstep hfits
    rw [hround]
    cases t3p5 with
    | false =>
      simp only [Bool.false_eq_true, ↓reduceIte] at hstep ⊢
      apply ih h'
      . omega
      . omega
      . omega
    | true => exact ⟨error', rx', l', rfl⟩

theorem mbRtuRxEnd_keeps (hbytes : bytes.length < 2 ^ 64) (h : l.Hearing bytes port got 0)
    (hcount : rx.count ≤ maxPduSize) {rounds : Nat} {error error' : Option Int} {rx' : RxBuffer}
    {l' : Line} (hsome : mbRtuRxEnd rtuLine rounds error rx l = some (error', rx', l'))
    : ∃ (got' : List UInt8),
        l'.Hearing bytes port got' 0
          ∧
        l'.script = []
          ∧
        (error' = some eFrameNok ∨ error' = error ∧ rx' = rx ∧ got' = got ∧ l'.fifo = [])
          ∧
        (bytes.length ≤ got.length + (maxPduSize - rx.count) → l'.fifo = []) := by
  induction rounds generalizing error got rx l with
  | zero => simp [mbRtuRxEnd] at hsome
  | succ rounds ih =>
    obtain ⟨t3p5, error₁, got₁, rx₁, l₁, hround, h₁, hcount₁, hlen, -, -, hscript, hcases, hstep⟩ :=
      mbRtuRxEnd_round hbytes h hcount rounds error
    rw [hround] at hsome
    cases t3p5 with
    | false =>
      obtain ⟨got', h', hnil, hcases', hdrained⟩ := ih h₁ (by omega) hsome
      refine ⟨got', h', hnil, ?_, fun hfits => hdrained (by omega)⟩
      obtain rfl | ⟨rfl, rfl, rfl, -⟩ := hcases
      . left
        obtain hnok | ⟨hnok, -⟩ := hcases'
        . exact hnok
        . exact hnok
      . exact hcases'
    | true =>
      cases hsome
      refine ⟨got₁, h₁, hscript rfl, ?_, hstep⟩
      obtain hnok | ⟨herror, hrx, hgot, hfifo⟩ := hcases
      . exact .inl hnok
      . exact .inr ⟨herror, hrx, hgot, hfifo rfl⟩

end End

/-- The state between two bursts. T3P5 may be left over from a transmission. -/
structure Line.Idle (l : Line) : Prop where
  fifo : l.fifo = []
  rxAvail : l.flags.rxAvail = false
  t1p5 : l.flags.t1p5 = false
  script : l.script = []

def Line.hear (burst : Burst) (schedule : Nat → Nat) (l : Line) : Line :=
  { l with script := burst.events, schedule, calls := 0 }

def MbRtu.hear (burst : Burst) (schedule : Nat → Nat) (rtu : MbRtu Line) : MbRtu Line :=
  { rtu with line := rtu.line.hear burst schedule }

def Line.forget (l : Line) : Line :=
  { l with flags := { l.flags with t3p5 := false } }

section Start

def Line.Starting (burst : Burst) (port : Port) (l : Line) : Prop :=
  l.flags.rxAvail = false
    ∧
  l.flags.t1p5 = false
    ∧
  l.port = port
    ∧
  (l.fifo = [] ∧ l.script = burst.events
    ∨
  l.fifo = burst.first ∧ l.script = .clr :: .set :: burst.script)

def Line.Begun (burst : Burst) (port : Port) (l : Line) : Prop :=
  l.Hearing burst.bytes port [] 0 ∧ l.fifo ≠ []

/-- The lines differ only in a T3P5 that is left over. The first call of the hook clears it. -/
def Line.Begins (burst : Burst) (port : Port) (l l' : Line) : Prop :=
  l.Starting burst port ∧ l' = l.forget ∨ l.Begun burst port ∧ l' = l

variable {burst : Burst} {port : Port} {l l' : Line}

theorem Line.Begun.next (h : l.Begun burst port) : l.next.Begun burst port := by
  obtain ⟨hhearing, hfifo⟩ := h
  refine ⟨hhearing.next, ?_⟩
  obtain ⟨bs, hbs⟩ := l.later_next.fifo
  rw [hbs]
  exact List.append_ne_nil_of_left_ne_nil hfifo bs

theorem Line.Begins.next (h : l.Begins burst port l') : l.next.Begins burst port l'.next := by
  obtain ⟨⟨hrx, ht1p5, hport, ⟨hfifo, hl⟩ | ⟨hfifo, hl⟩⟩, rfl⟩ | ⟨hbegun, rfl⟩ := h
  . -- The first bytes arrive.
    left
    have hnext : l.next =
        { l with script := .clr :: .set :: burst.script, fifo := burst.first } := by
      simp only [Line.next, hl, Burst.events, Line.occur, hfifo, List.nil_append]
    refine ⟨⟨?_, ?_, ?_, .inr ⟨?_, ?_⟩⟩, ?_⟩
    . rw [hnext, hrx]
    . rw [hnext, ht1p5]
    . rw [l.port_next, hport]
    . rw [hnext]
    . rw [hnext]
    . rw [hnext]
      simp only [Line.next, Line.forget, hl, Burst.events, Line.occur, hfifo, List.nil_append]
  . -- The hook clears the timers, and with it what was left over.
    right
    have hnext : l.next =
        { l with
          script := .set :: burst.script
          flags := l.flags.clr { t1p5 := true, t3p5 := true } } := by
      simp only [Line.next, hl, Line.occur]
    refine ⟨⟨⟨?_, ?_, ?_, ?_, ?_, ?_⟩, ?_⟩, ?_⟩
    . rw [l.pending_next, Line.pending, hfifo, hl]
      rfl
    . rw [hnext]
      exact .set burst.script_burst
    . simp [hnext, Hooking]
    . simp [hnext, Expired]
    . simp [hnext, Flags.clr]
    . rw [l.port_next, hport]
    . rw [hnext]
      dsimp only
      rw [hfifo]
      exact burst.first_ne
    . simp only [Line.next, Line.forget, hl, Line.occur, Flags.clr, Bool.not_true, Bool.and_false]
  . exact .inr ⟨hbegun.next, rfl⟩

theorem Line.Begins.same (h : l.Begins burst port l')
    : l'.script = l.script ∧ l'.schedule = l.schedule ∧ l'.calls = l.calls ∧
        l'.flags.rxAvail = l.flags.rxAvail ∧ l'.flags.t1p5 = l.flags.t1p5 := by
  obtain ⟨-, rfl⟩ | ⟨-, rfl⟩ := h
  . exact ⟨rfl, rfl, rfl, rfl, rfl⟩
  . exact ⟨rfl, rfl, rfl, rfl, rfl⟩

theorem Line.Begins.happen (h : l.Begins burst port l') (n : Nat)
    : (l.happen n).Begins burst port (l'.happen n) := by
  induction n generalizing l l' with
  | zero => exact h
  | succ n ih => exact ih h.next

theorem Line.Begins.tick (h : l.Begins burst port l') : l.tick.Begins burst port l'.tick := by
  obtain ⟨-, hschedule, hcalls, -, -⟩ := h.same
  have hhappen := h.happen (l.schedule l.calls)
  unfold Line.tick
  rw [hschedule, hcalls]
  obtain ⟨⟨hrx, ht1p5, hport, hscript⟩, heq⟩ | ⟨⟨hhearing, hfifo⟩, heq⟩ := hhappen
  . left
    rw [heq]
    exact ⟨⟨hrx, ht1p5, hport, hscript⟩, rfl⟩
  . right
    rw [heq]
    exact ⟨⟨(Line.Hearing.invariant burst.bytes port).calls _ hhearing, hfifo⟩, rfl⟩

theorem Line.Begins.await (h : l.Begins burst port l') (n : Nat)
    : (l.await { t1p5 := true, rxAvail := true } n).Begins burst port
        (l'.await { t1p5 := true, rxAvail := true } n) := by
  induction n generalizing l l' with
  | zero => exact h
  | succ n ih =>
    obtain ⟨-, -, -, hrx, ht1p5⟩ := h.same
    have hany : (l'.flags.and { t1p5 := true, rxAvail := true }).any
        = (l.flags.and { t1p5 := true, rxAvail := true }).any := by
      simp [Flags.any, Flags.and, hrx, ht1p5]
    rw [Line.await, Line.await, hany]
    split
    . exact h
    . exact ih h.next

theorem Line.Begins.eventWait (h : l.Begins burst port l') (tmo : Option UInt32)
    : ∃ (flags : Flags) (l₁ : Line),
        rtuLine.eventWait { t1p5 := true, rxAvail := true } tmo l = some (some flags, l₁)
          ∧
        rtuLine.eventWait { t1p5 := true, rxAvail := true } tmo l' = some (some flags, l₁)
          ∧
        l₁.Begun burst port
          ∧
        l₁.script.length ≤ l.tick.script.length := by
  have hawait := h.tick.await l.tick.script.length
  obtain ⟨hscript, -⟩ := h.tick.same
  have hcases := Line.await_cases { t1p5 := true, rxAvail := true } l.tick.script.length l.tick
  have hlater := Line.later_await { t1p5 := true, rxAvail := true } l.tick.script.length l.tick
  generalize hl₁ : l.tick.await { t1p5 := true, rxAvail := true } l.tick.script.length = l₁
    at hawait hcases hlater
  rw [← hscript] at hawait
  obtain ⟨⟨hrx, ht1p5, -, hstart⟩, -⟩ | ⟨hbegun, heq⟩ := hawait
  . -- Some of the burst is still to happen, and neither of the flags is set.
    obtain hany | hlen := hcases
    . simp [Flags.any, Flags.and, hrx, ht1p5] at hany
    . rw [Nat.sub_self] at hlen
      obtain ⟨-, hl⟩ | ⟨-, hl⟩ := hstart
      . simp [hl, Burst.events] at hlen
      . simp [hl] at hlen
  . have hany : (l₁.flags.and { t1p5 := true, rxAvail := true }).any = true := by
      obtain hany | hlen := hcases
      . exact hany
      . rw [Nat.sub_self] at hlen
        have ht1p5 := hbegun.1.t1p5 (.inr (List.length_eq_zero_iff.mp hlen))
        simp [Flags.any, Flags.and, ht1p5]
    refine ⟨l₁.flags.and { t1p5 := true, rxAvail := true }, l₁, ?_, ?_, hbegun, hlater.script⟩
    . have hwait := @eventWait_of_any { t1p5 := true, rxAvail := true } tmo l (by rw [hl₁, hany])
      rw [hwait, hl₁]
    . have hwait := @eventWait_of_any { t1p5 := true, rxAvail := true } tmo l' (by rw [heq, hany])
      rw [hwait, heq]

theorem Line.Idle.begins (h : l.Idle) (burst : Burst) (schedule : Nat → Nat)
    : (l.hear burst schedule).Begins burst l.port (l.hear burst schedule).forget := by
  left
  exact ⟨⟨h.rxAvail, h.t1p5, rfl, .inl ⟨h.fifo, rfl⟩⟩, rfl⟩

theorem Line.Idle.forget_hear (h : l.Idle) (h' : l'.Idle) (hport : l'.port = l.port) (burst : Burst)
    (schedule : Nat → Nat)
    : (l'.hear burst schedule).forget = (l.hear burst schedule).forget := by
  obtain ⟨fifo, written, ⟨txEmpty, rxAvail, t1p5, t3p5⟩, script, schedule, writePiece, calls⟩ := l
  obtain ⟨fifo', written', ⟨txEmpty', rxAvail', t1p5', t3p5'⟩, script', schedule', writePiece',
    calls'⟩ := l'
  obtain ⟨rfl, rfl, rfl, -⟩ := h
  obtain ⟨rfl, rfl, rfl, -⟩ := h'
  simp only [Line.port, Port.mk.injEq] at hport
  obtain ⟨rfl, rfl, rfl⟩ := hport
  rfl

theorem Line.Begun.read (h : l.Begun burst port)
    : ∃ (slave : UInt8) (rest : List UInt8) (l' : Line),
        burst.bytes = slave :: rest
          ∧
        (∀ (m : Mem), mbRtuRead rtuLine m 0 1 l = (1, m.copy 0 [slave], l'))
          ∧
        l'.Hearing burst.bytes port [slave] 0
          ∧
        l'.script.length ≤ l.script.length := by
  have hlength := congrArg List.length h.1.bytes
  rw [List.nil_append] at hlength
  have hlt := burst.length_bytes
  obtain ⟨bs, l', hread, htakes⟩ := @mbRtuRead_takes l (by omega) 1
  have hlen := htakes.length_le
  have hpos := List.length_pos_iff.mpr (htakes.nonempty h.2 (Nat.le_refl 1))
  obtain ⟨slave, rfl⟩ : ∃ slave, bs = [slave] := by
    apply List.length_eq_one_iff.mp
    omega
  have hhearing := htakes.keeps (Line.Hearing.invariant burst.bytes port) h.1
  exact ⟨slave, l'.pending, l', hhearing.bytes.symm, fun m => hread m 0, hhearing, htakes.script⟩

end Start

theorem Line.Hearing.port_eventClr {bytes : List UInt8} {port : Port} {got : List UInt8} {k : Nat}
    {l : Line} (h : l.Hearing bytes port got k)
    : (rtuLine.eventClr { t1p5 := true, t3p5 := true, rxAvail := true } l).port = port := by
  have hport := ((Line.Hearing.invariant bytes port).tick h).port
  simpa [rtuLine, Line.port, Flags.clr] using hport

theorem Line.idle_eventClr {l : Line} (hnil : l.script = []) (hfifo : l.fifo = [])
    : (rtuLine.eventClr { t1p5 := true, t3p5 := true, rxAvail := true } l).Idle := by
  have hlater := l.later_tick
  obtain ⟨-, hfifo', -⟩ := hlater.expired (.inr hnil)
  have hscript := hlater.script
  rw [hnil] at hscript
  constructor
  all_goals simp only [rtuLine]
  . rw [hfifo', hfifo]
  . simp [Flags.clr]
  . simp [Flags.clr]
  . exact List.length_eq_zero_iff.mp (by simpa using hscript)

section Rx

variable {burst : Burst} {port : Port} {rtu : MbRtu Line} {l' : Line}
  (h : rtu.line.Begins burst port l') (transaction : Txn) (tmo : UInt32)

include h

theorem mbRtuRx_begins
    : ∃ (slave : UInt8) (rest : List UInt8) (l : Line),
        burst.bytes = slave :: rest
          ∧
        l.Hearing burst.bytes port [slave] 0
          ∧
        l.script.length ≤ rtu.line.tick.script.length
          ∧
        ∀ (rtu' : MbRtu Line), rtu'.line = rtu.line ∨ rtu'.line = l' →
          ∀ (rounds : Nat),
            mbRtuRx rtuLine rounds transaction tmo rtu'
              =
            mbRtuRxFrame rtuLine rounds transaction slave rtu' l := by
  generalize htmo : (if tmo ≠ 0 then some tmo else none) = tmo'
  obtain ⟨flags, l₁, hwait, hwait', hbegun, hscript⟩ := h.eventWait tmo'
  obtain ⟨slave, rest, l, hbytes, hread, hhearing, hscript'⟩ := hbegun.read
  refine ⟨slave, rest, l, hbytes, hhearing, by omega, ?_⟩
  intro rtu' hline rounds
  have hwait₁ : rtuLine.eventWait { t1p5 := true, rxAvail := true } tmo' rtu'.line
      = some (some flags, l₁) := by
    obtain hline | hline := hline
    . rw [hline, hwait]
    . rw [hline, hwait']
  unfold mbRtuRx
  rw [htmo, hwait₁]
  simp only [reduceCtorEq, and_false, ↓reduceIte, hread]
  rfl

theorem mbRtuRx_returns (hlength : burst.bytes.length ≤ maxPduSize + 1)
    : ∃ (rounds : Nat) (result : Int × Txn × MbRtu Line),
        mbRtuRx rtuLine rounds transaction tmo rtu = some result := by
  have hmax : maxPduSize = 253 := rfl
  obtain ⟨slave, rest, l, hbytes, hl, -, hrx⟩ := mbRtuRx_begins h transaction tmo
  rw [hbytes] at hl hlength
  rw [List.length_cons] at hlength
  have hremaining := l.remaining_le
  obtain ⟨taken, rx, l₁, hmessage, hholds, hle, hl₁, hscript, -⟩ :=
    @mbRtuRxMessage_returns slave rest [] l _ transaction.data _
      (Line.Hearing.invariant (slave :: rest) port) (by omega) hl
      (RxBuffer.holds_nil transaction.data) (Nat.zero_le _) (2 * l.script.length + 2) (by omega)
  have hremaining' := l₁.remaining_le
  have hcount := hholds.count
  obtain ⟨error, rx', l₂, hend⟩ :=
    @mbRtuRxEnd_returns _ _ _ _ rx (by simp; omega) hl₁ (by omega)
      (by simp only [List.length_cons]; omega) (2 * l.script.length + 2) (by omega)
      (messageError transaction.unit slave rx)
  refine ⟨2 * l.script.length + 2, rxEnded rtuLine slave transaction rtu error rx' l₂, ?_⟩
  rw [hrx rtu (.inl rfl), mbRtuRxFrame_eq, hmessage]
  dsimp only
  rw [hend]

/-- What holds after a burst was received. A frame is accepted only if all of it was taken. -/
structure RxEnds (burst : Burst) (port : Port) (transaction : Txn) (rtu : MbRtu Line)
    (result : Int) (transaction' : Txn) (rtu' : MbRtu Line)
    : Prop where
  port : rtu'.line.port = port
  slaveRx : rtu'.slaveRx = rtu.slaveRx
  data_only : transaction' = { transaction with data := transaction'.data }
  broadcast : rtu'.broadcast = true ↔ burst.bytes.head? = some 0
  idle : burst.bytes.length ≤ maxPduSize + 1 ∨ 0 < result → rtu'.line.Idle
  slave : 0 < result →
    burst.bytes.head? = some transaction.unit ∨ burst.bytes.head? = some 0
  crc : 0 < result → crcOf burst.bytes 0xFFFF = 0

theorem mbRtuRx_ends {rounds : Nat} {result : Int} {transaction' : Txn} {rtu' : MbRtu Line}
    (hsome : mbRtuRx rtuLine rounds transaction tmo rtu = some (result, transaction', rtu'))
    : RxEnds burst port transaction rtu result transaction' rtu' := by
  have hmax : maxPduSize = 253 := rfl
  have hlt := burst.length_bytes
  obtain ⟨slave, rest, l, hbytes, hl, -, hrx⟩ := mbRtuRx_begins h transaction tmo
  rw [hbytes] at hl hlt
  rw [List.length_cons] at hlt
  rw [hrx rtu (.inl rfl)] at hsome
  obtain ⟨rx, rx', error, l₁, l₂, hmessage, hend, hended⟩ := mbRtuRxFrame_cases hsome
  obtain ⟨taken, hholds, hle, hl₁, -⟩ :=
    mbRtuRxMessage_keeps (Line.Hearing.invariant (slave :: rest) port) (by omega) hl
      (RxBuffer.holds_nil transaction.data) (Nat.zero_le _) hmessage
  have hcount := hholds.count
  obtain ⟨got, hl₂, hnil, hcases, hdrained⟩ :=
    mbRtuRxEnd_keeps (by rw [List.length_cons]; omega) hl₁ (by omega) hend
  have hrtu := rxEnded_rtu rtuLine transaction slave rtu error rx' l₂
  rw [← hended] at hrtu
  dsimp only at hrtu
  have hidle' (hfifo : l₂.fifo = []) : rtu'.line.Idle := by
    rw [hrtu]
    exact Line.idle_eventClr hnil hfifo
  have hport : rtu'.line.port = port := by
    rw [hrtu]
    exact hl₂.port_eventClr
  have hbroadcast : rtu'.broadcast = true ↔ burst.bytes.head? = some 0 := by
    rw [hrtu, hbytes]
    simp
  have hsmall (hlength : burst.bytes.length ≤ maxPduSize + 1) : l₂.fifo = [] := by
    rw [hbytes, List.length_cons] at hlength
    apply hdrained
    rw [List.length_cons, List.length_cons]
    omega
  have htransaction : transaction' = { transaction with data := transaction'.data } := by
    rw [show transaction' = _ from congrArg (fun r => r.2.1) hended]
    cases error <;> rfl
  cases error with
  | some error =>
    -- The errors are negative.
    have hneg : result < 0 := by
      rw [show result = error from congrArg Prod.fst hended]
      obtain hnok | ⟨herror, -⟩ := hcases
      . cases hnok
        decide
      . obtain rfl | rfl := messageError_of_some herror.symm <;> decide
    refine ⟨hport, by rw [hrtu], htransaction, hbroadcast, ?_, by omega, by omega⟩
    rintro (hlength | hpos)
    . exact hidle' (hsmall hlength)
    . omega
  | none =>
    obtain hnok | ⟨hnone, -, rfl, hfifo⟩ := hcases
    . contradiction
    . obtain ⟨hslave, hcrc⟩ := messageError_of_none hnone.symm
      have htaken := hl₂.bytes
      simp only [Line.pending, hnil, hfifo, arrivals, List.flatMap_nil, List.append_nil,
        List.cons.injEq, true_and] at htaken
      rw [htaken] at hholds hle
      refine ⟨hport, by rw [hrtu], htransaction, hbroadcast, fun _ => hidle' hfifo, fun _ => ?_,
        fun _ => ?_⟩
      . rw [hbytes]
        simp only [List.head?_cons, Option.some.injEq]
        tauto
      . rw [hbytes, ← mbCrc_frame hle hholds]
        exact hcrc

/-- If all of the burst has happened when the task wakes up then it makes one read in each loop. -/
theorem mbRtuRx_arrived (harrived : rtu.line.tick.script = []) {rounds : Nat} {result : Int}
    {transaction' : Txn} {rtu' : MbRtu Line}
    (hsome : mbRtuRx rtuLine rounds transaction tmo rtu = some (result, transaction', rtu'))
    : burst.bytes.length ≤ maxPduSize + 1 + rtu'.line.fifo.length := by
  have hmax : maxPduSize = 253 := rfl
  have hlt := burst.length_bytes
  obtain ⟨slave, rest, l, hbytes, hl, hscript, hrx⟩ := mbRtuRx_begins h transaction tmo
  rw [harrived] at hscript
  have hnil : l.script = [] := List.length_eq_zero_iff.mp (by simpa using hscript)
  rw [hbytes] at hl hlt
  rw [List.length_cons] at hlt
  rw [hrx rtu (.inl rfl)] at hsome
  obtain ⟨rx, rx', error, l₁, l₂, hmessage, hend, hended⟩ := mbRtuRxFrame_cases hsome
  cases rounds with
  | zero => simp [mbRtuRxMessage] at hmessage
  | succ rounds =>
    obtain ⟨t1p5, taken, rx₁, l₁', hround, hl₁, hholds, hle, hscript₁, -, ht1p5, -⟩ :=
      mbRtuRxMessage_round (Line.Hearing.invariant (slave :: rest) port) (by omega) hl
        (RxBuffer.holds_nil transaction.data) (Nat.zero_le _) rounds
    rw [hround, ht1p5 hnil] at hmessage
    cases hmessage
    have hnil₁ : l₁.script = [] := List.length_eq_zero_iff.mp (by simpa [hnil] using hscript₁)
    have hcount := hholds.count
    obtain ⟨t3p5, error', got, rx₂, l₂', hround, hl₂, -, -, hgot, ht3p5, hscript₂, -⟩ :=
      @mbRtuRxEnd_round _ _ _ _ rx (by rw [List.length_cons]; omega) hl₁ (by omega) rounds
        (messageError transaction.unit slave rx)
    rw [hround, ht3p5 hnil₁] at hend
    cases hend
    have hnil₂ := hscript₂ (ht3p5 hnil₁)
    obtain ⟨-, hfifo, -⟩ := l₂.later_tick.expired (.inr hnil₂)
    have hfifo' : rtu'.line.fifo = l₂.fifo := by
      have hrtu := rxEnded_rtu rtuLine transaction slave rtu error rx' l₂
      rw [← hended] at hrtu
      dsimp only at hrtu
      rw [hrtu, ← hfifo]
      rfl
    have hlength := congrArg List.length hl₂.bytes
    simp only [List.length_append, Line.pending, hnil₂, arrivals, List.flatMap_nil,
      List.length_nil] at hlength
    rw [hbytes, hfifo']
    simp only [List.length_cons] at hgot hlength ⊢
    omega

end Rx

/-- A T3P5 that was left over does not matter, nor does the flag of an earlier broadcast. -/
theorem mbRtuRx_hear_eq {rtu rtu' : MbRtu Line} (hidle : rtu.line.Idle) (hidle' : rtu'.line.Idle)
    (hport : rtu'.line.port = rtu.line.port) (hslaveRx : rtu'.slaveRx = rtu.slaveRx)
    (burst : Burst) (schedule : Nat → Nat) (rounds : Nat) (transaction : Txn) (tmo : UInt32)
    : mbRtuRx rtuLine rounds transaction tmo (rtu'.hear burst schedule)
        =
      mbRtuRx rtuLine rounds transaction tmo (rtu.hear burst schedule) := by
  have hbegins : (rtu.hear burst schedule).line.Begins burst rtu.line.port
      (rtu.line.hear burst schedule).forget := hidle.begins burst schedule
  have hbegins' : (rtu'.hear burst schedule).line.Begins burst rtu'.line.port
      (rtu'.line.hear burst schedule).forget := hidle'.begins burst schedule
  obtain ⟨slave, rest, l, hbytes, -, -, hrx⟩ := mbRtuRx_begins hbegins transaction tmo
  obtain ⟨slave', rest', l', hbytes', -, -, hrx'⟩ := mbRtuRx_begins hbegins' transaction tmo
  rw [hbytes, List.cons.injEq] at hbytes'
  obtain ⟨rfl, rfl⟩ := hbytes'
  -- Both lines go on like the one on which nothing was left over.
  have hforget := hrx { rtu with line := (rtu.line.hear burst schedule).forget } (.inr rfl) rounds
  have hforget' := hrx' { rtu with line := (rtu.line.hear burst schedule).forget }
    (.inr (hidle.forget_hear hidle' hport burst schedule).symm) rounds
  have hcongr : mbRtuRxFrame rtuLine rounds transaction slave (rtu'.hear burst schedule) l'
      = mbRtuRxFrame rtuLine rounds transaction slave
        { rtu with line := (rtu.line.hear burst schedule).forget } l' := by
    apply mbRtuRxFrame_congr
    exact hslaveRx
  rw [hrx _ (.inl rfl), hrx' _ (.inl rfl)]
  rw [hcongr, ← hforget', hforget]
  apply mbRtuRxFrame_congr
  rfl

/--
The task that receives the bytes in one `mb_rtu_rx` takes all of them from the FIFO. A valid frame
that follows is received by the next one as if they had not been there.
-/
def LeavesNothing (bytes : List UInt8) : Prop :=
  ∀ (burst : Burst) (rtu : MbRtu Line) (schedule : Nat → Nat) (transaction : Txn) (tmo : UInt32),
    burst.bytes = bytes →
    rtu.line.Idle →
      ∃ (rounds : Nat) (result : Int) (transaction' : Txn) (rtu' : MbRtu Line),
        mbRtuRx rtuLine rounds transaction tmo (rtu.hear burst schedule)
          =
        some (result, transaction', rtu')
          ∧
        rtu'.line.fifo = []
          ∧
        ∀ (frame : Burst) (pdu : List UInt8) (schedule : Nat → Nat) (transaction : Txn)
          (tmo : UInt32) (rounds : Nat),
          pdu.length ≤ maxPduSize →
          frame.bytes = transaction.unit :: rtuTail transaction.unit pdu →
            mbRtuRx rtuLine rounds transaction tmo (rtu'.hear frame schedule)
              =
            mbRtuRx rtuLine rounds transaction tmo (rtu.hear frame schedule)

theorem leavesNothing_of_le {bytes : List UInt8} (h : bytes.length ≤ maxPduSize + 1)
    : LeavesNothing bytes := by
  intro burst rtu schedule transaction tmo hbytes hidle
  rw [← hbytes] at h
  have hbegins : (rtu.hear burst schedule).line.Begins burst rtu.line.port
      (rtu.line.hear burst schedule).forget := hidle.begins burst schedule
  obtain ⟨rounds, ⟨result, transaction', rtu'⟩, hrx⟩ := mbRtuRx_returns hbegins transaction tmo h
  have hends := mbRtuRx_ends hbegins transaction tmo hrx
  have hidle' := hends.idle (.inl h)
  refine ⟨rounds, result, transaction', rtu', hrx, hidle'.fifo, ?_⟩
  intro frame pdu schedule transaction tmo rounds _ _
  exact mbRtuRx_hear_eq hidle hidle' hends.port hends.slaveRx frame schedule rounds transaction tmo

def MbRtu.idle : MbRtu Line :=
  {
    broadcast := false
    slaveRx := 0
    line :=
      {
        fifo := []
        written := []
        flags := {}
        script := []
        schedule := fun _ => 0
        writePiece := fun _ => 16
        calls := 0
      }
  }

def Burst.single (bytes : List UInt8) (hne : bytes ≠ []) (hlt : bytes.length < 2 ^ 63) : Burst where
  first := bytes
  first_ne := hne
  script := [.t1p5, .t3p5]
  script_burst := .expires
  length_lt := by simpa [arrivals] using hlt

theorem not_leavesNothing_of_lt {bytes : List UInt8} (h : maxPduSize + 1 < bytes.length)
    (hlt : bytes.length < 2 ^ 63)
    : ¬LeavesNothing bytes := by
  intro hleaves
  have hne : bytes ≠ [] := by
    rintro rfl
    simp at h
  have hbytes : (Burst.single bytes hne hlt).bytes = bytes := by
    simp [Burst.bytes, Burst.single, arrivals]
  have hidle : MbRtu.idle.line.Idle := ⟨rfl, rfl, rfl, rfl⟩
  obtain ⟨rounds, result, transaction', rtu', hrx, hfifo, -⟩ :=
    hleaves (.single bytes hne hlt) .idle (fun _ => 5) ⟨0, 0, 1, fun _ => 0⟩ 0 hbytes hidle
  have hbegins := hidle.begins (.single bytes hne hlt) (fun _ => 5)
  have hle := mbRtuRx_arrived hbegins _ _ rfl hrx
  rw [hbytes, hfifo, List.length_nil] at hle
  omega

/--
Nothing is left behind by the bursts of up to 254 bytes. Of every longer one something is left, if
the task is late.
-/
theorem mbRtuRx_leavesNothing_iff (burst : Burst)
    : LeavesNothing burst.bytes ↔ burst.bytes.length ≤ maxPduSize + 1 := by
  constructor
  . intro h
    by_contra hlt
    exact not_leavesNothing_of_lt (by omega) burst.length_bytes h
  . exact leavesNothing_of_le

theorem not_leavesNothing_long : ¬LeavesNothing (List.replicate 255 0x55) := by
  apply not_leavesNothing_of_lt
  . rw [List.length_replicate]
    decide
  . rw [List.length_replicate]
    decide

end Modbus
