import Modbus.Rtu.Line

/-!
This module contains what the receiving task makes of a frame that arrives on the line: each read
takes bytes from the front of what it has not got yet, and when T1P5 has expired it has got all of
them.
-/

namespace Modbus

structure Line.Reads (frame got bs : List UInt8) (size : Nat) (l l' : Line) : Prop where
  length_le : bs.length ≤ size
  receiving : l'.Receiving frame (got ++ bs) 0
  script : l'.script.length ≤ l.script.length
  nonempty : l.fifo ≠ [] → 1 ≤ size → bs ≠ []
  -- If the rest of the frame fits then RX_AVAIL stays clear until more bytes arrive.
  progress : frame.length ≤ got.length + size → l'.flags.rxAvail = true →
    l'.script.length < l.script.length
  drained : frame.length ≤ got.length + size → Expired l.script →
    Expired l'.script ∧ l'.fifo = [] ∧ l'.flags.rxAvail = false

def Line.cleared (l : Line) : Line :=
  { l.tick with flags := l.tick.flags.clr { rxAvail := true } }

def Line.restored (l : Line) : Line :=
  { l.tick with flags := l.tick.flags.set { rxAvail := true } }

def Line.taken (n : Nat) (l : Line) : Line :=
  { l.tick with fifo := l.tick.fifo.drop n }

theorem rtuLine_eventClr (l : Line) : rtuLine.eventClr { rxAvail := true } l = l.cleared := by
  rfl

theorem rtuLine_eventSet (l : Line) : rtuLine.eventSet { rxAvail := true } l = l.restored := by
  rfl

theorem rtuLine_rxAvail (l : Line) : rtuLine.rxAvail l = ((l.tick.fifo.length : Int), l.tick) := by
  rfl

theorem Line.length_fifo_tick (l : Line) : l.fifo.length ≤ l.tick.fifo.length := by
  obtain ⟨bs, hfifo⟩ := l.later_tick.fifo
  rw [hfifo, List.length_append]
  omega

theorem rtuLine_read {l : Line} {n : Nat} (hn : n ≤ l.fifo.length)
    : rtuLine.read n l = (some (l.tick.fifo.take n), l.taken n) := by
  have hle := l.length_fifo_tick
  change Line.read n l = _
  unfold Line.read
  dsimp only
  rw [if_neg]
  . rfl
  . rintro ⟨hpos, hnil⟩
    rw [hnil, List.length_nil] at hle
    omega

theorem Line.elapses_read (n : Nat) (l : Line) : l.Elapses (rtuLine.read n l).2 := by
  have helapses := l.elapses_tick
  change l.Elapses (Line.read n l).2
  unfold Line.read
  dsimp only
  split
  . exact helapses
  . exact ⟨helapses.schedule, helapses.calls, helapses.script⟩

theorem Line.elapses_cleared (l : Line) : l.Elapses l.cleared := by
  have helapses := l.elapses_tick
  exact ⟨helapses.schedule, helapses.calls, helapses.script⟩

theorem Line.elapses_restored (l : Line) : l.Elapses l.restored := by
  have helapses := l.elapses_tick
  exact ⟨helapses.schedule, helapses.calls, helapses.script⟩

theorem mbRtuRead_elapses (buffer : Mem) (p : Int) (size : Nat) (l : Line)
    : l.Elapses (mbRtuRead rtuLine buffer p size l).2.2 := by
  have havail := l.elapses_cleared.trans l.cleared.elapses_tick
  unfold mbRtuRead
  simp only [rtuLine_eventClr, rtuLine_eventSet, rtuLine_rxAvail]
  split
  . apply Line.Elapses.trans _ (Line.elapses_read _ _)
    exact havail.trans (Line.elapses_restored _)
  . exact havail.trans (Line.elapses_read _ _)

/-- The task has taken the bytes from the front of what is in the FIFO or to arrive. -/
structure Line.Takes (bs : List UInt8) (size : Nat) (l l' : Line) : Prop where
  length_le : bs.length ≤ size
  keeps : ∀ {bytes : List UInt8} {I : List UInt8 → Nat → Line → Prop}, Line.Invariant bytes I →
    ∀ {got : List UInt8} {k : Nat}, I got k l → I (got ++ bs) 0 l'
  script : l'.script.length ≤ l.script.length
  nonempty : l.fifo ≠ [] → 1 ≤ size → bs ≠ []
  full : size ≤ l.fifo.length → bs.length = size
  -- If all of it fits then RX_AVAIL stays clear until more bytes arrive.
  progress : l.pending.length ≤ size → l'.flags.rxAvail = true →
    l'.script.length < l.script.length
  drained : l.pending.length ≤ size → Expired l.script →
    Expired l'.script ∧ l'.fifo = [] ∧ l'.flags.rxAvail = false

namespace Line.Invariant

variable {bytes : List UInt8} {I : List UInt8 → Nat → Line → Prop} (hI : Line.Invariant bytes I)
  {got : List UInt8} {k : Nat} {l : Line} (h : I got k l)

include hI h

theorem cleared : I got l.cleared.fifo.length l.cleared := by
  exact hI.clear (hI.tick h)

theorem restored : I got 0 l.restored := by
  exact hI.restore (hI.tick h)

theorem taken {n : Nat} (hk : k ≤ n) : I (got ++ l.tick.fifo.take n) 0 (l.taken n) := by
  exact hI.take (hI.tick h) hk

end Line.Invariant

theorem Line.length_fifo_cleared_tick (l : Line)
    : l.cleared.tick.fifo.length ≤ l.pending.length := by
  have hpending : l.cleared.tick.pending = l.pending := by
    rw [Line.pending_tick]
    exact l.pending_tick
  rw [← hpending, Line.pending, List.length_append]
  omega

section Read

variable {l : Line} (hpending : l.pending.length < 2 ^ 64)

include hpending

theorem mbRtuRead_full {size : Nat} (hfull : l.cleared.tick.fifo.length > size)
    : ∃ (bs : List UInt8) (l' : Line),
        (∀ (buffer : Mem) (p : Int),
          mbRtuRead rtuLine buffer p size l = (bs.length, buffer.copyAt p bs, l'))
          ∧
        l.Takes bs size l' := by
  have hlen := l.length_fifo_cleared_tick
  have hsize : size ≤ l.cleared.tick.restored.fifo.length := by
    have hle := l.cleared.tick.length_fifo_tick
    change size ≤ l.cleared.tick.tick.fifo.length
    omega
  have hsize' := l.cleared.tick.restored.length_fifo_tick
  have hlength : (l.cleared.tick.restored.tick.fifo.take size).length = size := by
    rw [List.length_take]
    omega
  refine ⟨l.cleared.tick.restored.tick.fifo.take size, l.cleared.tick.restored.taken size, ?_, ?_⟩
  . intro buffer p
    unfold mbRtuRead
    simp only [rtuLine_eventClr, rtuLine_eventSet, rtuLine_rxAvail]
    rw [sizeT_natCast (by omega)]
    simp only [hfull, ↓reduceIte]
    rw [rtuLine_read hsize]
    simp only [hlength, Option.getD_some]
    rw [sizeT_natCast (by omega)]
  . have h1 := l.later_tick.script
    have h2 : l.cleared.tick.script.length ≤ l.tick.script.length := l.cleared.later_tick.script
    have h3 := l.cleared.tick.later_tick.script
    have h4 : (l.cleared.tick.restored.taken size).script.length ≤
        l.cleared.tick.tick.script.length := l.cleared.tick.restored.later_tick.script
    refine ⟨by omega, ?_, by omega, ?_, fun _ => hlength, by omega, by omega⟩
    . intro bytes I hI got k h
      apply hI.taken _ (Nat.zero_le size)
      apply hI.restored
      exact hI.tick (hI.cleared h)
    . intro _ hpos hnil
      rw [hnil, List.length_nil] at hlength
      omega

theorem mbRtuRead_fits {size : Nat} (hfits : l.cleared.tick.fifo.length ≤ size)
    : ∃ (bs : List UInt8) (l' : Line),
        (∀ (buffer : Mem) (p : Int),
          mbRtuRead rtuLine buffer p size l = (bs.length, buffer.copyAt p bs, l'))
          ∧
        l.Takes bs size l' := by
  have hlen := l.length_fifo_cleared_tick
  obtain ⟨more, hmore⟩ := l.cleared.tick.later_tick.fifo
  have htake : l.cleared.tick.tick.fifo.take l.cleared.tick.fifo.length = l.cleared.tick.fifo := by
    rw [hmore, List.take_left]
  refine ⟨l.cleared.tick.fifo, l.cleared.tick.taken l.cleared.tick.fifo.length, ?_, ?_⟩
  . intro buffer p
    unfold mbRtuRead
    simp only [rtuLine_eventClr, rtuLine_rxAvail]
    rw [sizeT_natCast (by omega)]
    simp only [Nat.not_lt.mpr hfits, ↓reduceIte]
    rw [rtuLine_read (Nat.le_refl _), htake]
    simp only [Option.getD_some]
    rw [sizeT_natCast (by omega)]
  . have h1 := l.later_tick.script
    have h2 : l.cleared.tick.script.length ≤ l.tick.script.length := l.cleared.later_tick.script
    have h3 : (l.cleared.tick.taken l.cleared.tick.fifo.length).script.length ≤
        l.cleared.tick.script.length := l.cleared.tick.later_tick.script
    have hlater := l.cleared.later_tick.trans l.cleared.tick.later_tick
    have hclear : l.cleared.flags.rxAvail = false := by
      simp [Line.cleared, Flags.clr]
    have hle := l.length_fifo_tick
    have hle' : l.tick.fifo.length ≤ l.cleared.tick.fifo.length := l.cleared.length_fifo_tick
    refine ⟨hfits, ?_, by omega, ?_, by omega, ?_, ?_⟩
    . intro bytes I hI got k h
      have htaken := hI.taken (hI.tick (hI.cleared h)) l.cleared.length_fifo_tick
      rw [htake] at htaken
      exact htaken
    . intro hne _ hnil
      have hpos := List.length_pos_iff.mpr hne
      rw [hnil, List.length_nil] at hle'
      omega
    . intro _ hrx
      have hprogress := hlater.progress hclear hrx
      change (l.cleared.tick.tick).script.length < l.script.length
      change (l.cleared.tick.tick).script.length < l.tick.script.length at hprogress
      omega
    . intro _ hexpired
      obtain ⟨hexpired', -, -⟩ := l.later_tick.expired hexpired
      obtain ⟨-, hfifo, -⟩ := l.cleared.later_tick.expired hexpired'
      obtain ⟨hexpired'', hfifo', hrx⟩ := hlater.expired hexpired'
      refine ⟨hexpired'', ?_, ?_⟩
      . change l.cleared.tick.tick.fifo.drop l.cleared.tick.fifo.length = []
        rw [hfifo', hfifo, List.drop_length]
      . change l.cleared.tick.tick.flags.rxAvail = false
        rw [hrx]
        exact hclear

theorem mbRtuRead_takes (size : Nat)
    : ∃ (bs : List UInt8) (l' : Line),
        (∀ (buffer : Mem) (p : Int),
          mbRtuRead rtuLine buffer p size l = (bs.length, buffer.copyAt p bs, l'))
          ∧
        l.Takes bs size l' := by
  by_cases hfull : l.cleared.tick.fifo.length > size
  . exact mbRtuRead_full hpending hfull
  . exact mbRtuRead_fits hpending (by omega)

end Read

theorem mbRtuRead_line {frame got : List UInt8} (hframe : frame.length < 2 ^ 64) {k : Nat}
    {l : Line} (h : l.Receiving frame got k) (buffer : Mem) (p : Int) (size : Nat)
    : ∃ (bs : List UInt8) (l' : Line),
        mbRtuRead rtuLine buffer p size l = (bs.length, buffer.copyAt p bs, l')
          ∧
        l.Reads frame got bs size l' := by
  have hbytes := congrArg List.length ((Line.Receiving.invariant frame).bytes h)
  rw [List.length_append] at hbytes
  obtain ⟨bs, l', hread, htakes⟩ := @mbRtuRead_takes l (by omega) size
  refine ⟨bs, l', hread buffer p, htakes.length_le, ?_, htakes.script, htakes.nonempty, ?_, ?_⟩
  . exact htakes.keeps (Line.Receiving.invariant frame) h
  . intro hle
    exact htakes.progress (by omega)
  . intro hle
    exact htakes.drained (by omega)

structure RxBuffer.Holds (data : Mem) (taken : List UInt8) (rx : RxBuffer) : Prop where
  p : rx.p = taken.length
  count : rx.count = taken.length
  data : rx.data = data.copy 0 taken

theorem RxBuffer.holds_nil (data : Mem) : RxBuffer.Holds data [] { p := 0, count := 0, data } := by
  refine ⟨rfl, rfl, ?_⟩
  rw [Mem.copy_nil]

def Line.remaining (l : Line) : Nat :=
  2 * l.script.length + if l.flags.rxAvail then 1 else 0

theorem Line.remaining_le (l : Line) : l.remaining ≤ 2 * l.script.length + 1 := by
  unfold Line.remaining
  split <;> omega

theorem Line.Takes.remaining_lt {bs : List UInt8} {size : Nat} {l l₁ l' : Line}
    (h : l₁.Takes bs size l') (hlater : l.Later l₁) (hrx : l₁.flags.rxAvail = true)
    (hfits : l₁.pending.length ≤ size)
    : l'.remaining < l.remaining := by
  have hscript := hlater.script
  have hscript' := h.script
  have hend := h.progress hfits
  unfold Line.remaining
  -- RX_AVAIL was set at the start, or an event that sets it has happened.
  cases hl : l.flags.rxAvail with
  | false =>
    have := hlater.progress hl hrx
    split <;> omega
  | true =>
    simp only [↓reduceIte]
    split
    . next hrx' =>
      have := hend hrx'
      omega
    . omega

section Message

variable {slave : UInt8} {rest taken : List UInt8} {l : Line} {rx : RxBuffer} {data : Mem}

theorem RxBuffer.Holds.append (h : rx.Holds data taken) (bs : List UInt8)
    (hle : (taken ++ bs).length ≤ maxPduSize)
    : RxBuffer.Holds data (taken ++ bs)
        {
          p := ptrAdd rx.p bs.length
          count := sizeT ((rx.count : Int) + bs.length)
          data := rx.data.copyAt rx.p bs
        } := by
  have hmax : maxPduSize = 253 := rfl
  rw [List.length_append] at hle
  constructor
  . dsimp only
    rw [ptrAdd, if_pos (by omega), h.p, List.length_append, Int.natCast_add]
  . dsimp only
    rw [h.count, List.length_append, ← Int.natCast_add]
    rw [sizeT_natCast (by omega)]
  . dsimp only
    rw [h.p, h.data, Mem.copyAt_natCast, Mem.copy_append, Nat.zero_add]

section Invariant

variable {I : List UInt8 → Nat → Line → Prop} (hI : Line.Invariant (slave :: rest) I)

include hI

theorem Line.Invariant.length_pending (h : I (slave :: taken) 0 l)
    : taken.length + l.pending.length = rest.length := by
  have hbytes := congrArg List.length (hI.bytes h)
  simp only [List.cons_append, List.length_cons, List.length_append] at hbytes
  omega

/--
The last round finds that T1P5 has expired. If nothing more was to arrive then the task has got all
of it, or as much as fits into the buffer.
-/
def LastRound (I : List UInt8 → Nat → Line → Prop) (rest taken' : List UInt8) (l' : Line) : Prop :=
  ∃ (got : List UInt8) (l : Line),
    I got 0 l
      ∧
    l.flags.t1p5 = true
      ∧
    l'.script.length ≤ l.script.length
      ∧
    (Expired l.script → taken'.length = maxPduSize ∨ l'.fifo = [])
      ∧
    (Expired l.script → rest.length ≤ maxPduSize →
      Expired l'.script ∧ l'.fifo = [] ∧ l'.flags.rxAvail = false)

theorem mbRtuRxMessage_round (hrest : rest.length < 2 ^ 63) (h : I (slave :: taken) 0 l)
    (hrx : rx.Holds data taken) (hle : taken.length ≤ maxPduSize) (rounds : Nat)
    : ∃ (t1p5 : Bool) (taken' : List UInt8) (rx' : RxBuffer) (l' : Line),
        mbRtuRxMessage rtuLine (rounds + 1) rx l
          =
        (if t1p5 then some (rx', l') else mbRtuRxMessage rtuLine rounds rx' l')
          ∧
        I (slave :: taken') 0 l'
          ∧
        rx'.Holds data taken'
          ∧
        taken'.length ≤ maxPduSize
          ∧
        l'.script.length ≤ l.script.length
          ∧
        l.Elapses l'
          ∧
        (l.script = [] → t1p5 = true)
          ∧
        (t1p5 = true → LastRound I rest taken' l')
          ∧
        (rest.length ≤ maxPduSize → t1p5 = false → l'.remaining < l.remaining) := by
  have hmax : maxPduSize = 253 := rfl
  obtain ⟨l₁, hwait, hany, h₁, hlater⟩ :=
    hI.eventWait h { t1p5 := true, rxAvail := true } (.inl rfl) none
  have helapses := Line.elapses_eventWait hwait
  rw [mbRtuRxMessage, hwait]
  simp only [Option.getD_some, Flags.and, Bool.and_true]
  simp only [Flags.any, Flags.and, Bool.and_true, Bool.and_false, Bool.false_or,
    Bool.or_false] at hany
  cases hrxAvail : l₁.flags.rxAvail with
  | false =>
    have ht1p5 : l₁.flags.t1p5 = true := by simpa [hrxAvail] using hany
    refine ⟨true, taken, rx, l₁, ?_, h₁, hrx, hle, hlater.script, helapses, fun _ => rfl, ?_,
      by simp⟩
    . simp [ht1p5]
    . intro _
      have hfifo := hI.fifo_of_expired h₁ hrxAvail
      exact ⟨slave :: taken, l₁, h₁, ht1p5, Nat.le_refl _, fun hexpired => .inr (hfifo hexpired),
        fun hexpired _ => ⟨hexpired, hfifo hexpired, hrxAvail⟩⟩
  | true =>
    have hsize : sizeT ((maxPduSize : Int) - rx.count) = maxPduSize - taken.length := by
      rw [hrx.count, ← Int.natCast_sub hle]
      rw [sizeT_natCast (by omega)]
    have hlength := hI.length_pending h₁
    obtain ⟨bs, l', hread, htakes⟩ := @mbRtuRead_takes l₁ (by omega)
      (maxPduSize - taken.length)
    have hlen := htakes.length_le
    have hle' : (taken ++ bs).length ≤ maxPduSize := by
      rw [List.length_append]
      omega
    have hscript := hlater.script
    have hscript' := htakes.script
    have helapses' := mbRtuRead_elapses rx.data rx.p (maxPduSize - taken.length) l₁
    rw [hread] at helapses'
    refine ⟨l₁.flags.t1p5, taken ++ bs, _, l', ?_, htakes.keeps hI h₁, hrx.append bs hle', hle',
      by omega, helapses.trans helapses', ?_, ?_, ?_⟩
    . simp only [hsize, hread, ↓reduceIte]
    . intro hnil
      have hnil₁ := List.length_eq_zero_iff.mp (by simpa [hnil] using hscript)
      exact (hI.expired h₁ hnil₁).1
    . intro ht1p5
      refine ⟨slave :: taken, l₁, h₁, ht1p5, hscript', ?_, ?_⟩
      . intro hexpired
        by_cases hfits : l₁.pending.length ≤ maxPduSize - taken.length
        . exact .inr (htakes.drained hfits hexpired).2.1
        . -- Everything has arrived, and it is more than fits.
          left
          rw [l₁.pending_of_expired hexpired] at hfits
          rw [List.length_append, htakes.full (by omega)]
          omega
      . intro hexpired hfits
        exact htakes.drained (by omega) hexpired
    . intro hfits _
      exact htakes.remaining_lt hlater hrxAvail (by omega)

theorem mbRtuRxMessage_returns (hfits : rest.length ≤ maxPduSize) (h : I (slave :: taken) 0 l)
    (hrx : rx.Holds data taken) (hle : taken.length ≤ maxPduSize) {rounds : Nat}
    (hrounds : l.remaining < rounds)
    : ∃ (taken' : List UInt8) (rx' : RxBuffer) (l' : Line),
        mbRtuRxMessage rtuLine rounds rx l = some (rx', l')
          ∧
        rx'.Holds data taken'
          ∧
        taken'.length ≤ maxPduSize
          ∧
        I (slave :: taken') 0 l'
          ∧
        l'.script.length ≤ l.script.length
          ∧
        LastRound I rest taken' l' := by
  have hmax : maxPduSize = 253 := rfl
  induction rounds generalizing taken rx l with
  | zero => omega
  | succ rounds ih =>
    obtain ⟨t1p5, taken', rx', l', hround, h', hrx', hle', hscript, -, -, hlast, hstep⟩ :=
      mbRtuRxMessage_round hI (by omega) h hrx hle rounds
    rw [hround]
    cases t1p5 with
    | false =>
      have hremaining := hstep hfits rfl
      simp only [Bool.false_eq_true, ↓reduceIte]
      obtain ⟨taken'', rx'', l'', hrest, hrx'', hle'', h'', hscript', hlast⟩ :=
        ih h' hrx' hle' (by omega)
      exact ⟨taken'', rx'', l'', hrest, hrx'', hle'', h'', by omega, hlast⟩
    | true => exact ⟨taken', rx', l', rfl, hrx', hle', h', hscript, hlast rfl⟩

theorem mbRtuRxMessage_keeps (hrest : rest.length < 2 ^ 63) (h : I (slave :: taken) 0 l)
    (hrx : rx.Holds data taken) (hle : taken.length ≤ maxPduSize) {rounds : Nat}
    {rx' : RxBuffer} {l' : Line} (hsome : mbRtuRxMessage rtuLine rounds rx l = some (rx', l'))
    : ∃ (taken' : List UInt8),
        rx'.Holds data taken' ∧ taken'.length ≤ maxPduSize ∧ I (slave :: taken') 0 l' ∧
          LastRound I rest taken' l' := by
  induction rounds generalizing taken rx l with
  | zero => simp [mbRtuRxMessage] at hsome
  | succ rounds ih =>
    obtain ⟨t1p5, taken₁, rx₁, l₁, hround, h₁, hrx₁, hle₁, -, -, -, hlast, -⟩ :=
      mbRtuRxMessage_round hI hrest h hrx hle rounds
    rw [hround] at hsome
    cases t1p5 with
    | false => exact ih h₁ hrx₁ hle₁ hsome
    | true =>
      cases hsome
      exact ⟨taken₁, hrx₁, hle₁, h₁, hlast rfl⟩

end Invariant

theorem mbRtuRxMessage_fits (hfits : rest.length ≤ maxPduSize)
    (h : l.Receiving (slave :: rest) (slave :: taken) 0) (hrx : rx.Holds data taken)
    (hle : taken.length ≤ maxPduSize) {rounds : Nat} (hrounds : l.remaining < rounds)
    : ∃ (rx' : RxBuffer) (l' : Line),
        mbRtuRxMessage rtuLine rounds rx l = some (rx', l')
          ∧
        rx'.Holds data rest
          ∧
        l'.Receiving (slave :: rest) (slave :: rest) 0
          ∧
        Expired l'.script
          ∧
        l'.flags.rxAvail = false := by
  obtain ⟨taken', rx', l', hmessage, hrx', -, h', -, got, l₁, h₁, ht1p5, -, -, hlast⟩ :=
    mbRtuRxMessage_returns (Line.Receiving.invariant (slave :: rest)) hfits h hrx hle hrounds
  obtain ⟨hexpired, hfifo, hclear⟩ := hlast (h₁.t1p5.mp ht1p5) hfits
  have hbytes := h'.bytes_of_expired hexpired
  simp only [hfifo, List.append_nil, List.cons.injEq, true_and] at hbytes
  subst hbytes
  exact ⟨rx', l', hmessage, hrx', h', hexpired, hclear⟩

end Message

theorem mbRtuRxEnd_expired {frame got : List UInt8} {l : Line} (h : l.Receiving frame got 0)
    (hexpired : Expired l.script) (hclear : l.flags.rxAvail = false) (rounds : Nat)
    (error : Option Int) (rx : RxBuffer)
    : ∃ (l' : Line), mbRtuRxEnd rtuLine (rounds + 1) error rx l = some (error, rx, l') := by
  obtain ⟨l', hwait, hany, h', hlater⟩ :=
    (Line.Receiving.invariant frame).eventWait h { t3p5 := true, rxAvail := true } (.inr rfl) none
  obtain ⟨-, -, hrx⟩ := hlater.expired hexpired
  rw [hclear] at hrx
  have ht3p5 : l'.flags.t3p5 = true := by
    simpa [Flags.any, Flags.and, hrx] using hany
  refine ⟨l', ?_⟩
  rw [mbRtuRxEnd, hwait]
  simp [Flags.and, hrx, ht3p5]

theorem mbRtuRxEnd_cases {ω : Type} (os : RtuOs ω) {rounds : Nat} {error error' : Option Int}
    {rx rx' : RxBuffer} {w w' : ω}
    (h : mbRtuRxEnd os rounds error rx w = some (error', rx', w'))
    : rx'.count = rx.count ∧ (error' = error ∨ error' = some eFrameNok) := by
  induction rounds generalizing error rx w with
  | zero => simp [mbRtuRxEnd] at h
  | succ rounds ih =>
    rw [mbRtuRxEnd] at h
    cases hwait : os.eventWait { t3p5 := true, rxAvail := true } none w with
    | none => simp [hwait] at h
    | some r =>
      obtain ⟨flags, w₁⟩ := r
      simp only [hwait] at h
      split at h
      . split at h
        . cases h
          exact ⟨rfl, .inr rfl⟩
        . obtain ⟨hcount, herror⟩ := ih h
          exact ⟨hcount, .inr (by simpa using herror)⟩
      . split at h
        . cases h
          exact ⟨rfl, .inl rfl⟩
        . exact ih h

def messageError (unit slaveRx : UInt8) (rx : RxBuffer) : Option Int :=
  if slaveRx ≠ unit ∧ slaveRx ≠ 0 then
    some eSlaveId
  else if mbCrc rx.data (UInt8.ofNat rx.count) (mbCrc (fun _ => slaveRx) 1 0xFFFF) ≠ 0 then
    some eCrcFail
  else
    none

theorem messageError_of_some {unit slaveRx : UInt8} {rx : RxBuffer} {error : Int}
    (h : messageError unit slaveRx rx = some error)
    : error = eSlaveId ∨ error = eCrcFail := by
  unfold messageError at h
  split at h
  . exact .inl (Option.some.inj h).symm
  . split at h
    . exact .inr (Option.some.inj h).symm
    . contradiction

theorem messageError_of_none {unit slaveRx : UInt8} {rx : RxBuffer}
    (h : messageError unit slaveRx rx = none)
    : ¬(slaveRx ≠ unit ∧ slaveRx ≠ 0) ∧
        mbCrc rx.data (UInt8.ofNat rx.count) (mbCrc (fun _ => slaveRx) 1 0xFFFF) = 0 := by
  unfold messageError at h
  split at h
  . contradiction
  . next hslave =>
    split at h
    . contradiction
    . next hcrc => exact ⟨hslave, not_not.mp hcrc⟩

section Frame

variable {ω : Type} (os : RtuOs ω) (rounds : Nat) (transaction : Txn) (slaveRx : UInt8)
  (rtu : MbRtu ω)

def rxEnded (slaveRx : UInt8) (transaction : Txn) (rtu : MbRtu ω) (error : Option Int)
    (rx : RxBuffer) (line : ω)
    : Int × Txn × MbRtu ω :=
  let transaction := { transaction with data := rx.data }
  let line := os.eventClr { t1p5 := true, t3p5 := true, rxAvail := true } line
  let rtu := { rtu with broadcast := slaveRx == 0, line }
  match error with
  | some error => (error, transaction, rtu)
  | none => (toInt (sizeT ((rx.count : Int) - 2)), transaction, rtu)

theorem rxEnded_rtu (error : Option Int) (rx : RxBuffer) (line : ω)
    : (rxEnded os slaveRx transaction rtu error rx line).2.2
        =
      {
        rtu with
        broadcast := slaveRx == 0
        line := os.eventClr { t1p5 := true, t3p5 := true, rxAvail := true } line
      } := by
  cases error <;> rfl

theorem mbRtuRxFrame_eq (line : ω)
    : mbRtuRxFrame os rounds transaction slaveRx rtu line
        =
      match mbRtuRxMessage os rounds { p := 0, count := 0, data := transaction.data } line with
      | none => none
      | some (rx, line) =>
        match mbRtuRxEnd os rounds (messageError transaction.unit slaveRx rx) rx line with
        | none => none
        | some (error, rx, line) => some (rxEnded os slaveRx transaction rtu error rx line) := by
  rw [mbRtuRxFrame]
  cases mbRtuRxMessage os rounds { p := 0, count := 0, data := transaction.data } line with
  | none => rfl
  | some message =>
    obtain ⟨rx, line⟩ := message
    simp only [messageError]
    generalize mbRtuRxEnd os rounds _ rx line = frameEnd
    rcases frameEnd with _ | ⟨error, rx', line'⟩
    . rfl
    . cases error with
      | none => rfl
      | some error => rfl

variable {os rounds transaction slaveRx rtu}

theorem mbRtuRxFrame_cases {line : ω} {result : Int × Txn × MbRtu ω}
    (h : mbRtuRxFrame os rounds transaction slaveRx rtu line = some result)
    : ∃ (rx rx' : RxBuffer) (error : Option Int) (line₁ line₂ : ω),
        mbRtuRxMessage os rounds { p := 0, count := 0, data := transaction.data } line
          =
        some (rx, line₁)
          ∧
        mbRtuRxEnd os rounds (messageError transaction.unit slaveRx rx) rx line₁
          =
        some (error, rx', line₂)
          ∧
        result = rxEnded os slaveRx transaction rtu error rx' line₂ := by
  rw [mbRtuRxFrame_eq] at h
  split at h
  . contradiction
  . next rx line₁ hmessage =>
    split at h
    . contradiction
    . next error rx' line₂ hend =>
      cases h
      exact ⟨rx, rx', error, line₁, line₂, hmessage, hend, rfl⟩

/-- Of the state before, only the value of the variable that is not initialised is kept. -/
theorem mbRtuRxFrame_congr {rtu' : MbRtu ω} (h : rtu.slaveRx = rtu'.slaveRx) {line : ω}
    : mbRtuRxFrame os rounds transaction slaveRx rtu line
        =
      mbRtuRxFrame os rounds transaction slaveRx rtu' line := by
  rw [mbRtuRxFrame_eq, mbRtuRxFrame_eq]
  unfold rxEnded
  rw [h]

end Frame

end Modbus
