import Modbus.Rtu.Impl

/-!
This module contains a serial line and the task that receives from it. Bytes arrive in chunks, each
of which makes the driver call `mb_rx_hook`, and the timers expire once the last chunk has arrived.
A schedule decides how many of these events happen before each call of the receiving task, so that
it stands for every way in which the two can interleave.
-/

namespace Modbus

inductive LineEvent where
  | arrive (bs : List UInt8)
  -- The two steps of `mb_rx_hook`: it clears T1P5 and T3P5, and it sets RX_AVAIL.
  | clr
  | set
  -- The timers expire.
  | t1p5
  | t3p5

structure Line where
  fifo : List UInt8
  written : List UInt8
  flags : Flags
  -- What is still to happen.
  script : List LineEvent
  schedule : Nat → Nat
  writePiece : Nat → Nat
  calls : Nat

namespace Line

def occur (e : LineEvent) (l : Line) : Line :=
  match e with
  | .arrive bs => { l with fifo := l.fifo ++ bs }
  | .clr => { l with flags := l.flags.clr { t1p5 := true, t3p5 := true } }
  | .set => { l with flags := l.flags.set { rxAvail := true } }
  | .t1p5 => { l with flags := l.flags.set { t1p5 := true } }
  | .t3p5 => { l with flags := l.flags.set { t3p5 := true } }

def next (l : Line) : Line :=
  match l.script with
  | [] => l
  | e :: script => { l with script }.occur e

def happen : Nat → Line → Line
  | 0, l => l
  | n + 1, l => happen n l.next

def tick (l : Line) : Line :=
  { l.happen (l.schedule l.calls) with calls := l.calls + 1 }

def await (mask : Flags) (n : Nat) (l : Line) : Line :=
  match n with
  | 0 => l
  | n + 1 => if (l.flags.and mask).any then l else await mask n l.next

def eventWait (mask : Flags) (tmo : Option UInt32) (l : Line) : Option (Option Flags × Line) :=
  let l := l.tick.await mask l.tick.script.length
  if (l.flags.and mask).any then
    some (some (l.flags.and mask), l)
  else
    match tmo with
    | some _ => some (none, l)
    | none => none

def read (n : Nat) (l : Line) : Option (List UInt8) × Line :=
  let l := l.tick
  if n > 0 ∧ l.fifo = [] then
    (none, l)
  else
    (some (l.fifo.take n), { l with fifo := l.fifo.drop n })

def write (buffer : Mem) (p : Int) (size : Nat) (l : Line) : Int × Line :=
  let n := min size (max 1 (l.writePiece l.calls))
  let l := l.tick
  (n, { l with written := l.written ++ buffer.load p.toNat n })

end Line

def rtuLine : RtuOs Line where
  write := Line.write
  read := Line.read
  rxAvail l := (l.tick.fifo.length, l.tick)
  txDrain _ l := l.tick
  eventSet mask l := { l.tick with flags := l.tick.flags.set mask }
  eventClr mask l := { l.tick with flags := l.tick.flags.clr mask }
  eventWait := Line.eventWait
  txEnable := some (fun _ l => l.tick)
  tmrStart t1p5 l :=
    { l with script := l.script ++ (if t1p5 then [.t1p5] else []) ++ [.t3p5] }

/-! What every event preserves is preserved by whatever happens before and during a call. -/

section Preserved

variable {P : Line → Prop} (hnext : ∀ (l : Line), P l → P l.next)
  (hcalls : ∀ (l : Line) (calls : Nat), P l → P { l with calls }) {l : Line} (h : P l)

include hnext h

theorem Line.happen_preserves (n : Nat) : P (l.happen n) := by
  induction n generalizing l with
  | zero => exact h
  | succ n ih =>
    apply ih
    apply hnext
    exact h

theorem Line.await_preserves (mask : Flags) (n : Nat) : P (l.await mask n) := by
  induction n generalizing l with
  | zero => exact h
  | succ n ih =>
    rw [Line.await]
    split
    . exact h
    . apply ih
      apply hnext
      exact h

include hcalls

theorem Line.tick_preserves : P l.tick := by
  apply hcalls
  apply Line.happen_preserves
  . exact hnext
  . exact h

end Preserved

def arrivals (script : List LineEvent) : List UInt8 :=
  script.flatMap (fun e =>
    match e with
    | .arrive bs => bs
    | _ => [])

def Hooking (script : List LineEvent) : Prop :=
  script.head? = some .clr ∨ script.head? = some .set

def Expired (script : List LineEvent) : Prop :=
  script = [.t3p5] ∨ script = []

theorem not_expired_of_hooking {script : List LineEvent} (h : Hooking script)
    : ¬Expired script := by
  rintro (rfl | rfl) <;> simp [Hooking] at h

structure Line.Later (l l' : Line) : Prop where
  fifo : ∃ (bs : List UInt8), l'.fifo = l.fifo ++ bs
  script : l'.script.length ≤ l.script.length
  rxAvail : l.flags.rxAvail = true → l'.flags.rxAvail = true
  progress : l.flags.rxAvail = false → l'.flags.rxAvail = true →
    l'.script.length < l.script.length
  expired : Expired l.script →
    Expired l'.script ∧ l'.fifo = l.fifo ∧ l'.flags.rxAvail = l.flags.rxAvail

namespace Line

theorem Later.refl (l : Line) : l.Later l := by
  constructor
  . exact ⟨[], by simp⟩
  . apply Nat.le_refl
  . exact id
  . simp_all
  . simp

theorem Later.trans {l l' l'' : Line} (h : l.Later l') (h' : l'.Later l'') : l.Later l'' := by
  obtain ⟨bs, hfifo⟩ := h.fifo
  obtain ⟨bs', hfifo'⟩ := h'.fifo
  have hscript := h.script
  have hscript' := h'.script
  constructor
  . exact ⟨bs ++ bs', by rw [hfifo', hfifo, List.append_assoc]⟩
  . omega
  . exact fun hrx => h'.rxAvail (h.rxAvail hrx)
  . intro hrx hrx''
    cases hrx' : l'.flags.rxAvail with
    | false =>
      have := h'.progress hrx' hrx''
      omega
    | true =>
      have := h.progress hrx hrx'
      omega
  . intro hexpired
    obtain ⟨hexpired', hfifo, hrx⟩ := h.expired hexpired
    obtain ⟨hexpired'', hfifo', hrx'⟩ := h'.expired hexpired'
    exact ⟨hexpired'', hfifo'.trans hfifo, hrx'.trans hrx⟩

theorem later_next (l : Line) : l.Later l.next := by
  unfold Line.next
  cases hl : l.script with
  | nil => apply Later.refl
  | cons e script =>
    constructor
    . cases e <;> simp [occur]
    . cases e <;> simp [occur, hl]
    . cases e <;> simp_all [occur, Flags.set, Flags.clr]
    . cases e <;> simp_all [occur, Flags.set, Flags.clr]
    . intro hexpired
      simp only [Expired, hl, List.cons.injEq, reduceCtorEq, or_false] at hexpired
      obtain ⟨rfl, rfl⟩ := hexpired
      simp [occur, Expired, Flags.set]

theorem later_tick (l : Line) : l.Later l.tick := by
  apply Line.tick_preserves
  . intro l' h
    exact h.trans l'.later_next
  . intro l' calls h
    exact ⟨h.fifo, h.script, h.rxAvail, h.progress, h.expired⟩
  . apply Later.refl

theorem later_await (mask : Flags) (n : Nat) (l : Line) : l.Later (l.await mask n) := by
  apply Line.await_preserves
  . intro l' h
    exact h.trans l'.later_next
  . apply Later.refl

end Line

theorem Line.script_next (l : Line) : l.next.script.length = l.script.length - 1 := by
  unfold Line.next
  cases hl : l.script with
  | nil => simp [hl]
  | cons e script => cases e <;> simp [Line.occur]

theorem Line.await_cases (mask : Flags) (n : Nat) (l : Line)
    : ((l.await mask n).flags.and mask).any = true
        ∨
      (l.await mask n).script.length = l.script.length - n := by
  induction n generalizing l with
  | zero => simp [Line.await]
  | succ n ih =>
    rw [Line.await]
    split
    . next hany => exact .inl hany
    . obtain hany | hlen := ih l.next
      . exact .inl hany
      . right
        rw [hlen, l.script_next]
        omega

/-! The calls of the task take time, in which what the schedule says happens. -/

def happened (schedule : Nat → Nat) : Nat → Nat
  | 0 => 0
  | calls + 1 => happened schedule calls + schedule calls

theorem happened_le (schedule : Nat → Nat) {calls calls' : Nat} (h : calls ≤ calls')
    : happened schedule calls ≤ happened schedule calls' := by
  induction h with
  | refl => exact Nat.le_refl _
  | step h ih =>
    rw [happened]
    omega

structure Line.Elapses (l l' : Line) : Prop where
  schedule : l'.schedule = l.schedule
  calls : l.calls < l'.calls
  script : l'.script.length
    ≤ l.script.length + happened l.schedule l.calls - happened l.schedule l'.calls

namespace Line

theorem schedule_next (l : Line) : l.next.schedule = l.schedule ∧ l.next.calls = l.calls := by
  unfold Line.next
  cases l.script with
  | nil => exact ⟨rfl, rfl⟩
  | cons e script => cases e <;> exact ⟨rfl, rfl⟩

theorem script_happen (n : Nat) (l : Line)
    : (l.happen n).script.length = l.script.length - n
        ∧
      (l.happen n).schedule = l.schedule := by
  induction n generalizing l with
  | zero => exact ⟨rfl, rfl⟩
  | succ n ih =>
    obtain ⟨hscript, hschedule⟩ := ih l.next
    rw [l.script_next] at hscript
    rw [l.schedule_next.1] at hschedule
    refine ⟨?_, hschedule⟩
    rw [Line.happen, hscript]
    omega

theorem elapses_tick (l : Line) : l.Elapses l.tick := by
  obtain ⟨hscript, hschedule⟩ := l.script_happen (l.schedule l.calls)
  refine ⟨hschedule, Nat.lt_succ_self _, ?_⟩
  unfold Line.tick
  dsimp only
  rw [hscript, happened]
  omega

theorem Elapses.trans {l l' l'' : Line} (h : l.Elapses l') (h' : l'.Elapses l'')
    : l.Elapses l'' := by
  have hcalls := h.calls
  have hcalls' := h'.calls
  have hscript := h.script
  have hscript' := h'.script
  have hle := happened_le l.schedule (Nat.le_of_lt hcalls)
  have hle' := happened_le l.schedule (Nat.le_of_lt hcalls')
  rw [h.schedule] at hscript'
  refine ⟨h'.schedule.trans h.schedule, by omega, ?_⟩
  omega

theorem Elapses.await {l l' : Line} (h : l.Elapses l') (mask : Flags) (n : Nat)
    : l.Elapses (l'.await mask n) := by
  apply Line.await_preserves
  . intro l₁ h₁
    refine ⟨l₁.schedule_next.1.trans h₁.schedule, ?_, ?_⟩
    . rw [l₁.schedule_next.2]
      exact h₁.calls
    . have hscript := h₁.script
      rw [l₁.schedule_next.2, l₁.script_next]
      omega
  . exact h

theorem elapses_eventWait {mask : Flags} {tmo : Option UInt32} {l l' : Line}
    {flags : Option Flags} (h : rtuLine.eventWait mask tmo l = some (flags, l'))
    : l.Elapses l' := by
  have helapses := l.elapses_tick.await mask l.tick.script.length
  change Line.eventWait mask tmo l = _ at h
  unfold Line.eventWait at h
  dsimp only at h
  split at h
  . cases h
    exact helapses
  . split at h
    . cases h
      exact helapses
    . contradiction

end Line

theorem eventWait_of_any {mask : Flags} (tmo : Option UInt32) {l : Line}
    (hany : ((l.tick.await mask l.tick.script.length).flags.and mask).any = true)
    : rtuLine.eventWait mask tmo l
        =
      some (some ((l.tick.await mask l.tick.script.length).flags.and mask),
        l.tick.await mask l.tick.script.length) := by
  change Line.eventWait mask tmo l = _
  unfold Line.eventWait
  dsimp only
  rw [if_pos hany]

def Line.pending (l : Line) : List UInt8 :=
  l.fifo ++ arrivals l.script

theorem Line.pending_next (l : Line) : l.next.pending = l.pending := by
  unfold Line.next
  cases hl : l.script with
  | nil => rfl
  | cons e script => cases e <;> simp [Line.pending, Line.occur, arrivals, hl]

theorem Line.pending_tick (l : Line) : l.tick.pending = l.pending := by
  apply Line.tick_preserves (P := fun l' => l'.pending = l.pending)
  . intro l' h
    rw [l'.pending_next, h]
  . exact fun l' calls h => h
  . rfl

theorem Line.pending_of_expired {l : Line} (h : Expired l.script) : l.pending = l.fifo := by
  obtain hl | hl := h
  . simp [Line.pending, hl, arrivals]
  . simp [Line.pending, hl, arrivals]

/--
What holds of the line while a task receives the given bytes. The task has got `got`, and the first
`k` bytes in the FIFO need not be notified to it any more.
-/
structure Line.Invariant (bytes : List UInt8) (I : List UInt8 → Nat → Line → Prop) : Prop where
  bytes : ∀ {got : List UInt8} {k : Nat} {l : Line}, I got k l → got ++ l.pending = bytes
  notified : ∀ {got : List UInt8} {k : Nat} {l : Line}, I got k l →
    k < l.fifo.length → l.flags.rxAvail = true ∨ Hooking l.script
  expired : ∀ {got : List UInt8} {k : Nat} {l : Line}, I got k l →
    l.script = [] → l.flags.t1p5 = true ∧ l.flags.t3p5 = true
  next : ∀ {got : List UInt8} {k : Nat} {l : Line}, I got k l → I got k l.next
  calls : ∀ {got : List UInt8} {k : Nat} {l : Line} (calls : Nat), I got k l →
    I got k { l with calls }
  clear : ∀ {got : List UInt8} {k : Nat} {l : Line}, I got k l →
    I got l.fifo.length { l with flags := l.flags.clr { rxAvail := true } }
  restore : ∀ {got : List UInt8} {k : Nat} {l : Line}, I got k l →
    I got 0 { l with flags := l.flags.set { rxAvail := true } }
  take : ∀ {got : List UInt8} {k : Nat} {l : Line} {n : Nat}, I got k l → k ≤ n →
    I (got ++ l.fifo.take n) 0 { l with fifo := l.fifo.drop n }

namespace Line.Invariant

variable {bytes : List UInt8} {I : List UInt8 → Nat → Line → Prop} (hI : Line.Invariant bytes I)
  {got : List UInt8} {k : Nat} {l : Line} (h : I got k l)

include hI h

theorem tick : I got k l.tick := by
  apply Line.tick_preserves
  . exact fun l' h' => hI.next h'
  . exact fun l' calls h' => hI.calls calls h'
  . exact h

theorem await (mask : Flags) (n : Nat) : I got k (l.await mask n) := by
  apply Line.await_preserves
  . exact fun l' h' => hI.next h'
  . exact h

theorem any_await (mask : Flags) (hmask : mask.t1p5 = true ∨ mask.t3p5 = true)
    : ((l.tick.await mask l.tick.script.length).flags.and mask).any = true := by
  obtain hany | hlen := Line.await_cases mask l.tick.script.length l.tick
  . exact hany
  . -- Everything has happened, so that both timers have expired.
    rw [Nat.sub_self] at hlen
    have hnil := List.length_eq_zero_iff.mp hlen
    obtain ⟨ht1p5, ht3p5⟩ := hI.expired (hI.await (hI.tick h) mask _) hnil
    obtain hmask | hmask := hmask
    . simp [Flags.any, Flags.and, ht1p5, hmask]
    . simp [Flags.any, Flags.and, ht3p5, hmask]

theorem eventWait (mask : Flags) (hmask : mask.t1p5 = true ∨ mask.t3p5 = true)
    (tmo : Option UInt32)
    : ∃ (l' : Line),
        rtuLine.eventWait mask tmo l = some (some (l'.flags.and mask), l')
          ∧
        (l'.flags.and mask).any = true
          ∧
        I got k l'
          ∧
        l.Later l' := by
  have hany := hI.any_await h mask hmask
  refine ⟨_, eventWait_of_any tmo hany, hany, hI.await (hI.tick h) mask _, ?_⟩
  apply l.later_tick.trans
  apply Line.later_await

omit h in
theorem fifo_of_expired (h : I got 0 l) (hrx : l.flags.rxAvail = false)
    (hexpired : Expired l.script)
    : l.fifo = [] := by
  apply List.length_eq_zero_iff.mp
  apply Nat.eq_zero_of_not_pos
  intro hpos
  -- What is in the FIFO would have been notified, and no hook is being called.
  obtain hrx' | hhooking := hI.notified h hpos
  . simp [hrx] at hrx'
  . exact not_expired_of_hooking hhooking hexpired

end Line.Invariant

def frameScript : List (List UInt8) → List LineEvent
  | [] => [.t1p5, .t3p5]
  | chunk :: chunks => .arrive chunk :: .clr :: .set :: frameScript chunks

theorem arrivals_frameScript (chunks : List (List UInt8))
    : arrivals (frameScript chunks) = chunks.flatten := by
  induction chunks with
  | nil => rfl
  | cons chunk chunks ih =>
    rw [List.flatten_cons, ← ih]
    rfl

inductive FrameTail : List LineEvent → Prop where
  -- Some of the chunks have arrived and the hook was called for these.
  | coming (chunks : List (List UInt8)) : FrameTail (frameScript chunks)
  | clr (chunks : List (List UInt8)) : FrameTail (.clr :: .set :: frameScript chunks)
  | set (chunks : List (List UInt8)) : FrameTail (.set :: frameScript chunks)
  | expired : FrameTail [.t3p5]
  | finished : FrameTail []

theorem not_expired_frameScript (chunks : List (List UInt8)) : ¬Expired (frameScript chunks) := by
  cases chunks <;> simp [Expired, frameScript]

theorem Line.next_cases {l : Line} (h : FrameTail l.script)
    : (l.script = frameScript [] ∧
        l.next = { l with script := [.t3p5], flags := l.flags.set { t1p5 := true } })
        ∨
      (∃ (chunk : List UInt8) (chunks : List (List UInt8)),
        l.script = frameScript (chunk :: chunks) ∧
          l.next =
            { l with script := .clr :: .set :: frameScript chunks, fifo := l.fifo ++ chunk })
        ∨
      (∃ (chunks : List (List UInt8)),
        l.script = .clr :: .set :: frameScript chunks ∧
          l.next =
            { l with
              script := .set :: frameScript chunks
              flags := l.flags.clr { t1p5 := true, t3p5 := true } })
        ∨
      (∃ (chunks : List (List UInt8)),
        l.script = .set :: frameScript chunks ∧
          l.next =
            { l with script := frameScript chunks, flags := l.flags.set { rxAvail := true } })
        ∨
      (l.script = [.t3p5] ∧ l.next = { l with script := [], flags := l.flags.set { t3p5 := true } })
        ∨
      (l.script = [] ∧ l.next = l) := by
  unfold Line.next
  generalize hl : l.script = script at h
  cases h with
  | coming chunks =>
    cases chunks with
    | nil => exact .inl ⟨rfl, rfl⟩
    | cons chunk chunks => exact .inr (.inl ⟨chunk, chunks, rfl, rfl⟩)
  | clr chunks => exact .inr (.inr (.inl ⟨chunks, rfl, rfl⟩))
  | set chunks => exact .inr (.inr (.inr (.inl ⟨chunks, rfl, rfl⟩)))
  | expired => exact .inr (.inr (.inr (.inr (.inl ⟨rfl, rfl⟩))))
  | finished => exact .inr (.inr (.inr (.inr (.inr ⟨rfl, rfl⟩))))

/--
The bytes of a frame are those the task has got, those in the FIFO and those to arrive. Whatever is
in the FIFO beyond the first `k` bytes has been or will be notified to the task.
-/
structure Line.Receiving (frame got : List UInt8) (k : Nat) (l : Line) : Prop where
  bytes : got ++ l.fifo ++ arrivals l.script = frame
  script : FrameTail l.script
  notified : k < l.fifo.length → l.flags.rxAvail = true ∨ Hooking l.script
  t1p5 : l.flags.t1p5 = true ↔ Expired l.script
  t3p5 : l.script = [] → l.flags.t3p5 = true

namespace Line.Receiving

variable {frame got : List UInt8} {k : Nat} {l : Line} (h : l.Receiving frame got k)

include h

theorem next : l.next.Receiving frame got k := by
  have hbytes := h.bytes
  have hnotified := h.notified
  have ht1p5 := h.t1p5
  obtain ⟨hl, hnext⟩ | ⟨chunk, chunks, hl, hnext⟩ | ⟨chunks, hl, hnext⟩ | ⟨chunks, hl, hnext⟩ |
    ⟨hl, hnext⟩ | ⟨hl, hnext⟩ := Line.next_cases h.script
  all_goals
    rw [hnext]
    rw [hl] at hbytes hnotified ht1p5
  . refine ⟨hbytes, .expired, ?_, ?_, by simp⟩
    . simpa [frameScript, Hooking, Flags.set] using hnotified
    . simp [Flags.set, Expired]
  . refine ⟨?_, .clr chunks, ?_, ?_, by simp⟩
    . simpa [arrivals, frameScript] using hbytes
    . simp [Hooking]
    . simpa [Expired, frameScript] using ht1p5
  . refine ⟨hbytes, .set chunks, ?_, ?_, by simp⟩
    . simp [Hooking]
    . simp [Flags.clr, Expired]
  . have hexpired := not_expired_frameScript chunks
    refine ⟨hbytes, .coming chunks, ?_, ?_, ?_⟩
    . simp [Flags.set]
    . have hfalse : l.flags.t1p5 = false := by simpa [Expired] using ht1p5
      simp [Flags.set, hfalse, hexpired]
    . intro hnil
      exact absurd (.inr hnil) hexpired
  . refine ⟨hbytes, .finished, ?_, ?_, ?_⟩
    . simpa [Hooking, Flags.set] using hnotified
    . simpa [Flags.set, Expired] using ht1p5
    . simp [Flags.set]
  . exact h

theorem bytes_of_expired (hexpired : Expired l.script) : got ++ l.fifo = frame := by
  have hbytes := h.bytes
  obtain hl | hl := hexpired
  . rw [hl] at hbytes
    simpa [arrivals] using hbytes
  . rw [hl] at hbytes
    simpa [arrivals] using hbytes

end Line.Receiving

theorem Line.Receiving.invariant (frame : List UInt8)
    : Line.Invariant frame (fun got k l => l.Receiving frame got k) := by
  constructor
  . intro got k l h
    rw [← h.bytes, Line.pending, List.append_assoc]
  . exact fun h => h.notified
  . exact fun h hnil => ⟨h.t1p5.mpr (.inr hnil), h.t3p5 hnil⟩
  . exact fun h => h.next
  . exact fun calls h => ⟨h.bytes, h.script, h.notified, h.t1p5, h.t3p5⟩
  . intro got k l h
    refine ⟨h.bytes, h.script, ?_, ?_, ?_⟩
    . exact fun hlt => absurd hlt (Nat.lt_irrefl _)
    . simpa [Flags.clr] using h.t1p5
    . simpa [Flags.clr] using h.t3p5
  . intro got k l h
    refine ⟨h.bytes, h.script, ?_, ?_, ?_⟩
    . simp [Flags.set]
    . simpa [Flags.set] using h.t1p5
    . simpa [Flags.set] using h.t3p5
  . intro got k l n h hk
    refine ⟨?_, h.script, ?_, h.t1p5, h.t3p5⟩
    . rw [List.append_assoc got, List.take_append_drop]
      exact h.bytes
    . intro hpos
      rw [List.length_drop] at hpos
      exact h.notified (by omega)

end Modbus
