import Mathlib.Data.List.SplitBy
import Modbus.Data.Runs
import Modbus.Rtu.Burst

/-!
This module contains the timers of the RTU transport and the hook that starts them. Time is counted
in microseconds. The hook is called for every chunk of bytes, at any time, and a timer may expire
late. What becomes of the flags is a sequence of bursts.
-/

namespace Modbus

/-- A one-shot timer, with the time at which it is due if it has been started. -/
structure OsTimer where
  us : UInt32
  due : Option Nat

def osTimerCreate : OsTimer :=
  { us := 0, due := none }

def osTimerSet (us : UInt32) (tmr : OsTimer) : OsTimer :=
  { tmr with us }

def osTimerStart (now : Nat) (tmr : OsTimer) : OsTimer :=
  { tmr with due := some (now + tmr.us.toNat) }

/-- The timers of the board. A callback is what it makes happen on the line. -/
structure Bsp where
  tmr1p5 : OsTimer
  t1p5Callback : Option LineEvent
  tmr3p5 : OsTimer
  t3p5Callback : Option LineEvent

def tmr1p5Expired (bsp : Bsp) : List LineEvent :=
  bsp.t1p5Callback.toList

def tmr3p5Expired (bsp : Bsp) : List LineEvent :=
  bsp.t3p5Callback.toList

def mbTmrInit (t1p5 t3p5 : UInt32) (bsp : Bsp) : Bsp :=
  { bsp with tmr1p5 := osTimerSet t1p5 bsp.tmr1p5, tmr3p5 := osTimerSet t3p5 bsp.tmr3p5 }

def mbTmrStart (now : Nat) (t1p5Expired t3p5Expired : Option LineEvent) (bsp : Bsp) : Bsp :=
  let bsp :=
    if t1p5Expired.isSome then
      { bsp with t1p5Callback := t1p5Expired, tmr1p5 := osTimerStart now bsp.tmr1p5 }
    else
      bsp
  if t3p5Expired.isSome then
    { bsp with t3p5Callback := t3p5Expired, tmr3p5 := osTimerStart now bsp.tmr3p5 }
  else
    bsp

def mbT1p5Expired : LineEvent :=
  .t1p5

def mbT3p5Expired : LineEvent :=
  .t3p5

def mbRxHook (now : Nat) (bsp : Bsp) : List LineEvent × Bsp :=
  ([.clr, .set], mbTmrStart now (some mbT1p5Expired) (some mbT3p5Expired) bsp)

/-- What happens on the line at some time. -/
structure Stamped where
  time : Nat
  events : List LineEvent

structure Clock where
  now : Nat
  bsp : Bsp

/-- Neither timer is late by more than that. -/
def Bsp.Punctual (late : Nat) (t : Nat) (bsp : Bsp) : Prop :=
  (∀ due ∈ bsp.tmr1p5.due, t ≤ due + late) ∧ ∀ due ∈ bsp.tmr3p5.due, t ≤ due + late

inductive Clock.Step (late : Nat) : Clock → Stamped → Clock → Prop where
  | hook {c : Clock} {t : Nat} {bs : List UInt8} (hbs : bs ≠ []) (hnow : c.now ≤ t)
    (hpunctual : c.bsp.Punctual late t)
    : Step late c ⟨t, .arrive bs :: (mbRxHook t c.bsp).1⟩ ⟨t, (mbRxHook t c.bsp).2⟩
  | t1p5 {c : Clock} {t due : Nat} (hdue : c.bsp.tmr1p5.due = some due) (hle : due ≤ t)
    (hnow : c.now ≤ t) (hpunctual : c.bsp.Punctual late t)
    : Step late c ⟨t, tmr1p5Expired c.bsp⟩
        ⟨t, { c.bsp with tmr1p5 := { c.bsp.tmr1p5 with due := none } }⟩
  | t3p5 {c : Clock} {t due : Nat} (hdue : c.bsp.tmr3p5.due = some due) (hle : due ≤ t)
    (hnow : c.now ≤ t) (hpunctual : c.bsp.Punctual late t)
    : Step late c ⟨t, tmr3p5Expired c.bsp⟩
        ⟨t, { c.bsp with tmr3p5 := { c.bsp.tmr3p5 with due := none } }⟩

def lineEvents (es : List Stamped) : List LineEvent :=
  es.flatMap Stamped.events

/-- The times of the timers. -/
structure Clock.Timeouts (t1p5 t3p5 : Nat) (c : Clock) : Prop where
  t1p5 : c.bsp.tmr1p5.us.toNat = t1p5
  t3p5 : c.bsp.tmr3p5.us.toNat = t3p5

def Stamped.hook (t : Nat) (bs : List UInt8) : Stamped :=
  ⟨t, [.arrive bs, .clr, .set]⟩

/--
What the timers are for: the line has been silent since then, the hook has last been called then, or
T1P5 has expired since the hook was last called then.
-/
inductive Phase where
  | quiet (t : Nat)
  | hooked (t : Nat)
  | expiring (t : Nat)

inductive Phase.Step (t1p5 t3p5 late : Nat) : Phase → Stamped → Phase → Prop where
  | first {t t' : Nat} {bs : List UInt8} (hbs : bs ≠ []) (hle : t ≤ t')
    : Step t1p5 t3p5 late (.quiet t) (.hook t' bs) (.hooked t')
  | chunk {t t' : Nat} {bs : List UInt8} (hbs : bs ≠ []) (hle : t ≤ t')
    (hlate : t' ≤ t + t1p5 + late)
    : Step t1p5 t3p5 late (.hooked t) (.hook t' bs) (.hooked t')
  | t1p5 {t t' : Nat} (hle : t + t1p5 ≤ t')
    : Step t1p5 t3p5 late (.hooked t) ⟨t', [.t1p5]⟩ (.expiring t)
  | gap {t t' : Nat} {bs : List UInt8} (hbs : bs ≠ []) (hle : t + t1p5 ≤ t')
    (hlate : t' ≤ t + t3p5 + late)
    : Step t1p5 t3p5 late (.expiring t) (.hook t' bs) (.hooked t')
  | t3p5 {t t' : Nat} (hle : t + t3p5 ≤ t')
    : Step t1p5 t3p5 late (.expiring t) ⟨t', [.t3p5]⟩ (.quiet t')

/-- Neither timer has been started. -/
structure Clock.Quiet (c : Clock) : Prop where
  t1p5 : c.bsp.tmr1p5.due = none
  t3p5 : c.bsp.tmr3p5.due = none

inductive Clock.In (c : Clock) : Phase → Prop where
  | quiet {t : Nat} (hnow : t ≤ c.now) (hquiet : c.Quiet) : In c (.quiet t)
  | hooked {t : Nat} (hnow : t ≤ c.now)
    (h1p5 : c.bsp.tmr1p5.due = some (t + c.bsp.tmr1p5.us.toNat))
    (h1p5Callback : c.bsp.t1p5Callback = some .t1p5)
    (h3p5 : c.bsp.tmr3p5.due = some (t + c.bsp.tmr3p5.us.toNat))
    (h3p5Callback : c.bsp.t3p5Callback = some .t3p5)
    : In c (.hooked t)
  | expiring {t : Nat} (hnow : t + c.bsp.tmr1p5.us.toNat ≤ c.now)
    (h1p5 : c.bsp.tmr1p5.due = none)
    (h3p5 : c.bsp.tmr3p5.due = some (t + c.bsp.tmr3p5.us.toNat))
    (h3p5Callback : c.bsp.t3p5Callback = some .t3p5)
    : In c (.expiring t)

section Step

variable {late t1p5 t3p5 : Nat} {c c' : Clock} {e : Stamped} {p : Phase}

theorem Clock.Step.timeouts (h : Step late c e c') (hc : c.Timeouts t1p5 t3p5)
    : c'.Timeouts t1p5 t3p5 := by
  obtain ⟨h1p5, h3p5⟩ := hc
  cases h <;> exact ⟨h1p5, h3p5⟩

theorem Clock.in_mbRxHook (t : Nat) (bsp : Bsp)
    : Clock.In ⟨t, (mbRxHook t bsp).2⟩ (.hooked t) := by
  apply In.hooked
  . exact Nat.le_refl t
  all_goals rfl

theorem Clock.In.step (hc : c.In p) (htimeouts : c.Timeouts t1p5 t3p5)
    (hlate : t1p5 + late < t3p5) (h : Step late c e c')
    : ∃ (p' : Phase), Phase.Step t1p5 t3p5 late p e p' ∧ c'.In p' := by
  obtain ⟨rfl, rfl⟩ := htimeouts
  cases hc with
  | quiet hnow' hquiet =>
    cases h with
    | hook hbs hnow hpunctual =>
      exact ⟨_, .first hbs (by omega), in_mbRxHook _ _⟩
    | t1p5 hdue hle hnow hpunctual =>
      rw [hquiet.t1p5] at hdue
      contradiction
    | t3p5 hdue hle hnow hpunctual =>
      rw [hquiet.t3p5] at hdue
      contradiction
  | @hooked t hnow' h1p5 h1p5Callback h3p5 h3p5Callback =>
    have hlast {t' : Nat} (hpunctual : c.bsp.Punctual late t') := hpunctual.1 _ h1p5
    cases h with
    | hook hbs hnow hpunctual =>
      exact ⟨_, .chunk hbs (by omega) (hlast hpunctual), in_mbRxHook _ _⟩
    | t1p5 hdue hle hnow hpunctual =>
      rw [h1p5, Option.some.injEq] at hdue
      rw [tmr1p5Expired, h1p5Callback]
      exact ⟨_, .t1p5 (by omega), .expiring (by dsimp only; omega) rfl h3p5 h3p5Callback⟩
    | t3p5 hdue hle hnow hpunctual =>
      -- T1P5 would be too late.
      have hle' := hlast hpunctual
      rw [h3p5, Option.some.injEq] at hdue
      omega
  | @expiring t hnow' h1p5 h3p5 h3p5Callback =>
    cases h with
    | hook hbs hnow hpunctual =>
      exact ⟨_, .gap hbs (by omega) (hpunctual.2 _ h3p5), in_mbRxHook _ _⟩
    | t1p5 hdue hle hnow hpunctual =>
      rw [h1p5] at hdue
      contradiction
    | t3p5 hdue hle hnow hpunctual =>
      rw [h3p5, Option.some.injEq] at hdue
      rw [tmr3p5Expired, h3p5Callback]
      exact ⟨_, .t3p5 (by omega), .quiet (Nat.le_refl _) ⟨h1p5, rfl⟩⟩

/-- Whatever the hook and the timers do is what they are for. -/
theorem Clock.runs_phases (hlate : t1p5 + late < t3p5) {es : List Stamped}
    (h : Runs (Step late) c es c') (htimeouts : c.Timeouts t1p5 t3p5) (hc : c.Quiet)
    (hc' : c'.Quiet)
    : ∃ (t' : Nat), Runs (Phase.Step t1p5 t3p5 late) (.quiet c.now) es (.quiet t') := by
  obtain ⟨p', hruns, -, hin⟩ := h.simulates
    (R := fun c p => c.Timeouts t1p5 t3p5 ∧ c.In p)
    (by
      rintro c p e c' ⟨htimeouts, hin⟩ hstep
      obtain ⟨p', hphase, hin'⟩ := hin.step htimeouts hlate hstep
      exact ⟨p', hphase, hstep.timeouts htimeouts, hin'⟩)
    ⟨htimeouts, .quiet (Nat.le_refl c.now) hc⟩
  cases hin with
  | quiet => exact ⟨_, hruns⟩
  | hooked hnow h1p5 h1p5Callback h3p5 h3p5Callback =>
    rw [hc'.t1p5] at h1p5
    contradiction
  | expiring hnow h1p5 h3p5 h3p5Callback =>
    rw [hc'.t3p5] at h3p5
    contradiction

end Step

/-! The bursts, whatever the times. -/

section Bursts

variable {t1p5 t3p5 late : Nat} {p : Phase} {es : List Stamped} {t : Nat}

/-- What is to come of a burst. -/
def Phase.Rest (p : Phase) (rest : List LineEvent) : Prop :=
  match p with
  | .quiet _ => rest = []
  | .hooked _ => BurstScript rest
  | .expiring _ => BurstScript (.t1p5 :: rest)

theorem arrivals_append (script script' : List LineEvent)
    : arrivals (script ++ script') = arrivals script ++ arrivals script' := by
  rw [arrivals, List.flatMap_append]
  rfl

theorem Phase.runs_bursts (h : Runs (Phase.Step t1p5 t3p5 late) p es (.quiet t))
    (hlt : (arrivals (lineEvents es)).length < 2 ^ 63)
    : ∃ (rest : List LineEvent) (bursts : List Burst),
        p.Rest rest ∧ lineEvents es = rest ++ bursts.flatMap Burst.events := by
  generalize hp' : Phase.quiet t = p' at h
  induction h with
  | nil p =>
    subst hp'
    exact ⟨[], [], rfl, rfl⟩
  | @cons p p'' p' e es head tail ih =>
    have harrivals : arrivals (lineEvents (e :: es))
        = arrivals e.events ++ arrivals (lineEvents es) := by
      rw [← arrivals_append]
      rfl
    have hcons : lineEvents (e :: es) = e.events ++ lineEvents es := by
      rfl
    rw [harrivals, List.length_append] at hlt
    obtain ⟨rest, bursts, hrest, hevents⟩ := ih (by omega) hp'
    rw [hcons, hevents]
    cases head with
    | @first t t' bs hbs hle =>
      have hlt' : (bs ++ arrivals rest).length < 2 ^ 63 := by
        rw [hevents, arrivals_append, List.length_append] at hlt
        simp only [Stamped.hook, arrivals, List.flatMap_cons, List.flatMap_nil,
          List.append_nil] at hlt ⊢
        rw [List.length_append]
        omega
      exact ⟨[], ⟨bs, hbs, rest, hrest, hlt'⟩ :: bursts, rfl, rfl⟩
    | chunk hbs hle hlate => exact ⟨_, bursts, .chunk hbs hrest, rfl⟩
    | t1p5 hle => exact ⟨_, bursts, hrest, rfl⟩
    | gap hbs hle hlate => exact ⟨_, bursts, .gap (.chunk hbs hrest), rfl⟩
    | t3p5 hle =>
      subst hrest
      exact ⟨[.t3p5], bursts, .expires, rfl⟩

end Bursts

/-! The frames, if the times leave no doubt. -/

structure Chunk where
  time : Nat
  bytes : List UInt8

def Stamped.chunk (e : Stamped) : Option Chunk :=
  match e.events with
  | .arrive bytes :: _ => some ⟨e.time, bytes⟩
  | _ => none

def chunks (es : List Stamped) : List Chunk :=
  es.filterMap Stamped.chunk

def Chunk.near (t1p5 : Nat) (chunk chunk' : Chunk) : Bool :=
  chunk'.time < chunk.time + t1p5

/-- The chunks of every frame. -/
def frames (t1p5 : Nat) (es : List Stamped) : List (List Chunk) :=
  (chunks es).splitBy (Chunk.near t1p5)

/-- The second chunk is certain to be in time, or to come after the end of the frame. -/
def Chunk.Clear (t1p5 t3p5 late : Nat) (chunk chunk' : Chunk) : Prop :=
  chunk'.time < chunk.time + t1p5 ∨ chunk.time + t3p5 + late < chunk'.time

def Chunk.script (frame : List Chunk) : List LineEvent :=
  frameScript (frame.map Chunk.bytes)

theorem splitBy_cons_far {α : Type} {r : α → α → Bool} {a : α} {l : List α}
    (h : ∀ b ∈ l.head?, r a b = false)
    : (a :: l).splitBy r = [a] :: l.splitBy r := by
  apply List.splitBy_append (l := [a])
  simpa using h

theorem splitBy_cons_near {α : Type} {r : α → α → Bool} {a b : α} {l group : List α}
    {groups : List (List α)} (h : r a b = true)
    (hsplit : (b :: l).splitBy r = (b :: group) :: groups)
    : (a :: b :: l).splitBy r = (a :: b :: group) :: groups := by
  rw [List.splitBy_eq_iff] at hsplit ⊢
  obtain ⟨hflatten, hne, hchain, hfar⟩ := hsplit
  rw [List.forall_mem_cons] at hchain
  refine ⟨by rw [hflatten]; rfl, ?_, ?_, ?_⟩
  . simpa using hne
  . rw [List.forall_mem_cons]
    exact ⟨.cons_cons h hchain.1, hchain.2⟩
  . cases groups with
    | nil => exact .singleton _
    | cons group' groups =>
      rw [List.isChain_cons_cons] at hfar ⊢
      obtain ⟨⟨hne, hne', hlast⟩, hfar⟩ := hfar
      exact ⟨⟨by simp, hne', by simpa using hlast⟩, hfar⟩

section Frames

variable {t1p5 t3p5 late : Nat} {p : Phase} {es : List Stamped} {t : Nat}

/-- What is to come, if the chunks leave no doubt. The last one before them was heard then. -/
def Phase.Framed (t1p5 t3p5 late : Nat) (p : Phase) (es : List Stamped) : Prop :=
  match p with
  | .quiet t =>
    (∀ chunk ∈ (chunks es).head?, t ≤ chunk.time)
      ∧
    ((chunks es).IsChain (Chunk.Clear t1p5 t3p5 late) →
      lineEvents es = (frames t1p5 es).flatMap Chunk.script)
  | .hooked t =>
    ∀ (bs : List UInt8), (⟨t, bs⟩ :: chunks es).IsChain (Chunk.Clear t1p5 t3p5 late) →
      ∃ (frame : List Chunk) (frames : List (List Chunk)),
        (⟨t, bs⟩ :: chunks es).splitBy (Chunk.near t1p5) = (⟨t, bs⟩ :: frame) :: frames
          ∧
        lineEvents es = Chunk.script frame ++ frames.flatMap Chunk.script
  | .expiring t =>
    ∀ (bs : List UInt8), (⟨t, bs⟩ :: chunks es).IsChain (Chunk.Clear t1p5 t3p5 late) →
      (⟨t, bs⟩ :: chunks es).splitBy (Chunk.near t1p5) = [⟨t, bs⟩] :: frames t1p5 es
        ∧
      lineEvents es = .t3p5 :: (frames t1p5 es).flatMap Chunk.script

theorem Phase.runs_framed (hlate : t1p5 + late < t3p5)
    (h : Runs (Phase.Step t1p5 t3p5 late) p es (.quiet t))
    : p.Framed t1p5 t3p5 late es := by
  generalize hp' : Phase.quiet t = p' at h
  induction h with
  | nil p =>
    subst hp'
    exact ⟨by simp [chunks], fun _ => rfl⟩
  | @cons p p'' p' e es head tail ih =>
    have hcons : lineEvents (e :: es) = e.events ++ lineEvents es := by
      rfl
    have hframed := ih hp'
    cases head with
    | @first t₀ t bs hbs hle =>
      have hchunks : chunks (.hook t bs :: es) = ⟨t, bs⟩ :: chunks es := by
        rfl
      constructor
      . simpa [hchunks] using hle
      . intro hclear
        rw [hchunks] at hclear
        obtain ⟨frame, rest, hsplit, hevents⟩ := hframed bs hclear
        rw [hcons, hevents, frames, hchunks, hsplit]
        rfl
    | @chunk t t' bs hbs hle hbefore =>
      have hchunks : chunks (.hook t' bs :: es) = ⟨t', bs⟩ :: chunks es := by
        rfl
      intro bs₀ hclear
      rw [hchunks, List.isChain_cons_cons] at hclear
      obtain ⟨frame, rest, hsplit, hevents⟩ := hframed bs hclear.2
      have hnear : Chunk.near t1p5 ⟨t, bs₀⟩ ⟨t', bs⟩ = true := by
        have hcases : t' < t + t1p5 ∨ t + t3p5 + late < t' := hclear.1
        rw [Chunk.near, decide_eq_true_iff]
        dsimp only
        omega
      refine ⟨⟨t', bs⟩ :: frame, rest, ?_, ?_⟩
      . rw [hchunks]
        exact splitBy_cons_near hnear hsplit
      . rw [hcons, hevents]
        rfl
    | @t1p5 t t' hle =>
      intro bs₀ hclear
      obtain ⟨hsplit, hevents⟩ := hframed bs₀ hclear
      refine ⟨[], frames t1p5 es, hsplit, ?_⟩
      rw [hcons, hevents]
      rfl
    | @gap t t' bs hbs hle hbefore =>
      -- There would be doubt about the chunk.
      intro bs₀ hclear
      have hchunks : chunks (.hook t' bs :: es) = ⟨t', bs⟩ :: chunks es := by
        rfl
      rw [hchunks, List.isChain_cons_cons] at hclear
      have hcases : t' < t + t1p5 ∨ t + t3p5 + late < t' := hclear.1
      omega
    | @t3p5 t t' hle =>
      obtain ⟨hfirst, hframed⟩ := hframed
      intro bs₀ hclear
      constructor
      . apply splitBy_cons_far
        intro chunk hchunk
        have hle' := hfirst chunk hchunk
        rw [Chunk.near, decide_eq_false_iff_not]
        dsimp only
        omega
      . rw [hcons, hframed hclear.tail]
        rfl

theorem Phase.chunks_ne_nil {p' : Phase} (h : Runs (Phase.Step t1p5 t3p5 late) p es p')
    : ∀ chunk ∈ chunks es, chunk.bytes ≠ [] := by
  have hstep := h.forall_mem (P := fun e => ∀ chunk ∈ e.chunk, chunk.bytes ≠ []) (by
    intro p e p' hstep chunk hchunk
    cases hstep with
    | first hbs hle =>
      cases hchunk
      exact hbs
    | chunk hbs hle hbefore =>
      cases hchunk
      exact hbs
    | t1p5 hle => cases hchunk
    | gap hbs hle hbefore =>
      cases hchunk
      exact hbs
    | t3p5 hle => cases hchunk)
  intro chunk hchunk
  obtain ⟨e, he, heq⟩ := List.mem_filterMap.mp hchunk
  exact hstep e he chunk heq

theorem mem_chunks_of_mem_frames {frame : List Chunk} {chunk : Chunk}
    (hframe : frame ∈ frames t1p5 es) (hchunk : chunk ∈ frame)
    : chunk ∈ chunks es := by
  rw [← List.flatten_splitBy (Chunk.near t1p5) (chunks es)]
  exact List.mem_flatten_of_mem hframe hchunk

/-- If the chunks leave no doubt then every frame is heard whole, and T1P5 expires at its end. -/
theorem Phase.lineEvents_runs (hlate : t1p5 + late < t3p5) {t₀ : Nat}
    (h : Runs (Phase.Step t1p5 t3p5 late) (.quiet t₀) es (.quiet t))
    (hclear : (chunks es).IsChain (Chunk.Clear t1p5 t3p5 late))
    : lineEvents es = (frames t1p5 es).flatMap Chunk.script := by
  exact (Phase.runs_framed hlate h).2 hclear

end Frames

end Modbus
