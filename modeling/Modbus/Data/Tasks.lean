import Mathlib.Logic.Function.Basic
import Modbus.Data.Runs

/-!
This module contains tasks that share a state and a lock. A call is a program that goes through
steps, of which the other tasks may take some in between. If a task only touches the state while it
holds the lock then the calls are as good as executed at once, in the order in which they return.
-/

namespace Modbus

/-- A program whose steps change a shared state. A step has no result if it blocks for ever. -/
inductive Prog (σ ρ : Type) : Type 1 where
  | ret (r : ρ)
  | step {α : Type} (f : σ → Option (α × σ)) (next : α → Prog σ ρ)

/-- The program is executed at once. -/
def Prog.run {σ ρ : Type} : Prog σ ρ → σ → Option (ρ × σ)
  | ret r, s => some (r, s)
  | step f next, s =>
    match f s with
    | none => none
    | some (a, s) => (next a).run s

inductive Activity (γ σ ρ : Type) : Type 1 where
  | idle
  | waiting (c : γ)
  | inside (c : γ) (p : Prog σ ρ)

structure Tasks (ι γ σ ρ : Type) : Type 1 where
  shared : σ
  holder : Option ι
  activity : ι → Activity γ σ ρ

inductive TaskEvent (ι γ ρ : Type) where
  | call (i : ι) (c : γ)
  | lock (i : ι)
  | step (i : ι)
  -- The task releases the lock and returns.
  | unlock (i : ι) (c : γ) (r : ρ)

/-- The calls that have returned, with their results. -/
def TaskEvent.returned {ι γ ρ : Type} : TaskEvent ι γ ρ → Option (γ × ρ)
  | unlock _ c r => some (c, r)
  | _ => none

namespace Tasks

variable {ι γ σ ρ : Type} [DecidableEq ι] (prog : γ → Prog σ ρ)

def set (t : Tasks ι γ σ ρ) (i : ι) (activity : Activity γ σ ρ) : Tasks ι γ σ ρ :=
  { t with activity := Function.update t.activity i activity }

/-- What a task can do at some time. -/
inductive Step (t : Tasks ι γ σ ρ) : TaskEvent ι γ ρ → Tasks ι γ σ ρ → Prop where
  | call {i : ι} {c : γ} (hidle : t.activity i = .idle) : Step t (.call i c) (t.set i (.waiting c))
  | lock {i : ι} {c : γ} (hwaiting : t.activity i = .waiting c) (hfree : t.holder = none)
    : Step t (.lock i) { t.set i (.inside c (prog c)) with holder := some i }
  | step {i : ι} {c : γ} {α : Type} {f : σ → Option (α × σ)} {next : α → Prog σ ρ} {a : α}
      {shared : σ} (hinside : t.activity i = .inside c (.step f next))
      (hf : f t.shared = some (a, shared))
    : Step t (.step i) { t.set i (.inside c (next a)) with shared }
  | unlock {i : ι} {c : γ} {r : ρ} (hinside : t.activity i = .inside c (.ret r))
    : Step t (.unlock i c r) { t.set i .idle with holder := none }

/-- Calls that return are executed at once, and nothing happens before they return. -/
def AtomicStep (s : σ) (e : TaskEvent ι γ ρ) (s' : σ) : Prop :=
  match e.returned with
  | none => s' = s
  | some (c, r) => (prog c).run s = some (r, s')

/--
Only the holder of the lock has started its program, and what is left of that will do what the whole
would have done from the given state.
-/
structure Coherent (t : Tasks ι γ σ ρ) (s : σ) : Prop where
  free : t.holder = none → t.shared = s
  held : ∀ (i : ι), t.holder = some i →
    ∃ (c : γ) (p : Prog σ ρ), t.activity i = .inside c p ∧ (prog c).run s = p.run t.shared
  exclusive : ∀ (i : ι) (c : γ) (p : Prog σ ρ), t.activity i = .inside c p → t.holder = some i

variable {prog}

@[simp]
theorem set_activity_self (t : Tasks ι γ σ ρ) (i : ι) (activity : Activity γ σ ρ)
    : (t.set i activity).activity i = activity := by
  simp [set]

theorem set_activity_of_ne (t : Tasks ι γ σ ρ) {i j : ι} (h : j ≠ i) (activity : Activity γ σ ρ)
    : (t.set i activity).activity j = t.activity j := by
  simp [set, h]

theorem Coherent.call {t : Tasks ι γ σ ρ} {s : σ} (h : t.Coherent prog s) {i : ι} (c : γ)
    (hidle : t.activity i = .idle)
    : (t.set i (.waiting c)).Coherent prog s := by
  refine ⟨h.free, ?_, ?_⟩
  . intro j hholder
    obtain ⟨c', p, hinside, hrun⟩ := h.held j hholder
    have hne : j ≠ i := by
      rintro rfl
      rw [hidle] at hinside
      contradiction
    exact ⟨c', p, (t.set_activity_of_ne hne _).trans hinside, hrun⟩
  . intro j c' p hinside
    by_cases hj : j = i
    . subst hj
      rw [set_activity_self] at hinside
      contradiction
    . rw [t.set_activity_of_ne hj] at hinside
      exact h.exclusive j c' p hinside

theorem Coherent.lock {t : Tasks ι γ σ ρ} {s : σ} (h : t.Coherent prog s) (i : ι) (c : γ)
    (hfree : t.holder = none)
    : { t.set i (.inside c (prog c)) with holder := some i }.Coherent prog s := by
  refine ⟨by simp, ?_, ?_⟩
  . intro j hholder
    cases hholder
    refine ⟨c, prog c, t.set_activity_self i _, ?_⟩
    rw [← h.free hfree]
    rfl
  . intro j c' p hinside
    by_cases hj : j = i
    . rw [hj]
    . have hholder := h.exclusive j c' p ((t.set_activity_of_ne hj _).symm.trans hinside)
      rw [hfree] at hholder
      contradiction

omit [DecidableEq ι] in
theorem Coherent.inside {t : Tasks ι γ σ ρ} {s : σ} (h : t.Coherent prog s) {i : ι} {c : γ}
    {p : Prog σ ρ} (hinside : t.activity i = .inside c p)
    : t.holder = some i ∧ (prog c).run s = p.run t.shared := by
  have hholder := h.exclusive i c p hinside
  obtain ⟨c', p', hinside', hrun⟩ := h.held i hholder
  rw [hinside] at hinside'
  cases hinside'
  exact ⟨hholder, hrun⟩

theorem Coherent.advance {t : Tasks ι γ σ ρ} {s : σ} (h : t.Coherent prog s) {i : ι} {c : γ}
    {α : Type} {f : σ → Option (α × σ)} {next : α → Prog σ ρ} {a : α} {shared : σ}
    (hinside : t.activity i = .inside c (.step f next)) (hf : f t.shared = some (a, shared))
    : { t.set i (.inside c (next a)) with shared }.Coherent prog s := by
  obtain ⟨hholder, hrun⟩ := h.inside hinside
  refine ⟨?_, ?_, ?_⟩
  . intro hfree
    rw [show t.holder = none from hfree] at hholder
    contradiction
  . intro j hj
    rw [show t.holder = some j from hj] at hholder
    cases hholder
    refine ⟨c, next a, t.set_activity_self i _, ?_⟩
    rw [hrun, Prog.run, hf]
  . intro j c' p hj
    by_cases hji : j = i
    . rw [hji]
      exact hholder
    . exact h.exclusive j c' p ((t.set_activity_of_ne hji _).symm.trans hj)

theorem Coherent.unlock {t : Tasks ι γ σ ρ} {s : σ} (h : t.Coherent prog s) {i : ι} {c : γ} {r : ρ}
    (hinside : t.activity i = .inside c (.ret r))
    : (prog c).run s = some (r, t.shared)
        ∧
      { t.set i .idle with holder := none }.Coherent prog t.shared := by
  obtain ⟨hholder, hrun⟩ := h.inside hinside
  refine ⟨hrun, fun _ => rfl, by simp, ?_⟩
  intro j c' p hj
  by_cases hji : j = i
  . subst hji
    rw [show _ = _ from t.set_activity_self j .idle] at hj
    contradiction
  . have hholder' := h.exclusive j c' p ((t.set_activity_of_ne hji _).symm.trans hj)
    rw [hholder, Option.some.injEq] at hholder'
    exact absurd hholder'.symm hji

theorem Coherent.step {t t' : Tasks ι γ σ ρ} {s : σ} {e : TaskEvent ι γ ρ}
    (h : t.Coherent prog s) (hstep : t.Step prog e t')
    : ∃ (s' : σ), AtomicStep prog s e s' ∧ t'.Coherent prog s' := by
  cases hstep with
  | call hidle => exact ⟨s, rfl, h.call _ hidle⟩
  | lock hwaiting hfree => exact ⟨s, rfl, h.lock _ _ hfree⟩
  | step hinside hf => exact ⟨s, rfl, h.advance hinside hf⟩
  | unlock hinside =>
    obtain ⟨hrun, hcoherent⟩ := h.unlock hinside
    exact ⟨t.shared, hrun, hcoherent⟩

omit [DecidableEq ι] in
theorem coherent_idle (s : σ)
    : Coherent prog { shared := s, holder := none, activity := fun (_ : ι) => .idle } s := by
  exact ⟨fun _ => rfl, by simp, by simp⟩

omit [DecidableEq ι] in
theorem runAll_of_runs {s s' : σ} {es : List (TaskEvent ι γ ρ)}
    (h : Runs (AtomicStep prog) s es s')
    : runAll (fun c => (prog c).run) ((es.filterMap TaskEvent.returned).map Prod.fst) s
        =
      some ((es.filterMap TaskEvent.returned).map Prod.snd, s') := by
  induction h with
  | nil s => rfl
  | @cons s s' s'' e es head _ ih =>
    unfold AtomicStep at head
    cases hreturned : e.returned with
    | none =>
      rw [hreturned] at head
      rw [List.filterMap_cons_none hreturned, ← head, ih]
    | some cr =>
      obtain ⟨c, r⟩ := cr
      rw [hreturned] at head
      rw [List.filterMap_cons_some hreturned, List.map_cons, List.map_cons, runAll, head]
      dsimp only
      rw [ih]

/-- However the steps of the tasks interleave, the calls that return are executed one at a time. -/
theorem runs_atomic {t t' : Tasks ι γ σ ρ} {s : σ} {es : List (TaskEvent ι γ ρ)}
    (h : Runs (Step prog) t es t') (hs : t.Coherent prog s)
    : ∃ (s' : σ),
        runAll (fun c => (prog c).run) ((es.filterMap TaskEvent.returned).map Prod.fst) s
          =
        some ((es.filterMap TaskEvent.returned).map Prod.snd, s')
          ∧
        t'.Coherent prog s' := by
  obtain ⟨s', hruns, hcoherent⟩ := h.simulates (R := fun t s => t.Coherent prog s)
    (fun _ _ _ _ hs hstep => hs.step hstep) hs
  exact ⟨s', runAll_of_runs hruns, hcoherent⟩

/-- While a task has not returned one of the tasks can go on, unless a call blocks for ever. -/
theorem Coherent.progress {t : Tasks ι γ σ ρ} {s : σ} (h : t.Coherent prog s) {i : ι}
    (hbusy : t.activity i ≠ .idle) (htotal : ∀ (c : γ), (prog c).run s ≠ none)
    : ∃ (e : TaskEvent ι γ ρ) (t' : Tasks ι γ σ ρ),
        t.Step prog e t' ∧ ∀ (j : ι) (c : γ), e ≠ .call j c := by
  cases hholder : t.holder with
  | none =>
    cases hactivity : t.activity i with
    | idle => exact absurd hactivity hbusy
    | waiting c => exact ⟨_, _, .lock hactivity hholder, by simp⟩
    | inside c p =>
      have hheld := h.exclusive i c p hactivity
      rw [hholder] at hheld
      contradiction
  | some j =>
    obtain ⟨c, p, hinside, hrun⟩ := h.held j hholder
    have htotal := htotal c
    rw [hrun] at htotal
    cases p with
    | ret r => exact ⟨_, _, .unlock hinside, by simp⟩
    | step f next =>
      cases hf : f t.shared with
      | none => simp [Prog.run, hf] at htotal
      | some r => exact ⟨_, _, .step hinside hf, by simp⟩

end Tasks

end Modbus
