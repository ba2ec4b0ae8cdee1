import Mathlib.Data.List.Count

/-!
This module contains logs of the accesses to resources that are acquired, used and released, and
what it means for a log to be in order. A resource that was released may be acquired again.
-/

theorem concat_eq_append_cons {α : Type} {log before after : List α} {e e' : α}
    (h : log ++ [e] = before ++ e' :: after)
    : (log = before ∧ e = e' ∧ after = []) ∨
      ∃ after', log = before ++ e' :: after' ∧ after = after' ++ [e] := by
  obtain rfl | ⟨after', last, rfl⟩ := after.eq_nil_or_concat
  . left
    have := List.append_inj' h rfl
    simpa using this
  . right
    have hsplit : log ++ [e] = (before ++ e' :: after') ++ [last] := by
      rw [h]
      simp
    obtain ⟨hlog, hlast⟩ := List.append_inj' hsplit rfl
    refine ⟨after', hlog, ?_⟩
    rw [List.cons.injEq] at hlast
    rw [hlast.1, List.concat_eq_append]

theorem last_of_concat {α : Type} {P : α → Prop} {log : List α} (h : ∀ e ∈ log, ¬P e) {last : α}
    (before : List α) (e : α) (after : List α) (hsplit : log ++ [last] = before ++ e :: after)
    (he : P e)
    : after = [] := by
  obtain ⟨-, -, hnil⟩ | ⟨after', hlog, -⟩ := concat_eq_append_cons hsplit
  . exact hnil
  . exact absurd he (h e (by simp [hlog]))

inductive Access (α : Type) where
  | acquire (a : α)
  | use (a : α)
  | release (a : α)
  deriving DecidableEq, Repr

namespace Access

variable {α : Type}

def Held (log : List (Access α)) (a : α) : Prop :=
  ∃ before after, log = before ++ acquire a :: after ∧ release a ∉ after

def Latest (log : List (Access α)) (a : α) : Prop :=
  ∃ before after, log = before ++ acquire a :: after ∧ ∀ (b : α), acquire b ∉ after

/-- Of all the resources the log leaves this one open, if any. -/
def Leaves (log : List (Access α)) (o : Option α) : Prop :=
  ∀ (a : α), Held log a ↔ o = some a

def Allowed (log : List (Access α)) : Access α → Prop
  | acquire _ => Leaves log none
  | use a => Held log a
  | release a => Held log a

/--
Resources are acquired one at a time, and only a resource that is held is used or released.
-/
def Proper (log : List (Access α)) : Prop :=
  ∀ (before : List (Access α)) (e : Access α) (after : List (Access α)),
    log = before ++ e :: after → Allowed before e

def ReleasedOnce [DecidableEq α] (log : List (Access α)) (a : α) : Prop :=
  ∃ before after, log = before ++ acquire a :: after ∧ acquire a ∉ after ∧
    after.count (release a) = 1

/-- The resource is released exactly once, and then neither used nor released any more. -/
structure ReleasedLast [DecidableEq α] (log : List (Access α)) (a : α) : Prop where
  once : log.count (release a) = 1
  last : ∀ (before after : List (Access α)),
    log = before ++ release a :: after → use a ∉ after ∧ release a ∉ after

section Append

variable {log : List (Access α)} {a b : α}

theorem held_append (e : Access α)
    : Held (log ++ [e]) b ↔ e = acquire b ∨ (Held log b ∧ e ≠ release b) := by
  constructor
  . intro ⟨before, after, hlog, hnot⟩
    obtain ⟨-, he, -⟩ | ⟨after', hlog', rfl⟩ := concat_eq_append_cons hlog
    . exact .inl he
    . right
      rw [List.mem_append, not_or, List.mem_singleton] at hnot
      exact ⟨⟨before, after', hlog', hnot.1⟩, fun he => hnot.2 he.symm⟩
  . intro h
    obtain he | ⟨⟨before, after, hlog, hnot⟩, hne⟩ := h
    . exact ⟨log, [], by rw [he], by simp⟩
    . refine ⟨before, after ++ [e], by simp [hlog], ?_⟩
      rw [List.mem_append, not_or, List.mem_singleton]
      exact ⟨hnot, fun he => hne he.symm⟩

theorem latest_append_acquire : Latest (log ++ [acquire a]) a := by
  exact ⟨log, [], rfl, by simp⟩

theorem Latest.append (h : Latest log a) {es : List (Access α)} (hes : ∀ (b : α), acquire b ∉ es)
    : Latest (log ++ es) a := by
  obtain ⟨before, after, hlog, hnot⟩ := h
  refine ⟨before, after ++ es, by simp [hlog], ?_⟩
  intro b
  rw [List.mem_append, not_or]
  exact ⟨hnot b, hes b⟩

theorem Proper.append (h : Proper log) {e : Access α} (he : Allowed log e)
    : Proper (log ++ [e]) := by
  intro before e' after hlog
  obtain ⟨hlog', he', -⟩ | ⟨after', hlog', -⟩ := concat_eq_append_cons hlog
  . rw [← hlog', ← he']
    exact he
  . exact h before e' after' hlog'

end Append

/-- The log is in order and leaves the resource open that was acquired last, or none. -/
structure Holds (log : List (Access α)) (o : Option α) : Prop where
  proper : Proper log
  leaves : Leaves log o
  latest : ∀ a ∈ o, Latest log a

namespace Holds

variable {log : List (Access α)} {a : α}

theorem nil : Holds ([] : List (Access α)) none := by
  refine ⟨?_, ?_, nofun⟩
  . intro before e after hlog
    simp at hlog
  . intro a
    simp [Held]

theorem acquire (h : Holds log none) (a : α) : Holds (log ++ [.acquire a]) (some a) := by
  refine ⟨h.proper.append h.leaves, ?_, ?_⟩
  . intro b
    rw [held_append, h.leaves b]
    simp
  . intro b hb
    cases hb
    apply latest_append_acquire

theorem use (h : Holds log (some a)) : Holds (log ++ [.use a]) (some a) := by
  refine ⟨h.proper.append ((h.leaves a).mpr rfl), ?_, ?_⟩
  . intro b
    rw [held_append, h.leaves b]
    simp
  . intro b hb
    exact (h.latest b hb).append (by simp)

theorem release (h : Holds log (some a)) : Holds (log ++ [.release a]) none := by
  refine ⟨h.proper.append ((h.leaves a).mpr rfl), ?_, nofun⟩
  intro b
  rw [held_append, h.leaves b]
  simp

theorem uses (h : Holds log (some a)) {es : List (Access α)} (hes : ∀ e ∈ es, e = .use a)
    : Holds (log ++ es) (some a) := by
  induction es generalizing log with
  | nil => simpa using h
  | cons e es ih =>
    rw [hes e (by simp)]
    have hstep := ih h.use (fun e he => hes e (by simp [he]))
    rwa [List.append_assoc, List.singleton_append] at hstep

end Holds

theorem Proper.acquire_mem {log before between after : List (Access α)} {a : α} (h : Proper log)
    (hlog : log = before ++ release a :: between ++ release a :: after)
    : acquire a ∈ between := by
  obtain ⟨front, back, heq, hnot⟩ := h _ _ _ hlog
  -- The last acquisition is not before the first release.
  rw [List.append_eq_append_iff] at heq
  obtain ⟨mid, -, hmid⟩ | ⟨mid, -, hmid⟩ := heq
  . cases mid with
    | nil => simp at hmid
    | cons e mid =>
      simp only [List.cons_append, List.cons.injEq] at hmid
      rw [hmid.2]
      simp
  . cases mid with
    | nil => simp at hmid
    | cons e mid =>
      simp only [List.cons_append, List.cons.injEq] at hmid
      rw [hmid.2] at hnot
      simp at hnot

theorem Proper.releasedOnce [DecidableEq α] {log : List (Access α)} {a : α} (h : Proper log)
    (hlatest : Latest log a) (hheld : ¬Held log a)
    : ReleasedOnce log a := by
  obtain ⟨before, after, hlog, hnone⟩ := hlatest
  have hafter := hnone a
  refine ⟨before, after, hlog, hafter, ?_⟩
  have hmem : release a ∈ after := by
    by_contra hnot
    exact hheld ⟨before, after, hlog, hnot⟩
  obtain ⟨front, back, hsplit, hfront⟩ := List.eq_append_cons_of_mem hmem
  have hback : release a ∉ back := by
    intro hmem'
    obtain ⟨mid, rest, rfl⟩ := List.append_of_mem hmem'
    have hlog' : log = (before ++ acquire a :: front) ++ release a :: mid ++ release a :: rest := by
      rw [hlog, hsplit]
      simp
    apply hafter
    rw [hsplit]
    simp [h.acquire_mem hlog']
  rw [hsplit, List.count_append, List.count_cons_self]
  rw [List.count_eq_zero_of_not_mem hfront, List.count_eq_zero_of_not_mem hback]

theorem releasedLast_of_uses [DecidableEq α] {log : List (Access α)} {a : α}
    (h : ∀ e ∈ log, e = use a)
    : ReleasedLast (log ++ [release a]) a := by
  have hnot : release a ∉ log := by
    intro hmem
    have heq := h _ hmem
    contradiction
  constructor
  . rw [List.count_append, List.count_eq_zero_of_not_mem hnot]
    simp
  . intro before after hlog
    obtain ⟨-, -, rfl⟩ | ⟨after', hlog', -⟩ := concat_eq_append_cons hlog
    . simp
    . rw [hlog'] at hnot
      simp at hnot

end Access
