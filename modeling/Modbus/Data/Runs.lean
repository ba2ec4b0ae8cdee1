import Mathlib.Tactic.TypeStar

/-!
This module contains runs of machines. A machine is a relation whose steps have labels, or a
function that takes an input and gives an output, or nothing if it is stuck. What holds of each step
holds of every run.
-/

namespace Modbus

inductive Runs {σ ε : Type*} (step : σ → ε → σ → Prop) : σ → List ε → σ → Prop where
  | nil (s : σ) : Runs step s [] s
  | cons {s s' s'' : σ} {e : ε} {es : List ε} (head : step s e s') (tail : Runs step s' es s'')
    : Runs step s (e :: es) s''

namespace Runs

variable {σ τ ε : Type*} {step : σ → ε → σ → Prop} {step' : τ → ε → τ → Prop} {s s' s'' : σ}
  {es es' : List ε}

theorem append (h : Runs step s es s') (h' : Runs step s' es' s'')
    : Runs step s (es ++ es') s'' := by
  induction h with
  | nil => exact h'
  | cons head _ ih => exact .cons head (ih h')

theorem exists_cons {e : ε} (head : step s e s') (h : ∃ s'', Runs step s' es s'')
    : ∃ s'', Runs step s (e :: es) s'' := by
  obtain ⟨s'', tail⟩ := h
  exact ⟨s'', .cons head tail⟩

theorem forall_mem {P : ε → Prop} (hstep : ∀ s e s', step s e s' → P e) (h : Runs step s es s')
    : ∀ e ∈ es, P e := by
  induction h with
  | nil => simp
  | cons head _ ih =>
    rw [List.forall_mem_cons]
    exact ⟨hstep _ _ _ head, ih⟩

/-- A forward simulation carries runs over. -/
theorem simulates {R : σ → τ → Prop}
    (hstep : ∀ s t e s', R s t → step s e s' → ∃ t', step' t e t' ∧ R s' t')
    (h : Runs step s es s') {t : τ} (hs : R s t)
    : ∃ t', Runs step' t es t' ∧ R s' t' := by
  induction h generalizing t with
  | nil => exact ⟨t, .nil t, hs⟩
  | cons head _ ih =>
    obtain ⟨t', hstep', hs'⟩ := hstep _ _ _ _ hs head
    obtain ⟨t'', hruns, hs''⟩ := ih hs'
    exact ⟨t'', .cons hstep' hruns, hs''⟩

end Runs

/-- The machine that a function is, over a list of inputs. -/
def runAll {σ α β : Type*} (f : α → σ → Option (β × σ)) : List α → σ → Option (List β × σ)
  | [], s => some ([], s)
  | a :: as, s =>
    match f a s with
    | none => none
    | some (b, s) =>
      match runAll f as s with
      | none => none
      | some (bs, s) => some (b :: bs, s)

section RunAll

variable {σ τ α β : Type*} {f : α → σ → Option (β × σ)} {step : τ → α × β → τ → Prop}

theorem runAll_cons {a : α} {as : List α} {s s'' : σ} {bs : List β}
    (h : runAll f (a :: as) s = some (bs, s''))
    : ∃ (b : β) (s' : σ) (bs' : List β),
        f a s = some (b, s') ∧ runAll f as s' = some (bs', s'') ∧ bs = b :: bs' := by
  rw [runAll] at h
  split at h
  . cases h
  . next b s' hf =>
    split at h
    . cases h
    . next bs' s₂ hrun =>
      cases h
      exact ⟨b, s', bs', hf, hrun, rfl⟩

/--
If every input leads to an output that the relation allows then every list of inputs leads to
outputs that its runs allow.
-/
theorem runAll_simulates {P : α → Prop} {R : σ → τ → Prop}
    (hstep : ∀ a s t, P a → R s t → ∃ b s' t', f a s = some (b, s') ∧ step t (a, b) t' ∧ R s' t')
    {as : List α} (has : ∀ a ∈ as, P a) {s : σ} {t : τ} (hs : R s t)
    : ∃ (bs : List β) (s' : σ) (t' : τ),
        runAll f as s = some (bs, s')
          ∧
        bs.length = as.length
          ∧
        Runs step t (as.zip bs) t'
          ∧
        R s' t' := by
  induction as generalizing s t with
  | nil => exact ⟨[], s, t, rfl, rfl, .nil t, hs⟩
  | cons a as ih =>
    rw [List.forall_mem_cons] at has
    obtain ⟨b, s', t', hf, head, hs'⟩ := hstep a s t has.1 hs
    obtain ⟨bs, s'', t'', hrun, hlen, hruns, hs''⟩ := ih has.2 hs'
    refine ⟨b :: bs, s'', t'', ?_, ?_, .cons head hruns, hs''⟩
    . rw [runAll, hf]
      dsimp only
      rw [hrun]
    . rw [List.length_cons, List.length_cons, hlen]

end RunAll

end Modbus
