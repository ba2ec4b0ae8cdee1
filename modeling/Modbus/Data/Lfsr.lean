import Mathlib.Data.Nat.Bitwise
import Mathlib.Algebra.Group.Nat.Even
import Mathlib.Logic.Function.Iterate

/-!
This module contains the shift register behind a cyclic redundancy check, of any width and with any
taps. The register is fed one bit after the other, the one that is shifted out comes back through
the taps. Everything is linear for exclusive or, so that an error is detected if and only if the
pattern of the wrong bits, fed to a register that holds 0, does not leave 0 behind.
-/

namespace Lfsr

section Step

variable {w : Nat} (taps : BitVec w)

def step (r : BitVec w) : BitVec w :=
  if r.getLsbD 0 then (r >>> 1) ^^^ taps else r >>> 1

theorem step_zero : step taps 0#w = 0#w := by
  simp [step]

theorem step_xor (r s : BitVec w) : step taps (r ^^^ s) = step taps r ^^^ step taps s := by
  unfold step
  rw [BitVec.getLsbD_xor]
  rw [BitVec.ushiftRight_xor_distrib]
  cases r.getLsbD 0 with
  | false =>
    cases s.getLsbD 0 with
    | false => simp
    | true => simp [BitVec.xor_assoc]
  | true =>
    cases s.getLsbD 0 with
    | false =>
      simp only [Bool.xor_false, ↓reduceIte, Bool.false_eq_true]
      ac_rfl
    | true =>
      have hcancel : (r >>> 1 ^^^ taps) ^^^ (s >>> 1 ^^^ taps)
          = (r >>> 1 ^^^ s >>> 1) ^^^ (taps ^^^ taps) := by ac_rfl
      simp [hcancel]

theorem iterate_step_zero (n : Nat) : (step taps)^[n] 0#w = 0#w := by
  apply Function.iterate_fixed
  apply step_zero

theorem iterate_step_xor (n : Nat) (r s : BitVec w)
    : (step taps)^[n] (r ^^^ s) = (step taps)^[n] r ^^^ (step taps)^[n] s := by
  induction n generalizing r s with
  | zero => rfl
  | succ n ih =>
    simp only [Function.iterate_succ_apply]
    rw [step_xor]
    rw [ih]

theorem step_shiftLeft {r : BitVec w} (h : r.getLsbD (w - 1) = false)
    : step taps (r <<< 1) = r := by
  unfold step
  rw [if_neg (by simp)]
  apply BitVec.eq_of_getLsbD_eq
  intro i hi
  by_cases hlast : i = w - 1
  . rw [hlast, h]
    simp
    omega
  . simp
    omega

variable (htop : taps.getLsbD (w - 1) = true)

include htop

theorem step_ne_zero {r : BitVec w} (h : r ≠ 0#w) : step taps r ≠ 0#w := by
  intro hzero
  apply h
  have hw : 0 < w := by
    apply Nat.pos_of_ne_zero
    rintro rfl
    simp at htop
  unfold step at hzero
  split at hzero
  . -- The bit that comes in at the top is 0, so that the one of the taps stays.
    have htop' := congrArg (fun s => s.getLsbD (w - 1)) hzero
    rw [BitVec.getLsbD_xor, htop, BitVec.getLsbD_ushiftRight] at htop'
    rw [show 1 + (w - 1) = w by omega] at htop'
    simp at htop'
  . next hlow =>
    apply BitVec.eq_of_getLsbD_eq
    intro i hi
    cases i with
    | zero => simpa using hlow
    | succ i =>
      have hbit := congrArg (fun s => s.getLsbD i) hzero
      rw [BitVec.getLsbD_ushiftRight, Nat.add_comm] at hbit
      simpa using hbit

theorem iterate_step_ne_zero (n : Nat) {r : BitVec w} (h : r ≠ 0#w)
    : (step taps)^[n] r ≠ 0#w := by
  induction n generalizing r with
  | zero => exact h
  | succ n ih =>
    rw [Function.iterate_succ_apply]
    apply ih
    exact step_ne_zero taps htop h

end Step

/-- The bits as a word, the first one lowest. -/
def wordOf (w : Nat) (bits : List Bool) : BitVec w :=
  (BitVec.ofBoolListLE bits).setWidth w

theorem getLsbD_wordOf (w : Nat) (bits : List Bool) (i : Nat)
    : (wordOf w bits).getLsbD i = (decide (i < w) && bits.getD i false) := by
  simp [wordOf]

theorem wordOf_cons (w : Nat) (b : Bool) (bits : List Bool)
    : wordOf w (b :: bits) = wordOf w [b] ^^^ wordOf w bits <<< 1 := by
  apply BitVec.eq_of_getLsbD_eq
  intro i hi
  rw [BitVec.getLsbD_xor, BitVec.getLsbD_shiftLeft]
  simp only [getLsbD_wordOf]
  cases i with
  | zero => simp
  | succ i =>
    have hi' : i < w := by omega
    simp [hi, hi']

section Feed

variable {w : Nat} (taps : BitVec w)

def feed (r : BitVec w) (bits : List Bool) : BitVec w :=
  bits.foldl (fun r b => step taps (r ^^^ wordOf w [b])) r

theorem feed_append (r : BitVec w) (bits bits' : List Bool)
    : feed taps r (bits ++ bits') = feed taps (feed taps r bits) bits' := by
  simp [feed]

theorem wordOf_false : wordOf w [false] = 0#w := by
  apply BitVec.eq_of_getLsbD_eq
  intro i hi
  rw [getLsbD_wordOf]
  cases i <;> simp

theorem wordOf_xor (b c : Bool) : wordOf w [b ^^ c] = wordOf w [b] ^^^ wordOf w [c] := by
  apply BitVec.eq_of_getLsbD_eq
  intro i hi
  rw [BitVec.getLsbD_xor]
  simp only [getLsbD_wordOf]
  cases i <;> simp [hi]

theorem feed_replicate_false (r : BitVec w) (n : Nat)
    : feed taps r (List.replicate n false) = (step taps)^[n] r := by
  induction n generalizing r with
  | zero => rfl
  | succ n ih =>
    rw [Function.iterate_succ_apply, ← ih]
    simp only [feed, List.replicate_succ, List.foldl_cons]
    rw [wordOf_false, BitVec.xor_zero]

/-- The bits that reach the lowest place one by one may as well be put into the register at once. -/
theorem feed_eq_iterate (r : BitVec w) {bits : List Bool} (h : bits.length ≤ w)
    : feed taps r bits = (step taps)^[bits.length] (r ^^^ wordOf w bits) := by
  induction bits generalizing r with
  | nil =>
    have hnil : wordOf w [] = 0#w := by
      apply BitVec.eq_of_getLsbD_eq
      simp [getLsbD_wordOf]
    rw [hnil, BitVec.xor_zero]
    rfl
  | cons b bits ih =>
    rw [List.length_cons] at h
    have htop : (wordOf w bits).getLsbD (w - 1) = false := by
      rw [getLsbD_wordOf, List.getD_eq_default _ _ (by omega), Bool.and_false]
    calc feed taps r (b :: bits)
      _ = feed taps (step taps (r ^^^ wordOf w [b])) bits := rfl
      _ = (step taps)^[bits.length] (step taps (r ^^^ wordOf w [b]) ^^^ wordOf w bits) := by
        apply ih
        omega
      _ = (step taps)^[bits.length] (step taps (r ^^^ wordOf w (b :: bits))) := by
        rw [wordOf_cons w b bits, ← BitVec.xor_assoc, step_xor taps (r ^^^ wordOf w [b])]
        rw [step_shiftLeft taps htop]

def differences (bits bits' : List Bool) : List Bool :=
  List.zipWith xor bits bits'

theorem feed_xor (r s : BitVec w) {bits bits' : List Bool} (h : bits.length = bits'.length)
    : feed taps (r ^^^ s) (differences bits bits') = feed taps r bits ^^^ feed taps s bits' := by
  induction bits generalizing r s bits' with
  | nil =>
    cases bits' with
    | nil => rfl
    | cons b' bits' => simp at h
  | cons b bits ih =>
    cases bits' with
    | nil => simp at h
    | cons b' bits' =>
      have hstep : step taps ((r ^^^ s) ^^^ wordOf w [b ^^ b'])
          = step taps (r ^^^ wordOf w [b]) ^^^ step taps (s ^^^ wordOf w [b']) := by
        rw [← step_xor, wordOf_xor]
        congr 1
        ac_rfl
      specialize ih (step taps (r ^^^ wordOf w [b])) (step taps (s ^^^ wordOf w [b']))
        (by simpa using h)
      rw [← hstep] at ih
      exact ih

end Feed

def parity (bits : List Bool) : Bool :=
  bits.foldr xor false

theorem parity_append (bits bits' : List Bool)
    : parity (bits ++ bits') = (parity bits ^^ parity bits') := by
  induction bits with
  | nil => simp [parity]
  | cons b bits ih =>
    simp only [parity, List.cons_append, List.foldr_cons] at ih ⊢
    rw [ih, Bool.xor_assoc]

theorem parity_map_xor (f g : Nat → Bool) (is : List Nat)
    : parity (is.map (fun i => f i ^^ g i)) = (parity (is.map f) ^^ parity (is.map g)) := by
  induction is with
  | nil => rfl
  | cons i is ih =>
    simp only [parity, List.map_cons, List.foldr_cons] at ih ⊢
    rw [ih, Bool.xor_assoc, Bool.xor_assoc, Bool.xor_left_comm (g i)]

theorem parity_eq_true_iff (bits : List Bool) : parity bits = true ↔ Odd (bits.count true) := by
  induction bits with
  | nil => simp [parity]
  | cons b bits ih =>
    have hcons : parity (b :: bits) = (b ^^ parity bits) := rfl
    rw [hcons]
    cases b with
    | false => simpa using ih
    | true =>
      rw [List.count_cons_self, Nat.odd_add_one, ← ih]
      simp

def bitsOf {w : Nat} (r : BitVec w) : List Bool :=
  (List.range w).map r.getLsbD

section Parity

variable {w : Nat} (taps : BitVec w)

theorem parity_bitsOf_xor (r s : BitVec w)
    : parity (bitsOf (r ^^^ s)) = (parity (bitsOf r) ^^ parity (bitsOf s)) := by
  have hxor : (r ^^^ s).getLsbD = fun i => r.getLsbD i ^^ s.getLsbD i := by
    funext i
    apply BitVec.getLsbD_xor
  unfold bitsOf
  rw [hxor, parity_map_xor]

theorem parity_bitsOf_ushiftRight (r : BitVec w)
    : parity (bitsOf r) = (r.getLsbD 0 ^^ parity (bitsOf (r >>> 1))) := by
  have hshift : (r >>> 1).getLsbD = r.getLsbD ∘ Nat.succ := by
    funext i
    rw [BitVec.getLsbD_ushiftRight, Nat.add_comm]
    rfl
  have hfront : (List.range (w + 1)).map r.getLsbD = r.getLsbD 0 :: bitsOf (r >>> 1) := by
    rw [List.range_succ_eq_map, List.map_cons, List.map_map, bitsOf, hshift]
  have hback : (List.range (w + 1)).map r.getLsbD = bitsOf r ++ [false] := by
    rw [List.range_succ, List.map_append, bitsOf]
    simp
  have hparity := congrArg parity (hback.symm.trans hfront)
  rw [parity_append] at hparity
  simpa [parity] using hparity

theorem parity_bitsOf_wordOf (hw : 0 < w) (b : Bool) : parity (bitsOf (wordOf w [b])) = b := by
  rw [parity_bitsOf_ushiftRight]
  have hzero : wordOf w [b] >>> 1 = 0#w := by
    apply BitVec.eq_of_getLsbD_eq
    intro i hi
    rw [BitVec.getLsbD_ushiftRight, Nat.add_comm, getLsbD_wordOf]
    simp
  have hparity : parity (bitsOf 0#w) = false := by
    have hself := parity_bitsOf_xor (0#w) (0#w)
    rw [BitVec.xor_self, Bool.xor_self] at hself
    exact hself
  rw [hzero, hparity, getLsbD_wordOf]
  simp [hw]

variable (hodd : parity (bitsOf taps) = true)

include hodd

theorem parity_step (r : BitVec w) : parity (bitsOf (step taps r)) = parity (bitsOf r) := by
  rw [parity_bitsOf_ushiftRight r]
  unfold step
  cases hlow : r.getLsbD 0 with
  | false => simp
  | true =>
    simp only [↓reduceIte]
    rw [parity_bitsOf_xor, hodd, Bool.xor_comm]

theorem parity_feed (r : BitVec w) (bits : List Bool)
    : parity (bitsOf (feed taps r bits)) = (parity (bitsOf r) ^^ parity bits) := by
  have hw : 0 < w := by
    apply Nat.pos_of_ne_zero
    rintro rfl
    simp [bitsOf, parity] at hodd
  induction bits generalizing r with
  | nil => simp [feed, parity]
  | cons b bits ih =>
    calc parity (bitsOf (feed taps r (b :: bits)))
      _ = (parity (bitsOf (step taps (r ^^^ wordOf w [b]))) ^^ parity bits) := by apply ih
      _ = ((parity (bitsOf r) ^^ b) ^^ parity bits) := by
        rw [parity_step taps hodd, parity_bitsOf_xor, parity_bitsOf_wordOf hw]
      _ = (parity (bitsOf r) ^^ parity (b :: bits)) := by
        rw [Bool.xor_assoc]
        rfl

/-- An odd number of wrong bits is detected if the number of taps is odd. -/
theorem feed_ne_zero_of_odd {bits : List Bool} (h : Odd (bits.count true))
    : feed taps 0#w bits ≠ 0#w := by
  intro hzero
  have hparity := parity_feed taps hodd (0#w) bits
  rw [hzero, (parity_eq_true_iff bits).mpr h] at hparity
  simp at hparity

end Parity

section Detect

variable {w : Nat} (taps : BitVec w) (htop : taps.getLsbD (w - 1) = true)

theorem exists_of_count_succ {bits : List Bool} {n : Nat} (h : bits.count true = n + 1)
    : ∃ (k : Nat) (rest : List Bool),
        bits = List.replicate k false ++ true :: rest ∧ rest.count true = n := by
  induction bits with
  | nil => simp at h
  | cons b bits ih =>
    cases b with
    | false =>
      obtain ⟨k, rest, hbits, hcount⟩ := ih (by simpa using h)
      refine ⟨k + 1, rest, ?_, hcount⟩
      rw [hbits]
      rfl
    | true => exact ⟨0, bits, rfl, by simpa using h⟩

theorem eq_replicate_false {bits : List Bool} (h : true ∉ bits)
    : bits = List.replicate bits.length false := by
  apply List.eq_replicate_of_mem
  intro b hb
  cases b with
  | false => rfl
  | true => exact absurd hb h

theorem feed_zero_replicate (n : Nat) : feed taps 0#w (List.replicate n false) = 0#w := by
  rw [feed_replicate_false, iterate_step_zero]

def avoids (target : BitVec w) : Nat → BitVec w → Bool
  | 0, _ => true
  | n + 1, r => step taps r != target && avoids target n (step taps r)

theorem iterate_step_ne_of_avoids {target : BitVec w} {n : Nat} {r : BitVec w}
    (h : avoids taps target n r = true) (d : Nat) (hpos : 0 < d) (hle : d ≤ n)
    : (step taps)^[d] r ≠ target := by
  induction n generalizing r d with
  | zero => omega
  | succ n ih =>
    simp only [avoids, Bool.and_eq_true, bne_iff_ne, ne_eq] at h
    obtain ⟨d, rfl⟩ : ∃ k, d = k + 1 := ⟨d - 1, by omega⟩
    rw [Function.iterate_succ_apply]
    cases d with
    | zero => exact h.1
    | succ d =>
      apply ih h.2
      . omega
      . omega

include htop

theorem feed_replicate_ne_zero (n : Nat) {r : BitVec w} (h : r ≠ 0#w)
    : feed taps r (List.replicate n false) ≠ 0#w := by
  rw [feed_replicate_false]
  exact iterate_step_ne_zero taps htop n h

/-- Two wrong bits are detected if they are nearer to each other than the length of the cycle. -/
theorem feed_ne_zero_of_two {n : Nat}
    (hcycle : ∀ d, 0 < d → d < n → (step taps)^[d] (wordOf w [true]) ≠ wordOf w [true])
    {bits : List Bool} (hlen : bits.length ≤ n) (h : bits.count true = 2)
    : feed taps 0#w bits ≠ 0#w := by
  obtain ⟨i, rest, rfl, hrest⟩ := exists_of_count_succ h
  obtain ⟨j, rest', rfl, hrest'⟩ := exists_of_count_succ hrest
  have hnone : true ∉ rest' := List.count_eq_zero.mp hrest'
  rw [eq_replicate_false hnone]
  simp only [List.length_append, List.length_cons, List.length_replicate] at hlen
  rw [feed_append, feed_zero_replicate]
  change feed taps (feed taps _ [true]) _ ≠ 0#w
  rw [feed_append, feed_replicate_false]
  change feed taps (feed taps _ [true]) _ ≠ 0#w
  apply feed_replicate_ne_zero taps htop
  -- The first bit has gone around for `j + 1` steps when the second one meets it.
  have hfirst : (step taps)^[j] (feed taps 0#w [true]) = (step taps)^[j + 1] (wordOf w [true]) := by
    rw [Function.iterate_succ_apply]
    simp only [feed, List.foldl_cons, List.foldl_nil, BitVec.zero_xor]
  rw [hfirst]
  apply step_ne_zero taps htop
  rw [ne_eq, BitVec.xor_eq_zero_iff]
  apply hcycle
  . omega
  . omega

theorem feed_append_ne_zero {front burst back : List Bool} (hfront : true ∉ front)
    (hburst : true ∈ burst) (hlen : burst.length ≤ w) (hback : true ∉ back)
    : feed taps 0#w (front ++ (burst ++ back)) ≠ 0#w := by
  rw [eq_replicate_false hfront, eq_replicate_false hback]
  rw [feed_append, feed_zero_replicate, feed_append]
  apply feed_replicate_ne_zero taps htop
  rw [feed_eq_iterate taps _ hlen, BitVec.zero_xor]
  apply iterate_step_ne_zero taps htop
  intro hzero
  obtain ⟨j, hj, hbit⟩ := List.mem_iff_getElem.mp hburst
  have hword := congrArg (fun r => r.getLsbD j) hzero
  rw [getLsbD_wordOf, List.getD_eq_getElem _ _ hj, hbit] at hword
  simp at hword
  omega

/-- A burst of wrong bits that fits into the register is detected. -/
theorem feed_ne_zero_of_burst {bits : List Bool} (hmem : true ∈ bits) (i : Nat)
    (hwithin : ∀ j, bits[j]? = some true → i ≤ j ∧ j < i + w)
    : feed taps 0#w bits ≠ 0#w := by
  have hsplit : bits = bits.take i ++ ((bits.drop i).take w ++ (bits.drop i).drop w) := by
    rw [List.take_append_drop, List.take_append_drop]
  have hfront : true ∉ bits.take i := by
    intro h
    obtain ⟨j, hj⟩ := List.mem_iff_getElem?.mp h
    rw [List.getElem?_take] at hj
    split at hj
    . have := hwithin j hj
      omega
    . contradiction
  have hback : true ∉ (bits.drop i).drop w := by
    intro h
    obtain ⟨j, hj⟩ := List.mem_iff_getElem?.mp h
    rw [List.getElem?_drop, List.getElem?_drop] at hj
    have := hwithin _ hj
    omega
  have hburst : true ∈ (bits.drop i).take w := by
    rw [hsplit, List.mem_append, List.mem_append] at hmem
    tauto
  rw [hsplit]
  exact feed_append_ne_zero taps htop hfront hburst (List.length_take_le _ _) hback

end Detect

end Lfsr
