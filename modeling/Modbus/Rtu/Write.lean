import Modbus.Data.Access
import Modbus.Rtu.Receive

/-!
This module contains what `mb_rtu_write` makes of the results of `os_rtu_write`. It keeps them in a
variable that is never negative, so that it takes an error for a large number of bytes and goes on.
-/

namespace Modbus

inductive WriteResult where
  | error
  | accepted (n : Nat)
  deriving DecidableEq, Repr

namespace WriteResult

/-- No more is accepted than was offered. -/
def value (size : Nat) : WriteResult → Int
  | error => -1
  | accepted n => (min n size : Nat)

def count : WriteResult → Nat
  | error => 0
  | accepted n => n

end WriteResult

structure WriteCall where
  p : Int
  size : Nat
  result : Int
  deriving DecidableEq, Repr

def WriteCall.bytes (buffer : Mem) (call : WriteCall) : List UInt8 :=
  buffer.load call.p.toNat call.result.toNat

/-- A serial port with the given results of `os_rtu_write`, which keeps the calls. -/
def writePort (results : Nat → WriteResult) : RtuOs (List WriteCall) where
  write _ p size calls :=
    let result := (results calls.length).value size
    (result, calls ++ [{ p, size, result }])
  read _ calls := (none, calls)
  rxAvail calls := (-1, calls)
  txDrain _ calls := calls
  eventSet _ calls := calls
  eventClr _ calls := calls
  eventWait _ _ _ := none
  txEnable := none
  tmrStart _ calls := calls

/--
The first result that is not positive is the last one. No call reaches outside of the buffer, and
what is accepted is the front of it, or all of it if no call fails.
-/
structure CleanStop (buffer : Mem) (size : Nat) (calls : List WriteCall) : Prop where
  last : ∀ (before : List WriteCall) (call : WriteCall) (after : List WriteCall),
    calls = before ++ call :: after → call.result ≤ 0 → after = []
  inside : ∀ call ∈ calls, 0 ≤ call.p ∧ call.p + call.size ≤ size
  front : calls.flatMap (WriteCall.bytes buffer) <+: buffer.load 0 size
  whole : (∀ call ∈ calls, 0 < call.result) →
    calls.flatMap (WriteCall.bytes buffer) = buffer.load 0 size

def StopsCleanly (results : Nat → WriteResult) (buffer : Mem) (size : Nat) : Prop :=
  ∃ (rounds : Nat) (calls : List WriteCall),
    mbRtuWrite (writePort results) rounds buffer size [] = some calls ∧
      CleanStop buffer size calls

def taken (results : Nat → WriteResult) : Nat → Nat
  | 0 => 0
  | k + 1 => taken results k + (results k).count

theorem taken_le (results : Nat → WriteResult) {j k : Nat} (h : j ≤ k)
    : taken results j ≤ taken results k := by
  induction h with
  | refl => exact Nat.le_refl _
  | step h ih =>
    rw [taken]
    omega

section Run

variable {results : Nat → WriteResult} {buffer : Mem} {size : Nat}

structure CleanRun (buffer : Mem) (size p : Nat) (calls : List WriteCall) : Prop where
  positive : ∀ call ∈ calls, 0 < call.result
  inside : ∀ call ∈ calls, 0 ≤ call.p ∧ call.p + call.size ≤ size
  front : calls.flatMap (WriteCall.bytes buffer) = buffer.load 0 p

theorem CleanRun.whole {calls : List WriteCall} (h : CleanRun buffer size size calls)
    : CleanStop buffer size calls := by
  refine ⟨?_, h.inside, ?_, fun _ => h.front⟩
  . intro before call after hcalls hresult
    have hpos := h.positive call (by simp [hcalls])
    omega
  . exact ⟨[], by rw [h.front, List.append_nil]⟩

theorem CleanRun.inside_concat {p : Nat} {calls : List WriteCall} (h : CleanRun buffer size p calls)
    (hp : p ≤ size) (result : Int)
    : ∀ (call : WriteCall), call ∈ calls ++ [{ p, size := size - p, result }] →
        0 ≤ call.p ∧ call.p + call.size ≤ size := by
  rw [List.forall_mem_append, List.forall_mem_singleton]
  refine ⟨h.inside, ?_⟩
  dsimp only
  omega

theorem CleanRun.concat {p n : Nat} {calls : List WriteCall} (h : CleanRun buffer size p calls)
    (hp : p ≤ size) (hn : 0 < n)
    : CleanRun buffer size (p + n) (calls ++ [{ p, size := size - p, result := n }]) := by
  refine ⟨?_, h.inside_concat hp n, ?_⟩
  . rw [List.forall_mem_append, List.forall_mem_singleton]
    exact ⟨h.positive, Int.natCast_pos.mpr hn⟩
  . rw [List.flatMap_append, h.front, Mem.load_add]
    simp [WriteCall.bytes]

theorem CleanRun.stop {p : Nat} {calls : List WriteCall} (h : CleanRun buffer size p calls)
    (hp : p ≤ size)
    : CleanStop buffer size (calls ++ [{ p, size := size - p, result := 0 }]) := by
  refine ⟨?_, h.inside_concat hp 0, ?_, ?_⟩
  . -- Only the last call has not been successful.
    apply last_of_concat
    intro call hcall
    have hpos := h.positive call hcall
    omega
  . rw [List.flatMap_append, h.front]
    simpa [WriteCall.bytes] using Mem.load_front buffer 0 hp
  . intro hall
    have hlast : (0 : Int) < 0 := hall { p, size := size - p, result := 0 } (by simp)
    exact absurd hlast (by decide)

variable (hsize : size < 2 ^ 63)

include hsize

theorem mbRtuWrite.go_clean
    (hgood : ∀ (k : Nat), (∀ j < k, results j ≠ .accepted 0) → taken results k < size →
      results k ≠ .error)
    {rounds p : Nat} (hrounds : size - p < rounds) {calls : List WriteCall}
    (hp : p = min (taken results calls.length) size)
    (hbefore : ∀ j < calls.length, results j ≠ .accepted 0) (hrun : CleanRun buffer size p calls)
    : ∃ (calls' : List WriteCall),
        mbRtuWrite.go (writePort results) buffer rounds p (size - p) calls = some calls' ∧
          CleanStop buffer size calls' := by
  induction rounds generalizing p calls with
  | zero => omega
  | succ rounds ih =>
    rw [mbRtuWrite.go]
    by_cases hmore : size - p > 0
    . rw [if_pos hmore]
      specialize hgood calls.length hbefore (by omega)
      dsimp only [writePort]
      cases hresult : results calls.length with
      | error => exact absurd hresult hgood
      | accepted n =>
        rw [WriteResult.value]
        generalize hm : min n (size - p) = m
        rw [sizeT_natCast (by omega)]
        cases m with
        | zero =>
          rw [if_pos (Nat.le_refl _)]
          exact ⟨_, rfl, hrun.stop (by omega)⟩
        | succ m =>
          rw [if_neg (by omega), ptrAdd, if_pos (by omega)]
          rw [← Int.natCast_sub (by omega), sizeT_natCast (by omega), ← Int.natCast_add]
          rw [show size - p - (m + 1) = size - (p + (m + 1)) by omega]
          apply ih
          . omega
          . rw [List.length_append, List.length_singleton, taken, hresult, WriteResult.count]
            omega
          . intro j hj
            rw [List.length_append, List.length_singleton] at hj
            obtain hj | rfl : j < calls.length ∨ j = calls.length := by omega
            . exact hbefore j hj
            . rw [hresult]
              intro hzero
              injection hzero with hzero
              omega
          . exact hrun.concat (by omega) (by omega)
    . rw [if_neg hmore]
      obtain rfl : p = size := by omega
      exact ⟨calls, rfl, hrun.whole⟩

omit hsize in
theorem mbRtuWrite.go_extends {rounds : Nat} {p : Int} {rem : Nat} {calls calls' : List WriteCall}
    (h : mbRtuWrite.go (writePort results) buffer rounds p rem calls = some calls')
    : ∃ more, calls' = calls ++ more ∧ (0 < rem → more ≠ []) := by
  induction rounds generalizing p rem calls with
  | zero => simp [mbRtuWrite.go] at h
  | succ rounds ih =>
    rw [mbRtuWrite.go] at h
    split at h
    . dsimp only [writePort] at h
      split at h
      . injection h with h
        exact ⟨_, h.symm, by simp⟩
      . obtain ⟨more, hmore, -⟩ := ih h
        rw [List.append_assoc] at hmore
        exact ⟨_, hmore, by simp⟩
    . injection h with h
      exact ⟨[], by simp [h], by omega⟩

/-- After an error there is another call, whatever its result. -/
theorem mbRtuWrite.go_error {k : Nat} (hresults : ∀ j < k, ∃ n, results j = .accepted (n + 1))
    (herror : results k = .error) (htaken : taken results k < size) {rounds : Nat}
    {calls calls' : List WriteCall} (hlen : calls.length ≤ k)
    (h : mbRtuWrite.go (writePort results) buffer rounds (taken results calls.length)
      (size - taken results calls.length) calls = some calls')
    : ∃ before call after, calls' = before ++ call :: after ∧ call.result ≤ 0 ∧ after ≠ [] := by
  induction rounds generalizing calls with
  | zero => simp [mbRtuWrite.go] at h
  | succ rounds ih =>
    have hle := taken_le results hlen
    rw [mbRtuWrite.go, if_pos (by omega)] at h
    dsimp only [writePort] at h
    obtain hlt | heq := Nat.lt_or_eq_of_le hlen
    . obtain ⟨n, hn⟩ := hresults calls.length hlt
      have hle' := taken_le results (Nat.succ_le_of_lt hlt)
      rw [taken, hn, WriteResult.count] at hle'
      rw [hn, WriteResult.value, Nat.min_eq_left (by omega)] at h
      rw [sizeT_natCast (by omega), if_neg (by omega), ptrAdd, if_pos (by omega)] at h
      rw [← Int.natCast_sub (by omega), sizeT_natCast (by omega), ← Int.natCast_add] at h
      apply ih _ _
      . exact calls ++
          [{ p := taken results calls.length, size := size - taken results calls.length,
             result := (n + 1 : Nat) }]
      . rw [List.length_append, List.length_singleton]
        omega
      . rw [List.length_append, List.length_singleton, taken, hn, WriteResult.count, Nat.sub_add_eq]
        exact h
    . rw [heq, herror, WriteResult.value] at h
      rw [show sizeT (-1) = 2 ^ 64 - 1 from rfl, if_neg (by omega)] at h
      obtain ⟨more, hmore, hne⟩ := mbRtuWrite.go_extends h
      rw [List.append_assoc] at hmore
      refine ⟨_, _, more, hmore, by dsimp only; decide, hne ?_⟩
      unfold sizeT
      omega

end Run

theorem exists_first_error {results : Nat → WriteResult} {size k : Nat}
    (hbefore : ∀ j < k, results j ≠ .accepted 0) (htaken : taken results k < size)
    (herror : results k = .error)
    : ∃ (m : Nat),
        (∀ j < m, ∃ n, results j = .accepted (n + 1))
          ∧
        taken results m < size
          ∧
        results m = .error := by
  induction k using Nat.strong_induction_on with
  | _ k ih =>
    by_cases hfirst : ∃ j < k, results j = .error
    . obtain ⟨j, hj, herror'⟩ := hfirst
      have hle := taken_le results (Nat.le_of_lt hj)
      apply ih j hj
      . intro i hi
        exact hbefore i (by omega)
      . omega
      . exact herror'
    . refine ⟨k, ?_, htaken, herror⟩
      intro j hj
      cases hresult : results j with
      | error => exact absurd ⟨j, hj, hresult⟩ hfirst
      | accepted n =>
        cases n with
        | zero => exact absurd hresult (hbefore j hj)
        | succ n => exact ⟨n, rfl⟩

/--
A transmission stops cleanly if and only if no write fails with an error before all the bytes have
been accepted, or a write has accepted none. A size is at most that of an object.
-/
theorem mbRtuWrite_stopsCleanly_iff (results : Nat → WriteResult) (buffer : Mem) (size : Nat)
    (hsize : size < 2 ^ 63)
    : StopsCleanly results buffer size
        ↔
      ∀ (k : Nat), (∀ j < k, results j ≠ .accepted 0) → taken results k < size →
        results k ≠ .error := by
  constructor
  . rintro ⟨rounds, calls, hwrite, hclean⟩ k hbefore htaken herror
    obtain ⟨m, hresults, htaken', herror'⟩ := exists_first_error hbefore htaken herror
    obtain ⟨before, call, after, hcalls, hresult, hne⟩ :=
      @mbRtuWrite.go_error _ _ _ hsize _ hresults herror' htaken' rounds [] calls (Nat.zero_le m)
        hwrite
    exact hne (hclean.last before call after hcalls hresult)
  . intro hgood
    have hrun : CleanRun buffer size 0 [] := by
      refine ⟨by simp, by simp, rfl⟩
    obtain ⟨calls, hwrite, hclean⟩ :=
      @mbRtuWrite.go_clean _ _ _ hsize hgood (size + 1) 0 (by omega) [] (Nat.zero_min size).symm
        (by simp) hrun
    exact ⟨size + 1, calls, hwrite, hclean⟩

theorem mbRtuWrite_stopsCleanly_pieces
    : StopsCleanly (fun k => if k < 2 then .accepted 3 else .accepted 0) (fun _ => 0x55) 8 := by
  rw [mbRtuWrite_stopsCleanly_iff _ _ _ (by decide)]
  intro k _ _
  split
  . simp
  . simp

theorem not_stopsCleanly_full
    : ¬StopsCleanly (fun k => if k = 0 then .error else .accepted 1) (fun _ => 0x55) 4 := by
  rintro ⟨rounds, calls, hwrite, hclean⟩
  obtain ⟨before, call, after, hcalls, hresult, hne⟩ :=
    @mbRtuWrite.go_error (fun k => if k = 0 then .error else .accepted 1) _ _ (by decide) 0
      (by simp) rfl (by decide) rounds [] calls (Nat.le_refl 0) hwrite
  exact hne (hclean.last before call after hcalls hresult)

end Modbus
