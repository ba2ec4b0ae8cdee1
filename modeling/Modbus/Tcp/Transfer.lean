import Modbus.Tcp.Impl

/-!
This module contains what the transfer loops of the ports make of the results of `send` and `recv`.
An error is subtracted from the number of bytes that remain before it is looked at, which does no
harm as the loop ends with it. The results are kept in an `int`, though, and so is the size.
-/

namespace Modbus

theorem toInt_le {n : Int} (h : -1 ≤ n) : toInt n ≤ n := by
  unfold toInt
  rw [Int32.toInt_ofInt, Int.bmod]
  simp only [Int32.size]
  split
  . omega
  . omega

namespace MbalPort

variable (port : MbalPort)

theorem remain_of_le {m n : Int} (h1 : 0 ≤ n) (h2 : n ≤ port.remain m) : port.remain n = n := by
  cases port with
  | linux | rtKernel =>
    simp only [remain, sizeT] at *
    omega
  | windows =>
    have hlt : toInt m < 2 ^ 31 := Int32.toInt_lt _
    apply Int32.toInt_ofInt_of_le
    . omega
    . exact Int.lt_of_le_of_lt h2 hlt

theorem remain_of_lt {n : Int} (h1 : 0 ≤ n) (h2 : n < 2 ^ 31) : port.remain n = n := by
  cases port with
  | linux | rtKernel =>
    simp only [remain, sizeT]
    omega
  | windows =>
    apply Int32.toInt_ofInt_of_le
    . omega
    . exact h2

theorem remain_le (n : Nat) : port.remain n ≤ n := by
  cases port with
  | linux | rtKernel =>
    simp only [remain, sizeT]
    omega
  | windows =>
    apply toInt_le
    omega

theorem remain_ne_zero {n : Int} (h1 : 0 < n) (h2 : n ≤ 2 ^ 31) : port.remain n ≠ 0 := by
  by_cases hlt : n < 2 ^ 31
  . rw [port.remain_of_lt (by omega) hlt]
    omega
  . obtain rfl : n = 2 ^ 31 := by omega
    cases port <;> decide

end MbalPort

section Rule

variable {α : Type} {port : MbalPort} {transfer : Int → Int → α → Int × α}

def AllowedResults (transfer : Int → Int → α → Int × α) : Prop :=
  ∀ (p remain : Int) (a : α), -1 ≤ (transfer p remain a).1 ∧ (transfer p remain a).1 ≤ max 0 remain

section Round

variable {size rounds : Nat} {p remain n : Int} {a a' : α} (h : transfer p remain a = (n, a'))

include h

theorem osTcpTransfer.go_more (hremain : 0 < port.remain (remain - toInt n)) (hn : 0 < toInt n)
    : osTcpTransfer.go port transfer size (rounds + 1) p remain a
        =
      osTcpTransfer.go port transfer size rounds (p + toInt n) (port.remain (remain - toInt n))
        a' := by
  rw [osTcpTransfer.go, h]
  rw [if_pos ⟨hremain, hn⟩]

theorem osTcpTransfer.go_last (hlast : ¬(0 < port.remain (remain - toInt n) ∧ 0 < toInt n))
    : osTcpTransfer.go port transfer size (rounds + 1) p remain a
        =
      some (if port.remain (remain - toInt n) = 0 then toInt size else toInt n, a') := by
  rw [osTcpTransfer.go, h]
  rw [if_neg hlast]
  split
  . rfl
  . rfl

end Round

theorem osTcpTransfer.go_rule (hallowed : AllowedResults transfer) {size : Nat}
    {I : Int → Int → α → Prop}
    (hnext : ∀ (p remain : Int) (a : α) (n : Int) (a' : α), I p remain a →
      transfer p remain a = (n, a') → 0 < toInt n → toInt n < remain →
        I (p + toInt n) (remain - toInt n) a')
    {rounds : Nat} {p remain : Int} {a : α} (h : I p remain a) (hrounds : remain.toNat < rounds)
    (hfit : ∀ (n : Int), 0 ≤ n → n ≤ remain → port.remain n = n)
    : ∃ (p' remain' : Int) (a' : α) (n : Int) (a'' : α),
        I p' remain' a'
          ∧
        transfer p' remain' a' = (n, a'')
          ∧
        (toInt n ≤ 0 ∨ toInt n = remain')
          ∧
        osTcpTransfer.go port transfer size rounds p remain a
          =
        some (if port.remain (remain' - toInt n) = 0 then toInt size else toInt n, a'') := by
  -- The rounds are enough, as each one but the last takes something from what remains.
  induction rounds generalizing p remain a with
  | zero => omega
  | succ rounds ih =>
    obtain ⟨hge, hle⟩ := hallowed p remain a
    cases htransfer : transfer p remain a with
    | mk n a' =>
      rw [htransfer] at hge hle
      have hint := toInt_le hge
      dsimp only at hle hint
      by_cases hmore : 0 < toInt n ∧ toInt n < remain
      . have hI := hnext p remain a n a' h htransfer hmore.1 hmore.2
        obtain ⟨p', remain', a₁, m, a₂, hI', htransfer', hlast, hgo⟩ :=
          ih hI (by omega) (fun k h1 h2 => hfit k h1 (by omega))
        have hremain := hfit (remain - toInt n) (by omega) (by omega)
        refine ⟨p', remain', a₁, m, a₂, hI', htransfer', hlast, ?_⟩
        rw [osTcpTransfer.go_more htransfer (by omega) hmore.1, hremain]
        exact hgo
      . refine ⟨p, remain, a, n, a', h, htransfer, by omega, ?_⟩
        apply osTcpTransfer.go_last htransfer
        rintro ⟨hremain, hpos⟩
        rw [show toInt n = remain by omega, Int.sub_self, hfit 0 (by omega) (by omega)] at hremain
        omega

/-- How a transfer of a size that is an `int` ends, with an invariant of what was transferred. -/
inductive TransferEnds (transfer : Int → Int → α → Int × α) (size : Nat) (I : Nat → α → Prop)
    : Int → α → Prop where
  | whole {a : α} (hpos : 0 < size) (h : I size a) : TransferEnds transfer size I size a
  | failed {p : Nat} {a a' : α} {n : Int} (hp : p < size ∨ p = size ∧ size = 0) (h : I p a)
    (htransfer : transfer p (size - p : Nat) a = (n, a')) (hn : n ≤ 0)
    : TransferEnds transfer size I n a'

theorem osTcpTransfer_rule (hallowed : AllowedResults transfer) {size : Nat}
    (hsize : size < 2 ^ 31) {I : Nat → α → Prop}
    (hnext : ∀ (p n : Nat) (a a' : α), p + n ≤ size → I p a →
      transfer p (size - p : Nat) a = ((n : Int), a') → 0 < n → I (p + n) a')
    {a : α} (h : I 0 a)
    : ∃ (result : Int) (a' : α),
        osTcpTransfer port transfer size a = some (result, a')
          ∧
        TransferEnds transfer size I result a' := by
  -- What is asked for is never more than an `int` can hold.
  have hint {q : Nat} {a a' : α} {n : Int} (htransfer : transfer q (size - q : Nat) a = (n, a'))
      : -1 ≤ n ∧ n ≤ (size - q : Nat) ∧ toInt n = n := by
    obtain ⟨hge, hle⟩ := hallowed q (size - q : Nat) a
    rw [htransfer] at hge hle
    dsimp only at hge hle
    exact ⟨hge, by omega, Int32.toInt_ofInt_of_le (by omega) (by omega)⟩
  obtain ⟨_, _, a₁, n, a₂, ⟨q, rfl, rfl, hq, hI⟩, htransfer, hlast, hgo⟩ :=
    @osTcpTransfer.go_rule _ port _ hallowed size
      (fun p remain a => ∃ (q : Nat), p = q ∧ remain = (size - q : Nat) ∧
        (q < size ∨ q = size ∧ size = 0) ∧ I q a)
      (by
        rintro _ _ a n a' ⟨q, rfl, rfl, hq, hI⟩ htransfer hpos hlt
        rw [(hint htransfer).2.2] at hpos hlt ⊢
        obtain ⟨m, rfl⟩ := Int.eq_ofNat_of_zero_le (Int.le_of_lt hpos)
        refine ⟨q + m, by omega, by omega, by omega, ?_⟩
        exact hnext q m a a' (by omega) hI htransfer (by omega))
      (size + 1) 0 size a ⟨0, rfl, rfl, by omega, h⟩ (by omega)
      (fun n h1 h2 => port.remain_of_lt h1 (by omega))
  obtain ⟨hge, hle, hn⟩ := hint htransfer
  rw [hn] at hlast hgo
  unfold osTcpTransfer
  rw [port.remain_of_lt (by omega) (by omega), hgo]
  refine ⟨_, _, rfl, ?_⟩
  by_cases hpos : 0 < n
  . -- All that remained was transferred.
    obtain rfl : n = (size - q : Nat) := by omega
    have hwhole := hnext q (size - q) a₁ a₂ (by omega) hI htransfer (by omega)
    rw [Int.sub_self, port.remain_of_lt (by omega) (by omega), if_pos rfl, toInt_of_lt hsize]
    rw [show q + (size - q) = size by omega] at hwhole
    exact .whole (by omega) hwhole
  . have hresult : (if port.remain ((size - q : Nat) - n) = 0 then toInt size else n) = n := by
      split
      . next hzero =>
        by_cases hremain : (0 : Int) < (size - q : Nat) - n
        . exact absurd hzero (port.remain_ne_zero hremain (by omega))
        . rw [toInt_of_lt hsize]
          omega
      . rfl
    rw [hresult]
    exact .failed hq hI htransfer (by omega)

end Rule

section Recv

variable {ω : Type} {os : TcpOs ω} {peer p remain : Int} {w w' : ω}

theorem osTcpRecv.recv_some {bs : List UInt8} (h : os.recv peer p remain w = (some bs, w'))
    (m : Mem)
    : osTcpRecv.recv os peer p remain (m, w) = ((bs.length : Int), m.copyAt p bs, w') := by
  unfold osTcpRecv.recv
  rw [h]
  rfl

theorem osTcpRecv.recv_none (h : os.recv peer p remain w = (none, w')) (m : Mem)
    : osTcpRecv.recv os peer p remain (m, w) = (-1, m, w') := by
  unfold osTcpRecv.recv
  rw [h]
  simp

theorem allowed_recv
    (h : ∀ (p remain : Int) (w : ω), ∀ bs ∈ (os.recv peer p remain w).1, bs.length ≤ remain.toNat)
    : AllowedResults (osTcpRecv.recv os peer) := by
  rintro p remain ⟨m, w⟩
  cases hrecv : os.recv peer p remain w with
  | mk r w' =>
    cases r with
    | none =>
      rw [osTcpRecv.recv_none hrecv]
      dsimp only
      omega
    | some bs =>
      have hle := h p remain w bs (by rw [hrecv]; rfl)
      rw [osTcpRecv.recv_some hrecv]
      dsimp only
      omega

end Recv

end Modbus
