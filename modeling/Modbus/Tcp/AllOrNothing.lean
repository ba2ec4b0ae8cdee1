import Modbus.Data.Access
import Modbus.Tcp.Transfer

/-!
This module contains that the transfer loops of the ports transfer all or nothing, for every
sequence of results of `send` and `recv`. The result of a loop is an `int`, so that it can say so
only for a size that is one.
-/

namespace Modbus

structure TransferCall where
  p : Int
  remain : Int
  n : Int
  bytes : List UInt8
  deriving DecidableEq, Repr

def callResult : Option Nat → Int
  | some n => n
  | none => -1

/-- A socket with the given results of `send` and `recv`, which keeps the calls. -/
def resultsOs (port : MbalPort) (sends : Nat → Option Nat) (recvs : Nat → Option (List UInt8))
    : TcpOs (List TransferCall) where
  port
  acceptConnection _ calls := (-1, calls)
  connect _ _ calls := (-1, calls)
  close _ calls := calls
  send _ buffer p remain calls :=
    -- No more is sent or received than was asked for.
    let n := callResult ((sends calls.length).map (min remain.toNat))
    (n, calls ++ [{ p, remain, n, bytes := buffer.load p.toNat n.toNat }])
  recv _ p remain calls :=
    let r := (recvs calls.length).map (List.take remain.toNat)
    (r, calls ++ [{ p, remain, n := callResult (r.map List.length), bytes := r.getD [] }])
  select _ _ calls := (-1, calls)

/-- The first result that is not positive is the last one, and no call reaches beyond the size. -/
structure CallsWithin (size : Nat) (calls : List TransferCall) : Prop where
  last : ∀ (before : List TransferCall) (call : TransferCall) (after : List TransferCall),
    calls = before ++ call :: after → call.n ≤ 0 → after = []
  inside : ∀ call ∈ calls, 0 ≤ call.p ∧ call.p + call.remain ≤ size

def transferred : List TransferCall → Int
  | [] => 0
  | call :: calls => call.n + transferred calls

def Complete (size : Nat) (calls : List TransferCall) : Prop :=
  if size = 0 then
    calls.map TransferCall.n = [0]
  else
    (∀ call ∈ calls, 0 < call.n) ∧ transferred calls = size

structure AllOrNothing (size : Nat) (calls : List TransferCall) (result : Int) : Prop where
  whole : result = size ↔ Complete size calls
  nothing : ¬Complete size calls →
    ∃ call, calls.getLast? = some call ∧ call.n ≤ 0 ∧ result = call.n
  consecutive : ∀ (before : List TransferCall) (call : TransferCall) (after : List TransferCall),
    calls = before ++ call :: after → call.p = transferred before

section Within

structure CallsPositive (size : Nat) (p remain : Int) (calls : List TransferCall) : Prop where
  nonneg : 0 ≤ p
  le : p + remain ≤ size
  positive : ∀ call ∈ calls, 0 < call.n
  inside : ∀ call ∈ calls, 0 ≤ call.p ∧ call.p + call.remain ≤ size

variable {size : Nat} {p remain : Int} {calls : List TransferCall} {call : TransferCall}

theorem CallsPositive.inside_concat (h : CallsPositive size p remain calls) (hp : call.p = p)
    (hremain : call.remain = remain)
    : ∀ c ∈ calls ++ [call], 0 ≤ c.p ∧ c.p + c.remain ≤ size := by
  rw [List.forall_mem_append, List.forall_mem_singleton, hp, hremain]
  exact ⟨h.inside, h.nonneg, h.le⟩

theorem CallsPositive.concat (h : CallsPositive size p remain calls) (hp : call.p = p)
    (hremain : call.remain = remain) {n : Int} (hn : 0 < n) (hle : n ≤ call.n)
    : CallsPositive size (p + n) (remain - n) (calls ++ [call]) := by
  -- The `int` that the pointer is moved by may be less than the result of the call.
  have hnonneg := h.nonneg
  have hsize := h.le
  refine ⟨by omega, by omega, ?_, h.inside_concat hp hremain⟩
  rw [List.forall_mem_append, List.forall_mem_singleton]
  exact ⟨h.positive, by omega⟩

theorem CallsPositive.within (h : CallsPositive size p remain calls) (hp : call.p = p)
    (hremain : call.remain = remain)
    : CallsWithin size (calls ++ [call]) := by
  refine ⟨?_, h.inside_concat hp hremain⟩
  apply last_of_concat
  intro c hc
  have hpos := h.positive c hc
  omega

end Within

section Whole

structure CallsConsecutive (p : Nat) (calls : List TransferCall) : Prop where
  positive : ∀ call ∈ calls, 0 < call.n
  transferred_eq : transferred calls = p
  consecutive : ∀ (before : List TransferCall) (call : TransferCall) (after : List TransferCall),
    calls = before ++ call :: after → call.p = transferred before

variable {size p : Nat} {calls : List TransferCall} {call : TransferCall}

theorem transferred_concat (calls : List TransferCall) (call : TransferCall)
    : transferred (calls ++ [call]) = transferred calls + call.n := by
  induction calls with
  | nil =>
    simp only [List.nil_append, transferred]
    omega
  | cons c calls ih =>
    rw [List.cons_append, transferred, transferred, ih]
    omega

theorem transferred_nonneg (h : ∀ call ∈ calls, 0 < call.n) : 0 ≤ transferred calls := by
  induction calls with
  | nil => exact Int.le_refl 0
  | cons c calls ih =>
    have hc := h c List.mem_cons_self
    have hcalls := ih (fun call hcall => h call (List.mem_cons_of_mem c hcall))
    rw [transferred]
    omega

theorem eq_nil_of_transferred (h : ∀ call ∈ calls, 0 < call.n) (hzero : transferred calls = 0)
    : calls = [] := by
  cases calls with
  | nil => rfl
  | cons c calls =>
    have hc := h c List.mem_cons_self
    have hcalls := transferred_nonneg (fun call hcall => h call (List.mem_cons_of_mem c hcall))
    rw [transferred] at hzero
    omega

theorem CallsConsecutive.consecutive_concat (h : CallsConsecutive p calls) (hp : call.p = p)
    : ∀ (before : List TransferCall) (c : TransferCall) (after : List TransferCall),
        calls ++ [call] = before ++ c :: after → c.p = transferred before := by
  intro before c after hcalls
  obtain ⟨rfl, rfl, -⟩ | ⟨after', hinit, -⟩ := concat_eq_append_cons hcalls
  . rw [hp, h.transferred_eq]
  . exact h.consecutive before c after' hinit

theorem CallsConsecutive.concat (h : CallsConsecutive p calls) (hp : call.p = p) {n : Nat}
    (hn : call.n = n) (hpos : 0 < n)
    : CallsConsecutive (p + n) (calls ++ [call]) := by
  refine ⟨?_, ?_, h.consecutive_concat hp⟩
  . rw [List.forall_mem_append, List.forall_mem_singleton]
    exact ⟨h.positive, by omega⟩
  . rw [transferred_concat, h.transferred_eq, hn]
    rfl

theorem CallsConsecutive.whole (h : CallsConsecutive size calls) (hpos : 0 < size)
    : AllOrNothing size calls size := by
  have hcomplete : Complete size calls := by
    rw [Complete, if_neg (by omega)]
    exact ⟨h.positive, h.transferred_eq⟩
  refine ⟨?_, ?_, h.consecutive⟩
  . exact iff_of_true rfl hcomplete
  . intro hnot
    exact absurd hcomplete hnot

theorem CallsConsecutive.failed (h : CallsConsecutive p calls) (hp : call.p = p)
    (hsize : p < size ∨ p = size ∧ size = 0) (hn : call.n ≤ 0)
    : AllOrNothing size (calls ++ [call]) call.n := by
  refine ⟨?_, ?_, h.consecutive_concat hp⟩
  . unfold Complete
    split
    . next hzero =>
      have hnil : calls = [] := by
        apply eq_nil_of_transferred h.positive
        rw [h.transferred_eq]
        omega
      simp [hnil, hzero]
    . next hzero =>
      apply iff_of_false
      . omega
      . rintro ⟨hpositive, -⟩
        have hpos := hpositive call (by simp)
        omega
  . intro _
    exact ⟨call, List.getLast?_concat, hn, rfl⟩

end Whole

section Calls

variable {α : Type} {transfer : Int → Int → α → Int × α} (calls : α → List TransferCall)

def Recorded (transfer : Int → Int → α → Int × α) : Prop :=
  ∀ (p remain : Int) (a : α) (n : Int) (a' : α), transfer p remain a = (n, a') →
    ∃ (bytes : List UInt8), calls a' = calls a ++ [⟨p, remain, n, bytes⟩]

variable {calls}

theorem osTcpTransfer_within (port : MbalPort) (hallowed : AllowedResults transfer)
    (hrecorded : Recorded calls transfer) (size : Nat) {J : α → Prop}
    (hstep : ∀ (p remain : Int) (a : α) (n : Int) (a' : α), 0 ≤ p → p + remain ≤ size →
      transfer p remain a = (n, a') → J a → J a')
    {a : α} (hcalls : calls a = []) (h : J a)
    : ∃ (result : Int) (a' : α),
        osTcpTransfer port transfer size a = some (result, a')
          ∧
        CallsWithin size (calls a')
          ∧
        J a' := by
  have hremain := port.remain_le size
  obtain ⟨p, remain, a₁, n, a₂, ⟨hpositive, hJ⟩, htransfer, -, hgo⟩ :=
    @osTcpTransfer.go_rule _ port _ hallowed size
      (fun p remain a => CallsPositive size p remain (calls a) ∧ J a)
      (by
        rintro p remain a n a' ⟨hpositive, hJ⟩ htransfer hpos -
        have hge := (hallowed p remain a).1
        rw [htransfer] at hge
        obtain ⟨bytes, hcall⟩ := hrecorded p remain a n a' htransfer
        rw [hcall]
        refine ⟨hpositive.concat rfl rfl hpos (toInt_le hge), ?_⟩
        exact hstep p remain a n a' hpositive.nonneg hpositive.le htransfer hJ)
      (size + 1) 0 (port.remain size) a
      ⟨⟨Int.le_refl 0, by omega, by simp [hcalls], by simp [hcalls]⟩, h⟩ (by omega)
      (fun n h1 h2 => port.remain_of_le h1 h2)
  obtain ⟨bytes, hcall⟩ := hrecorded p remain a₁ n a₂ htransfer
  refine ⟨_, _, hgo, ?_, hstep p remain a₁ n a₂ hpositive.nonneg hpositive.le htransfer hJ⟩
  rw [hcall]
  exact hpositive.within rfl rfl

theorem TransferEnds.allOrNothing (hrecorded : Recorded calls transfer) {size : Nat}
    {I : Nat → α → Prop} (hI : ∀ (p : Nat) (a : α), I p a → CallsConsecutive p (calls a))
    {result : Int} {a : α} (h : TransferEnds transfer size I result a)
    : AllOrNothing size (calls a) result := by
  cases h with
  | whole hpos h => exact (hI _ _ h).whole hpos
  | @failed p a₁ _ _ hp h htransfer hn =>
    obtain ⟨bytes, hcall⟩ := hrecorded p (size - p : Nat) a₁ _ _ htransfer
    rw [hcall]
    exact (hI _ _ h).failed rfl hp hn

end Calls

section Results

variable (port : MbalPort) (sends : Nat → Option Nat) (recvs : Nat → Option (List UInt8))
  (peer : Int) (buffer : Mem)

theorem allowed_results_send
    : AllowedResults ((resultsOs port sends recvs).send peer buffer) := by
  intro p remain calls
  simp only [resultsOs]
  cases sends calls.length with
  | none =>
    simp only [Option.map_none, callResult]
    omega
  | some n =>
    simp only [Option.map_some, callResult]
    omega

theorem results_send (p remain : Int) (calls : List TransferCall)
    : ∃ (n : Int),
        (resultsOs port sends recvs).send peer buffer p remain calls
          =
        (n, calls ++ [⟨p, remain, n, buffer.load p.toNat n.toNat⟩]) := by
  exact ⟨_, rfl⟩

theorem allowed_results_recv
    : AllowedResults (osTcpRecv.recv (resultsOs port sends recvs) peer) := by
  apply allowed_recv
  intro p remain calls bs hbs
  obtain ⟨bs', -, rfl⟩ := Option.mem_map.mp hbs
  apply List.length_take_le

theorem results_recv (p remain : Int) (r : Mem × List TransferCall)
    : ∃ (n : Int) (bs : List UInt8),
        osTcpRecv.recv (resultsOs port sends recvs) peer p remain r
          =
        (n, r.1.copyAt p bs, r.2 ++ [⟨p, remain, n, bs⟩])
          ∧
        bs.length = n.toNat
          ∧
        bs.length ≤ remain.toNat := by
  cases hrecv : (recvs r.2.length).map (List.take remain.toNat) with
  | none =>
    refine ⟨-1, [], ?_, rfl, Nat.zero_le _⟩
    have hcall : (resultsOs port sends recvs).recv peer p remain r.2
        = (none, r.2 ++ [⟨p, remain, -1, []⟩]) := by
      simp only [resultsOs, hrecv]
      rfl
    rw [osTcpRecv.recv_none hcall, Mem.copyAt_nil]
  | some bs =>
    have hcall : (resultsOs port sends recvs).recv peer p remain r.2
        = (some bs, r.2 ++ [⟨p, remain, bs.length, bs⟩]) := by
      simp only [resultsOs, hrecv]
      rfl
    obtain ⟨bs', -, rfl⟩ := Option.map_eq_some_iff.mp hrecv
    refine ⟨_, _, osTcpRecv.recv_some hcall r.1, rfl, ?_⟩
    apply List.length_take_le

theorem recorded_results_send : Recorded id ((resultsOs port sends recvs).send peer buffer) := by
  intro p remain calls n calls' htransfer
  obtain ⟨m, hsend⟩ := results_send port sends recvs peer buffer p remain calls
  rw [hsend] at htransfer
  cases htransfer
  exact ⟨_, rfl⟩

theorem recorded_results_recv
    : Recorded Prod.snd (osTcpRecv.recv (resultsOs port sends recvs) peer) := by
  intro p remain r n r' htransfer
  obtain ⟨m, bs, hrecv, -, -⟩ := results_recv port sends recvs peer p remain r
  rw [hrecv] at htransfer
  cases htransfer
  exact ⟨bs, rfl⟩

/-- The loops end, and nothing beyond the size is touched. -/
structure TransfersWithin (size : Nat) : Prop where
  send : ∃ (result : Int) (calls : List TransferCall),
    osTcpSend (resultsOs port sends recvs) peer buffer size [] = some (result, calls)
      ∧
    CallsWithin size calls
  recv : ∃ (result : Int) (buffer' : Mem) (calls : List TransferCall),
    osTcpRecv (resultsOs port sends recvs) peer buffer size [] = some (result, buffer', calls)
      ∧
    CallsWithin size calls
      ∧
    ∀ (i : Nat), size ≤ i → buffer' i = buffer i

/-- All or nothing is transferred, from the beginning of the buffer on. -/
structure TransfersWhole (size : Nat) : Prop where
  send : ∃ (result : Int) (calls : List TransferCall),
    osTcpSend (resultsOs port sends recvs) peer buffer size [] = some (result, calls)
      ∧
    CallsWithin size calls
      ∧
    AllOrNothing size calls result
      ∧
    calls.flatMap TransferCall.bytes <+: buffer.load 0 size
  recv : ∃ (result : Int) (calls : List TransferCall),
    osTcpRecv (resultsOs port sends recvs) peer buffer size []
      =
    some (result, buffer.copy 0 (calls.flatMap TransferCall.bytes), calls)
      ∧
    CallsWithin size calls
      ∧
    AllOrNothing size calls result
      ∧
    (calls.flatMap TransferCall.bytes).length ≤ size

theorem transfersWithin (size : Nat) : TransfersWithin port sends recvs peer buffer size := by
  constructor
  . obtain ⟨result, calls, hsend, hwithin, -⟩ :=
      @osTcpTransfer_within _ _ id port (allowed_results_send port sends recvs peer buffer)
        (recorded_results_send port sends recvs peer buffer) size (fun _ => True)
        (fun _ _ _ _ _ _ _ _ _ => trivial) [] rfl trivial
    exact ⟨result, calls, hsend, hwithin⟩
  . obtain ⟨result, ⟨buffer', calls⟩, hrecv, hwithin, hbeyond⟩ :=
      @osTcpTransfer_within _ _ Prod.snd port (allowed_results_recv port sends recvs peer)
        (recorded_results_recv port sends recvs peer) size
        (fun r => ∀ (i : Nat), size ≤ i → r.1 i = buffer i)
        (by
          intro p remain r n r' hp hle htransfer hbeyond i hi
          obtain ⟨m, bs, hrecv, -, hlength⟩ := results_recv port sends recvs peer p remain r
          rw [hrecv] at htransfer
          cases htransfer
          obtain ⟨q, rfl⟩ := Int.eq_ofNat_of_zero_le hp
          rw [← hbeyond i hi]
          dsimp only
          rw [Mem.copyAt_natCast]
          cases bs with
          | nil => rw [Mem.copy_nil]
          | cons b bs =>
            rw [List.length_cons] at hlength
            apply Mem.copy_ge
            rw [List.length_cons]
            omega)
        (buffer, []) rfl (fun _ _ => rfl)
    exact ⟨result, buffer', calls, hrecv, hwithin, hbeyond⟩

/-- The bytes of all the calls have been stored one behind the other. -/
structure StoredCalls (buffer : Mem) (p : Nat) (r : Mem × List TransferCall) : Prop where
  length_eq : (r.2.flatMap TransferCall.bytes).length = p
  buffer_eq : r.1 = buffer.copy 0 (r.2.flatMap TransferCall.bytes)

variable {port sends recvs peer buffer}

theorem StoredCalls.recv {p : Nat} {r r' : Mem × List TransferCall} (h : StoredCalls buffer p r)
    {remain n : Int}
    (htransfer : osTcpRecv.recv (resultsOs port sends recvs) peer p remain r = (n, r'))
    : StoredCalls buffer (p + n.toNat) r' := by
  obtain ⟨m, bs, hrecv, hbs, -⟩ := results_recv port sends recvs peer p remain r
  rw [hrecv] at htransfer
  cases htransfer
  have hlength := h.length_eq
  constructor
  . simp [hlength, hbs]
  . have hcopy := Mem.copy_append buffer 0 (r.2.flatMap TransferCall.bytes) bs
    rw [hlength, Nat.zero_add, ← h.buffer_eq] at hcopy
    simp [hcopy]

variable (port sends recvs peer buffer)

variable {size : Nat} (hsize : size < 2 ^ 31)

include hsize

theorem osTcpSend_whole
    : ∃ (result : Int) (calls : List TransferCall),
        osTcpSend (resultsOs port sends recvs) peer buffer size [] = some (result, calls)
          ∧
        AllOrNothing size calls result
          ∧
        calls.flatMap TransferCall.bytes <+: buffer.load 0 size := by
  have hrecorded := recorded_results_send port sends recvs peer buffer
  obtain ⟨result, calls, hsend, hends⟩ :=
    @osTcpTransfer_rule _ port _ (allowed_results_send port sends recvs peer buffer) size hsize
      (fun p calls => CallsConsecutive p calls ∧
        calls.flatMap TransferCall.bytes = buffer.load 0 p)
      (by
        rintro p n calls calls' - ⟨hconsecutive, hbytes⟩ htransfer hpos
        obtain ⟨m, hsend⟩ := results_send port sends recvs peer buffer p (size - p : Nat) calls
        rw [hsend] at htransfer
        cases htransfer
        refine ⟨hconsecutive.concat rfl rfl hpos, ?_⟩
        rw [List.flatMap_append, hbytes, Mem.load_add]
        simp)
      [] ⟨⟨by simp, rfl, by simp⟩, rfl⟩
  refine ⟨result, calls, hsend, hends.allOrNothing hrecorded (fun _ _ h => h.1), ?_⟩
  cases hends with
  | whole _ h => exact ⟨[], by rw [h.2, List.append_nil]⟩
  | @failed p calls₁ _ _ hp h htransfer hn =>
    obtain ⟨m, hsend'⟩ := results_send port sends recvs peer buffer p (size - p : Nat) calls₁
    rw [hsend'] at htransfer
    cases htransfer
    rw [List.flatMap_append, h.2]
    simpa [Int.toNat_of_nonpos hn] using Mem.load_front buffer 0 (show p ≤ size by omega)

theorem osTcpRecv_whole
    : ∃ (result : Int) (calls : List TransferCall),
        osTcpRecv (resultsOs port sends recvs) peer buffer size []
          =
        some (result, buffer.copy 0 (calls.flatMap TransferCall.bytes), calls)
          ∧
        AllOrNothing size calls result
          ∧
        (calls.flatMap TransferCall.bytes).length ≤ size := by
  have hrecorded := recorded_results_recv port sends recvs peer
  obtain ⟨result, ⟨buffer', calls⟩, hrecv, hends⟩ :=
    @osTcpTransfer_rule _ port _ (allowed_results_recv port sends recvs peer) size hsize
      (fun p r => CallsConsecutive p r.2 ∧ StoredCalls buffer p r)
      (by
        rintro p n r r' - ⟨hconsecutive, hstored⟩ htransfer hpos
        have hstored' := hstored.recv htransfer
        obtain ⟨m, bs, hrecv, -, -⟩ := results_recv port sends recvs peer p (size - p : Nat) r
        rw [hrecv] at htransfer
        cases htransfer
        exact ⟨hconsecutive.concat rfl rfl hpos, hstored'⟩)
      (buffer, []) ⟨⟨by simp, rfl, by simp⟩, ⟨rfl, by simp⟩⟩
  have hall := hends.allOrNothing hrecorded (fun _ _ h => h.1)
  have hstored : ∃ p ≤ size, StoredCalls buffer p (buffer', calls) := by
    cases hends with
    | whole _ h => exact ⟨size, Nat.le_refl size, h.2⟩
    | @failed p _ _ _ hp h htransfer hn =>
      refine ⟨p + result.toNat, ?_, h.2.recv htransfer⟩
      omega
  obtain ⟨p, hp, hstored⟩ := hstored
  refine ⟨result, calls, ?_, hall, ?_⟩
  . rw [← hstored.buffer_eq]
    exact hrecv
  . rw [hstored.length_eq]
    exact hp

theorem transfersWhole_of_lt : TransfersWhole port sends recvs peer buffer size := by
  have hwithin := transfersWithin port sends recvs peer buffer size
  constructor
  . obtain ⟨result, calls, hsend, hall, hbytes⟩ :=
      osTcpSend_whole port sends recvs peer buffer hsize
    obtain ⟨result', calls', hsend', hwithin⟩ := hwithin.send
    rw [hsend] at hsend'
    cases hsend'
    exact ⟨result, calls, hsend, hwithin, hall, hbytes⟩
  . obtain ⟨result, calls, hrecv, hall, hbytes⟩ :=
      osTcpRecv_whole port sends recvs peer buffer hsize
    obtain ⟨result', buffer', calls', hrecv', hwithin, -⟩ := hwithin.recv
    rw [hrecv] at hrecv'
    cases hrecv'
    exact ⟨result, calls, hrecv, hwithin, hall, hbytes⟩

end Results

/--
The transfer loops of every port end, stop at the first result that is not positive and never reach
beyond the size, whatever it is. If the size is an `int` then they transfer all or nothing.
-/
theorem osTcp_allOrNothing (port : MbalPort) (sends : Nat → Option Nat)
    (recvs : Nat → Option (List UInt8)) (peer : Int) (buffer : Mem) (size : Nat)
    : TransfersWithin port sends recvs peer buffer size
        ∧
      (size < 2 ^ 31 → TransfersWhole port sends recvs peer buffer size) := by
  constructor
  . apply transfersWithin
  . intro hsize
    exact transfersWhole_of_lt port sends recvs peer buffer hsize

theorem osTcp_allOrNothing_pieces
    : TransfersWhole .windows (fun k => if k < 3 then some 3 else none)
        (fun k => if k = 0 then some [1, 2] else none) 3 (fun _ => 0x55) 8 := by
  exact (osTcp_allOrNothing _ _ _ _ _ _).2 (by decide)

theorem not_transfersWhole_twoGiB
    : ¬TransfersWhole .linux (fun _ => some (2 ^ 30)) (fun _ => none) 3 (fun _ => 0x55)
        (2 ^ 31) := by
  rintro ⟨⟨result, calls, hsend, -, hall, -⟩, -⟩
  have hcall (p remain : Int) (calls : List TransferCall) (h : 2 ^ 30 ≤ remain)
      : ∃ bytes,
          (resultsOs .linux (fun _ => some (2 ^ 30)) (fun _ => none)).send 3 (fun _ => 0x55) p
            remain calls
            =
          (2 ^ 30, calls ++ [⟨p, remain, 2 ^ 30, bytes⟩]) := by
    obtain ⟨n, hsend⟩ := results_send .linux (fun _ => some (2 ^ 30)) (fun _ => none) 3
      (fun _ => 0x55) p remain calls
    have hn : n = (min remain.toNat (2 ^ 30) : Nat) := (congrArg Prod.fst hsend).symm
    rw [show n = 2 ^ 30 by omega] at hsend
    exact ⟨_, hsend⟩
  obtain ⟨bytes₁, hcall₁⟩ := hcall 0 (2 ^ 31) [] (by decide)
  obtain ⟨bytes₂, hcall₂⟩ := hcall (2 ^ 30) (2 ^ 30) [⟨0, 2 ^ 31, 2 ^ 30, bytes₁⟩] (by decide)
  -- All the bytes are sent by two calls, but the size is taken for the least `int`.
  have hsend' : osTcpSend (resultsOs .linux (fun _ => some (2 ^ 30)) (fun _ => none)) 3
      (fun _ => 0x55) (2 ^ 31) []
      =
      some (-2 ^ 31, [⟨0, 2 ^ 31, 2 ^ 30, bytes₁⟩, ⟨2 ^ 30, 2 ^ 30, 2 ^ 30, bytes₂⟩]) := by
    have hint : toInt (2 ^ 30) = 2 ^ 30 := by
      decide
    rw [osTcpSend, osTcpTransfer]
    rw [show (resultsOs .linux (fun _ => some (2 ^ 30)) (fun _ => none)).port = .linux from rfl]
    rw [show MbalPort.remain .linux (2 ^ 31 : Nat) = 2 ^ 31 by decide]
    rw [osTcpTransfer.go_more hcall₁ (by decide) (by decide), hint, Int.zero_add]
    rw [show MbalPort.remain .linux (2 ^ 31 - 2 ^ 30) = 2 ^ 30 by decide]
    have hlast := @osTcpTransfer.go_last _ .linux _ (2 ^ 31) (2 ^ 31 - 1) _ _ _ _ _ hcall₂
      (by decide)
    rw [if_pos (by decide), show toInt (2 ^ 31 : Nat) = -2 ^ 31 by decide] at hlast
    exact hlast
  rw [hsend'] at hsend
  cases hsend
  have hcomplete : Complete (2 ^ 31)
      [⟨0, 2 ^ 31, 2 ^ 30, bytes₁⟩, ⟨2 ^ 30, 2 ^ 30, 2 ^ 30, bytes₂⟩] := by
    refine ⟨?_, ?_⟩
    . simp
    . simp [transferred]
  exact absurd (hall.whole.mpr hcomplete) (by decide)

end Modbus
