import Modbus.Rtu.Receive
import Modbus.Tcp.Trace

/-!
This module contains the contract of `mb_pdu_rx` and what the two transports make of it. The serial
line honours it. The TCP transport does so except for a timeout of 0: where the contract says to
wait for ever, the Linux port does not wait at all.
-/

namespace Modbus

/--
What the callers of `mb_pdu_rx` may rely on. The result is the size of a PDU or a communication
error, which none of the Modbus exceptions is. A call that times out has consumed nothing and has
not changed the transaction, and a call that is to wait for ever does not time out.
-/
def RxContract {τ : Type} (transport : Transport τ) (consumed : τ → List UInt8) (transaction : Txn)
    (tmo : UInt32) (w : τ)
    : Prop :=
  ∀ (result : Int) (transaction' : Txn) (w' : τ),
    mbPduRx transport transaction tmo w = some (result, transaction', w') →
      (0 ≤ result ∧ result ≤ maxPduSize ∨ result ∈ [eCrcFail, eFrameNok, eSlaveId, eTimeout])
        ∧
      (result = eTimeout → consumed w' = consumed w ∧ transaction' = transaction)
        ∧
      (tmo = 0 → result ≠ eTimeout)

/-- The calls of the given system, which also keeps the bytes that were read. -/
def RtuOs.tapped {ω : Type} (os : RtuOs ω) : RtuOs (ω × List UInt8) where
  write buffer p size w :=
    let r := os.write buffer p size w.1
    (r.1, r.2, w.2)
  read n w :=
    let r := os.read n w.1
    (r.1, r.2, w.2 ++ r.1.getD [])
  rxAvail w :=
    let r := os.rxAvail w.1
    (r.1, r.2, w.2)
  txDrain size w := (os.txDrain size w.1, w.2)
  eventSet mask w := (os.eventSet mask w.1, w.2)
  eventClr mask w := (os.eventClr mask w.1, w.2)
  eventWait mask tmo w :=
    match os.eventWait mask tmo w.1 with
    | none => none
    | some (flags, line) => some (flags, line, w.2)
  txEnable := os.txEnable.map (fun txEnable level w => (txEnable level w.1, w.2))
  tmrStart t1p5 w := (os.tmrStart t1p5 w.1, w.2)

def RtuOs.Reads {ω : Type} (os : RtuOs ω) : Prop :=
  ∀ (n : Nat) (w : ω), ∃ bs, (os.read n w).1 = some bs ∧ bs.length ≤ n

section Rtu

variable {ω : Type} {os : RtuOs ω}

theorem RtuOs.Reads.tapped (h : os.Reads) : os.tapped.Reads := by
  intro n w
  exact h n w.1

variable (hreads : os.Reads)

include hreads

theorem mbRtuRead_le (buffer : Mem) (p : Int) (size : Nat) (hsize : size < 2 ^ 64) (line : ω)
    : (mbRtuRead os buffer p size line).1 ≤ size := by
  unfold mbRtuRead
  dsimp only
  generalize hn : (if sizeT (os.rxAvail (os.eventClr { rxAvail := true } line)).1 > size then size
    else sizeT (os.rxAvail (os.eventClr { rxAvail := true } line)).1) = n
  have hle : n ≤ size := by
    rw [← hn]
    split
    . omega
    . omega
  generalize (if sizeT (os.rxAvail (os.eventClr { rxAvail := true } line)).1 > size then
    os.eventSet { rxAvail := true } (os.rxAvail (os.eventClr { rxAvail := true } line)).2
    else (os.rxAvail (os.eventClr { rxAvail := true } line)).2) = line'
  obtain ⟨bs, hread, hlen⟩ := hreads n line'
  simp only [hread]
  rw [sizeT_natCast (by omega)]
  omega

theorem mbRtuRxMessage_count_le {rounds : Nat} {rx rx' : RxBuffer} {line line' : ω}
    (hcount : rx.count ≤ maxPduSize)
    (h : mbRtuRxMessage os rounds rx line = some (rx', line'))
    : rx'.count ≤ maxPduSize := by
  have hmax : maxPduSize = 253 := rfl
  induction rounds generalizing rx line with
  | zero => simp [mbRtuRxMessage] at h
  | succ rounds ih =>
    rw [mbRtuRxMessage] at h
    split at h
    . contradiction
    . next flags line₁ hwait =>
      dsimp only at h
      split at h
      . have hsize : sizeT ((maxPduSize : Int) - rx.count) = maxPduSize - rx.count := by
          rw [← Int.natCast_sub hcount]
          apply sizeT_natCast
          omega
        rw [hsize] at h
        have hle := mbRtuRead_le hreads rx.data rx.p (maxPduSize - rx.count) (by omega) line₁
        generalize mbRtuRead os rx.data rx.p (maxPduSize - rx.count) line₁ = r at h hle
        have hnext : sizeT ((rx.count : Int) + r.1) = rx.count + r.1 := by
          rw [← Int.natCast_add]
          apply sizeT_natCast
          omega
        rw [hnext] at h
        split at h
        . cases h
          dsimp only
          omega
        . apply ih _ h
          dsimp only
          omega
      . split at h
        . cases h
          exact hcount
        . exact ih hcount h

omit hreads in
theorem two_le_of_mbCrc {slave unit : UInt8} (hunit : unit ≤ 247)
    (hslave : ¬(slave ≠ unit ∧ slave ≠ 0)) {data : Mem} {count : Nat} (hcount : count < 256)
    (hcrc : mbCrc data (UInt8.ofNat count) (mbCrc (fun _ => slave) 1 0xFFFF) = 0)
    : 2 ≤ count := by
  have hlen : (UInt8.ofNat count).toNat = count := by
    simp only [UInt8.toNat_ofNat']
    omega
  have hlegal : slave ≤ 247 := by
    rcases eq_or_ne slave unit with rfl | hne
    . exact hunit
    . rw [show slave = 0 by tauto]
      decide
  rw [mbCrc_one, mbCrc, ← crcOf_append, hlen, List.singleton_append] at hcrc
  have htwo := two_le_of_crcOf hlegal hcrc
  rwa [Mem.length_load] at htwo

/-- A frame that passes the checks has a PDU, even if its first byte has not been read. -/
theorem mbRtuRxFrame_result {rounds : Nat} {transaction transaction' : Txn}
    (hunit : transaction.unit ≤ 247) {slaveRx : UInt8} {rtu rtu' : MbRtu ω} {line : ω}
    {result : Int}
    (h : mbRtuRxFrame os rounds transaction slaveRx rtu line = some (result, transaction', rtu'))
    : 0 ≤ result ∧ result ≤ maxPduSize ∨ result ∈ [eCrcFail, eFrameNok, eSlaveId] := by
  have hmax : maxPduSize = 253 := rfl
  obtain ⟨rx, rx', error, line₁, line₂, hmessage, hend, hresult⟩ := mbRtuRxFrame_cases h
  have hcount := mbRtuRxMessage_count_le hreads (by simp) hmessage
  obtain ⟨hcount', herror⟩ := mbRtuRxEnd_cases os hend
  cases error with
  | none =>
    simp only [rxEnded, Prod.mk.injEq] at hresult
    rw [hresult.1]
    left
    obtain herror | herror := herror
    . obtain ⟨hslave, hcrc⟩ := messageError_of_none herror.symm
      have htwo := two_le_of_mbCrc hunit hslave (by omega) hcrc
      rw [hcount']
      rw [show ((rx.count : Int) - 2) = ((rx.count - 2 : Nat) : Int) by omega]
      rw [sizeT_natCast (by omega), toInt_of_lt (by omega)]
      omega
    . contradiction
  | some error =>
    simp only [rxEnded, Prod.mk.injEq] at hresult
    rw [hresult.1]
    right
    obtain herror | herror := herror
    . obtain rfl | rfl := messageError_of_some herror.symm <;> simp
    . cases herror
      simp

end Rtu

theorem mbRtu_rxContract {ω : Type} {os : RtuOs ω} (hreads : os.Reads) (host : Endian)
    (rounds : Nat) {transaction : Txn} (hunit : transaction.unit ≤ 247) (tmo : UInt32)
    (rtu : MbRtu (ω × List UInt8))
    : RxContract (mbRtu os.tapped host rounds) (fun rtu => rtu.line.2) transaction tmo rtu := by
  intro result transaction' rtu' h
  change mbRtuRx os.tapped rounds transaction tmo rtu = _ at h
  unfold mbRtuRx at h
  split at h
  . contradiction
  . next flags line hwait =>
    have hkeeps : line.2 = rtu.line.2 := by
      simp only [RtuOs.tapped] at hwait
      split at hwait
      . contradiction
      . cases hwait
        rfl
    split at h
    . next htimeout =>
      cases h
      refine ⟨.inr (by simp), fun _ => ⟨hkeeps, rfl⟩, ?_⟩
      intro hforever
      exact absurd hforever htimeout.1
    . have hresult := mbRtuRxFrame_result hreads.tapped hunit h
      have hne : result ≠ eTimeout := by
        rintro rfl
        obtain ⟨hnonneg, -⟩ | hmem := hresult
        . exact absurd hnonneg (by decide)
        . exact absurd hmem (by decide)
      refine ⟨?_, fun htimeout => absurd htimeout hne, fun _ => hne⟩
      obtain hsize | hmem := hresult
      . exact .inl hsize
      . right
        simp only [List.mem_cons, List.not_mem_nil, or_false] at hmem ⊢
        tauto

theorem mbTcp_rxContract_iff (env : TcpEnv) (host : Endian) (transaction : Txn) (tmo : UInt32)
    (t : MbTcp (List TcpEvent))
    : RxContract (mbTcp env.os host) (fun t => consumed t.net) transaction tmo t
        ↔
      (tmo = 0 → env.select t.net transaction.arg 0 ≠ 0) := by
  obtain ⟨result, transaction', t', hrx, hreceives⟩ := mbTcpRx_env host transaction env t tmo
  constructor
  . intro h hforever hselect
    obtain ⟨-, -, hne⟩ := h result transaction' t' hrx
    apply hne hforever
    rw [hreceives.timeout, hforever]
    exact hselect
  . intro hforever result₁ transaction₁ t₁ hrx₁
    rw [mbPduRx_mbTcp, hrx] at hrx₁
    cases hrx₁
    refine ⟨?_, ?_, ?_⟩
    . by_cases hneg : result < 0
      . right
        obtain ⟨herror | herror, -⟩ := hreceives.failed hneg
        . simp [herror]
        . simp [herror]
      . obtain ⟨-, hle, -⟩ := hreceives.received (by omega)
        exact .inl ⟨by omega, hle⟩
    . intro htimeout
      obtain ⟨heq, hnet⟩ := hreceives.timeout_eq htimeout
      refine ⟨?_, heq⟩
      dsimp only
      rw [hnet]
      simp [consumed, TcpEvent.bytes]
    . intro hzero htimeout
      apply hforever hzero
      rw [hreceives.timeout, hzero] at htimeout
      exact htimeout

/--
On the serial line the contract holds whatever the line does. On TCP it holds except where the
caller wants to wait for ever and there is nothing to be received yet, with a `select` that returns
0 if it must not wait and no data is available.
-/
theorem mbPduRx_contract {ω : Type} {os : RtuOs ω} (hreads : os.Reads) (host : Endian)
    (rounds : Nat) (transaction : Txn) (hunit : transaction.unit ≤ 247) (tmo : UInt32)
    (rtu : MbRtu (ω × List UInt8)) (env : TcpEnv) (avail : List TcpEvent → Int → Bool)
    (hselect : ∀ (trace : List TcpEvent) (peer : Int),
      env.select trace peer 0 = 0 ↔ avail trace peer = false)
    (transaction' : Txn) (t : MbTcp (List TcpEvent))
    : RxContract (mbRtu os.tapped host rounds) (fun rtu => rtu.line.2) transaction tmo rtu
        ∧
      (RxContract (mbTcp env.os host) (fun t => consumed t.net) transaction' tmo t
        ↔
      (tmo = 0 → avail t.net transaction'.arg = true)) := by
  refine ⟨mbRtu_rxContract hreads host rounds hunit tmo rtu, ?_⟩
  rw [mbTcp_rxContract_iff]
  apply forall_congr'
  intro _
  rw [ne_eq, hselect, Bool.not_eq_false]

def arrivedLine : RtuOs (List UInt8) where
  write _ _ size line := (size, line)
  read n line := (some (line.take n), line.drop n)
  rxAvail line := (line.length, line)
  txDrain _ line := line
  eventSet _ line := line
  eventClr _ line := line
  eventWait mask _ line :=
    let flags := { rxAvail := !line.isEmpty, t1p5 := line.isEmpty, t3p5 := line.isEmpty }
    some (some (Flags.and flags mask), line)
  txEnable := none
  tmrStart _ line := line

theorem mbPduRx_contract_sent
    : RxContract (mbRtu arrivedLine.tapped .little 10) (fun rtu => rtu.line.2)
          ⟨0, 0, 1, fun _ => 0⟩ 0 ⟨false, 0, [1, 3, 0, 0], []⟩
        ∧
      RxContract (mbTcp (sentEnv [0, 1, 0, 0, 0, 2, 1, 3]).os .little) (fun t => consumed t.net)
          ⟨1, 0, 1, fun _ => 0⟩ 0 ⟨false, 502, false, fun _ => 0, [.connect 1]⟩ := by
  have hreads : arrivedLine.Reads := by
    intro n line
    exact ⟨line.take n, rfl, List.length_take_le n line⟩
  have hselect (trace : List TcpEvent) (peer : Int)
      : (sentEnv [0, 1, 0, 0, 0, 2, 1, 3]).select trace peer 0 = 0
          ↔
        decide ((consumed trace).length < 8) = false := by
    simp [sentEnv]
  have h := mbPduRx_contract hreads .little 10 ⟨0, 0, 1, fun _ => 0⟩ (by decide) 0
    ⟨false, 0, [1, 3, 0, 0], []⟩ (sentEnv [0, 1, 0, 0, 0, 2, 1, 3])
    (fun trace _ => decide ((consumed trace).length < 8)) hselect ⟨1, 0, 1, fun _ => 0⟩
    ⟨false, 502, false, fun _ => 0, [.connect 1]⟩
  exact ⟨h.1, h.2.mpr (by decide)⟩

theorem not_rxContract_empty
    : ¬RxContract (mbTcp (sentEnv []).os .little) (fun t => consumed t.net) ⟨1, 0, 1, fun _ => 0⟩ 0
        ⟨false, 502, false, fun _ => 0, [.connect 1]⟩ := by
  intro h
  obtain ⟨-, -, hne⟩ := h eTimeout _ _ rfl
  exact hne rfl rfl

end Modbus
