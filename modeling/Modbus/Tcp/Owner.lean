import Modbus.Tcp.Lifecycle

/-!
This module contains what the TCP transport and a slave over it keep of the state of any operating
system, as long as each of the system calls keeps it for the connection that is owned.
-/

namespace Modbus

variable {ω : Type}

/-- What holds of the state if this connection is owned, or none. -/
structure TcpOs.Keeps (os : TcpOs ω) (I : Option Int → ω → Prop) : Prop where
  close {peer : Int} {w : ω} (h : I (some peer) w) : I none (os.close peer w)
  send {peer : Int} {w : ω} (h : I (some peer) w) (buffer : Mem) (p remain : Int)
    : I (some peer) (os.send peer buffer p remain w).2
  recv {peer : Int} {w : ω} (h : I (some peer) w) (p remain : Int)
    : I (some peer) (os.recv peer p remain w).2
  select {peer : Int} {w : ω} (h : I (some peer) w) (tmo : UInt32)
    : I (some peer) (os.select peer tmo w).2
  allowed_send (peer : Int) (buffer : Mem) : AllowedResults (os.send peer buffer)
  allowed_recv (peer : Int) : AllowedResults (osTcpRecv.recv os peer)

/-- A connection that is accepted is owned. -/
def TcpOs.Accepts (os : TcpOs ω) (I : Option Int → ω → Prop) : Prop :=
  ∀ (w : ω), I none w → ∀ (port : UInt16),
    (os.acceptConnection port w).1 = -1 ∧ I none (os.acceptConnection port w).2
      ∨
    0 < (os.acceptConnection port w).1 ∧
      I (some (os.acceptConnection port w).1) (os.acceptConnection port w).2

namespace TcpOs.Keeps

variable {os : TcpOs ω} {I : Option Int → ω → Prop} (hkeeps : os.Keeps I)

include hkeeps

section Transfer

variable {peer : Int} {w : ω} (h : I (some peer) w)

include h

theorem osTcpSend (buffer : Mem) (size : Nat)
    : ∃ (n : Int) (w' : ω),
        Modbus.osTcpSend os peer buffer size w = some (n, w') ∧ I (some peer) w' := by
  obtain ⟨p, remain, w', n, w'', h', hsend, -, hgo⟩ :=
    @osTcpTransfer.go_rule _ os.port _ (hkeeps.allowed_send peer buffer) size
      (fun _ _ w' => I (some peer) w')
      (fun p remain w' _ w'' h hsend _ _ => by
        have hkept := hkeeps.send h buffer p remain
        rw [hsend] at hkept
        exact hkept)
      (size + 1) 0 (os.port.remain size) w h
      (by have hle := os.port.remain_le size; omega)
      (fun n h1 h2 => os.port.remain_of_le h1 h2)
  have hkept := hkeeps.send h' buffer p remain
  rw [hsend] at hkept
  exact ⟨_, w'', hgo, hkept⟩

theorem osTcpRecv (buffer : Mem) {size : Nat} (hsize : size < 2 ^ 31)
    : ∃ (n : Int) (buffer' : Mem) (w' : ω),
        Modbus.osTcpRecv os peer buffer size w = some (n, buffer', w')
          ∧
        I (some peer) w'
          ∧
        (n = size ∨ n ≤ 0) := by
  have hrecv {p remain n : Int} {r r' : Mem × ω} (h : I (some peer) r.2)
      (hrecv : osTcpRecv.recv os peer p remain r = (n, r'))
      : I (some peer) r'.2 := by
    cases hrecv
    exact hkeeps.recv h p remain
  obtain ⟨n, ⟨buffer', w'⟩, hgo, hends⟩ :=
    @osTcpTransfer_rule _ os.port _ (hkeeps.allowed_recv peer) _ hsize
      (fun _ r => I (some peer) r.2)
      (fun _ _ _ _ _ h htransfer _ => hrecv h htransfer)
      (buffer, w) h
  refine ⟨n, buffer', w', hgo, ?_⟩
  cases hends with
  | whole _ h => exact ⟨h, .inl rfl⟩
  | failed _ h htransfer hn => exact ⟨hrecv h htransfer, .inr hn⟩

end Transfer

end TcpOs.Keeps

/-- The connection of the transaction is owned while the transport is up. -/
def Owned (I : Option Int → ω → Prop) (transaction : Txn) (t : MbTcp ω) : Prop :=
  I (if t.isDown then none else some transaction.arg) t.net

section Tcp

variable {os : TcpOs ω} {I : Option Int → ω → Prop} (hkeeps : os.Keeps I) (host : Endian)
  {transaction : Txn} {t : MbTcp ω} (h : Owned I transaction t) (hup : t.isDown = false)

include hkeeps h hup

theorem mbTcpRx_owned (tmo : UInt32)
    : ∃ (result : Int) (transaction' : Txn) (t' : MbTcp ω),
        mbTcpRx os host transaction tmo t = some (result, transaction', t')
          ∧
        transaction'.arg = transaction.arg
          ∧
        t'.isServer = t.isServer
          ∧
        Owned I transaction' t'
          ∧
        (0 < result → t'.isDown = false) := by
  rw [Owned, hup] at h
  have hselect := hkeeps.select h (tmo * 1000)
  have hframeNok {down : Bool} (hpos : 0 < eFrameNok) : down = false := by
    exact absurd hpos (by decide)
  have hwait : osTcpRecvWait os transaction.arg tmo t.net
      = os.select transaction.arg (tmo * 1000) t.net := rfl
  unfold mbTcpRx
  dsimp only
  rw [hwait]
  generalize os.select transaction.arg (tmo * 1000) t.net = r at hselect
  obtain ⟨ready, net⟩ := r
  dsimp only at hselect ⊢
  split
  . exact ⟨_, _, _, rfl, rfl, rfl, hkeeps.close hselect, hframeNok⟩
  . split
    . refine ⟨_, _, _, rfl, rfl, rfl, ?_, fun hpos => absurd hpos (by decide)⟩
      rw [Owned, hup]
      exact hselect
    . obtain ⟨n, mbap, net', hheader, hkept, hn⟩ :=
        hkeeps.osTcpRecv hselect t.mbap (show mbapHeaderSize < 2 ^ 31 by decide)
      rw [hheader]
      dsimp only
      by_cases hfull : n = mbapHeaderSize
      . obtain ⟨m, data, net'', hmessage, hkept', -⟩ :=
          hkeeps.osTcpRecv hkept transaction.data (mbTcpPduSize_lt host mbap)
        rw [if_pos hfull, if_pos hfull, hmessage]
        dsimp only
        split
        . exact ⟨_, _, _, rfl, rfl, rfl, hkeeps.close hkept', hframeNok⟩
        . split
          . refine ⟨_, _, _, rfl, rfl, rfl, ?_, hframeNok⟩
            rw [Owned, hup]
            exact hkept'
          . refine ⟨_, _, _, rfl, rfl, rfl, ?_, fun _ => hup⟩
            rw [Owned, hup]
            exact hkept'
      . rw [if_neg hfull, if_neg hfull]
        dsimp only
        rw [if_pos (by omega)]
        exact ⟨_, _, _, rfl, rfl, rfl, hkeeps.close hkept, hframeNok⟩

end Tcp

section Slave

variable {σ : Type} {os : TcpOs ω} {I : Option Int → ω → Prop} (hkeeps : os.Keeps I)
  (haccepts : os.Accepts I) (host : Endian) (iomap : Iomap σ)

include hkeeps

include haccepts

end Slave

end Modbus
