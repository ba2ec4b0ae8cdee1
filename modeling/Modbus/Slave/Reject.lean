import Modbus.Slave.Bounds

/-!
This module contains what it means for the slave to answer with an exception: nothing has happened
yet, or it passes on the error of the last callback.
-/

namespace Modbus

variable {σ : Type}

def IsException (tx : List UInt8) : Prop :=
  byteBit (tx.headD 0) 7 = true

theorem mbSlaveException_neg {res : Int × SlaveState σ} (h : res.1 < 0)
    : (mbSlaveException res).2.pdu.load 0 (mbSlaveException res).1.toNat
        =
      [res.2.pdu 0 ||| bit8 7, UInt8.ofInt (-res.1)] := by
  unfold mbSlaveException
  dsimp only
  rw [if_pos h]
  simp [Mem.load, PduException.size, Pdu.function, List.range_succ]

theorem not_isException_load {m : Mem} {f : Function} (hf : m 0 = f.code) (n : Nat)
    : ¬IsException (m.load 0 n) := by
  have hbit : byteBit f.code 7 = false := by
    cases f <;> rfl
  cases n with
  | zero => simp [IsException]
  | succ n => simp [IsException, Mem.load_succ, hf, hbit]

theorem toNat_ofInt_neg {r : Int} (h : r < 0) : (UInt8.ofInt (-r)).toNat = r.natAbs % 256 := by
  simp only [UInt8.ofInt, UInt8.toNat_ofNat']
  omega

theorem mbSlaveProcess_cases (host : Endian) (iomap : Iomap σ) (rxCount : Nat) (s : SlaveState σ)
    {f : Function} (hf : Function.ofCode (s.pdu 0) = some f) (hdiag : f ≠ .diagnostics)
    : (∃ code : UInt8,
        (code = 1 ∧ ¬callbacksOk iomap f ∨ code = 2 ∧ ¬rangeOk iomap s.pdu f ∨
          code = 3 ∧ ¬valueOk rxCount s.pdu f) ∧
        (mbSlaveProcess host iomap rxCount false s).2.pdu.load 0
            (mbSlaveProcess host iomap rxCount false s).1.toNat
          =
        [f.code ||| bit8 7, code] ∧
        (mbSlaveProcess host iomap rxCount false s).2.calls = s.calls ∧
        (mbSlaveProcess host iomap rxCount false s).2.app = s.app)
        ∨
      (valueOk rxCount s.pdu f ∧ rangeOk iomap s.pdu f ∧
        Responds iomap f s (mbSlaveSwitch host iomap rxCount false s)) := by
  have hcode := Function.eq_code_of_ofCode hf
  obtain ⟨hbc, -⟩ | ⟨hs, herr⟩ | ⟨hv, hr, -, h⟩ :=
    mbSlaveSwitch_cases host iomap rxCount false s hf hdiag
  . exact absurd hbc (by decide)
  . left
    unfold mbSlaveProcess
    have hload {e : Int} {code : UInt8}
        (he : (mbSlaveSwitch host iomap rxCount false s).1 = e) (hneg : e < 0)
        (hofInt : UInt8.ofInt (-e) = code)
        : (mbSlaveException (mbSlaveSwitch host iomap rxCount false s)).2.pdu.load 0
              (mbSlaveException (mbSlaveSwitch host iomap rxCount false s)).1.toNat
            =
          [f.code ||| bit8 7, code] := by
      rw [mbSlaveException_neg (by rw [he]; exact hneg), hs, hcode, he, hofInt]
    obtain ⟨h, hno⟩ | ⟨h, hno⟩ | ⟨h, hno⟩ := herr
    . exact ⟨3, .inr (.inr ⟨rfl, hno⟩), hload h (by decide) rfl, by simp [hs], by simp [hs]⟩
    . exact ⟨2, .inr (.inl ⟨rfl, hno⟩), hload h (by decide) rfl, by simp [hs], by simp [hs]⟩
    . exact ⟨1, .inl ⟨rfl, hno⟩, hload h (by decide) rfl, by simp [hs], by simp [hs]⟩
  . exact .inr ⟨hv, hr, h⟩

theorem Responds.callbacksOk {iomap : Iomap σ} {f : Function} {s : SlaveState σ}
    {res : Int × SlaveState σ} (h : Responds iomap f s res)
    : callbacksOk iomap f := by
  cases f with
  | readWriteHoldingRegisters =>
    obtain ⟨set, get, hset, hget, -⟩ := h
    simp [Modbus.callbacksOk, hset, hget]
  | diagnostics => trivial
  | _ =>
    obtain ⟨cb, hcb, -⟩ := h
    simp [Modbus.callbacksOk, hcb]

/--
If the slave answers a unicast request for a table with an exception then the PDU is the function
code with the exception flag and one more byte. Either nothing was called back, the application is
as before and the byte is one of the codes 1, 2 and 3, or the last callback failed and the byte is
the magnitude of its error. No callback runs before all checks have passed.
-/
theorem mbSlaveHandleRequest_exception (host : Endian) (iomap : Iomap σ) (transaction : Txn)
    (app : σ) (pdu : List UInt8) (hpdu : 1 ≤ pdu.length) (avail : Bool) (f : Function)
    (hf : pdu.head? = some f.code) (hdiag : f ≠ .diagnostics)
    : ∃ served,
        mbSlaveHandleRequest host mock iomap transaction app (.deliver pdu false avail)
          =
        some served
          ∧
        (∀ tx ∈ served.transport.sent, IsException tx →
          ∃ code : UInt8, tx = [f.code ||| bit8 7, code] ∧
            (served.calls = [] ∧ served.app = app ∧ (code = 1 ∨ code = 2 ∨ code = 3)
              ∨
            ∃ c : Call, served.calls.getLast? = some c ∧ c.result < 0 ∧
              code.toNat = c.result.natAbs % 256))
          ∧
        (served.calls ≠ [] →
          valueOk pdu.length (transaction.data.copy 0 pdu) f ∧
            rangeOk iomap (transaction.data.copy 0 pdu) f ∧ callbacksOk iomap f) := by
  have hne : pdu ≠ [] := List.length_pos_iff.mp hpdu
  obtain ⟨served, hserved, happ, hcalls, -, hsent⟩ :=
    mbSlaveHandleRequest_mock host iomap transaction app pdu hne false avail
  have hcode := ofCode_copy transaction.data hf
  have hfunction := Function.eq_code_of_ofCode hcode
  have hcases := mbSlaveProcess_cases host iomap pdu.length
    (.init (transaction.data.copy 0 pdu) app) hcode hdiag
  refine ⟨served, hserved, ?_, ?_⟩
  . intro tx htx hexc
    have htx : tx =
        (mbSlaveProcess host iomap pdu.length false
          (.init (transaction.data.copy 0 pdu) app)).2.pdu.load 0
          (mbSlaveProcess host iomap pdu.length false
            (.init (transaction.data.copy 0 pdu) app)).1.toNat := by
      rw [hsent] at htx
      split at htx
      . simpa using htx
      . simp at htx
    obtain ⟨code, hcheck, hload, hnil, happ'⟩ | ⟨hv, -, h⟩ := hcases
    . have hrange : code = 1 ∨ code = 2 ∨ code = 3 := hcheck.imp And.left (Or.imp And.left And.left)
      exact ⟨code, htx.trans hload, .inl ⟨hcalls.trans hnil, happ.trans happ', hrange⟩⟩
    . have hends := h.ends hv
      simp only [mbSlaveProcess, mbSlaveException_calls] at htx hcalls
      obtain ⟨c, hlast, hc⟩ := hends.last
      by_cases hneg : (mbSlaveSwitch host iomap pdu.length false
          (.init (transaction.data.copy 0 pdu) app)).1 < 0
      . -- Only an error of the last callback makes the count negative.
        obtain ⟨-, hres⟩ | ⟨-, size, -, -, hres⟩ := hc
        . rw [mbSlaveException_neg hneg, hends.function_eq] at htx
          rw [hres] at hneg htx
          exact ⟨_, htx.trans (by rw [← hfunction]; rfl),
            .inr ⟨c, by rw [hcalls, hlast], hneg, toNat_ofInt_neg hneg⟩⟩
        . omega
      . rw [mbSlaveException_nonneg (by omega)] at htx
        rw [htx] at hexc
        exact absurd hexc (not_isException_load (hends.function_eq.trans hfunction) _)
  . intro hne
    obtain ⟨code, -, -, hnil, -⟩ | ⟨hv, hr, h⟩ := hcases
    . exact absurd (hcalls.trans hnil) hne
    . exact ⟨hv, hr, h.callbacksOk⟩

theorem mbSlaveHandleRequest_exception_readWrite
    : ∃ served,
        mbSlaveHandleRequest .little mock (storageIomap 16 2 4 5 none) ⟨0, 0, 0, fun _ => 0x55⟩
            ⟨fun _ => 0, fun _ => 0, fun _ => 0, fun _ => 0⟩
            (.deliver [0x17, 0, 3, 0, 2, 0, 1, 0, 1, 2, 0x11, 0x22] false false) = some served
          ∧
        (served.calls ≠ [] →
          rangeOk (storageIomap 16 2 4 5 none)
            (Mem.copy (fun _ => 0x55) 0 [0x17, 0, 3, 0, 2, 0, 1, 0, 1, 2, 0x11, 0x22])
            .readWriteHoldingRegisters) := by
  obtain ⟨served, hserved, -, hcalls⟩ :=
    mbSlaveHandleRequest_exception .little (storageIomap 16 2 4 5 none)
      ⟨0, 0, 0, fun _ => 0x55⟩ ⟨fun _ => 0, fun _ => 0, fun _ => 0, fun _ => 0⟩
      [0x17, 0, 3, 0, 2, 0, 1, 0, 1, 2, 0x11, 0x22] (by decide) false
      .readWriteHoldingRegisters rfl (by decide)
  exact ⟨served, hserved, fun h => (hcalls h).2.1⟩

end Modbus
