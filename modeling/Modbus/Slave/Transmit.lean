import Modbus.Slave.Reject

/-!
This module contains when `mb_slave_handle_request` transmits, for every answer that the transport
may give to the receive, to the question for a broadcast and to the question for pending data. A
vendor callback that returns 0 asks for silence, the slave transmits an empty PDU instead.
-/

namespace Modbus

variable {σ : Type}

def Iomap.vendorFunc (iomap : Iomap σ) (code : UInt8) : Option (VendorFunc σ) :=
  iomap.vendorFuncs.bind (fun funcs => funcs.find? (fun func => func.function = code))

/-- The request goes to a vendor callback, which returns 0: no response is to be sent. -/
def Iomap.Withholds (iomap : Iomap σ) (pdu : Mem) (rxCount : Nat) (app : σ) : Prop :=
  Function.ofCode (pdu 0) = none ∧
    ∃ func, iomap.vendorFunc (pdu 0) = some func ∧ (func.callback pdu rxCount app).result = 0

theorem mbSlaveVendor.go_eq (rxCount : Nat) (s : SlaveState σ) (funcs : List (VendorFunc σ))
    : mbSlaveVendor.go rxCount s funcs
        =
      match funcs.find? (fun func => func.function = s.pdu 0) with
      | none => (eIllegalFunction, s)
      | some func =>
        let r := func.callback s.pdu rxCount s.app
        (r.result, { s with pdu := r.data, app := r.app }) := by
  induction funcs with
  | nil => rfl
  | cons func funcs ih =>
    unfold mbSlaveVendor.go
    rw [List.find?_cons]
    simp only [Pdu.function]
    by_cases h : func.function = s.pdu 0
    . simp [h]
    . simp [h, ih]

theorem mbSlaveVendor_eq (iomap : Iomap σ) (rxCount : Nat) (s : SlaveState σ)
    : mbSlaveVendor iomap rxCount s
        =
      match iomap.vendorFunc (s.pdu 0) with
      | none => (eIllegalFunction, s)
      | some func =>
        let r := func.callback s.pdu rxCount s.app
        (r.result, { s with pdu := r.data, app := r.app }) := by
  unfold mbSlaveVendor Iomap.vendorFunc
  cases iomap.vendorFuncs with
  | none => rfl
  | some funcs => apply mbSlaveVendor.go_eq

theorem mbSlaveVendor_eq_zero (iomap : Iomap σ) (rxCount : Nat) (s : SlaveState σ)
    (h : (mbSlaveVendor iomap rxCount s).1 = 0)
    : ∃ func, iomap.vendorFunc (s.pdu 0) = some func ∧
        (func.callback s.pdu rxCount s.app).result = 0 := by
  rw [mbSlaveVendor_eq] at h
  cases hfunc : iomap.vendorFunc (s.pdu 0) with
  | none => simp [hfunc, eIllegalFunction] at h
  | some func =>
    rw [hfunc] at h
    exact ⟨func, rfl, h⟩

/-- A handler of a unicast request has nothing to send only if a vendor callback says so. -/
theorem mbSlaveSwitch_eq_zero (host : Endian) (iomap : Iomap σ) (rxCount : Nat)
    (hcount : 0 < rxCount) (s : SlaveState σ)
    : (mbSlaveSwitch host iomap rxCount false s).1 = 0 ↔ iomap.Withholds s.pdu rxCount s.app := by
  cases hf : Function.ofCode (s.pdu 0) with
  | none =>
    have hswitch : mbSlaveSwitch host iomap rxCount false s = mbSlaveVendor iomap rxCount s := by
      unfold mbSlaveSwitch
      simp only [Pdu.function, hf]
    rw [hswitch]
    constructor
    . intro h
      exact ⟨hf, mbSlaveVendor_eq_zero iomap rxCount s h⟩
    . rintro ⟨_, func, hfunc, h⟩
      rw [mbSlaveVendor_eq, hfunc]
      exact h
  | some f =>
    have hnot : ¬iomap.Withholds s.pdu rxCount s.app := by
      rintro ⟨hnone, _⟩
      rw [hf] at hnone
      contradiction
    apply iff_of_false _ hnot
    intro hzero
    by_cases hdiag : f = .diagnostics
    . unfold mbSlaveSwitch at hzero
      simp only [Pdu.function, hf, hdiag, mbSlaveDiagnostics] at hzero
      split at hzero
      . simp only at hzero
        omega
      . simp [eIllegalFunction] at hzero
    . obtain ⟨hbc, -⟩ | ⟨-, herr⟩ | ⟨hv, -, -, h⟩ :=
        mbSlaveSwitch_cases host iomap rxCount false s hf hdiag
      . contradiction
      . simp [hzero, eIllegalDataValue, eIllegalDataAddress, eIllegalFunction] at herr
      . -- The count is the error of the last callback or the size of a response.
        obtain ⟨c, -, ⟨hc, hres⟩ | ⟨-, size, hpos, -, hres⟩⟩ := (h.ends hv).last
        . rw [hzero] at hres
          exact hc hres.symm
        . omega

theorem mbSlaveException_eq_zero (res : Int × SlaveState σ)
    : (mbSlaveException res).1.toNat = 0 ↔ res.1 = 0 := by
  unfold mbSlaveException
  dsimp only
  split
  . simp only [PduException.size]
    omega
  . omega

theorem mbSlaveHandleRequest_sent (host : Endian) (iomap : Iomap σ) (transaction : Txn) (app : σ)
    (w : Mock)
    : ∃ served,
        mbSlaveHandleRequest host mock iomap transaction app w = some served
          ∧
        let res :=
          mbSlaveProcess host iomap w.rxResult.toNat w.bc
            (.init (transaction.data.copy 0 w.rxData) app)
        served.transport.sent
          =
        if 0 < w.rxResult ∧ w.bc = false ∧ w.avail = false then
          w.sent ++ [res.2.pdu.load 0 res.1.toNat]
        else
          w.sent := by
  obtain ⟨rxData, rxResult, bc, avail, sent⟩ := w
  unfold mbSlaveHandleRequest
  simp only [mbPduRx, mock, mockMbPduRx, mbPduRxAvail, mbPduRxBc, mbPduTx, mockMbPduTx]
  by_cases hpos : 0 < rxResult
  . simp only [gt_iff_lt, hpos, ↓reduceIte, true_and]
    cases avail with
    | true => exact ⟨_, rfl, by simp⟩
    | false =>
      cases bc with
      | true => exact ⟨_, rfl, by simp⟩
      | false => exact ⟨_, rfl, rfl⟩
  . simp only [gt_iff_lt, hpos, ↓reduceIte, false_and]
    exact ⟨_, rfl, rfl⟩

/--
The slave transmits at most once and never an empty PDU. It transmits for the requests that are
received without an error, are not broadcasts, have not been overtaken by another message and are
not withheld by a vendor callback.
-/
def TransmitsOnDemand (host : Endian) (iomap : Iomap σ) (transaction : Txn) (app : σ)
    (rxData : List UInt8) (rxResult : Int) (bc avail : Bool)
    : Prop :=
  ∃ served,
    mbSlaveHandleRequest host mock iomap transaction app
        { rxData, rxResult, bc, avail, sent := [] } = some served
      ∧
    served.transport.sent.length ≤ 1
      ∧
    (∀ pdu ∈ served.transport.sent, 1 ≤ pdu.length)
      ∧
    (served.transport.sent ≠ []
      ↔
    0 < rxResult ∧ bc = false ∧ avail = false ∧
      ¬iomap.Withholds (transaction.data.copy 0 rxData) rxResult.toNat app)

/--
The only call that goes wrong is the one in which a response would be sent and a vendor callback
withholds it.
-/
theorem mbSlaveHandleRequest_transmitsOnDemand_iff (host : Endian) (iomap : Iomap σ)
    (transaction : Txn) (app : σ) (rxData : List UInt8) (rxResult : Int) (bc avail : Bool)
    : TransmitsOnDemand host iomap transaction app rxData rxResult bc avail
        ↔
      ¬(0 < rxResult ∧ bc = false ∧ avail = false ∧
        iomap.Withholds (transaction.data.copy 0 rxData) rxResult.toNat app) := by
  obtain ⟨served, hserved, hsent⟩ :=
    mbSlaveHandleRequest_sent host iomap transaction app
      { rxData, rxResult, bc, avail, sent := [] }
  dsimp only at hsent
  by_cases hopen : 0 < rxResult ∧ bc = false ∧ avail = false
  . rw [if_pos hopen] at hsent
    obtain ⟨hpos, rfl, rfl⟩ := hopen
    have hsize := mbSlaveSwitch_eq_zero host iomap rxResult.toNat (by omega)
      (.init (transaction.data.copy 0 rxData) app)
    rw [← mbSlaveException_eq_zero] at hsize
    constructor
    . intro ⟨served', hserved', _, hlen, _⟩ ⟨_, _, _, hwithholds⟩
      rw [hserved] at hserved'
      injection hserved' with heq
      have hzero := hsize.mpr hwithholds
      rw [← heq, hsent] at hlen
      specialize hlen _ (by simp; rfl)
      rw [Mem.length_load] at hlen
      unfold mbSlaveProcess at hlen
      omega
    . intro hnot
      have hkeeps : ¬iomap.Withholds (transaction.data.copy 0 rxData) rxResult.toNat app := by
        intro hwithholds
        exact hnot ⟨hpos, rfl, rfl, hwithholds⟩
      have hne := mt hsize.mp hkeeps
      refine ⟨served, hserved, ?_, ?_, ?_⟩
      . simp [hsent]
      . intro pdu hpdu
        simp only [hsent, List.nil_append, List.mem_singleton] at hpdu
        rw [hpdu, Mem.length_load]
        unfold mbSlaveProcess
        omega
      . simp [hsent, hpos, hkeeps]
  . rw [if_neg hopen] at hsent
    constructor
    . intro _ ⟨hpos, hbc, havail, _⟩
      exact hopen ⟨hpos, hbc, havail⟩
    . intro _
      refine ⟨served, hserved, ?_, ?_, ?_⟩
      . simp [hsent]
      . simp [hsent]
      . simp only [hsent, ne_eq, not_true_eq_false, false_iff]
        intro ⟨hpos, hbc, havail, _⟩
        exact hopen ⟨hpos, hbc, havail⟩

def quietIomap : Iomap Unit where
  coils := { size := 0, get := none, set := none }
  inputs := { size := 0, get := none, set := none }
  holdingRegisters := { size := 0, get := none, set := none }
  inputRegisters := { size := 0, get := none, set := none }
  vendorFuncs := some [{ function := 0x41, callback := fun data _ app => ⟨0, data, app⟩ }]

theorem not_transmitsOnDemand_quietIomap
    : ¬TransmitsOnDemand .little quietIomap ⟨0, 0, 1, fun _ => 0⟩ () [0x41, 1, 2] 3 false
        false := by
  intro ⟨served, hserved, _, hlen, _⟩
  have hsent : served.transport.sent = [[]] := by
    injection hserved with hserved
    rw [← hserved]
    rfl
  specialize hlen [] (by simp [hsent])
  simp at hlen

end Modbus
