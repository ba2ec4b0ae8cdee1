import Modbus.Slave.Stale

/-!
This module contains the fact that a unicast request always has an answer: with callbacks that keep
to the documented return values the slave has between 1 and 253 bytes to transmit, and the function
code is that of the request, with or without the exception flag.
-/

namespace Modbus

variable {σ : Type}

/-- The get and set callbacks return 0 or an exception, vendor callbacks a size or an exception. -/
structure Iomap.Returns (iomap : Iomap σ) : Prop where
  coils_get : ∀ cb ∈ iomap.coils.get, cb.Returns
  coils_set : ∀ cb ∈ iomap.coils.set, cb.Returns
  inputs_get : ∀ cb ∈ iomap.inputs.get, cb.Returns
  holdingRegisters_get : ∀ cb ∈ iomap.holdingRegisters.get, cb.Returns
  holdingRegisters_set : ∀ cb ∈ iomap.holdingRegisters.set, cb.Returns
  inputRegisters_get : ∀ cb ∈ iomap.inputRegisters.get, cb.Returns
  vendorFuncs : ∀ funcs ∈ iomap.vendorFuncs, ∀ func ∈ funcs,
    ∀ (data : Mem) (size : Nat) (app : σ),
      (func.callback data size app).result < 0 ∨
        1 ≤ (func.callback data size app).result ∧
          (func.callback data size app).result ≤ maxPduSize

def Sized (count : Int) : Prop :=
  count < 0 ∨ 1 ≤ count ∧ count ≤ maxPduSize

section Responses

variable {area : Nat → Nat} (table : Table) (s : SlaveState σ)

theorem readBitsResponse_sized {get : Callback σ bitBytes} (hget : get.Returns)
    (address quantity : UInt16) (hq : quantity.toNat ≤ 2000)
    : Sized (readBitsResponse table get address quantity s).1 := by
  have hresult := hget address ((s.store 1 (bitCount quantity)).pdu.offset 2) quantity.toNat s.app
  unfold readBitsResponse
  dsimp only
  rw [SlaveState.call_fst, SlaveState.store_app]
  split
  . next hne =>
    left
    rw [SlaveState.call_fst, SlaveState.store_app]
    omega
  . right
    rw [SlaveState.resetPadBits_pdu_lt _ _ _ _ _ (by omega)]
    rw [SlaveState.call_pdu_lt _ _ _ _ _ _ _ _ (by omega)]
    simp only [SlaveState.store_pdu, Mem.store_apply, ↓reduceIte, toNat_bitCount hq, bitBytes,
      maxPduSize]
    omega

theorem readRegistersResponse_sized {get : Callback σ regBytes} (hget : get.Returns)
    (address quantity : UInt16) (hq : quantity.toNat ≤ 0x7D)
    : Sized (readRegistersResponse table get address quantity s).1 := by
  have hresult := hget address
    ((s.store 1 (UInt8.ofNat (2 * quantity.toNat))).pdu.offset 2) quantity.toNat s.app
  unfold readRegistersResponse
  dsimp only
  rw [SlaveState.call_fst, SlaveState.store_app]
  split
  . next hne =>
    left
    rw [SlaveState.call_fst, SlaveState.store_app]
    omega
  . right
    rw [SlaveState.call_pdu_lt _ _ _ _ _ _ _ _ (by omega)]
    simp only [SlaveState.store_pdu, Mem.store_apply, ↓reduceIte, toNat_regCount hq, regBytes,
      maxPduSize]
    omega

theorem writeResponse_sized {set : Callback σ area} (hset : set.Returns) (address : UInt16)
    (off quantity : Nat)
    : Sized (writeResponse table set address off quantity s).1 := by
  have hresult := hset address (s.pdu.offset off) quantity s.app
  unfold writeResponse
  dsimp only
  rw [SlaveState.call_fst]
  split
  . next hne =>
    left
    rw [SlaveState.call_fst]
    omega
  . right
    simp [maxPduSize]

theorem writeBitResponse_sized {set : Callback σ bitBytes} (hset : set.Returns)
    (address value : UInt16)
    : Sized (writeBitResponse table set address value s).1 := by
  unfold writeBitResponse
  generalize (if value = 0xFF00 then (1 : UInt8) else 0) = bit
  have hresult := hset address (fun _ => bit) 1 s.app
  dsimp only
  rw [SlaveState.callBit_fst]
  split
  . next hne =>
    left
    rw [SlaveState.callBit_fst]
    omega
  . right
    simp [maxPduSize]

theorem readWriteResponse_sized {get set : Callback σ regBytes} (hget : get.Returns)
    (hset : set.Returns) (pdu : Mem) (hq : (field pdu 3).toNat ≤ 0x7D)
    : Sized (readWriteResponse table get set pdu s).1 := by
  have hresult := hset (field pdu 5) (s.pdu.offset 10) (field pdu 7).toNat s.app
  unfold readWriteResponse
  dsimp only
  rw [SlaveState.call_fst]
  split
  . next hne =>
    left
    rw [SlaveState.call_fst]
    omega
  . exact readRegistersResponse_sized table _ hget _ _ hq

theorem Responds.sized {iomap : Iomap σ} (hiomap : iomap.Returns) {rxCount : Nat} {f : Function}
    {s : SlaveState σ} {res : Int × SlaveState σ} (h : Responds iomap f s res)
    (hv : valueOk rxCount s.pdu f)
    : Sized res.1 := by
  cases f with
  | readCoils =>
    obtain ⟨get, hget, rfl⟩ := h
    exact readBitsResponse_sized _ _ (hiomap.coils_get _ hget) _ _ hv.2
  | readInputs =>
    obtain ⟨get, hget, rfl⟩ := h
    exact readBitsResponse_sized _ _ (hiomap.inputs_get _ hget) _ _ hv.2
  | readHoldingRegisters =>
    obtain ⟨get, hget, rfl⟩ := h
    exact readRegistersResponse_sized _ _ (hiomap.holdingRegisters_get _ hget) _ _ hv.2
  | readInputRegisters =>
    obtain ⟨get, hget, rfl⟩ := h
    exact readRegistersResponse_sized _ _ (hiomap.inputRegisters_get _ hget) _ _ hv.2
  | writeCoil =>
    obtain ⟨set, hset, rfl⟩ := h
    exact writeBitResponse_sized _ _ (hiomap.coils_set _ hset) _ _
  | writeHoldingRegister =>
    obtain ⟨set, hset, rfl⟩ := h
    exact writeResponse_sized _ _ (hiomap.holdingRegisters_set _ hset) _ _ _
  | diagnostics => exact h.elim
  | writeCoils =>
    obtain ⟨set, hset, rfl⟩ := h
    exact writeResponse_sized _ _ (hiomap.coils_set _ hset) _ _ _
  | writeHoldingRegisters =>
    obtain ⟨set, hset, rfl⟩ := h
    exact writeResponse_sized _ _ (hiomap.holdingRegisters_set _ hset) _ _ _
  | readWriteHoldingRegisters =>
    obtain ⟨set, get, hset, hget, rfl⟩ := h
    exact readWriteResponse_sized _ _ (hiomap.holdingRegisters_get _ hget)
      (hiomap.holdingRegisters_set _ hset) _ hv.2.2.2.2

end Responses

def Iomap.IsVendor (iomap : Iomap σ) (code : UInt8) : Prop :=
  Function.ofCode code = none ∧
    ∃ funcs ∈ iomap.vendorFuncs, ∃ func ∈ funcs, func.function = code

theorem mbSlaveVendor.go_sized (rxCount : Nat) (s : SlaveState σ) (funcs : List (VendorFunc σ))
    (h : ∀ func ∈ funcs, ∀ (data : Mem) (size : Nat) (app : σ),
      Sized (func.callback data size app).result)
    : Sized (mbSlaveVendor.go rxCount s funcs).1 := by
  induction funcs with
  | nil =>
    left
    simp [mbSlaveVendor.go, eIllegalFunction]
  | cons func funcs ih =>
    unfold mbSlaveVendor.go
    split
    . apply h
      simp
    . apply ih
      intro func hfunc
      apply h
      simp [hfunc]

theorem mbSlaveVendor.go_none (rxCount : Nat) (s : SlaveState σ) (funcs : List (VendorFunc σ))
    (h : ∀ func ∈ funcs, func.function ≠ s.pdu 0)
    : mbSlaveVendor.go rxCount s funcs = (eIllegalFunction, s) := by
  induction funcs with
  | nil => rfl
  | cons func funcs ih =>
    unfold mbSlaveVendor.go Pdu.function
    rw [if_neg (h func (by simp))]
    apply ih
    intro func hfunc
    apply h
    simp [hfunc]

theorem mbSlaveVendor_sized {iomap : Iomap σ} (hiomap : iomap.Returns) (rxCount : Nat)
    (s : SlaveState σ)
    : Sized (mbSlaveVendor iomap rxCount s).1 := by
  unfold mbSlaveVendor
  cases hfuncs : iomap.vendorFuncs with
  | none =>
    left
    simp [eIllegalFunction]
  | some funcs =>
    apply mbSlaveVendor.go_sized
    exact hiomap.vendorFuncs funcs hfuncs

theorem mbSlaveVendor_none {iomap : Iomap σ} (rxCount : Nat) {s : SlaveState σ}
    (hf : Function.ofCode (s.pdu 0) = none) (hvendor : ¬iomap.IsVendor (s.pdu 0))
    : mbSlaveVendor iomap rxCount s = (eIllegalFunction, s) := by
  unfold mbSlaveVendor
  cases hfuncs : iomap.vendorFuncs with
  | none => rfl
  | some funcs =>
    apply mbSlaveVendor.go_none
    intro func hfunc heq
    exact hvendor ⟨hf, funcs, hfuncs, func, hfunc, heq⟩

theorem mbSlaveSwitch_sized (host : Endian) {iomap : Iomap σ} (hiomap : iomap.Returns)
    {rxCount : Nat} (h1 : 1 ≤ rxCount) (h2 : rxCount ≤ maxPduSize) (s : SlaveState σ)
    : Sized (mbSlaveSwitch host iomap rxCount false s).1 ∧
      (¬iomap.IsVendor (s.pdu 0) →
        (mbSlaveSwitch host iomap rxCount false s).2.pdu 0 = s.pdu 0) := by
  cases hf : Function.ofCode (s.pdu 0) with
  | none =>
    unfold mbSlaveSwitch
    simp only [Pdu.function, hf]
    refine ⟨mbSlaveVendor_sized hiomap rxCount s, ?_⟩
    intro hvendor
    rw [mbSlaveVendor_none rxCount hf hvendor]
  | some f =>
    by_cases hdiag : f = .diagnostics
    . subst hdiag
      unfold mbSlaveSwitch mbSlaveDiagnostics
      simp only [Pdu.function, hf]
      split
      . exact ⟨.inr ⟨by dsimp only; omega, by dsimp only; omega⟩, fun _ => rfl⟩
      . exact ⟨.inl (by dsimp only; decide), fun _ => rfl⟩
    . obtain ⟨hbc, -⟩ | ⟨hs, h⟩ | ⟨hv, -, -, h⟩ :=
        mbSlaveSwitch_cases host iomap rxCount false s hf hdiag
      . exact absurd hbc (by decide)
      . refine ⟨.inl ?_, fun _ => by rw [hs]⟩
        obtain ⟨h, -⟩ | ⟨h, -⟩ | ⟨h, -⟩ := h
        all_goals
          rw [h]
          decide
      . exact ⟨h.sized hiomap hv, fun _ => (h.ends hv).function_eq⟩

theorem mbSlaveProcess_sized (host : Endian) {iomap : Iomap σ} (hiomap : iomap.Returns)
    {rxCount : Nat} (h1 : 1 ≤ rxCount) (h2 : rxCount ≤ maxPduSize) (s : SlaveState σ)
    : (1 ≤ (mbSlaveProcess host iomap rxCount false s).1 ∧
        (mbSlaveProcess host iomap rxCount false s).1 ≤ maxPduSize)
        ∧
      (¬iomap.IsVendor (s.pdu 0) →
        (mbSlaveProcess host iomap rxCount false s).2.pdu 0 = s.pdu 0
          ∨
        (mbSlaveProcess host iomap rxCount false s).2.pdu 0 = s.pdu 0 ||| bit8 7) := by
  obtain ⟨hsized, hcode⟩ := mbSlaveSwitch_sized host hiomap h1 h2 s
  unfold mbSlaveProcess mbSlaveException
  dsimp only
  split
  . refine ⟨by simp [PduException.size, maxPduSize], ?_⟩
    intro hvendor
    right
    simp [Pdu.function, hcode hvendor]
  . next hneg =>
    refine ⟨?_, fun hvendor => .inl (hcode hvendor)⟩
    apply hsized.resolve_left
    exact hneg

theorem storageIomap_returns (coils inputs hold inputRegisters : Nat)
    : (storageIomap coils inputs hold inputRegisters none).Returns := by
  constructor
  case vendorFuncs =>
    simp [storageIomap]
  all_goals
    simp [storageIomap, Callback.Returns, coilGet, coilSet, holdGet, holdSet, bitsGet, regsGet]

end Modbus
