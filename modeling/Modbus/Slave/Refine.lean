import Modbus.Slave.Reject
import Modbus.Slave.Sample
import Modbus.Slave.Spec

/-!
This module contains the refinement of the data model by the slave with storage backed callbacks:
what the slave makes of a PDU in its buffer is an answer of the data model to the request in that
PDU, and a slave that serves one PDU after the other is a run of the data model.
-/

namespace Modbus

def Store.dataModel (coils inputs hold inputRegisters : Nat) (store : Store) : DataModel where
  coils := (List.range coils).map store.coils.bit
  inputs := (List.range inputs).map store.inputs.bit
  holdingRegisters := (List.range hold).map store.hold
  inputRegisters := (List.range inputRegisters).map store.inputRegisters

namespace Request

def Holds (rxCount : Nat) (pdu : Mem) (r : Request) : Prop :=
  pdu 0 = r.function.code ∧
    match r with
    | readCoils address value | readInputs address value | readHoldingRegisters address value
    | readInputRegisters address value | writeCoil address value
    | writeHoldingRegister address value =>
      field pdu 1 = address ∧ field pdu 3 = value
    | writeCoils address value count data | writeHoldingRegisters address value count data =>
      field pdu 1 = address ∧ field pdu 3 = value ∧ pdu 5 = count ∧ rxCount = 6 + data.length ∧
        pdu.load 6 data.length = data
    | readWriteHoldingRegisters readAddress readQuantity writeAddress writeQuantity count data =>
      field pdu 1 = readAddress ∧ field pdu 3 = readQuantity ∧ field pdu 5 = writeAddress ∧
        field pdu 7 = writeQuantity ∧ pdu 9 = count ∧ rxCount = 10 + data.length ∧
        pdu.load 10 data.length = data

theorem holds_of_decode (m : Mem) {pdu : List UInt8} {r : Request} (h : decode pdu = some r)
    : r.Holds pdu.length (m.copy 0 pdu) := by
  rcases pdu with _ | ⟨code, _ | ⟨a1, _ | ⟨a0, _ | ⟨v1, _ | ⟨v0, rest⟩⟩⟩⟩⟩
  iterate 5 simp [decode] at h
  cases hf : Function.ofCode code with
  | none => simp [decode, hf] at h
  | some f =>
    have hcode := Function.eq_code_of_ofCode hf
    cases f with
    | diagnostics => simp [decode, hf] at h
    | writeCoils =>
      rcases rest with _ | ⟨count, data⟩
      . simp [decode, hf] at h
      . simp only [decode, hf, Option.some.injEq] at h
        subst h
        refine ⟨hcode, rfl, rfl, rfl, by simp; omega, ?_⟩
        exact Mem.load_copy_append m [code, a1, a0, v1, v0, count] data
    | writeHoldingRegisters =>
      rcases rest with _ | ⟨count, data⟩
      . simp [decode, hf] at h
      . simp only [decode, hf, Option.some.injEq] at h
        subst h
        refine ⟨hcode, rfl, rfl, rfl, by simp; omega, ?_⟩
        exact Mem.load_copy_append m [code, a1, a0, v1, v0, count] data
    | readWriteHoldingRegisters =>
      rcases rest with _ | ⟨w1, _ | ⟨w0, _ | ⟨q1, _ | ⟨q0, _ | ⟨count, data⟩⟩⟩⟩⟩
      iterate 5 simp [decode, hf] at h
      simp only [decode, hf, Option.some.injEq] at h
      subst h
      refine ⟨hcode, rfl, rfl, rfl, rfl, rfl, by simp; omega, ?_⟩
      exact Mem.load_copy_append m [code, a1, a0, v1, v0, w1, w0, q1, q0, count] data
    | _ =>
      simp only [decode, hf, Option.some.injEq] at h
      subst h
      exact ⟨hcode, rfl, rfl⟩

theorem valueOk_iff {rxCount : Nat} {pdu : Mem} {r : Request} (h : r.Holds rxCount pdu)
    : valueOk rxCount pdu r.function ↔ r.ValuesOk := by
  cases r with
  | writeCoils | writeHoldingRegisters =>
    obtain ⟨-, rfl, rfl, rfl, hlen, -⟩ := h
    simp only [function, valueOk, ValuesOk, bitBytes, regBytes]
    omega
  | readWriteHoldingRegisters =>
    obtain ⟨-, rfl, rfl, rfl, rfl, rfl, hlen, -⟩ := h
    simp only [function, valueOk, ValuesOk, regBytes]
    omega
  | _ =>
    obtain ⟨-, rfl, rfl⟩ := h
    rfl

variable (coils inputs hold inputRegisters : Nat)

theorem rangeOk_iff (vendorFuncs : Option (List (VendorFunc Store))) {rxCount : Nat} {pdu : Mem}
    {r : Request} (h : r.Holds rxCount pdu) (store : Store)
    : rangeOk (storageIomap coils inputs hold inputRegisters vendorFuncs) pdu r.function
        ↔
      r.RangesOk (store.dataModel coils inputs hold inputRegisters) := by
  cases r with
  | writeCoils | writeHoldingRegisters =>
    obtain ⟨-, rfl, rfl, -⟩ := h
    simp [function, rangeOk, RangesOk, storageIomap, Store.dataModel]
  | readWriteHoldingRegisters =>
    obtain ⟨-, rfl, rfl, rfl, rfl, -⟩ := h
    simp [function, rangeOk, RangesOk, storageIomap, Store.dataModel, And.comm]
  | _ =>
    obtain ⟨-, rfl, rfl⟩ := h
    simp [function, rangeOk, RangesOk, storageIomap, Store.dataModel]

end Request

structure Yields (res : Int × SlaveState Store) (app : Store) (tx : List UInt8) : Prop where
  nonneg : 0 ≤ res.1
  app : res.2.app = app
  load : res.2.pdu.load 0 res.1.toNat = tx

theorem load_echo (pdu : Mem)
    : pdu.load 0 5
        =
      [pdu 0, hiByte (field pdu 1), loByte (field pdu 1), hiByte (field pdu 3),
        loByte (field pdu 3)] := by
  simp [Mem.load, List.range_succ, field]

section Responses

variable (table : Table) {s : SlaveState Store} {f : Function} (hcode : s.pdu 0 = f.code)

include hcode

theorem readBitsResponse_yields (bits : Store → Mem) {n : Nat} (address quantity : UInt16)
    (hq : quantity.toNat ≤ 2000) (hr : address.toNat + quantity.toNat ≤ n)
    : Yields (readBitsResponse table (bitsGet bits) address quantity s) s.app
        (Request.itemsResponse f
          (packBits
            (slice ((List.range n).map (bits s.app).bit) address.toNat quantity.toNat))) := by
  have hcount := toNat_bitCount hq
  rw [slice_map_range _ hr]
  unfold Request.itemsResponse
  rw [length_packBits, List.length_map, List.length_range, ← hcode]
  unfold readBitsResponse
  dsimp only
  rw [if_neg (by simp [bitsGet])]
  rw [SlaveState.resetPadBits_pdu_lt _ _ _ _ _ (by omega)]
  rw [SlaveState.call_pdu_lt _ _ _ _ _ _ _ _ (by omega)]
  simp only [SlaveState.store_pdu, Mem.store_apply, ↓reduceIte, hcount]
  refine ⟨by dsimp only; omega, SlaveState.resetPadBits_app _ _ _ _, ?_⟩
  dsimp only
  rw [show ((2 : Int) + bitBytes quantity.toNat).toNat = bitBytes quantity.toNat + 1 + 1 by omega]
  rw [Mem.load_succ, Mem.load_succ]
  rw [SlaveState.resetPadBits_pdu_lt _ _ _ _ _ (by omega)]
  rw [SlaveState.resetPadBits_pdu_lt _ _ _ _ _ (by omega)]
  rw [SlaveState.call_pdu_lt _ _ _ _ _ _ _ _ (by omega)]
  rw [SlaveState.call_pdu_lt _ _ _ _ _ _ _ _ (by omega)]
  refine congrArg₂ List.cons (by simp) (congrArg₂ List.cons ?_ ?_)
  . have hbytes : (quantity.toNat + 7) / 8 = bitBytes quantity.toNat := rfl
    simp [hbytes, ← hcount]
  . apply Mem.load_eq_packBits (by simp)
    intro j k hj hk
    have hbytes : bitBytes quantity.toNat = (quantity.toNat + 7) / 8 := rfl
    -- The byte is the one at `j` behind `pData`.
    change byteBit ((SlaveState.pdu _).offset 2 j) k = _
    rw [← Mem.bit_mul_add _ _ _ hk]
    rw [SlaveState.bit_resetPadBits, SlaveState.call_pdu, Mem.offset_splice]
    by_cases hlt : 8 * j + k < quantity.toNat
    . -- A bit that was asked for.
      rw [if_neg (by omega)]
      simp only [bitsGet, bit_bitsGetLoop]
      simp [hlt]
    . -- A bit of the padding.
      rw [if_pos (by omega)]
      simp [hlt]

theorem readRegistersResponse_yields (regs : Store → Nat → UInt16) {n : Nat}
    (address quantity : UInt16) (hq : quantity.toNat ≤ 125)
    (hr : address.toNat + quantity.toNat ≤ n)
    : Yields (readRegistersResponse table (regsGet regs) address quantity s) s.app
        (Request.itemsResponse f
          (packWords (slice ((List.range n).map (regs s.app)) address.toNat quantity.toNat))) := by
  have hcount := toNat_regCount hq
  rw [slice_map_range _ hr]
  unfold Request.itemsResponse
  rw [length_packWords, List.length_map, List.length_range, ← hcode]
  unfold readRegistersResponse
  dsimp only
  rw [if_neg (by simp [regsGet])]
  rw [SlaveState.call_pdu_lt _ _ _ _ _ _ _ _ (by omega)]
  simp only [SlaveState.store_pdu, Mem.store_apply, ↓reduceIte, hcount]
  refine ⟨by dsimp only; omega, rfl, ?_⟩
  dsimp only
  rw [show ((2 : Int) + regBytes quantity.toNat).toNat = regBytes quantity.toNat + 1 + 1 by omega]
  rw [Mem.load_succ, Mem.load_succ]
  rw [SlaveState.call_pdu_lt _ _ _ _ _ _ _ _ (by omega)]
  rw [SlaveState.call_pdu_lt _ _ _ _ _ _ _ _ (by omega)]
  refine congrArg₂ List.cons (by simp) (congrArg₂ List.cons (by simp) ?_)
  apply Mem.load_eq_packWords (by simp)
  intro i hi
  simp only [List.length_map, List.length_range] at hi
  have harea : regBytes quantity.toNat = 2 * quantity.toNat := rfl
  rw [show 0 + 1 + 1 = 2 from rfl, SlaveState.call_pdu]
  rw [Nat.add_assoc, Mem.splice_add, Mem.splice_add]
  simp only [regsGet]
  rw [regsGetLoop_lt _ _ _ _ _ (by omega), regsGetLoop_lt _ _ _ _ _ (by omega)]
  rw [if_pos (by omega), if_neg (by omega)]
  rw [show 2 * i / 2 = i by omega, show (2 * i + 1) / 2 = i by omega]
  simp

theorem writeResponse_yields {area : Nat → Nat} (set : Callback Store area) (address : UInt16)
    (off quantity : Nat)
    (hresult : (set.run address (s.pdu.offset off) quantity s.app).result = 0)
    (hdata : (set.run address (s.pdu.offset off) quantity s.app).data = s.pdu.offset off)
    : Yields (writeResponse table set address off quantity s)
        (set.run address (s.pdu.offset off) quantity s.app).app
        (Request.echoResponse f (field s.pdu 1) (field s.pdu 3)) := by
  unfold Request.echoResponse
  rw [← hcode, ← load_echo]
  unfold writeResponse
  dsimp only
  rw [if_neg (by simp [hresult])]
  refine ⟨Int.natCast_nonneg 5, rfl, ?_⟩
  dsimp only
  rw [SlaveState.call_pdu, hdata, Mem.splice_offset]
  rfl

theorem writeBitResponse_yields (set : Callback Store bitBytes) (address value : UInt16)
    (hresult : ∀ (data : Mem), (set.run address data 1 s.app).result = 0)
    : Yields (writeBitResponse table set address value s)
        (set.run address (fun _ => if value = 0xFF00 then 1 else 0) 1 s.app).app
        (Request.echoResponse f (field s.pdu 1) (field s.pdu 3)) := by
  unfold Request.echoResponse
  rw [← hcode, ← load_echo]
  unfold writeBitResponse
  dsimp only
  rw [if_neg (by simp [hresult])]
  exact ⟨Int.natCast_nonneg 5, rfl, rfl⟩

end Responses

theorem unpackWords_load_regs (pdu : Mem) (off : Nat) {n len : Nat} (h : 2 * n ≤ len)
    : unpackWords (pdu.load off len) n = (List.range n).map (mbSlaveRegGet (pdu.offset off)) := by
  rw [Mem.unpackWords_load _ _ h]
  apply List.map_congr_left
  intro i _
  rw [mbSlaveRegGet_eq]
  rfl

section Refinement

variable (coils inputs hold inputRegisters : Nat) (store : Store)

theorem dataModel_coilSet (address : UInt16) (data : Mem) (quantity : Nat)
    (h : address.toNat + quantity ≤ coils)
    : (coilSet.run address data quantity store).app.dataModel coils inputs hold inputRegisters
        =
      { store.dataModel coils inputs hold inputRegisters with
        coils :=
          overwrite (store.dataModel coils inputs hold inputRegisters).coils address.toNat
            ((List.range quantity).map data.bit) } := by
  simp only [coilSet, Store.dataModel, DataModel.mk.injEq, and_true]
  rw [overwrite_map_range _ _ h]
  apply List.map_congr_left
  intro i _
  apply bit_bitsSetLoop

theorem dataModel_holdSet (address : UInt16) (data : Mem) (quantity : Nat)
    (h : address.toNat + quantity ≤ hold)
    : (holdSet.run address data quantity store).app.dataModel coils inputs hold inputRegisters
        =
      { store.dataModel coils inputs hold inputRegisters with
        holdingRegisters :=
          overwrite (store.dataModel coils inputs hold inputRegisters).holdingRegisters
            address.toNat ((List.range quantity).map (mbSlaveRegGet data)) } := by
  simp only [holdSet, Store.dataModel, DataModel.mk.injEq, and_true, true_and]
  rw [overwrite_map_range _ _ h]
  apply List.map_congr_left
  intro i _
  apply regsSetLoop_apply

variable (vendorFuncs : Option (List (VendorFunc Store)))

theorem Responds.yields {rxCount : Nat} {s : SlaveState Store} {res : Int × SlaveState Store}
    {r : Request} (hholds : r.Holds rxCount s.pdu) (hv : r.ValuesOk)
    (hr : r.RangesOk (s.app.dataModel coils inputs hold inputRegisters))
    (h : Responds (storageIomap coils inputs hold inputRegisters vendorFuncs) r.function s res)
    : ∃ app, Yields res app (r.response (s.app.dataModel coils inputs hold inputRegisters)) ∧
        app.dataModel coils inputs hold inputRegisters
          =
        r.exec (s.app.dataModel coils inputs hold inputRegisters) := by
  cases r with
  | readCoils | readInputs =>
    obtain ⟨hcode, rfl, rfl⟩ := hholds
    obtain ⟨get, ⟨⟩, rfl⟩ := h
    simp only [Request.RangesOk, Store.dataModel, List.length_map, List.length_range] at hr
    exact ⟨s.app, readBitsResponse_yields _ hcode _ _ _ hv.2 hr, rfl⟩
  | readHoldingRegisters | readInputRegisters =>
    obtain ⟨hcode, rfl, rfl⟩ := hholds
    obtain ⟨get, ⟨⟩, rfl⟩ := h
    simp only [Request.RangesOk, Store.dataModel, List.length_map, List.length_range] at hr
    exact ⟨s.app, readRegistersResponse_yields _ hcode _ _ _ hv.2 hr, rfl⟩
  | writeCoil address value =>
    obtain ⟨hcode, rfl, rfl⟩ := hholds
    obtain ⟨set, ⟨⟩, rfl⟩ := h
    simp only [Request.RangesOk, Store.dataModel, List.length_map, List.length_range] at hr
    refine ⟨_, writeBitResponse_yields _ hcode coilSet _ _ (fun _ => rfl), ?_⟩
    rw [dataModel_coilSet _ _ _ _ _ _ _ _ hr]
    simp only [Request.exec, List.range_one, List.map_cons, List.map_nil]
    congr 3
    by_cases hon : field s.pdu 3 = 0xFF00 <;> simp [hon, Mem.bit, byteBit]
  | writeHoldingRegister address value =>
    obtain ⟨hcode, rfl, rfl⟩ := hholds
    obtain ⟨set, ⟨⟩, rfl⟩ := h
    simp only [Request.RangesOk, Store.dataModel, List.length_map, List.length_range] at hr
    refine ⟨_, writeResponse_yields _ hcode holdSet _ _ _ rfl rfl, ?_⟩
    rw [dataModel_holdSet _ _ _ _ _ _ _ _ hr]
    rfl
  | writeCoils address quantity count data =>
    obtain ⟨hcode, rfl, rfl, rfl, -, hdata⟩ := hholds
    obtain ⟨set, ⟨⟩, rfl⟩ := h
    simp only [Request.RangesOk, Store.dataModel, List.length_map, List.length_range] at hr
    obtain ⟨-, hcount, hlen⟩ := hv
    refine ⟨_, writeResponse_yields _ hcode coilSet _ _ _ rfl rfl, ?_⟩
    rw [dataModel_coilSet _ _ _ _ _ _ _ _ hr]
    simp only [Request.exec]
    rw [← hdata]
    rw [Mem.unpackBits_load _ _ (by omega)]
  | writeHoldingRegisters address quantity count data =>
    obtain ⟨hcode, rfl, rfl, rfl, -, hdata⟩ := hholds
    obtain ⟨set, ⟨⟩, rfl⟩ := h
    simp only [Request.RangesOk, Store.dataModel, List.length_map, List.length_range] at hr
    obtain ⟨-, hcount, hlen⟩ := hv
    refine ⟨_, writeResponse_yields _ hcode holdSet _ _ _ rfl rfl, ?_⟩
    rw [dataModel_holdSet _ _ _ _ _ _ _ _ hr]
    simp only [Request.exec]
    rw [← hdata]
    rw [unpackWords_load_regs _ _ (by omega)]
  | readWriteHoldingRegisters readAddress readQuantity writeAddress writeQuantity count data =>
    obtain ⟨hcode, rfl, rfl, rfl, rfl, rfl, -, hdata⟩ := hholds
    obtain ⟨set, get, ⟨⟩, ⟨⟩, rfl⟩ := h
    simp only [Request.RangesOk, Store.dataModel, List.length_map, List.length_range] at hr
    obtain ⟨hread, -, hcount, hlen⟩ := hv
    have hexec
        : (holdSet.run (field s.pdu 5) (s.pdu.offset 10) (field s.pdu 7).toNat
              s.app).app.dataModel coils inputs hold inputRegisters
            =
          (Request.readWriteHoldingRegisters (field s.pdu 1) (field s.pdu 3) (field s.pdu 5)
            (field s.pdu 7) (s.pdu 9) data).exec
            (s.app.dataModel coils inputs hold inputRegisters) := by
      rw [dataModel_holdSet _ _ _ _ _ _ _ _ hr.2]
      simp only [Request.exec]
      rw [← hdata]
      rw [unpackWords_load_regs _ _ (by omega)]
    refine ⟨_, ?_, hexec⟩
    -- The registers are read in the state that the write leaves behind.
    have hwritten : (s.call .holdingRegisters .set holdSet (field s.pdu 5) 10
        (field s.pdu 7).toNat).2.pdu 0 = s.pdu 0 :=
      SlaveState.call_pdu_lt _ _ _ _ _ _ _ _ (by omega)
    have hyields := readRegistersResponse_yields .holdingRegisters (hwritten.trans hcode) Store.hold
      (field s.pdu 1) (field s.pdu 3) hread.2 hr.1
    simp only [Request.response]
    rw [← hexec]
    unfold readWriteResponse
    dsimp only
    rw [if_neg (by simp [holdSet])]
    exact hyields

theorem callbacksOk_storageIomap (f : Function)
    : callbacksOk (storageIomap coils inputs hold inputRegisters vendorFuncs) f := by
  cases f <;> simp [callbacksOk, storageIomap]

theorem mbSlaveHandleRequest_answers (host : Endian) (transaction : Txn) {pdu : List UInt8}
    {r : Request} (hdecode : Request.decode pdu = some r)
    : ∃ served response,
        mbSlaveHandleRequest host mock
            (storageIomap coils inputs hold inputRegisters vendorFuncs) transaction store
            (.deliver pdu false false) = some served
          ∧
        served.transport.sent = [response]
          ∧
        (store.dataModel coils inputs hold inputRegisters).Answers r
          (served.app.dataModel coils inputs hold inputRegisters) response := by
  have hne : pdu ≠ [] := by
    rintro rfl
    simp [Request.decode] at hdecode
  obtain ⟨served, hserved, happ, -, -, hsent⟩ :=
    mbSlaveHandleRequest_mock host (storageIomap coils inputs hold inputRegisters vendorFuncs)
      transaction store pdu hne false false
  have hholds := Request.holds_of_decode transaction.data hdecode
  generalize transaction.data.copy 0 pdu = buffer at happ hsent hholds
  have hcode : Function.ofCode ((SlaveState.init buffer store).pdu 0) = some r.function := by
    rw [show (SlaveState.init buffer store).pdu 0 = r.function.code from hholds.1]
    apply Function.ofCode_code
  have hdiag : r.function ≠ .diagnostics := by
    cases r <;> simp [Request.function]
  simp only [and_self, ↓reduceIte] at hsent
  refine ⟨served, _, hserved, hsent, ?_⟩
  rw [happ]
  obtain ⟨code, hcheck, hload, -, happ'⟩ | ⟨hv, hr, h⟩ :=
    mbSlaveProcess_cases host (storageIomap coils inputs hold inputRegisters vendorFuncs) pdu.length
      (.init buffer store) hcode hdiag
  . rw [hload, happ']
    obtain ⟨-, hno⟩ | ⟨rfl, hno⟩ | ⟨rfl, hno⟩ := hcheck
    . exact absurd (callbacksOk_storageIomap _ _ _ _ _ _) hno
    . apply DataModel.Answers.illegalDataAddress
      intro hr
      exact hno ((Request.rangeOk_iff _ _ _ _ _ hholds store).mpr hr)
    . apply DataModel.Answers.illegalDataValue
      intro hv
      exact hno ((Request.valueOk_iff hholds).mpr hv)
  . have hv := (Request.valueOk_iff hholds).mp hv
    have hr := (Request.rangeOk_iff _ _ _ _ _ hholds store).mp hr
    obtain ⟨app, hyields, hexec⟩ := Responds.yields coils inputs hold inputRegisters vendorFuncs
      (s := .init buffer store) hholds hv hr h
    unfold mbSlaveProcess
    rw [mbSlaveException_nonneg hyields.nonneg, hyields.load, hyields.app, hexec]
    exact .normal hv hr

theorem Request.exists_decode {pdu : List UInt8} {f : Function} (hf : pdu.head? = some f.code)
    (hdiag : f ≠ .diagnostics) (hlen : f.fixedPart ≤ pdu.length)
    : ∃ r, Request.decode pdu = some r := by
  have hfive : 5 ≤ pdu.length := by
    apply Nat.le_trans _ hlen
    cases f <;> first | decide | exact absurd rfl hdiag
  rcases pdu with _ | ⟨code, _ | ⟨a1, _ | ⟨a0, _ | ⟨v1, _ | ⟨v0, rest⟩⟩⟩⟩⟩
  iterate 5 simp at hfive
  simp only [List.head?_cons, Option.some.injEq] at hf
  subst hf
  simp only [List.length_cons] at hlen
  cases f with
  | diagnostics => exact absurd rfl hdiag
  | writeCoils | writeHoldingRegisters =>
    rcases rest with _ | ⟨count, data⟩
    . simp [Function.fixedPart, PduWrite.size] at hlen
    . exact ⟨_, rfl⟩
  | readWriteHoldingRegisters =>
    rcases rest with _ | ⟨w1, _ | ⟨w0, _ | ⟨q1, _ | ⟨q0, _ | ⟨count, data⟩⟩⟩⟩⟩
    iterate 5 simp [Function.fixedPart, PduReadWrite.size] at hlen
    exact ⟨_, rfl⟩
  | _ => exact ⟨_, rfl⟩

end Refinement

/--
A slave that serves one unicast PDU after the other, with no further message pending. The buffer of
the transaction is reused. The result has what was transmitted for each PDU.
-/
def mbSlaveServe {σ : Type} (host : Endian) (iomap : Iomap σ) (transaction : Txn) (app : σ)
    : List (List UInt8) → Option (List (List (List UInt8)) × σ)
  | [] => some ([], app)
  | pdu :: pdus =>
    match mbSlaveHandleRequest host mock iomap transaction app (.deliver pdu false false) with
    | none => none
    | some served =>
      match mbSlaveServe host iomap served.transaction served.app pdus with
      | none => none
      | some (sents, app) => some (served.transport.sent :: sents, app)

/--
The slave refines the data model: whatever requests it serves, what it transmits and what becomes
of its tables is a run of the data model over these requests.
-/
theorem mbSlaveServe_refines (host : Endian) (coils inputs hold inputRegisters : Nat)
    (vendorFuncs : Option (List (VendorFunc Store))) (transaction : Txn) (store : Store)
    (pdus : List (List UInt8))
    (hpdus : ∀ pdu ∈ pdus, ∃ f : Function, pdu.head? = some f.code ∧ f ≠ .diagnostics ∧
      f.fixedPart ≤ pdu.length)
    : ∃ (rs : List Request) (responses : List (List UInt8)) (store' : Store),
        pdus.map Request.decode = rs.map some
          ∧
        mbSlaveServe host (storageIomap coils inputs hold inputRegisters vendorFuncs) transaction
            store pdus
          =
        some (responses.map (fun response => [response]), store')
          ∧
        DataModel.Run (store.dataModel coils inputs hold inputRegisters) rs responses
          (store'.dataModel coils inputs hold inputRegisters) := by
  induction pdus generalizing transaction store with
  | nil => exact ⟨[], [], store, rfl, rfl, .nil _⟩
  | cons pdu pdus ih =>
    obtain ⟨f, hf, hdiag, hlen⟩ := hpdus pdu (by simp)
    obtain ⟨r, hdecode⟩ := Request.exists_decode hf hdiag hlen
    obtain ⟨served, response, hserved, hsent, hanswers⟩ :=
      mbSlaveHandleRequest_answers coils inputs hold inputRegisters store vendorFuncs host
        transaction hdecode
    obtain ⟨rs, responses, store', hrs, hserve, hrun⟩ :=
      ih served.transaction served.app (fun pdu hpdu => hpdus pdu (by simp [hpdu]))
    refine ⟨r :: rs, response :: responses, store', ?_, ?_, .cons hanswers hrun⟩
    . simp [hdecode, hrs]
    . simp [mbSlaveServe, hserved, hserve, hsent]

theorem mbSlaveServe_refines_coils
    : ∃ (responses : List (List UInt8)) (store' : Store),
        mbSlaveServe .little (storageIomap 16 2 4 5 none) ⟨0, 0, 0, fun _ => 0x55⟩
            ⟨fun _ => 0, fun _ => 0, fun _ => 0, fun _ => 0⟩
            [[0x0F, 0, 2, 0, 3, 1, 0x05], [0x01, 0, 0, 0, 16],
              [0x17, 0, 0, 0, 2, 0, 1, 0, 1, 2, 0x12, 0x34]]
          =
        some (responses.map (fun response => [response]), store')
          ∧
        responses.length = 3 := by
  obtain ⟨rs, responses, store', hrs, hserve, hrun⟩ :=
    mbSlaveServe_refines .little 16 2 4 5 none ⟨0, 0, 0, fun _ => 0x55⟩
      ⟨fun _ => 0, fun _ => 0, fun _ => 0, fun _ => 0⟩
      [[0x0F, 0, 2, 0, 3, 1, 0x05], [0x01, 0, 0, 0, 16],
        [0x17, 0, 0, 0, 2, 0, 1, 0, 1, 2, 0x12, 0x34]]
      (by
        simp only [List.forall_mem_cons, List.not_mem_nil, false_implies, implies_true, and_true]
        exact ⟨⟨.writeCoils, by decide⟩, ⟨.readCoils, by decide⟩,
          ⟨.readWriteHoldingRegisters, by decide⟩⟩)
  refine ⟨responses, store', hserve, ?_⟩
  rw [← hrun.length_eq]
  simpa using (congrArg List.length hrs).symm

end Modbus
