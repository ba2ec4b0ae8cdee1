import Modbus.Slave.Answer
import Modbus.Slave.Refine

/-!
This module contains what a slave does with a request, whatever transport it came through: the PDU
in its buffer is answered as the data model answers it, also when other bytes follow the PDU there,
and a broadcast is carried out without an answer.
-/

namespace Modbus

instance (r : Request) : Decidable r.ValuesOk := by
  cases r <;> (dsimp only [Request.ValuesOk]; infer_instance)

instance (d : DataModel) (r : Request) : Decidable (r.RangesOk d) := by
  cases r <;> (dsimp only [Request.RangesOk]; infer_instance)

/-- The tables after a request, which leaves them as they are unless it is legal. -/
def DataModel.after (d : DataModel) (r : Request) : DataModel :=
  if r.ValuesOk ∧ r.RangesOk d then r.exec d else d

theorem DataModel.Answers.after_eq {d d' : DataModel} {r : Request} {response : List UInt8}
    (h : d.Answers r d' response)
    : d' = d.after r := by
  unfold DataModel.after
  cases h with
  | normal hv hr => rw [if_pos ⟨hv, hr⟩]
  | illegalDataAddress hr => rw [if_neg (fun h => hr h.2)]
  | illegalDataValue hv => rw [if_neg (fun h => hv h.1)]

theorem DataModel.after_of_exec {d : DataModel} {r : Request} (h : r.exec d = d)
    : d.after r = d := by
  unfold DataModel.after
  split
  . exact h
  . rfl

def Request.responseSize : Request → Nat
  | readCoils _ quantity | readInputs _ quantity => 2 + (quantity.toNat + 7) / 8
  | readHoldingRegisters _ quantity | readInputRegisters _ quantity
  | readWriteHoldingRegisters _ quantity .. => 2 + 2 * quantity.toNat
  | _ => 5

theorem Request.length_itemsResponse (f : Function) (data : List UInt8)
    : (itemsResponse f data).length = 2 + data.length := by
  simp only [itemsResponse, List.length_cons]
  omega

theorem Request.length_response {d : DataModel} {r : Request} (h : r.RangesOk d)
    : (r.response d).length = r.responseSize := by
  cases r with
  | readCoils address quantity | readInputs address quantity =>
    rw [response, length_itemsResponse, length_packBits]
    exact congrArg (fun n => 2 + (n + 7) / 8) (length_slice h)
  | readHoldingRegisters address quantity | readInputRegisters address quantity =>
    rw [response, length_itemsResponse, length_packWords]
    exact congrArg (fun n => 2 + 2 * n) (length_slice h)
  | readWriteHoldingRegisters readAddress readQuantity writeAddress writeQuantity count data =>
    have hread : readAddress.toNat + readQuantity.toNat
        ≤ ((readWriteHoldingRegisters readAddress readQuantity writeAddress writeQuantity count
            data).exec d).holdingRegisters.length := by
      have hread := h.1
      have hwrite := h.2
      have hlen : (unpackWords data writeQuantity.toNat).length = writeQuantity.toNat := by
        simp [unpackWords]
      simp only [exec, overwrite, List.length_append, List.length_take, List.length_drop, hlen]
      omega
    rw [response, length_itemsResponse, length_packWords]
    exact congrArg (fun n => 2 + 2 * n) (length_slice hread)
  | _ => rfl

theorem Request.responseSize_le {r : Request} (h : r.ValuesOk) : r.responseSize ≤ maxPduSize := by
  have hmax : maxPduSize = 253 := rfl
  cases r with
  | readCoils address quantity | readInputs address quantity =>
    have hq := h.2
    simp only [responseSize]
    omega
  | readHoldingRegisters address quantity | readInputRegisters address quantity =>
    have hq := h.2
    simp only [responseSize]
    omega
  | readWriteHoldingRegisters readAddress readQuantity writeAddress writeQuantity count data =>
    have hq := h.1.2
    simp only [responseSize]
    omega
  | _ =>
    simp only [responseSize]
    omega

theorem DataModel.Answers.length_le {d d' : DataModel} {r : Request} {response : List UInt8}
    (h : d.Answers r d' response)
    : response.length ≤ max 2 r.responseSize ∧ 2 ≤ response.length := by
  cases h with
  | normal hv hr =>
    rw [Request.length_response hr]
    refine ⟨Nat.le_max_right _ _, ?_⟩
    cases r <;> (simp only [Request.responseSize]; omega)
  | illegalDataAddress hr => exact ⟨Nat.le_max_left _ _, Nat.le_refl 2⟩
  | illegalDataValue hv => exact ⟨Nat.le_max_left _ _, Nat.le_refl 2⟩

theorem DataModel.Answers.length_le_maxPduSize {d d' : DataModel} {r : Request}
    {response : List UInt8} (h : d.Answers r d' response)
    : response.length ≤ maxPduSize := by
  have hmax : maxPduSize = 253 := rfl
  cases h with
  | normal hv hr =>
    rw [Request.length_response hr]
    exact Request.responseSize_le hv
  | illegalDataAddress hr =>
    simp only [Request.exceptionResponse, List.length_cons, List.length_nil]
    omega
  | illegalDataValue hv =>
    simp only [Request.exceptionResponse, List.length_cons, List.length_nil]
    omega

theorem mbSlaveException_pos {σ : Type} (res : Int × SlaveState σ)
    : 0 ≤ (mbSlaveException res).1 := by
  unfold mbSlaveException
  dsimp only
  split
  . simp [PduException.size]
  . next hneg =>
    dsimp only
    omega

section Process

variable (coils inputs hold inputRegisters : Nat) (vendorFuncs : Option (List (VendorFunc Store)))
  (host : Endian) {pdu : List UInt8} {r : Request} (hdecode : Request.decode pdu = some r) {m : Mem}
  (hload : m.load 0 pdu.length = pdu) (store : Store)

include hdecode hload

theorem mbSlaveProcess_answers
    : ∃ (response : List UInt8),
        let res := mbSlaveProcess host
          (storageIomap coils inputs hold inputRegisters vendorFuncs) pdu.length false
          (.init m store)
        res.1 = response.length
          ∧
        res.2.pdu.load 0 response.length = response
          ∧
        (store.dataModel coils inputs hold inputRegisters).Answers r
          (res.2.app.dataModel coils inputs hold inputRegisters) response := by
  have hne : pdu ≠ [] := by
    rintro rfl
    simp [Request.decode] at hdecode
  obtain ⟨served, response, hserved, hsent, hanswers⟩ :=
    mbSlaveHandleRequest_answers coils inputs hold inputRegisters store vendorFuncs host
      ⟨0, 0, 0, m⟩ hdecode
  obtain ⟨served', hserved', happ, -, -, hsent'⟩ :=
    mbSlaveHandleRequest_mock host (storageIomap coils inputs hold inputRegisters vendorFuncs)
      ⟨0, 0, 0, m⟩ store pdu hne false false
  rw [hserved] at hserved'
  cases hserved'
  rw [Mem.copy_of_load hload] at happ hsent'
  simp only [and_self, ↓reduceIte, hsent, List.cons.injEq, and_true] at hsent'
  rw [happ] at hanswers
  generalize hres : mbSlaveProcess host
    (storageIomap coils inputs hold inputRegisters vendorFuncs) pdu.length false
    (.init m store) = res at hsent' hanswers
  have hnonneg : 0 ≤ res.1 := by
    rw [← hres]
    apply mbSlaveException_pos
  have hlen : response.length = res.1.toNat := by
    rw [hsent', Mem.length_load]
  refine ⟨response, ?_, ?_, hanswers⟩
  . rw [hlen]
    omega
  . rw [hlen]
    exact hsent'.symm

theorem mbSlaveProcess_broadcast
    : (mbSlaveProcess host (storageIomap coils inputs hold inputRegisters vendorFuncs) pdu.length
          true (.init m store)).2.app.dataModel coils inputs hold inputRegisters
        =
      (store.dataModel coils inputs hold inputRegisters).after r := by
  have hcode : Function.ofCode (Pdu.function m) = some r.function := by
    have hholds := Request.holds_of_decode m hdecode
    rw [Mem.copy_of_load hload] at hholds
    rw [Pdu.function, hholds.1, Function.ofCode_code]
  obtain ⟨response, -, -, hanswers⟩ := mbSlaveProcess_answers coils inputs hold inputRegisters
    vendorFuncs host hdecode hload store
  have hafter := hanswers.after_eq
  unfold mbSlaveProcess mbSlaveSwitch at hafter ⊢
  simp only [SlaveState.init, hcode] at hafter ⊢
  cases r with
  | readCoils | readInputs | readHoldingRegisters | readInputRegisters =>
    -- A read is not carried out, and would change nothing.
    rw [DataModel.after_of_exec rfl]
    rfl
  | _ =>
    rw [← hafter]
    rfl

end Process

section HandleRequest

variable {σ τ : Type} (host : Endian) {transport : Transport τ} (iomap : Iomap σ)
  {transaction transaction' : Txn} (app : σ) {w w' w'' : τ} {rxCount : Nat}

theorem mbSlaveHandleRequest_of_rx
    (hrx : mbPduRx transport transaction pduTimeout w = some ((rxCount : Int), transaction', w'))
    (hpos : 0 < rxCount) (havail : mbPduRxAvail transport w' = (false, w''))
    : let res := mbSlaveProcess host iomap rxCount (mbPduRxBc transport w')
        (.init transaction'.data app)
      mbSlaveHandleRequest host transport iomap transaction app w
        =
      (if mbPduRxBc transport w'' then some w''
        else mbPduTx transport { transaction' with data := res.2.pdu } res.1.toNat w'').map
        (fun w =>
          {
            transaction := { transaction' with data := res.2.pdu }
            app := res.2.app
            transport := w
            calls := res.2.calls
            pads := res.2.pads
          }) := by
  intro res
  have hres : mbSlaveException (mbSlaveSwitch host iomap rxCount (mbPduRxBc transport w')
      { pdu := transaction'.data, app, calls := [], pads := [] }) = res := rfl
  unfold mbSlaveHandleRequest
  rw [hrx]
  dsimp only
  rw [if_pos (by omega), havail]
  simp only [Int.toNat_natCast, Bool.false_eq_true, ↓reduceIte, hres]
  cases mbPduRxBc transport w'' with
  | true => rfl
  | false =>
    simp only [Bool.not_false, ↓reduceIte, Bool.false_eq_true]
    cases mbPduTx transport { transaction' with data := res.2.pdu } res.1.toNat w'' with
    | none => rfl
    | some w => rfl

theorem mbSlaveHandleRequest_of_not_received {result : Int}
    (hrx : mbPduRx transport transaction pduTimeout w = some (result, transaction', w'))
    (hneg : result ≤ 0)
    : mbSlaveHandleRequest host transport iomap transaction app w
        =
      some { transaction := transaction', app, transport := w', calls := [], pads := [] } := by
  unfold mbSlaveHandleRequest
  rw [hrx]
  dsimp only
  rw [if_neg (by omega)]

end HandleRequest

end Modbus
