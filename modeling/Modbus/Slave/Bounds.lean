import Modbus.Slave.Sample

/-!
This module contains the safety of the slave: whatever arrives, its callbacks are invoked on
addresses of their table and on data inside the PDU buffer, and what it transmits fits a PDU.
-/

namespace Modbus

variable {σ : Type} {area : Nat → Nat}

structure Call.Is (c : Call) (table : Table) (op : Op) (address : UInt16) (quantity : Nat)
    (ptr : DataPtr) : Prop where
  table_eq : c.table = table
  op_eq : c.op = op
  address_eq : c.address = address
  quantity_eq : c.quantity = quantity
  ptr_eq : c.ptr = ptr

structure OneCall (s : SlaveState σ) (table : Table) (op : Op) (address : UInt16) (quantity : Nat)
    (ptr : DataPtr) (size : Nat) (res : Int × SlaveState σ) : Prop where
  call : ∃ c : Call,
    c.Is table op address quantity ptr ∧ res.2.calls = s.calls ++ [c] ∧
      res.1 = if c.result ≠ 0 then c.result else (size : Int)
  function_eq : res.2.pdu 0 = s.pdu 0

/--
The shape the responses share: invoke a callback on the data behind the function code, give up if it
fails and otherwise finish the response with a step that neither calls back nor touches the function
code.
-/
theorem OneCall.of_call (s t : SlaveState σ) (table : Table) (op : Op) (cb : Callback σ area)
    (address : UInt16) (off quantity size : Nat) (hoff : 0 < off) (hcalls : t.calls = s.calls)
    (hfunction : t.pdu 0 = s.pdu 0) (finish : SlaveState σ → SlaveState σ)
    (hfinish : ∀ u, (finish u).calls = u.calls ∧ (finish u).pdu 0 = u.pdu 0)
    : OneCall s table op address quantity (.pdu off) size
        (if (t.call table op cb address off quantity).1 ≠ 0 then
          t.call table op cb address off quantity
        else
          ((size : Int), finish (t.call table op cb address off quantity).2)) := by
  have hlt := t.call_pdu_lt table op cb address off quantity 0 hoff
  constructor
  . refine ⟨t.callEntry table op cb address off quantity, ⟨rfl, rfl, rfl, rfl, rfl⟩, ?_, ?_⟩
    . split
      . rw [SlaveState.call_calls, hcalls]
      . rw [(hfinish _).1, SlaveState.call_calls, hcalls]
    . split
      . next h => exact (if_pos h).symm
      . next h => exact (if_neg h).symm
  . split
    . rw [hlt, hfunction]
    . rw [(hfinish _).2, hlt, hfunction]

section Responses

variable (table : Table) (s : SlaveState σ)

theorem readBitsResponse_oneCall (get : Callback σ bitBytes) (address quantity : UInt16)
    (hq : quantity.toNat ≤ 2000)
    : OneCall s table .get address quantity.toNat (.pdu 2) (2 + bitBytes quantity.toNat)
        (readBitsResponse table get address quantity s) := by
  have h :=
    OneCall.of_call s (s.store 1 (bitCount quantity)) table .get get address 2 quantity.toNat
      (2 + bitBytes quantity.toNat) (by omega) rfl (by simp)
      (fun u =>
        u.resetPadBits 2 quantity.toNat ((bitCount quantity).toNat * 8 - quantity.toNat))
      (fun u => ⟨u.resetPadBits_calls _ _ _, u.resetPadBits_pdu_lt _ _ _ _ (by omega)⟩)
  unfold readBitsResponse
  dsimp only
  rw [SlaveState.resetPadBits_pdu_lt _ _ _ _ _ (by omega)]
  rw [SlaveState.call_pdu_lt _ _ _ _ _ _ _ _ (by omega)]
  simp only [SlaveState.store_pdu, Mem.store_apply, ↓reduceIte, toNat_bitCount hq]
  simp only [toNat_bitCount hq] at h
  exact h

theorem readRegistersResponse_oneCall (get : Callback σ regBytes) (address quantity : UInt16)
    (hq : quantity.toNat ≤ 0x7D)
    : OneCall s table .get address quantity.toNat (.pdu 2) (2 + regBytes quantity.toNat)
        (readRegistersResponse table get address quantity s) := by
  have h :=
    OneCall.of_call s (s.store 1 (UInt8.ofNat (2 * quantity.toNat))) table .get get address 2
      quantity.toNat (2 + regBytes quantity.toNat) (by omega) rfl (by simp) id
      (fun u => ⟨rfl, rfl⟩)
  unfold readRegistersResponse
  dsimp only
  rw [SlaveState.call_pdu_lt _ _ _ _ _ _ _ _ (by omega)]
  simp only [SlaveState.store_pdu, Mem.store_apply, ↓reduceIte, toNat_regCount hq]
  exact h

theorem writeResponse_oneCall (set : Callback σ area) (address : UInt16) (off quantity : Nat)
    (hoff : 0 < off)
    : OneCall s table .set address quantity (.pdu off) 5
        (writeResponse table set address off quantity s) := by
  exact OneCall.of_call s s table .set set address off quantity 5 hoff rfl rfl id
    (fun u => ⟨rfl, rfl⟩)

theorem writeBitResponse_oneCall (set : Callback σ bitBytes) (address value : UInt16)
    : OneCall s table .set address 1 .bit 5 (writeBitResponse table set address value s) := by
  unfold writeBitResponse
  dsimp only
  generalize (if value = 0xFF00 then (1 : UInt8) else 0) = bit
  constructor
  . refine ⟨s.callBitEntry table set address bit, ⟨rfl, rfl, rfl, rfl, rfl⟩, ?_, ?_⟩
    . split <;> rfl
    . split
      . next h => exact (if_pos h).symm
      . next h => exact (if_neg h).symm
  . split <;> rfl

theorem readWriteResponse_calls (get set : Callback σ regBytes) (pdu : Mem)
    (hq : (field pdu 3).toNat ≤ 0x7D)
    : ∃ c : Call, c.Is table .set (field pdu 5) (field pdu 7).toNat (.pdu 10) ∧
        ((c.result ≠ 0 ∧ (readWriteResponse table get set pdu s).1 = c.result ∧
            (readWriteResponse table get set pdu s).2.calls = s.calls ++ [c] ∧
            (readWriteResponse table get set pdu s).2.pdu 0 = s.pdu 0)
          ∨
        c.result = 0 ∧
          ∃ t : SlaveState σ, t.calls = s.calls ++ [c] ∧ t.pdu 0 = s.pdu 0 ∧
            OneCall t table .get (field pdu 1) (field pdu 3).toNat (.pdu 2)
              (2 + regBytes (field pdu 3).toNat) (readWriteResponse table get set pdu s)) := by
  have hlt := s.call_pdu_lt table .set set (field pdu 5) 10 (field pdu 7).toNat 0 (by omega)
  refine ⟨s.callEntry table .set set (field pdu 5) 10 (field pdu 7).toNat,
    ⟨rfl, rfl, rfl, rfl, rfl⟩, ?_⟩
  unfold readWriteResponse
  dsimp only
  split
  . next h => exact .inl ⟨h, rfl, rfl, hlt⟩
  . next h =>
    simp only [ne_eq, Decidable.not_not] at h
    exact .inr ⟨h, _, rfl, hlt, readRegistersResponse_oneCall table _ get _ _ hq⟩

theorem readBitsResponse_pads (get : Callback σ bitBytes) (address quantity : UInt16)
    (hq : quantity.toNat ≤ 2000) {i : Nat}
    (hi : i ∈ (readBitsResponse table get address quantity s).2.pads)
    : i ∈ s.pads
        ∨
      2 ≤ i ∧ i < 2 + bitBytes quantity.toNat ∧
        (readBitsResponse table get address quantity s).1 = 2 + bitBytes quantity.toNat := by
  unfold readBitsResponse at hi ⊢
  dsimp only at hi ⊢
  rw [SlaveState.resetPadBits_pdu_lt _ _ _ _ _ (by omega)]
  rw [SlaveState.call_pdu_lt _ _ _ _ _ _ _ _ (by omega)]
  simp only [SlaveState.store_pdu, Mem.store_apply, ↓reduceIte, toNat_bitCount hq] at hi ⊢
  split at hi
  . left
    simpa using hi
  . next h =>
    obtain hi | ⟨k, hk, rfl⟩ := SlaveState.mem_resetPadBits_pads _ _ _ _ hi
    . left
      simpa using hi
    . right
      rw [if_neg h]
      unfold bitBytes at hk ⊢
      exact ⟨by omega, by omega, rfl⟩

theorem readRegistersResponse_pads (get : Callback σ regBytes) (address quantity : UInt16)
    : (readRegistersResponse table get address quantity s).2.pads = s.pads := by
  unfold readRegistersResponse
  dsimp only
  split <;> simp

theorem writeBitResponse_pads (set : Callback σ bitBytes) (address value : UInt16)
    : (writeBitResponse table set address value s).2.pads = s.pads := by
  unfold writeBitResponse
  dsimp only
  generalize (if value = 0xFF00 then (1 : UInt8) else 0) = bit
  split <;> simp

theorem writeResponse_pads (set : Callback σ area) (address : UInt16) (off quantity : Nat)
    : (writeResponse table set address off quantity s).2.pads = s.pads := by
  unfold writeResponse
  dsimp only
  split <;> simp

theorem readWriteResponse_pads (get set : Callback σ regBytes) (pdu : Mem)
    : (readWriteResponse table get set pdu s).2.pads = s.pads := by
  unfold readWriteResponse
  dsimp only
  split
  . simp
  . rw [readRegistersResponse_pads]
    simp

end Responses

def Iomap.size (iomap : Iomap σ) : Table → Nat
  | .coils => iomap.coils.size
  | .inputs => iomap.inputs.size
  | .holdingRegisters => iomap.holdingRegisters.size
  | .inputRegisters => iomap.inputRegisters.size

def Table.bytes : Table → Nat → Nat
  | .coils | .inputs => bitBytes
  | .holdingRegisters | .inputRegisters => regBytes

def DataPtr.Holds (len bound : Nat) : DataPtr → Prop
  | .pdu off => off + len ≤ bound
  | .bit => len = 1

structure Call.InBounds (iomap : Iomap σ) (c : Call) : Prop where
  quantity_pos : 1 ≤ c.quantity
  range : c.address.toNat + c.quantity ≤ iomap.size c.table
  data : c.ptr.Holds (c.table.bytes c.quantity) maxPduSize

def Function.carriesData : Function → Bool
  | writeCoils | writeHoldingRegisters | readWriteHoldingRegisters => true
  | _ => false

/-- The call is in bounds, and data to be set comes from before index `bound` of the PDU buffer. -/
def Call.Within (iomap : Iomap σ) (bound : Nat) (c : Call) : Prop :=
  c.InBounds iomap ∧ (c.op = .set → c.ptr.Holds (c.table.bytes c.quantity) bound)

theorem OneCall.within {iomap : Iomap σ} {s : SlaveState σ} {table : Table} {op : Op}
    {address : UInt16} {quantity : Nat} {ptr : DataPtr} {size bound : Nat}
    {res : Int × SlaveState σ} (h : OneCall s table op address quantity ptr size res)
    (hs : ∀ c ∈ s.calls, c.Within iomap bound)
    (hq : 1 ≤ quantity) (hrange : address.toNat + quantity ≤ iomap.size table)
    (hdata : ptr.Holds (table.bytes quantity) maxPduSize)
    (hbound : op = .set → ptr.Holds (table.bytes quantity) bound)
    : ∀ c ∈ res.2.calls, c.Within iomap bound := by
  obtain ⟨c, hc, hcalls, -⟩ := h.call
  obtain ⟨rfl, rfl, rfl, rfl, rfl⟩ := hc
  intro c' hc'
  rw [hcalls, List.mem_append, List.mem_singleton] at hc'
  obtain hc' | rfl := hc'
  . exact hs c' hc'
  . exact ⟨⟨hq, hrange, hdata⟩, hbound⟩

section Within

variable {iomap : Iomap σ} {bound : Nat} {table : Table} {s : SlaveState σ}
  (hs : ∀ c ∈ s.calls, c.Within iomap bound)

include hs

theorem readBitsResponse_within (get : Callback σ bitBytes) (address quantity : UInt16)
    (hbytes : table.bytes = bitBytes) (hq : 1 ≤ quantity.toNat ∧ quantity.toNat ≤ 2000)
    (hrange : address.toNat + quantity.toNat ≤ iomap.size table)
    : ∀ c ∈ (readBitsResponse table get address quantity s).2.calls, c.Within iomap bound := by
  apply (readBitsResponse_oneCall table s get address quantity hq.2).within hs hq.1 hrange
  . rw [hbytes]
    simp only [DataPtr.Holds, bitBytes, maxPduSize]
    omega
  . simp

theorem readRegistersResponse_within (get : Callback σ regBytes) (address quantity : UInt16)
    (hbytes : table.bytes = regBytes) (hq : 1 ≤ quantity.toNat ∧ quantity.toNat ≤ 0x7D)
    (hrange : address.toNat + quantity.toNat ≤ iomap.size table)
    : ∀ c ∈ (readRegistersResponse table get address quantity s).2.calls,
        c.Within iomap bound := by
  apply (readRegistersResponse_oneCall table s get address quantity hq.2).within hs hq.1 hrange
  . rw [hbytes]
    simp only [DataPtr.Holds, regBytes, maxPduSize]
    omega
  . simp

theorem writeBitResponse_within (set : Callback σ bitBytes) (address value : UInt16)
    (hbytes : table.bytes = bitBytes) (hrange : address.toNat < iomap.size table)
    : ∀ c ∈ (writeBitResponse table set address value s).2.calls, c.Within iomap bound := by
  have hdata : DataPtr.Holds (table.bytes 1) bound .bit := by
    rw [hbytes]
    rfl
  apply (writeBitResponse_oneCall table s set address value).within hs (Nat.le_refl _) hrange
  . exact hdata
  . intro _
    exact hdata

theorem writeResponse_within (set : Callback σ area) (address : UInt16) (off quantity : Nat)
    (hoff : 0 < off) (hq : 1 ≤ quantity) (hrange : address.toNat + quantity ≤ iomap.size table)
    (hmax : off + table.bytes quantity ≤ maxPduSize) (hbound : off + table.bytes quantity ≤ bound)
    : ∀ c ∈ (writeResponse table set address off quantity s).2.calls, c.Within iomap bound := by
  apply (writeResponse_oneCall table s set address off quantity hoff).within hs hq hrange
  . exact hmax
  . intro _
    exact hbound

theorem readWriteResponse_within (get set : Callback σ regBytes) (pdu : Mem)
    (hbytes : table.bytes = regBytes)
    (hwrite : 1 ≤ (field pdu 7).toNat ∧ (field pdu 7).toNat ≤ 0x79)
    (hbound : 10 + regBytes (field pdu 7).toNat ≤ bound)
    (hread : 1 ≤ (field pdu 3).toNat ∧ (field pdu 3).toNat ≤ 0x7D)
    (hrange : (field pdu 5).toNat + (field pdu 7).toNat ≤ iomap.size table ∧
      (field pdu 1).toNat + (field pdu 3).toNat ≤ iomap.size table)
    : ∀ c ∈ (readWriteResponse table get set pdu s).2.calls, c.Within iomap bound := by
  obtain ⟨c, hc, hcall⟩ := readWriteResponse_calls table s get set pdu hread.2
  have hset : ∀ c' ∈ s.calls ++ [c], c'.Within iomap bound := by
    obtain ⟨rfl, -, haddress, hquantity, hptr⟩ := hc
    intro c' hc'
    rw [List.mem_append, List.mem_singleton] at hc'
    obtain hc' | rfl := hc'
    . exact hs c' hc'
    . unfold Call.Within
      rw [hquantity, hptr, hbytes]
      refine ⟨⟨?_, ?_, ?_⟩, fun _ => hbound⟩
      . rw [hquantity]
        exact hwrite.1
      . rw [haddress, hquantity]
        exact hrange.1
      . rw [hquantity, hptr, hbytes]
        simp only [DataPtr.Holds, regBytes, maxPduSize]
        omega
  obtain ⟨-, -, hcalls, -⟩ | ⟨-, t, ht, -, hget⟩ := hcall
  . rw [hcalls]
    exact hset
  . rw [← ht] at hset
    apply hget.within hset hread.1 hrange.2
    . rw [hbytes]
      simp only [DataPtr.Holds, regBytes, maxPduSize]
      omega
    . simp

end Within

theorem Responds.within {iomap : Iomap σ} {rxCount : Nat} {f : Function} {s : SlaveState σ}
    {res : Int × SlaveState σ} (h : Responds iomap f s res) (hv : valueOk rxCount s.pdu f)
    (hr : rangeOk iomap s.pdu f) (hs : s.calls = [])
    : ∀ c ∈ res.2.calls,
        c.Within iomap (if f.carriesData then rxCount else maxPduSize) := by
  have hnil (bound : Nat) : ∀ c ∈ s.calls, c.Within iomap bound := by
    simp [hs]
  cases f with
  | readCoils | readInputs =>
    obtain ⟨get, -, rfl⟩ := h
    exact readBitsResponse_within (hnil _) get _ _ rfl hv hr
  | readHoldingRegisters | readInputRegisters =>
    obtain ⟨get, -, rfl⟩ := h
    exact readRegistersResponse_within (hnil _) get _ _ rfl hv hr
  | writeCoil =>
    obtain ⟨set, -, rfl⟩ := h
    exact writeBitResponse_within (hnil _) set _ _ rfl hr
  | writeHoldingRegister =>
    obtain ⟨set, -, rfl⟩ := h
    apply writeResponse_within (hnil _) set _ _ _ (by omega) (Nat.le_refl _)
    . exact hr
    . decide
    . exact (by decide : 3 + regBytes 1 ≤ maxPduSize)
  | diagnostics => exact h.elim
  | writeCoils =>
    obtain ⟨set, -, rfl⟩ := h
    simp only [valueOk] at hv
    apply writeResponse_within (hnil _) set _ _ _ (by omega) hv.1.1
    . exact hr
    . simp only [Table.bytes, bitBytes, maxPduSize]
      omega
    . exact hv.2.2.ge
  | writeHoldingRegisters =>
    obtain ⟨set, -, rfl⟩ := h
    simp only [valueOk] at hv
    apply writeResponse_within (hnil _) set _ _ _ (by omega) hv.1.1
    . exact hr
    . simp only [Table.bytes, regBytes, maxPduSize]
      omega
    . exact hv.2.2.ge
  | readWriteHoldingRegisters =>
    obtain ⟨set, get, -, -, rfl⟩ := h
    obtain ⟨hwrite, -, hlen, hread⟩ := hv
    exact readWriteResponse_within (hnil _) get set _ rfl hwrite hlen.ge hread hr

/--
How a response ends: with the error of its last callback, or with a count that fits a PDU if that
callback returned 0. The function code is that of the request.
-/
structure Ends (s : SlaveState σ) (res : Int × SlaveState σ) : Prop where
  function_eq : res.2.pdu 0 = s.pdu 0
  last : ∃ c : Call, res.2.calls.getLast? = some c ∧
    (c.result ≠ 0 ∧ res.1 = c.result ∨
      c.result = 0 ∧ ∃ size : Nat, 0 < size ∧ size ≤ maxPduSize ∧ res.1 = size)

theorem OneCall.ends {s : SlaveState σ} {table : Table} {op : Op} {address : UInt16}
    {quantity : Nat} {ptr : DataPtr} {size : Nat} {res : Int × SlaveState σ}
    (h : OneCall s table op address quantity ptr size res) (hpos : 0 < size)
    (hsize : size ≤ maxPduSize)
    : Ends s res := by
  obtain ⟨c, -, hcalls, hres⟩ := h.call
  refine ⟨h.function_eq, c, by simp [hcalls], ?_⟩
  by_cases hc : c.result = 0
  . rw [if_neg (by simp [hc])] at hres
    exact .inr ⟨hc, size, hpos, hsize, hres⟩
  . rw [if_pos hc] at hres
    exact .inl ⟨hc, hres⟩

theorem readBitsResponse_ends (table : Table) (s : SlaveState σ) (get : Callback σ bitBytes)
    (address quantity : UInt16) (hq : quantity.toNat ≤ 2000)
    : Ends s (readBitsResponse table get address quantity s) := by
  apply (readBitsResponse_oneCall table s get address quantity hq).ends
  . omega
  . simp only [bitBytes, maxPduSize]
    omega

theorem readRegistersResponse_ends (table : Table) (s : SlaveState σ) (get : Callback σ regBytes)
    (address quantity : UInt16) (hq : quantity.toNat ≤ 0x7D)
    : Ends s (readRegistersResponse table get address quantity s) := by
  apply (readRegistersResponse_oneCall table s get address quantity hq).ends
  . omega
  . simp only [regBytes, maxPduSize]
    omega

theorem writeResponse_ends (table : Table) (s : SlaveState σ) (set : Callback σ area)
    (address : UInt16) (off quantity : Nat) (hoff : 0 < off)
    : Ends s (writeResponse table set address off quantity s) := by
  apply (writeResponse_oneCall table s set address off quantity hoff).ends
  . omega
  . decide

theorem writeBitResponse_ends (table : Table) (s : SlaveState σ) (set : Callback σ bitBytes)
    (address value : UInt16)
    : Ends s (writeBitResponse table set address value s) := by
  apply (writeBitResponse_oneCall table s set address value).ends
  . omega
  . decide

theorem readWriteResponse_ends (table : Table) (s : SlaveState σ) (get set : Callback σ regBytes)
    (pdu : Mem) (hq : (field pdu 3).toNat ≤ 0x7D)
    : Ends s (readWriteResponse table get set pdu s) := by
  obtain ⟨c, -, ⟨hc, hres, hcalls, hfunction⟩ | ⟨-, t, -, hfunction, hget⟩⟩ :=
    readWriteResponse_calls table s get set pdu hq
  . exact ⟨hfunction, c, by simp [hcalls], .inl ⟨hc, hres⟩⟩
  . have hends := hget.ends (by omega) (by simp only [regBytes, maxPduSize]; omega)
    exact ⟨hends.function_eq.trans hfunction, hends.last⟩

theorem Responds.ends {iomap : Iomap σ} {rxCount : Nat} {f : Function} {s : SlaveState σ}
    {res : Int × SlaveState σ} (h : Responds iomap f s res) (hv : valueOk rxCount s.pdu f)
    : Ends s res := by
  cases f with
  | readCoils | readInputs =>
    obtain ⟨get, -, rfl⟩ := h
    exact readBitsResponse_ends _ s get _ _ hv.2
  | readHoldingRegisters | readInputRegisters =>
    obtain ⟨get, -, rfl⟩ := h
    exact readRegistersResponse_ends _ s get _ _ hv.2
  | writeCoil =>
    obtain ⟨set, -, rfl⟩ := h
    apply writeBitResponse_ends
  | writeHoldingRegister | writeCoils | writeHoldingRegisters =>
    obtain ⟨set, -, rfl⟩ := h
    apply writeResponse_ends
    omega
  | diagnostics => exact h.elim
  | readWriteHoldingRegisters =>
    obtain ⟨set, get, -, -, rfl⟩ := h
    exact readWriteResponse_ends _ s get set _ hv.2.2.2.2

section Switch

variable (host : Endian) (iomap : Iomap σ) (rxCount : Nat) (bc : Bool) (s : SlaveState σ)
  {f : Function} (hf : Function.ofCode (s.pdu 0) = some f)

include hf

theorem mbSlaveSwitch_inBounds (hs : s.calls = [])
    : ∀ c ∈ (mbSlaveSwitch host iomap rxCount bc s).2.calls,
        c.Within iomap (if f.carriesData then rxCount else maxPduSize) := by
  have hnil (bound : Nat) : ∀ c ∈ s.calls, c.Within iomap bound := by
    simp [hs]
  by_cases hdiag : f = .diagnostics
  . subst hdiag
    unfold mbSlaveSwitch mbSlaveDiagnostics
    simp only [Pdu.function, hf]
    split
    . exact hnil _
    . exact hnil _
  . obtain ⟨-, -, h⟩ | ⟨h, -⟩ | ⟨hv, hr, -, h⟩ :=
      mbSlaveSwitch_cases host iomap rxCount bc s hf hdiag
    . rw [h]
      exact hnil _
    . rw [h]
      exact hnil _
    . exact h.within hv hr hs

theorem mbSlaveSwitch_pads (hs : s.pads = [])
    : ∀ i ∈ (mbSlaveSwitch host iomap rxCount bc s).2.pads,
        2 ≤ i ∧ i < 2 + bitBytes (field s.pdu 3).toNat ∧ (field s.pdu 3).toNat ≤ 2000 ∧
          (mbSlaveSwitch host iomap rxCount bc s).1 = 2 + bitBytes (field s.pdu 3).toNat := by
  intro i hi
  by_cases hdiag : f = .diagnostics
  . subst hdiag
    unfold mbSlaveSwitch mbSlaveDiagnostics at hi
    simp only [Pdu.function, hf] at hi
    split at hi <;> simp [hs] at hi
  . obtain ⟨-, -, h⟩ | ⟨h, -⟩ | ⟨hv, hr, -, h⟩ :=
      mbSlaveSwitch_cases host iomap rxCount bc s hf hdiag
    . simp [h, hs] at hi
    . simp [h, hs] at hi
    . cases f with
      | readCoils | readInputs =>
        obtain ⟨get, -, h⟩ := h
        rw [h] at hi ⊢
        obtain hi | ⟨hge, hlt, hres⟩ := readBitsResponse_pads _ s get _ _ hv.2 hi
        . simp [hs] at hi
        . exact ⟨hge, hlt, hv.2, hres⟩
      | readHoldingRegisters | readInputRegisters =>
        obtain ⟨get, -, h⟩ := h
        simp [h, readRegistersResponse_pads, hs] at hi
      | writeCoil =>
        obtain ⟨set, -, h⟩ := h
        simp [h, writeBitResponse_pads, hs] at hi
      | writeHoldingRegister | writeCoils | writeHoldingRegisters =>
        obtain ⟨set, -, h⟩ := h
        simp [h, writeResponse_pads, hs] at hi
      | diagnostics => exact absurd rfl hdiag
      | readWriteHoldingRegisters =>
        obtain ⟨set, get, -, -, h⟩ := h
        simp [h, readWriteResponse_pads, hs] at hi

theorem mbSlaveSwitch_size (hrx : rxCount ≤ maxPduSize)
    (hresult : ∀ c ∈ (mbSlaveSwitch host iomap rxCount bc s).2.calls, c.result ≤ 0)
    : (mbSlaveSwitch host iomap rxCount bc s).1 ≤ maxPduSize := by
  by_cases hdiag : f = .diagnostics
  . subst hdiag
    unfold mbSlaveSwitch mbSlaveDiagnostics
    simp only [Pdu.function, hf]
    split
    . exact Int.ofNat_le.mpr hrx
    . dsimp only
      decide
  . obtain ⟨-, -, h⟩ | ⟨-, h⟩ | ⟨hv, -, -, h⟩ :=
      mbSlaveSwitch_cases host iomap rxCount bc s hf hdiag
    . rw [h]
      dsimp only
      decide
    . obtain ⟨h, -⟩ | ⟨h, -⟩ | ⟨h, -⟩ := h
      all_goals
        rw [h]
        decide
    . obtain ⟨c, hlast, ⟨-, hres⟩ | ⟨-, size, -, hsize, hres⟩⟩ := (h.ends hv).last
      . have hneg := hresult c (List.mem_of_getLast? hlast)
        rw [hres]
        simp only [maxPduSize]
        omega
      . rw [hres]
        exact Int.ofNat_le.mpr hsize

end Switch

@[simp]
theorem mbSlaveException_calls (res : Int × SlaveState σ)
    : (mbSlaveException res).2.calls = res.2.calls := by
  unfold mbSlaveException
  dsimp only
  split <;> simp

@[simp]
theorem mbSlaveException_app (res : Int × SlaveState σ)
    : (mbSlaveException res).2.app = res.2.app := by
  unfold mbSlaveException
  dsimp only
  split <;> simp

@[simp]
theorem mbSlaveException_pads (res : Int × SlaveState σ)
    : (mbSlaveException res).2.pads = res.2.pads := by
  unfold mbSlaveException
  dsimp only
  split <;> simp

theorem mbSlaveException_size {res : Int × SlaveState σ} (h : res.1 ≤ maxPduSize)
    : (mbSlaveException res).1.toNat ≤ maxPduSize := by
  unfold mbSlaveException
  dsimp only
  split
  . simp [PduException.size, maxPduSize]
  . omega

theorem mbSlaveException_nonneg {res : Int × SlaveState σ} (h : 0 ≤ res.1)
    : mbSlaveException res = res := by
  unfold mbSlaveException
  dsimp only
  rw [if_neg (by omega)]

theorem ofCode_copy (m : Mem) {pdu : List UInt8} {f : Function} (hf : pdu.head? = some f.code)
    : Function.ofCode (m.copy 0 pdu 0) = some f := by
  rw [Mem.copy_head m hf]
  apply Function.ofCode_code

/--
Every callback that the slave invokes for a standard function is invoked in bounds, the pad bit
loop stays inside the response, and if the callbacks return 0 or a negative code then what is
transmitted fits a PDU. The request and what earlier messages left behind it are arbitrary.
-/
theorem mbSlaveHandleRequest_inBounds (host : Endian) (iomap : Iomap σ) (transaction : Txn)
    (app : σ) (pdu : List UInt8) (hpdu : 1 ≤ pdu.length) (hmax : pdu.length ≤ maxPduSize)
    (bc avail : Bool) (f : Function) (hf : pdu.head? = some f.code)
    : ∃ served,
        mbSlaveHandleRequest host mock iomap transaction app (.deliver pdu bc avail) = some served
          ∧
        (∀ c ∈ served.calls,
          c.InBounds iomap ∧
            (f.carriesData = true → c.op = .set →
              c.ptr.Holds (c.table.bytes c.quantity) pdu.length))
          ∧
        (∀ i ∈ served.pads,
          2 ≤ i ∧ i < 2 + bitBytes (field (transaction.data.copy 0 pdu) 3).toNat ∧
            2 + bitBytes (field (transaction.data.copy 0 pdu) 3).toNat ≤ maxPduSize ∧
            ∀ tx ∈ served.transport.sent, i < tx.length)
          ∧
        ((∀ c ∈ served.calls, c.result ≤ 0) →
          ∀ tx ∈ served.transport.sent, tx.length ≤ maxPduSize) := by
  have hne : pdu ≠ [] := List.length_pos_iff.mp hpdu
  obtain ⟨served, hserved, -, hcalls, hpads, hsent⟩ :=
    mbSlaveHandleRequest_mock host iomap transaction app pdu hne bc avail
  have hcode := ofCode_copy transaction.data hf
  have hbounds := mbSlaveSwitch_inBounds host iomap pdu.length bc
    (.init (transaction.data.copy 0 pdu) app) hcode rfl
  have hpad := mbSlaveSwitch_pads host iomap pdu.length bc
    (.init (transaction.data.copy 0 pdu) app) hcode rfl
  have hsize := mbSlaveSwitch_size host iomap pdu.length bc
    (.init (transaction.data.copy 0 pdu) app) hcode hmax
  simp only [mbSlaveProcess, mbSlaveException_calls, mbSlaveException_pads] at hcalls hpads hsent
  rw [← hcalls] at hbounds hsize
  rw [← hpads] at hpad
  refine ⟨served, hserved, ?_, ?_, ?_⟩
  . intro c hc
    obtain ⟨hin, hset⟩ := hbounds c hc
    refine ⟨hin, fun hdata hop => ?_⟩
    simpa [hdata] using hset hop
  . intro i hi
    obtain ⟨hge, hlt, hq, hres⟩ := hpad i hi
    refine ⟨hge, hlt, ?_, ?_⟩
    . change (field (transaction.data.copy 0 pdu) 3).toNat ≤ 2000 at hq
      unfold bitBytes maxPduSize
      omega
    . intro tx htx
      rw [hsent] at htx
      split at htx
      . simp only [List.mem_singleton] at htx
        rw [htx, Mem.length_load, mbSlaveException_nonneg (by omega), hres]
        exact hlt
      . simp at htx
  . intro hresult tx htx
    rw [hsent] at htx
    split at htx
    . simp only [List.mem_singleton] at htx
      rw [htx, Mem.length_load]
      exact mbSlaveException_size (hsize hresult)
    . simp at htx

theorem mbSlaveHandleRequest_inBounds_readCoils
    : ∃ served,
        mbSlaveHandleRequest .little mock (storageIomap 16 2 4 5 none) ⟨0, 0, 0, fun _ => 0x55⟩
            ⟨fun _ => 0xFF, fun _ => 0, fun _ => 0, fun _ => 0⟩
            (.deliver [0x01, 0x00, 0x0A, 0x00, 0x06] false false) = some served
          ∧
        served.calls.map Call.result = [0] ∧ served.pads = [2, 2]
          ∧
        served.transport.sent = [[0x01, 0x01, 0x3F]]
          ∧
        (∀ c ∈ served.calls, c.InBounds (storageIomap 16 2 4 5 none))
          ∧
        (∀ i ∈ served.pads, 2 ≤ i ∧ ∀ tx ∈ served.transport.sent, i < tx.length)
          ∧
        ∀ tx ∈ served.transport.sent, tx.length ≤ maxPduSize := by
  obtain ⟨served, hserved, hcalls, hpads, hsize⟩ :=
    mbSlaveHandleRequest_inBounds .little (storageIomap 16 2 4 5 none) ⟨0, 0, 0, fun _ => 0x55⟩
      ⟨fun _ => 0xFF, fun _ => 0, fun _ => 0, fun _ => 0⟩ [0x01, 0x00, 0x0A, 0x00, 0x06]
      (by decide) (by decide) false false .readCoils rfl
  have hrun :
      (mbSlaveHandleRequest .little mock (storageIomap 16 2 4 5 none) ⟨0, 0, 0, fun _ => 0x55⟩
          ⟨fun _ => 0xFF, fun _ => 0, fun _ => 0, fun _ => 0⟩
          (.deliver [0x01, 0x00, 0x0A, 0x00, 0x06] false false)).map
        (fun served => (served.calls.map Call.result, served.pads, served.transport.sent))
        =
      some ([0], [2, 2], [[0x01, 0x01, 0x3F]]) := by
    decide
  rw [hserved] at hrun
  simp only [Option.map_some, Option.some.injEq, Prod.mk.injEq] at hrun
  obtain ⟨hresults, hpad, hsent⟩ := hrun
  refine ⟨served, hserved, hresults, hpad, hsent, fun c hc => (hcalls c hc).1, ?_, ?_⟩
  . intro i hi
    obtain ⟨hge, -, -, htx⟩ := hpads i hi
    exact ⟨hge, htx⟩
  . apply hsize
    intro c hc
    have hresult : c.result ∈ served.calls.map Call.result := List.mem_map.mpr ⟨c, hc, rfl⟩
    rw [hresults, List.mem_singleton] at hresult
    omega

end Modbus
