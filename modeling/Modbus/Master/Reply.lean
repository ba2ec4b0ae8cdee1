import Modbus.Master.Op
import Modbus.Slave.Switch

/-!
This module contains what `mbus_read` does with a reply, for every PDU that may be received. How
many bytes are moved to the buffer of the caller and how they are moved follows from the reply
alone: the request is not looked at.
-/

namespace Modbus

def readLimit (address : UInt32) (quantity : UInt16) : Nat :=
  match (address >>> 16).toNat with
  | 0 | 1 => (quantity.toNat + 7) / 8
  | _ => 2 * quantity.toNat

/-- The number of bytes of the buffer that a reply with this function and count overwrites. -/
def bytesMoved (function count : UInt8) : Nat :=
  match Function.ofCode function with
  | some .readCoils | some .readInputs => count.toNat
  | some .readInputRegisters | some .readHoldingRegisters => 2 * ((count.toNat + 1) / 2)
  | _ => 0

theorem readLimit_le {address : UInt32} {quantity : UInt16} {f : Function} {limit : Nat}
    (htable : readTable address = some (f, limit)) (hq : quantity.toNat ≤ limit)
    : readLimit address quantity ≤ 250 := by
  unfold readTable at htable
  unfold readLimit
  split at htable
  all_goals
    simp only [Option.some.injEq, Prod.mk.injEq, reduceCtorEq] at htable
  all_goals
    next hcase =>
    simp only [hcase]
    omega

def mbusReadOutcome (response buffer : Mem) : Int × Mem :=
  if mbIsException response then
    (mbException response, buffer)
  else
    mbusReadResponse response buffer

theorem ofCode_of_mbIsException {response : Mem} (h : mbIsException response = true)
    : Function.ofCode (response 0) = none := by
  cases hf : Function.ofCode (response 0) with
  | none => rfl
  | some f =>
    have hcode := Function.eq_code_of_ofCode hf
    simp only [mbIsException, Pdu.function, hcode] at h
    cases f <;> exact absurd h (by decide)

theorem mbusReadOutcome_cases (response : Mem)
    : (bytesMoved (response 0) (response 1) = 0 ∧
        ∀ (buffer : Mem), mbusReadOutcome response buffer
          =
        (if mbIsException response then mbException response else -1, buffer))
        ∨
      (bytesMoved (response 0) (response 1) = (response 1).toNat ∧
        ∀ (buffer : Mem), mbusReadOutcome response buffer
          =
        (0, buffer.copy 0 (response.load 2 (response 1).toNat)))
        ∨
      (bytesMoved (response 0) (response 1) = 2 * (((response 1).toNat + 1) / 2) ∧
        ∀ (buffer : Mem), mbusReadOutcome response buffer
          =
        (0, swapRegisters buffer (response.offset 2) (((response 1).toNat + 1) / 2))) := by
  cases hexc : mbIsException response with
  | true =>
    left
    constructor
    . simp [bytesMoved, ofCode_of_mbIsException hexc]
    . intro buffer
      simp [mbusReadOutcome, hexc]
  | false =>
    simp only [mbusReadOutcome, hexc, mbusReadResponse, bytesMoved, Pdu.function]
    cases Function.ofCode (response 0) with
    | none => exact .inl ⟨rfl, fun _ => rfl⟩
    | some f =>
      cases f with
      | readCoils | readInputs => exact .inr (.inl ⟨rfl, fun _ => rfl⟩)
      | readHoldingRegisters | readInputRegisters => exact .inr (.inr ⟨rfl, fun _ => rfl⟩)
      | _ => exact .inl ⟨rfl, fun _ => rfl⟩

theorem mbusReadOutcome_ge (response buffer : Mem) {i : Nat}
    (h : bytesMoved (response 0) (response 1) ≤ i)
    : (mbusReadOutcome response buffer).2 i = buffer i := by
  obtain ⟨-, heq⟩ | ⟨hmoved, heq⟩ | ⟨hmoved, heq⟩ := mbusReadOutcome_cases response
  . rw [heq]
  . rw [heq]
    dsimp only
    apply Mem.copy_ge
    rw [Mem.length_load]
    omega
  . rw [heq]
    dsimp only
    apply swapRegisters_ge
    omega

theorem swapRegisters_written (src : Mem) {n i : Nat} (h : i < 2 * n)
    : ∃ b, ∀ (dst : Mem), swapRegisters dst src n i = b := by
  obtain ⟨k, rfl | rfl⟩ := Nat.even_or_odd' i
  . exact ⟨_, fun dst => (swapRegisters_lt dst src (by omega)).1⟩
  . exact ⟨_, fun dst => (swapRegisters_lt dst src (by omega)).2⟩

theorem mbusReadOutcome_written (response : Mem) {i : Nat}
    (h : i < bytesMoved (response 0) (response 1))
    : ∃ b, ∀ (buffer : Mem), (mbusReadOutcome response buffer).2 i = b := by
  obtain ⟨hmoved, -⟩ | ⟨hmoved, heq⟩ | ⟨hmoved, heq⟩ := mbusReadOutcome_cases response
  . omega
  . refine ⟨response (2 + i), ?_⟩
    intro buffer
    have hcopy := Mem.copy_add buffer 0 i (response.load 2 (response 1).toNat)
      (by rw [Mem.length_load]; omega)
    rw [Nat.zero_add, Mem.getElem_load] at hcopy
    rw [heq]
    exact hcopy
  . obtain ⟨b, hb⟩ := swapRegisters_written (response.offset 2) (hmoved ▸ h)
    refine ⟨b, ?_⟩
    intro buffer
    rw [heq]
    apply hb

theorem swapRegisters_congr (dst : Mem) {src src' : Mem} {n : Nat} (h : Mem.Agree (2 * n) src src')
    : swapRegisters dst src n = swapRegisters dst src' n := by
  induction n with
  | zero => rfl
  | succ n ih =>
    simp only [swapRegisters]
    rw [ih (h.mono (by omega))]
    rw [h (2 * n) (by omega), h (2 * n + 1) (by omega)]

theorem mbusReadOutcome_congr {n : Nat} {response response' : Mem}
    (h : Mem.Agree n response response')
    (hmoved : 2 + bytesMoved (response 0) (response 1) ≤ n) (buffer : Mem)
    : mbusReadOutcome response buffer = mbusReadOutcome response' buffer := by
  have h0 := h 0 (by omega)
  have h1 := h 1 (by omega)
  have hload (len : Nat) (hlen : 2 + len ≤ n) : response.load 2 len = response'.load 2 len :=
    h.load_eq hlen
  have hoffset (len : Nat) (hlen : 2 + len ≤ n)
      : Mem.Agree len (response.offset 2) (response'.offset 2) := by
    intro i hi
    apply h
    omega
  have hexc : mbIsException response' = mbIsException response := by
    simp only [mbIsException, Pdu.function, h0]
  have hcode : mbException response' = mbException response := by
    simp only [mbException, h1]
  unfold mbusReadOutcome mbusReadResponse
  rw [hexc, hcode]
  simp only [Pdu.function, PduReadResponse.count, PduReadResponse.data]
  rw [bytesMoved] at hmoved
  rw [← h0, ← h1]
  cases hf : Function.ofCode (response 0) with
  | none => rfl
  | some f =>
    rw [hf] at hmoved
    cases f with
    | readCoils | readInputs =>
      dsimp only at hmoved ⊢
      rw [hload _ hmoved]
    | readHoldingRegisters | readInputRegisters =>
      dsimp only at hmoved ⊢
      rw [swapRegisters_congr buffer (hoffset _ hmoved)]
    | _ => rfl

section Mock

variable (host : Endian) (mbus : Mbus) {slave : Int} {address : UInt32} {quantity : UInt16}
  (buffer : Mem) (pdu : List UInt8)

def Mbus.received (f : Function) (address : UInt32) (quantity : UInt16) : Mem :=
  (((mbus.scratch.store 0 f.code).store16 host 1
    (ccToBe16 host ((address - 1) &&& 0xFFFF).toUInt16)).store16 host 3
      (ccToBe16 host quantity)).copy 0 pdu

theorem mbusExchange_mock (hslave : slave ≠ 0) (size : Nat)
    : ∃ (mbus' : Mbus) (w' : Mock),
        mbusExchange mock mbus slave size (.deliver pdu false false)
          =
        some ((pdu.length : Int), mbus', w')
          ∧
        mbus'.scratch = mbus.scratch.copy 0 pdu := by
  simp only [mbusExchange, mbPduTx, mbPduRx, mock, mockMbPduTx, mockMbPduRx, Mock.deliver, ne_eq,
    hslave, not_false_eq_true, ↓reduceIte]
  exact ⟨_, _, rfl, rfl⟩

theorem mbusRead_mock (hslave : slave ≠ 0) {f : Function} {limit : Nat}
    (htable : readTable address = some (f, limit)) (hq : quantity.toNat ≤ limit)
    : ∃ res,
        mbusRead mock host mbus slave address quantity buffer (.deliver pdu false false) = some res
          ∧
        (res.result, res.buffer)
          =
        mbusReadOutcome (mbus.received host pdu f address quantity) buffer := by
  unfold mbusRead Mbus.received
  rw [if_neg hslave, htable]
  dsimp only
  rw [if_neg (by omega)]
  generalize Mem.store16 host _ 3 _ = request
  obtain ⟨mbus', w', hexchange, hscratch⟩ :=
    mbusExchange_mock { mbus with scratch := request } pdu hslave PduRead.size
  rw [hexchange]
  dsimp only
  rw [if_neg (by omega), hscratch]
  unfold mbusReadOutcome
  split
  . exact ⟨_, rfl, rfl⟩
  . exact ⟨_, rfl, rfl⟩

theorem mbusRead_rejected (w : Mock)
    (h : ¬(slave ≠ 0 ∧ ∃ (f : Function) (limit : Nat),
      readTable address = some (f, limit) ∧ quantity.toNat ≤ limit))
    : mbusRead mock host mbus slave address quantity buffer w
        =
      some { result := -1, mbus, buffer, transport := w } := by
  unfold mbusRead
  split
  . rfl
  . next hslave =>
    cases htable : readTable address with
    | none => rfl
    | some entry =>
      dsimp only
      split
      . rfl
      . next hq => exact absurd ⟨hslave, entry.1, entry.2, htable, by omega⟩ h

/--
Whatever the buffer holds, only the bytes for the requested items are modified, and nothing depends
on the memory behind the scratch buffer.
-/
def ReadsWithin (slave : Int) (address : UInt32) (quantity : UInt16) : Prop :=
  ∀ (buffer : Mem), ∃ res,
    mbusRead mock host mbus slave address quantity buffer (.deliver pdu false false) = some res
      ∧
    (∀ (i : Nat), readLimit address quantity ≤ i → res.buffer i = buffer i)
      ∧
    ∀ (scratch : Mem), Mem.Agree maxPduSize mbus.scratch scratch → ∃ res',
      mbusRead mock host { mbus with scratch } slave address quantity buffer
          (.deliver pdu false false) = some res'
        ∧
      res'.result = res.result
        ∧
      res'.buffer = res.buffer

theorem received_agree {scratch : Mem} (h : Mem.Agree maxPduSize mbus.scratch scratch)
    (f : Function) (address : UInt32) (quantity : UInt16)
    : Mem.Agree maxPduSize (mbus.received host pdu f address quantity)
        ({ mbus with scratch }.received host pdu f address quantity) := by
  intro i hi
  simp only [Mbus.received, Mem.copy, Mem.store16, Mem.store_apply, h i hi]

theorem received_zero (f : Function) (address : UInt32) (quantity : UInt16)
    : mbus.received host pdu f address quantity 0 = pdu.getD 0 f.code := by
  cases pdu with
  | nil => simp [Mbus.received, Mem.store16]
  | cons b bs => simp [Mbus.received, Mem.copy]

theorem received_one (f : Function) (address : UInt32) (quantity : UInt16)
    : mbus.received host pdu f address quantity 1
        =
      pdu.getD 1 (hiByte ((address - 1) &&& 0xFFFF).toUInt16) := by
  simp only [Mbus.received, ccToBe16, Mem.store16_swapBe]
  simp [Mem.copy]

/--
The first two bytes of a reply decide how much is moved. A reply that has not as many leaves those
of the request in place: the function code and the high byte of the address on the wire. No more
than was asked for may be moved.
-/
theorem mbusRead_readsWithin_iff (slave : Int) (address : UInt32) (quantity : UInt16)
    : ReadsWithin host mbus pdu slave address quantity
        ↔
      ∀ (f : Function) (limit : Nat),
        slave ≠ 0 → readTable address = some (f, limit) → quantity.toNat ≤ limit →
          bytesMoved (pdu.getD 0 f.code) (pdu.getD 1 (hiByte ((address - 1) &&& 0xFFFF).toUInt16))
            ≤
          readLimit address quantity := by
  constructor
  . intro h f limit hslave htable hq
    rw [← received_zero host mbus pdu f address quantity]
    rw [← received_one host mbus pdu f address quantity]
    apply Nat.le_of_not_lt
    intro hlt
    obtain ⟨b, hb⟩ := mbusReadOutcome_written _ hlt
    -- The first byte that should not be modified is modified if it holds another value.
    obtain ⟨res, hres, hkeep, -⟩ := h (fun _ => b + 1)
    obtain ⟨res', hres', houtcome⟩ := mbusRead_mock host mbus (fun _ => b + 1) pdu hslave htable hq
    rw [hres] at hres'
    injection hres' with heq
    specialize hkeep (readLimit address quantity) (Nat.le_refl _)
    rw [heq] at hkeep
    specialize hb (fun _ => b + 1)
    rw [← houtcome] at hb
    dsimp only at hb hkeep
    rw [hkeep] at hb
    simp at hb
  . intro h buffer
    by_cases hissued : slave ≠ 0 ∧ ∃ (f : Function) (limit : Nat),
        readTable address = some (f, limit) ∧ quantity.toNat ≤ limit
    . obtain ⟨hslave, f, limit, htable, hq⟩ := hissued
      specialize h f limit hslave htable hq
      rw [← received_zero host mbus pdu f address quantity] at h
      rw [← received_one host mbus pdu f address quantity] at h
      obtain ⟨res, hres, houtcome⟩ := mbusRead_mock host mbus buffer pdu hslave htable hq
      refine ⟨res, hres, ?_, ?_⟩
      . intro i hi
        have hge := mbusReadOutcome_ge _ buffer (Nat.le_trans h hi)
        rw [← houtcome] at hge
        exact hge
      . intro scratch hagree
        obtain ⟨res', hres', houtcome'⟩ :=
          mbusRead_mock host { mbus with scratch } buffer pdu hslave htable hq
        have hlimit := readLimit_le htable hq
        have hcongr := mbusReadOutcome_congr
          (received_agree host mbus pdu hagree f address quantity)
          (by simp only [maxPduSize]; omega) buffer
        rw [← houtcome, ← houtcome', Prod.mk.injEq] at hcongr
        exact ⟨res', hres', hcongr.1.symm, hcongr.2.symm⟩
    . have hrejected (mbus : Mbus) :=
        mbusRead_rejected host mbus buffer (.deliver pdu false false) hissued
      exact ⟨_, hrejected mbus, fun _ _ => rfl, fun _ _ => ⟨_, hrejected _, rfl, rfl⟩⟩

end Mock

theorem not_readsWithin_coil
    : ¬ReadsWithin .little ⟨1000, ⟨0, 0, 0, fun _ => 0⟩, fun _ => 0x55⟩
        [1, 10, 1, 2, 3, 4, 5, 6, 7, 8, 9, 10] 1 (mbAddress 0 1) 1 := by
  intro h
  obtain ⟨res, hres, hkeep, -⟩ := h (fun _ => 0)
  have hbuffer : res.buffer 1 = 2 := by
    injection hres with hres
    rw [← hres]
    rfl
  specialize hkeep 1 (by decide)
  rw [hbuffer] at hkeep
  exact absurd hkeep (by decide)

end Modbus
