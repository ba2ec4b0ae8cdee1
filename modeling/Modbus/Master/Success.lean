import Modbus.Master.Reply

/-!
This module contains when the master reports success. It looks at the first byte of the scratch
buffer, which is that of the request if nothing was received, and never at how much was received.
-/

namespace Modbus

namespace MasterOp

def outcome (op : MasterOp) (rxCount : Int) (response : Mem) : Int :=
  match op with
  | read _ _ buffer => if rxCount < 0 then rxCount else (mbusReadOutcome response buffer).1
  | write _ _ _ | writeSingle _ _ => mbusWriteResult rxCount response

/--
The received bytes are a normal response to a request with the given function code. All that a read
hands to the caller was received.
-/
def Answers (op : MasterOp) (sent : UInt8) (pdu : List UInt8) : Prop :=
  1 ≤ pdu.length
    ∧
  pdu[0]? = some sent
    ∧
  match op with
  | read address quantity buffer =>
    (∃ (count : UInt8),
      pdu[1]? = some count ∧ count.toNat = readLimit address quantity ∧
        pdu.length = 2 + count.toNat)
      ∧
    ∀ (m m' : Mem), mbusReadOutcome (m.copy 0 pdu) buffer = mbusReadOutcome (m'.copy 0 pdu) buffer
  | write _ _ _ | writeSingle _ _ => True

end MasterOp

section Run

variable {τ : Type} (transport : Transport τ) (host : Endian) {slave : Int} (mbus : Mbus) (w : τ)
  {request : Mem} {size : Nat}

theorem mbusRead_of_request {address : UInt32} {quantity : UInt16} {buffer : Mem}
    (h : (MasterOp.read address quantity buffer).request host slave mbus.scratch
      = some (request, size))
    : (MasterOp.read address quantity buffer).run transport host slave mbus w
        =
      (mbusExchange transport { mbus with scratch := request } slave size w).map
        (fun r => ((MasterOp.read address quantity buffer).outcome r.1 r.2.1.scratch, r.2)) := by
  simp only [MasterOp.request] at h
  simp only [MasterOp.run, mbusRead]
  split at h
  . contradiction
  . next hslave =>
    rw [if_neg hslave]
    cases htable : readTable address with
    | none => simp [htable] at h
    | some entry =>
      simp only [htable] at h
      dsimp only
      split at h
      . contradiction
      . next hq =>
        cases h
        rw [if_neg hq]
        cases mbusExchange transport _ slave PduRead.size w with
        | none => rfl
        | some r =>
          simp only [Option.map_some, MasterOp.outcome, mbusReadOutcome]
          split
          . rfl
          . split
            . rfl
            . rfl

theorem MasterOp.run_of_request (op : MasterOp)
    (h : op.request host slave mbus.scratch = some (request, size))
    : op.run transport host slave mbus w
        =
      (mbusExchange transport { mbus with scratch := request } slave size w).map
        (fun r => (op.outcome r.1 r.2.1.scratch, r.2)) := by
  cases op with
  | read address quantity buffer => exact mbusRead_of_request transport host mbus w h
  | write address quantity buffer =>
    simp only [MasterOp.request] at h
    simp only [MasterOp.run, mbusWrite]
    cases hdata : mbusWriteData mbus.scratch address quantity buffer with
    | none => simp [hdata] at h
    | some data =>
      simp only [hdata] at h
      cases h
      dsimp only
      cases mbusExchange transport _ slave (PduWrite.size + data.1.toNat) w with
      | none => rfl
      | some r => rfl
  | writeSingle address value =>
    simp only [MasterOp.request] at h
    simp only [MasterOp.run, mbusWriteSingle]
    cases htable : writeSingleTable address value with
    | none => simp [htable] at h
    | some entry =>
      simp only [htable] at h
      cases h
      dsimp only
      cases mbusExchange transport _ slave PduWriteSingle.size w with
      | none => rfl
      | some r => rfl

theorem MasterOp.request_zero (op : MasterOp)
    (h : op.request host slave mbus.scratch = some (request, size))
    : ∃ (f : Function), request 0 = f.code ∧
        ∀ address quantity buffer, op = .read address quantity buffer →
          ∃ (limit : Nat), readTable address = some (f, limit) := by
  cases op with
  | read address quantity buffer =>
    simp only [MasterOp.request] at h
    split at h
    . contradiction
    . cases htable : readTable address with
      | none => simp [htable] at h
      | some entry =>
        simp only [htable] at h
        split at h
        . contradiction
        . cases h
          refine ⟨entry.1, by simp [Mem.store16], ?_⟩
          intro address' quantity' buffer' heq
          cases heq
          exact ⟨entry.2, htable⟩
  | write address quantity buffer =>
    simp only [MasterOp.request, mbusWriteData] at h
    split at h
    . contradiction
    . next hdata =>
      cases h
      split at hdata
      . split at hdata
        . contradiction
        . cases hdata
          exact ⟨.writeCoils, by simp [Mem.store16, Mem.copy_lt, PduWrite.data], by simp⟩
      . split at hdata
        . contradiction
        . cases hdata
          exact ⟨.writeHoldingRegisters, by simp [Mem.store16, Mem.splice_lt, PduWrite.data],
            by simp⟩
      . contradiction
  | writeSingle address value =>
    simp only [MasterOp.request] at h
    cases htable : writeSingleTable address value with
    | none => simp [htable] at h
    | some entry =>
      simp only [htable] at h
      cases h
      exact ⟨entry.1, by simp [Mem.store16], by simp⟩

end Run

theorem readTable_code {address : UInt32} {f : Function} {limit : Nat}
    (h : readTable address = some (f, limit))
    : f.code ∈ [1, 2, 3, 4] := by
  unfold readTable at h
  split at h
  . cases h
    decide
  . cases h
    decide
  . cases h
    decide
  . cases h
    decide
  . contradiction

theorem mbException_ne_zero (response : Mem) : mbException response ≠ 0 := by
  unfold mbException
  split <;> decide

theorem mbIsException_eq_false_iff (response : Mem)
    : mbIsException response = false ↔ byteBit (response 0) 7 = false := by
  rw [← and_bit8_eq_zero _ _ (by decide)]
  simp [mbIsException, Pdu.function]

theorem Function.byteBit_code (f : Function) : byteBit f.code 7 = false := by
  cases f <;> decide

theorem mbusReadOutcome_eq_zero_iff (response buffer : Mem)
    : (mbusReadOutcome response buffer).1 = 0 ↔ response 0 ∈ [1, 2, 3, 4] := by
  unfold mbusReadOutcome mbusReadResponse
  dsimp only [Pdu.function]
  constructor
  . intro h
    split at h
    . exact absurd h (mbException_ne_zero response)
    . split at h
      . next hf => simp [Function.eq_code_of_ofCode hf, Function.code]
      . next hf => simp [Function.eq_code_of_ofCode hf, Function.code]
      . next hf => simp [Function.eq_code_of_ofCode hf, Function.code]
      . next hf => simp [Function.eq_code_of_ofCode hf, Function.code]
      . contradiction
  . intro h
    have hcode : ∃ f ∈ [Function.readCoils, .readInputs, .readHoldingRegisters,
        .readInputRegisters], response 0 = f.code := by
      simpa [Function.code] using h
    obtain ⟨f, hf, hcode⟩ := hcode
    have hnormal : mbIsException response = false := by
      rw [mbIsException_eq_false_iff, hcode]
      exact f.byteBit_code
    rw [hnormal, hcode, Function.ofCode_code]
    simp only [List.mem_cons, List.not_mem_nil, or_false] at hf
    obtain rfl | rfl | rfl | rfl := hf
    . rfl
    . rfl
    . rfl
    . rfl

theorem mbusWriteResult_eq_zero_iff {rxCount : Int} (hnonneg : 0 ≤ rxCount) (response : Mem)
    : mbusWriteResult rxCount response = 0 ↔ byteBit (response 0) 7 = false := by
  unfold mbusWriteResult
  rw [if_neg (by omega), ← mbIsException_eq_false_iff]
  cases mbIsException response with
  | true => simp [mbException_ne_zero]
  | false => simp

/-- What is reported as success is an answer to the request. -/
def ReportsOnlyAnswers (host : Endian) (mbus : Mbus) (op : MasterOp) (slave : Int) (sent : UInt8)
    (pdu : List UInt8) : Prop :=
  ∀ (mbus' : Mbus) (w' : Mock),
    op.run mock host slave mbus (.deliver pdu false false) = some (0, mbus', w') →
      op.Answers sent pdu

section Mock

variable {host : Endian} {mbus : Mbus} {slave : Int} {request : Mem} {size : Nat}

theorem reportsOnlyAnswers_iff_outcome (op : MasterOp) (hslave : slave ≠ 0)
    (h : op.request host slave mbus.scratch = some (request, size)) (sent : UInt8)
    (pdu : List UInt8)
    : ReportsOnlyAnswers host mbus op slave sent pdu
        ↔
      (op.outcome pdu.length (request.copy 0 pdu) = 0 → op.Answers sent pdu) := by
  obtain ⟨mbus', w', hexchange, hscratch⟩ :=
    mbusExchange_mock { mbus with scratch := request } pdu hslave size
  unfold ReportsOnlyAnswers
  rw [op.run_of_request mock host mbus _ h, hexchange]
  simp only [Option.map_some, hscratch, Option.some.injEq, Prod.mk.injEq]
  constructor
  . intro hreports hzero
    exact hreports mbus' w' ⟨hzero, rfl, rfl⟩
  . rintro hanswers mbus'' w'' ⟨hzero, -, -⟩
    exact hanswers hzero

theorem copy_zero (m : Mem) (pdu : List UInt8) : m.copy 0 pdu 0 = pdu.headD (m 0) := by
  cases pdu with
  | nil => rfl
  | cons b bs => rfl

theorem bytesMoved_readTable {address : UInt32} {quantity : UInt16} {f : Function} {limit : Nat}
    (htable : readTable address = some (f, limit)) {count : UInt8}
    (hcount : count.toNat = readLimit address quantity)
    : bytesMoved f.code count = count.toNat := by
  unfold readTable at htable
  unfold readLimit at hcount
  split at htable
  . cases htable
    rfl
  . cases htable
    rfl
  . next hcase =>
    cases htable
    simp only [hcase] at hcount
    simp only [bytesMoved, Function.ofCode_code]
    omega
  . next hcase =>
    cases htable
    simp only [hcase] at hcount
    simp only [bytesMoved, Function.ofCode_code]
    omega
  . contradiction

theorem mbusReadOutcome_received {address : UInt32} {quantity : UInt16} {f : Function} {limit : Nat}
    (htable : readTable address = some (f, limit)) {pdu : List UInt8}
    (hzero : pdu[0]? = some f.code) {count : UInt8} (hone : pdu[1]? = some count)
    (hcount : count.toNat = readLimit address quantity) (hlen : pdu.length = 2 + count.toNat)
    (m m' buffer : Mem)
    : mbusReadOutcome (m.copy 0 pdu) buffer = mbusReadOutcome (m'.copy 0 pdu) buffer := by
  have hagree : Mem.Agree pdu.length (m.copy 0 pdu) (m'.copy 0 pdu) := by
    intro i hi
    have hm := m.copy_add 0 i pdu hi
    have hm' := m'.copy_add 0 i pdu hi
    rw [Nat.zero_add] at hm hm'
    rw [hm, hm']
  have h0 : m.copy 0 pdu 0 = f.code := by simp [Mem.copy, hzero]
  have h1 : m.copy 0 pdu 1 = count := by simp [Mem.copy, hone]
  apply mbusReadOutcome_congr hagree
  rw [h0, h1, bytesMoved_readTable htable hcount]
  omega

theorem writeAnswers_iff {f : Function} (hf : request 0 = f.code) (pdu : List UInt8)
    : (mbusWriteResult pdu.length (request.copy 0 pdu) = 0 →
          1 ≤ pdu.length ∧ pdu[0]? = some (request 0))
        ↔
      ∃ (b : UInt8), pdu.head? = some b ∧ (b = request 0 ∨ byteBit b 7 = true) := by
  rw [mbusWriteResult_eq_zero_iff (Int.natCast_nonneg _), copy_zero]
  cases pdu with
  | nil =>
    -- What is looked at is the code that was sent.
    have hbit : byteBit (request 0) 7 = false := by
      rw [hf]
      exact f.byteBit_code
    simp [hbit]
  | cons b bs =>
    cases hbit : byteBit b 7 with
    | true => simp [hbit]
    | false => simp [hbit]

theorem readAnswers_iff {address : UInt32} {quantity : UInt16} {f : Function} {limit : Nat}
    (htable : readTable address = some (f, limit)) (hf : request 0 = f.code) (pdu : List UInt8)
    (buffer : Mem)
    : ((mbusReadOutcome (request.copy 0 pdu) buffer).1 = 0 →
          (MasterOp.read address quantity buffer).Answers (request 0) pdu)
        ↔
      ∃ (b : UInt8), pdu.head? = some b ∧
        (b ∈ [1, 2, 3, 4] →
          b = request 0
            ∧
          (pdu[1]?).map UInt8.toNat = some (readLimit address quantity)
            ∧
          pdu.length = 2 + readLimit address quantity) := by
  rw [mbusReadOutcome_eq_zero_iff, copy_zero]
  cases pdu with
  | nil =>
    have hcode := readTable_code htable
    rw [← hf] at hcode
    constructor
    . intro h
      exact absurd (h hcode).1 (by decide)
    . rintro ⟨b, hb, -⟩
      contradiction
  | cons b bs =>
    simp only [List.headD_cons, List.head?_cons, Option.some.injEq, exists_eq_left']
    apply imp_congr_right
    intro _
    constructor
    . rintro ⟨-, hzero, ⟨count, hone, hcount, hlen⟩, -⟩
      refine ⟨by simpa using hzero, ?_, ?_⟩
      . rw [hone, Option.map_some, hcount]
      . rw [hlen, hcount]
    . rintro ⟨rfl, hone, hlen⟩
      obtain ⟨count, hone, hcount⟩ := Option.map_eq_some_iff.mp hone
      have hlen' : (request 0 :: bs).length = 2 + count.toNat := by rw [hlen, hcount]
      refine ⟨by simp, rfl, ⟨count, hone, hcount, hlen'⟩, ?_⟩
      intro m m'
      exact mbusReadOutcome_received htable (by rw [hf]; rfl) hone hcount hlen' m m' buffer

end Mock

/--
An operation reports success only for an answer to its request if and only if something was received
and, for a write, it starts with the function code that was sent or with that of an exception. A
read takes every reply that starts with the code of a read for an answer.
-/
theorem mbus_reportsOnlyAnswers_iff (host : Endian) (mbus : Mbus) (op : MasterOp) {slave : Int}
    (hslave : slave ≠ 0) {request : Mem} {size : Nat}
    (hrequest : op.request host slave mbus.scratch = some (request, size)) (pdu : List UInt8)
    : ReportsOnlyAnswers host mbus op slave (request 0) pdu
        ↔
      ∃ (b : UInt8), pdu.head? = some b ∧
        match op with
        | .read address quantity _ =>
          b ∈ [1, 2, 3, 4] →
            b = request 0
              ∧
            (pdu[1]?).map UInt8.toNat = some (readLimit address quantity)
              ∧
            pdu.length = 2 + readLimit address quantity
        | .write _ _ _ | .writeSingle _ _ => b = request 0 ∨ byteBit b 7 = true := by
  rw [reportsOnlyAnswers_iff_outcome op hslave hrequest]
  obtain ⟨f, hf, hread⟩ := op.request_zero host mbus hrequest
  cases op with
  | read address quantity buffer =>
    obtain ⟨limit, htable⟩ := hread address quantity buffer rfl
    rw [← readAnswers_iff htable hf pdu buffer]
    simp only [MasterOp.outcome]
    rw [if_neg (by omega)]
  | write address quantity buffer =>
    rw [← writeAnswers_iff hf pdu]
    simp only [MasterOp.outcome, MasterOp.Answers, and_true]
  | writeSingle address value =>
    rw [← writeAnswers_iff hf pdu]
    simp only [MasterOp.outcome, MasterOp.Answers, and_true]

theorem mbus_reportsOnlyAnswers_readCoils
    : ReportsOnlyAnswers .little ⟨1000, ⟨0, 0, 0, fun _ => 0⟩, fun _ => 0x55⟩
        (.read (mbAddress 0 1) 2 (fun _ => 0)) 1 Function.readCoils.code [1, 1, 3] :=
  (mbus_reportsOnlyAnswers_iff .little ⟨1000, ⟨0, 0, 0, fun _ => 0⟩, fun _ => 0x55⟩
    (.read (mbAddress 0 1) 2 (fun _ => 0)) (show (1 : Int) ≠ 0 by decide) rfl [1, 1, 3]).mpr
      ⟨1, rfl, fun _ => ⟨rfl, rfl, rfl⟩⟩

theorem not_reportsOnlyAnswers_readResponse
    : ¬ReportsOnlyAnswers .little ⟨1000, ⟨0, 0, 0, fun _ => 0⟩, fun _ => 0x55⟩
        (.writeSingle (mbAddress 4 1) 7) 1 Function.writeHoldingRegister.code [3, 2, 0, 1] := by
  intro h
  obtain ⟨-, hzero, -⟩ := h _ _ rfl
  exact absurd hzero (by decide)

end Modbus
