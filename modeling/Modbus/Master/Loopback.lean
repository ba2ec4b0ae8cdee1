import Modbus.Master.Channel

/-!
This module contains the diagnostic loopback over the lossless channel. The slave echoes the request
as it is, but the master copies the response from its start and not from its data, so that what
reaches the buffer is the header with the first bytes of the data.
-/

namespace Modbus

variable {σ : Type}

def loopbackPdu (data : List UInt8) : List UInt8 :=
  [Function.diagnostics.code, 0, 0] ++ data

theorem mbSlaveHandleRequest_loopback (host : Endian) (iomap : Iomap σ) (transaction : Txn)
    (app : σ) (data : List UInt8)
    : ∃ served,
        mbSlaveHandleRequest host mock iomap transaction app
            (.deliver (loopbackPdu data) false false)
          =
        some served
          ∧
        served.app = app
          ∧
        served.transport.sent = [loopbackPdu data] := by
  obtain ⟨served, hserved, happ, -, -, hsent⟩ :=
    mbSlaveHandleRequest_mock host iomap transaction app (loopbackPdu data)
      (by simp [loopbackPdu]) false false
  have hsub : PduDiag.subFunction host (transaction.data.copy 0 (loopbackPdu data)) = 0 := by
    change host.ofBytes 0 0 = 0
    cases host <;> rfl
  have hprocess : mbSlaveProcess host iomap (loopbackPdu data).length false
        (.init (transaction.data.copy 0 (loopbackPdu data)) app)
      =
      (((loopbackPdu data).length : Int),
        .init (transaction.data.copy 0 (loopbackPdu data)) app) := by
    unfold mbSlaveProcess mbSlaveSwitch
    rw [show Function.ofCode (Pdu.function (SlaveState.init
      (transaction.data.copy 0 (loopbackPdu data)) app).pdu) = some .diagnostics from rfl]
    dsimp only [mbSlaveDiagnostics, SlaveState.init]
    rw [hsub]
    rw [if_pos (by cases host <;> rfl)]
    rw [mbSlaveException_nonneg (by simp)]
  rw [hprocess] at happ hsent
  refine ⟨served, hserved, happ, ?_⟩
  rw [hsent]
  dsimp only [SlaveState.init]
  simp only [and_self, ↓reduceIte, Int.toNat_natCast, Mem.load_copy]

theorem mbusExchange_loopback (host : Endian) (iomap : Iomap σ) (mbus : Mbus) {slave : Int}
    (hslave : Unicast slave) {ch : Channel σ} (hidle : ch.pending = []) (size : Nat)
    {data : List UInt8} (hload : mbus.scratch.load 0 size = loopbackPdu data)
    : ∃ (mbus' : Mbus) (ch' : Channel σ),
        mbusExchange (channel host iomap) mbus slave size ch
          =
        some (((loopbackPdu data).length : Int), mbus', ch')
          ∧
        mbus'.scratch = mbus.scratch.copy 0 (loopbackPdu data) := by
  obtain ⟨served, hserved, -, hsent⟩ :=
    mbSlaveHandleRequest_loopback host iomap ch.transaction ch.app data
  have hunit : ((mbus.request slave).unit == 0) = false := by
    simpa [Mbus.request, Unicast] using hslave
  have hdata : (mbus.request slave).data = mbus.scratch := rfl
  let scratch := mbus.scratch.copy 0 (loopbackPdu data)
  refine ⟨{ mbus with transaction := { mbus.request slave with data := scratch }, scratch },
    { transaction := served.transaction, app := served.app, pending := [] }, ?_, rfl⟩
  unfold mbusExchange
  simp only [mbPduTx, mbPduRx, channel, hunit, hdata, hload, hserved, hidle, hsent,
    List.nil_append, hslave.ne_zero, ne_eq, not_false_eq_true, ↓reduceIte]
  rfl

theorem load_loopback (host : Endian) (m : Mem) (data : List UInt8)
    : (((m.store 0 Function.diagnostics.code).store16 host 1 pduDiagLoopback).copy PduDiag.data
          data).load 0 (data.length + PduDiag.size)
        =
      loopbackPdu data := by
  rw [Nat.add_comm, Mem.load_add]
  rw [show 0 + PduDiag.size = PduDiag.data from rfl, Mem.load_copy]
  congr 1
  rw [show Mem.load _ 0 PduDiag.size = [_, _, _] from rfl]
  cases host <;> rfl

theorem mbusLoopback_channel (host : Endian) (iomap : Iomap σ) (mbus : Mbus) {slave : Int}
    (hslave : Unicast slave) {size : UInt16} (hsize : size.toNat ≤ 250) (buffer : Mem)
    {ch : Channel σ} (hidle : ch.pending = [])
    : ∃ res,
        mbusLoopback (channel host iomap) host mbus slave size buffer ch = some res
          ∧
        res.result = size.toNat + 3
          ∧
        ∀ (i : Nat), i < size.toNat →
          res.buffer i = (loopbackPdu (buffer.load 0 size.toNat)).getD i 0 := by
  have hload := load_loopback host mbus.scratch (buffer.load 0 size.toNat)
  rw [Mem.length_load] at hload
  generalize hrequest : ((mbus.scratch.store 0 Function.diagnostics.code).store16 host 1
    pduDiagLoopback).copy PduDiag.data (buffer.load 0 size.toNat) = request at hload
  obtain ⟨mbus', ch', hexchange, hscratch⟩ :=
    mbusExchange_loopback host iomap { mbus with scratch := request } hslave hidle _ hload
  generalize hpdu : loopbackPdu (buffer.load 0 size.toNat) = pdu at hexchange hscratch ⊢
  have hlen : pdu.length = size.toNat + 3 := by
    rw [← hpdu]
    simp [loopbackPdu]
  have hexc (m : Mem) : mbIsException (m.copy 0 pdu) = false := by
    rw [← hpdu]
    rw [mbIsException, Pdu.function, Mem.copy_head m (b := Function.diagnostics.code) rfl]
    decide
  unfold mbusLoopback
  rw [if_neg (by omega)]
  dsimp only
  rw [hrequest, hexchange]
  dsimp only
  rw [if_neg (by omega), hscratch]
  simp only [hexc, Bool.false_eq_true, ↓reduceIte]
  rw [if_pos (by omega)]
  refine ⟨_, rfl, by simp [hlen], ?_⟩
  intro i hi
  dsimp only
  have hcopy := Mem.copy_add buffer 0 i ((request.copy 0 pdu).load 0 size.toNat) (by simpa using hi)
  rw [Nat.zero_add] at hcopy
  rw [hcopy, Mem.getElem_load, Mem.copy_add _ _ _ _ (by omega)]
  rw [List.getD_eq_getElem _ _ (by omega)]

/--
A loopback is an echo: it succeeds, and the buffer then holds the data that the slave has echoed,
which are the bytes it held before.
-/
def LoopsBack (host : Endian) (iomap : Iomap σ) (mbus : Mbus) (slave : Int) (size : UInt16)
    (buffer : Mem) (ch : Channel σ)
    : Prop :=
  ∃ res,
    mbusLoopback (channel host iomap) host mbus slave size buffer ch = some res ∧
      0 ≤ res.result ∧ res.buffer.load 0 size.toNat = buffer.load 0 size.toNat

theorem getD_loopbackPdu_lt (data : List UInt8) {i : Nat} (h : i < 3)
    : (loopbackPdu data).getD i 0 = if i % 3 = 0 then Function.diagnostics.code else 0 := by
  match i, h with
  | 0, _ | 1, _ | 2, _ => rfl

theorem getD_loopbackPdu_add (m : Mem) {n i : Nat} (h : i < n)
    : (loopbackPdu (m.load 0 n)).getD (i + 3) 0 = m i := by
  rw [List.getD_eq_getElem _ _ (by simp [loopbackPdu]; omega)]
  unfold loopbackPdu
  rw [List.getElem_append_right (by simp)]
  simp

/-- A memory that does not change when the header is put before it repeats the header. -/
theorem loopbackPdu_fixed (m : Mem) (n : Nat)
    : (∀ (i : Nat), i < n → (loopbackPdu (m.load 0 n)).getD i 0 = m i)
        ↔
      ∀ (i : Nat), i < n → m i = if i % 3 = 0 then Function.diagnostics.code else 0 := by
  constructor
  . intro h i
    induction i using Nat.strong_induction_on with
    | _ i ih =>
      intro hi
      rw [← h i hi]
      by_cases hlt : i < 3
      . rw [getD_loopbackPdu_lt _ hlt]
      . obtain ⟨k, rfl⟩ : ∃ k, i = k + 3 := ⟨i - 3, by omega⟩
        rw [getD_loopbackPdu_add m (by omega)]
        rw [ih k (by omega) (by omega)]
        simp
  . intro h i hi
    by_cases hlt : i < 3
    . rw [getD_loopbackPdu_lt _ hlt, h i hi]
    . obtain ⟨k, rfl⟩ : ∃ k, i = k + 3 := ⟨i - 3, by omega⟩
      rw [getD_loopbackPdu_add m (by omega)]
      rw [h k (by omega), h (k + 3) hi]
      simp

/--
The call returns the number of bytes received, which counts the header. The buffer is an echo only
if it holds nothing but repetitions of the header that is copied over it.
-/
theorem mbusLoopback_loopsBack_iff (host : Endian) (iomap : Iomap σ) (mbus : Mbus) {slave : Int}
    (hslave : Unicast slave) {size : UInt16} (hsize : size.toNat ≤ 250) (buffer : Mem)
    {ch : Channel σ} (hidle : ch.pending = [])
    : LoopsBack host iomap mbus slave size buffer ch
        ↔
      ∀ (i : Nat), i < size.toNat →
        buffer i = if i % 3 = 0 then Function.diagnostics.code else 0 := by
  obtain ⟨res, hres, hresult, hbuffer⟩ :=
    mbusLoopback_channel host iomap mbus hslave hsize buffer hidle
  rw [← loopbackPdu_fixed]
  constructor
  . intro ⟨res', hres', _, hload⟩ i hi
    rw [hres] at hres'
    injection hres' with heq
    rw [← heq] at hload
    rw [← hbuffer i hi]
    have hget := congrArg (fun bs => bs.getD i 0) hload
    simpa [hi] using hget
  . intro h
    refine ⟨res, hres, by omega, ?_⟩
    apply Mem.load_congr
    intro i hi
    rw [Nat.zero_add, hbuffer i hi, h i hi]

theorem mbusLoopback_loopsBack_header
    : LoopsBack .little (storageIomap 8 8 8 8 none) ⟨1000, ⟨0, 0, 0, fun _ => 0⟩, fun _ => 0x55⟩ 1
        4 (Mem.copy (fun _ => 0) 0 [8, 0, 0, 8])
        ⟨⟨0, 0, 1, fun _ => 0⟩, ⟨fun _ => 0, fun _ => 0, fun _ => 0, fun _ => 0⟩, []⟩ := by
  have hslave : Unicast 1 := by
    unfold Unicast
    decide
  apply (mbusLoopback_loopsBack_iff .little _ _ hslave (by decide) _ rfl).mpr
  decide

theorem not_loopsBack_data
    : ¬LoopsBack .little (storageIomap 8 8 8 8 none) ⟨1000, ⟨0, 0, 0, fun _ => 0⟩, fun _ => 0x55⟩ 1
        4 (Mem.copy (fun _ => 0) 0 [0x11, 0x22, 0x33, 0x44])
        ⟨⟨0, 0, 1, fun _ => 0⟩, ⟨fun _ => 0, fun _ => 0, fun _ => 0, fun _ => 0⟩, []⟩ := by
  intro ⟨res, hres, _, hload⟩
  have hbuffer : res.buffer.load 0 4 = [8, 0, 0, 0x11] := by
    injection hres with hres
    rw [← hres]
    decide
  rw [show (4 : UInt16).toNat = 4 from rfl, hbuffer] at hload
  exact absurd hload (by decide)

end Modbus
