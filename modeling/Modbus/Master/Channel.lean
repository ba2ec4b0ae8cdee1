import Modbus.Master.Lemmas
import Modbus.Slave.Refine

/-!
This module contains a master and a slave at the two ends of a lossless channel: what the master
reads and writes is what the tables of the slave hold.
-/

namespace Modbus

structure Channel (σ : Type) where
  transaction : Txn
  app : σ
  pending : List (List UInt8)

/--
The channel between a master and a slave. The bytes that the master transmits are what the slave
receives, and the other way round. Unit 0 is the broadcast address.
-/
def channel {σ : Type} (host : Endian) (iomap : Iomap σ) : Transport (Channel σ) where
  bringup _ w := (0, w)
  shutdown _ w := (0, w)
  isDown _ := false
  tx transaction size w :=
    match mbSlaveHandleRequest host mock iomap w.transaction w.app
        (.deliver (transaction.data.load 0 size) (transaction.unit == 0) false) with
    | none => none
    | some served =>
      some
        { transaction := served.transaction, app := served.app
          pending := w.pending ++ served.transport.sent }
  rx transaction _tmo w :=
    match w.pending with
    | [] => some (eTimeout, transaction, w)
    | pdu :: pending =>
      let transaction := { transaction with data := transaction.data.copy 0 pdu }
      some (pdu.length, transaction, { w with pending })
  rxIsBc _ := false
  rxAvail w := (!w.pending.isEmpty, w)

structure Iomap.Backed (iomap : Iomap Store) (coils hold : Nat) : Prop where
  coils : iomap.coils = ⟨coils, some coilGet, some coilSet⟩
  holdingRegisters : iomap.holdingRegisters = ⟨hold, some holdGet, some holdSet⟩

def Function.isBacked : Function → Bool
  | readInputs | readInputRegisters | diagnostics => false
  | _ => true

theorem Iomap.Backed.mbSlaveHandleRequest_eq {iomap : Iomap Store} {coils hold : Nat}
    (h : iomap.Backed coils hold) (host : Endian) (inputs inputRegisters : Nat) (transaction : Txn)
    (store : Store) {pdu : List UInt8} {f : Function} (hf : pdu.head? = some f.code)
    (hbacked : f.isBacked = true) (bc avail : Bool)
    : mbSlaveHandleRequest host mock iomap transaction store (.deliver pdu bc avail)
        =
      mbSlaveHandleRequest host mock (storageIomap coils inputs hold inputRegisters none)
        transaction store (.deliver pdu bc avail) := by
  have hswitch (rxCount : Nat) (s : SlaveState Store)
      (hs : Function.ofCode (Pdu.function s.pdu) = some f)
      : mbSlaveSwitch host iomap rxCount bc s
          =
        mbSlaveSwitch host (storageIomap coils inputs hold inputRegisters none) rxCount bc s := by
    unfold mbSlaveSwitch
    simp only [hs, storageIomap]
    cases f with
    | readInputs | readInputRegisters | diagnostics => simp [Function.isBacked] at hbacked
    | _ => simp only [h.coils, h.holdingRegisters]
  have heq := hswitch (pdu.length : Int).toNat
    { pdu := transaction.data.copy 0 pdu, app := store, calls := [], pads := [] }
    (ofCode_copy transaction.data hf)
  unfold mbSlaveHandleRequest
  simp only [mbPduRx, mock, mockMbPduRx, mbPduRxBc, Mock.deliver]
  rw [heq]

def Unicast (slave : Int) : Prop :=
  UInt8.ofInt slave ≠ 0

theorem Unicast.ne_zero {slave : Int} (h : Unicast slave) : slave ≠ 0 := by
  rintro rfl
  exact h rfl

theorem Request.head_of_decode {pdu : List UInt8} {r : Request} (h : Request.decode pdu = some r)
    : pdu.head? = some r.function.code := by
  have hholds := Request.holds_of_decode (fun _ => 0) h
  cases pdu with
  | nil => simp [Request.decode] at h
  | cons b bs => exact congrArg some hholds.1

theorem DataModel.Answers.cases_of_valuesOk {d d' : DataModel} {r : Request} {response : List UInt8}
    (h : d.Answers r d' response) (hv : r.ValuesOk) (m : Mem)
    : (r.RangesOk d ∧ d' = r.exec d ∧ response = r.response d ∧
        mbIsException (m.copy 0 response) = false)
        ∨
      (¬r.RangesOk d ∧ d' = d ∧ mbIsException (m.copy 0 response) = true ∧
        mbException (m.copy 0 response) = eIllegalDataAddress) := by
  cases h with
  | normal _ hr =>
    left
    refine ⟨hr, rfl, rfl, ?_⟩
    rw [mbIsException, Pdu.function, Mem.copy_head m (r.head_response d)]
    cases r.function <;> decide
  | illegalDataAddress hr =>
    right
    refine ⟨hr, rfl, ?_, rfl⟩
    rw [mbIsException, Pdu.function, Mem.copy_head m (b := r.function.code ||| 0x80) rfl]
    cases r.function <;> decide
  | illegalDataValue hno => exact absurd hv hno

theorem mbusReadResponse_readCoils (m buffer : Mem) {data : List UInt8} (hlen : data.length < 256)
    : mbusReadResponse (m.copy 0 (Request.itemsResponse .readCoils data)) buffer
        =
      (0, buffer.copy 0 data) := by
  have hcount : (UInt8.ofNat data.length).toNat = data.length := by
    simp only [UInt8.toNat_ofNat']
    omega
  have hload := Mem.load_copy_append m [Function.readCoils.code, UInt8.ofNat data.length] data
  change (0, buffer.copy 0 (Mem.load _ 2 (UInt8.ofNat data.length).toNat)) = _
  rw [hcount]
  exact congrArg (fun bs => (0, buffer.copy 0 bs)) hload

theorem mbusReadResponse_registers {f : Function}
    (hf : f = .readInputRegisters ∨ f = .readHoldingRegisters) (m buffer : Mem) (ws : List UInt16)
    (hlen : ws.length ≤ 125)
    : ∃ buffer',
        mbusReadResponse (m.copy 0 (Request.itemsResponse f (packWords ws))) buffer = (0, buffer')
          ∧
        (List.range ws.length).map (fun i => buffer'.load16 .little (2 * i)) = ws
          ∧
        ∀ (i : Nat), 2 * ws.length ≤ i → buffer' i = buffer i := by
  have hcount : (UInt8.ofNat (packWords ws).length).toNat = 2 * ws.length := by
    rw [length_packWords]
    simp only [UInt8.toNat_ofNat']
    omega
  generalize hresponse : m.copy 0 (Request.itemsResponse f (packWords ws)) = response
  refine ⟨swapRegisters buffer (response.offset 2) ws.length, ?_, ?_, ?_⟩
  . have hmoved : mbusReadResponse response buffer
        =
        (0, swapRegisters buffer (response.offset 2)
          (((UInt8.ofNat (packWords ws).length).toNat + 1) / 2)) := by
      subst hresponse
      obtain rfl | rfl := hf
      . rfl
      . rfl
    rw [hmoved, hcount]
    rw [show (2 * ws.length + 1) / 2 = ws.length by omega]
  . apply List.ext_getElem
    . simp
    . intro i h1 h2
      obtain ⟨hfst, hsnd⟩ := swapRegisters_lt buffer (response.offset 2) h2
      obtain ⟨hhi, hlo⟩ := getElem_packWords ws i h2
      simp only [List.getElem_map, List.getElem_range, Mem.load16, Endian.ofBytes]
      rw [hfst, hsnd]
      have hcopy : response
          = (m.copy 0 [f.code, UInt8.ofNat (packWords ws).length]).copy 2 (packWords ws) := by
        rw [← hresponse]
        exact Mem.copy_append m 0 [_, _] (packWords ws)
      obtain ⟨hlt, hhi⟩ := List.getElem?_eq_some_iff.mp hhi
      obtain ⟨hlt', hlo⟩ := List.getElem?_eq_some_iff.mp hlo
      rw [hcopy, Mem.offset_apply, Mem.offset_apply]
      rw [Mem.copy_add _ _ _ _ hlt, Mem.copy_add _ _ _ _ hlt']
      rw [hhi, hlo, word_hiByte_loByte]
  . intro i hi
    exact swapRegisters_ge _ _ hi

/-- The outcome of a write by the master: `new` is what the tables hold if it is carried out. -/
structure WriteOutcome (inRange : Prop) (result : Int) (d d' new : DataModel) : Prop where
  result_eq_zero_iff : result = 0 ↔ inRange
  refused : ¬inRange → result = eIllegalDataAddress ∧ d' = d
  written : inRange → d' = new

/--
The outcome of a read by the master: if it is carried out then the buffer holds the items, and no
other than its first `size` bytes have changed.
-/
structure ReadOutcome (inRange : Prop) (result : Int) (buffer buffer' : Mem) (size : Nat)
    (items : Prop)
    : Prop where
  result_eq_zero_iff : result = 0 ↔ inRange
  refused : ¬inRange → result = eIllegalDataAddress ∧ buffer' = buffer
  read : inRange → items ∧ ∀ (i : Nat), size ≤ i → buffer' i = buffer i

theorem WriteOutcome.of_inRange {inRange : Prop} {d d' new : DataModel} (hr : inRange)
    (hd : d' = new)
    : WriteOutcome inRange 0 d d' new := by
  constructor
  . simp [hr]
  . intro hno
    contradiction
  . intro _
    exact hd

theorem WriteOutcome.of_not_inRange {inRange : Prop} {d d' new : DataModel} (hr : ¬inRange)
    (hd : d' = d)
    : WriteOutcome inRange eIllegalDataAddress d d' new := by
  constructor
  . simp [hr, eIllegalDataAddress]
  . intro _
    exact ⟨rfl, hd⟩
  . intro h
    contradiction

theorem ReadOutcome.of_inRange {inRange : Prop} {buffer buffer' : Mem} {size : Nat} {items : Prop}
    (hr : inRange) (hitems : items) (hge : ∀ (i : Nat), size ≤ i → buffer' i = buffer i)
    : ReadOutcome inRange 0 buffer buffer' size items := by
  constructor
  . simp [hr]
  . intro hno
    contradiction
  . intro _
    exact ⟨hitems, hge⟩

theorem ReadOutcome.of_not_inRange {inRange : Prop} {buffer buffer' : Mem} {size : Nat}
    {items : Prop} (hr : ¬inRange) (hbuffer : buffer' = buffer)
    : ReadOutcome inRange eIllegalDataAddress buffer buffer' size items := by
  constructor
  . simp [hr, eIllegalDataAddress]
  . intro _
    exact ⟨rfl, hbuffer⟩
  . intro h
    contradiction

def Writes (coils inputs hold inputRegisters : Nat) (ch : Channel Store) (inRange : Prop)
    (new : DataModel) (run : Option (Int × Mbus × Channel Store))
    : Prop :=
  ∃ (result : Int) (mbus' : Mbus) (ch' : Channel Store),
    run = some (result, mbus', ch') ∧ ch'.pending = [] ∧
      WriteOutcome inRange result (ch.app.dataModel coils inputs hold inputRegisters)
        (ch'.app.dataModel coils inputs hold inputRegisters) new

def Reads (coils inputs hold inputRegisters : Nat) (ch : Channel Store) (inRange : Prop)
    (buffer : Mem) (size : Nat) (items : Mem → Prop) (run : Option (MbusResult (Channel Store)))
    : Prop :=
  ∃ res : MbusResult (Channel Store),
    run = some res ∧ res.transport.pending = [] ∧
      res.transport.app.dataModel coils inputs hold inputRegisters
        =
      ch.app.dataModel coils inputs hold inputRegisters ∧
      ReadOutcome inRange res.result buffer res.buffer size (items res.buffer)

section Exchange

variable {iomap : Iomap Store} {coils hold : Nat} (hiomap : iomap.Backed coils hold)
  (inputs inputRegisters : Nat) {slave : Int} (hslave : Unicast slave) {ch : Channel Store}
  (hidle : ch.pending = [])

include hiomap hslave hidle

theorem mbusExchange_channel (host : Endian) (mbus : Mbus) (size : Nat) {r : Request}
    (hdecode : Request.decode (mbus.scratch.load 0 size) = some r)
    (hbacked : r.function.isBacked = true)
    : ∃ (mbus' : Mbus) (ch' : Channel Store) (response : List UInt8),
        mbusExchange (channel host iomap) mbus slave size ch
          =
        some ((response.length : Int), mbus', ch')
          ∧
        mbus'.scratch = mbus.scratch.copy 0 response
          ∧
        ch'.pending = []
          ∧
        (ch.app.dataModel coils inputs hold inputRegisters).Answers r
          (ch'.app.dataModel coils inputs hold inputRegisters) response := by
  obtain ⟨served, response, hserved, hsent, hanswers⟩ :=
    mbSlaveHandleRequest_answers coils inputs hold inputRegisters ch.app none host ch.transaction
      hdecode
  have hunit : ((mbus.request slave).unit == 0) = false := by
    simpa [Mbus.request, Unicast] using hslave
  have hdata : (mbus.request slave).data = mbus.scratch := rfl
  rw [← hiomap.mbSlaveHandleRequest_eq host inputs inputRegisters _ _
    (Request.head_of_decode hdecode) hbacked] at hserved
  let scratch := mbus.scratch.copy 0 response
  refine ⟨{ mbus with transaction := { mbus.request slave with data := scratch }, scratch },
    { transaction := served.transaction, app := served.app, pending := [] }, response,
    ?_, rfl, rfl, hanswers⟩
  unfold mbusExchange
  simp only [mbPduTx, mbPduRx, channel, hunit, hdata, hserved, hidle, hsent, List.nil_append,
    hslave.ne_zero, ne_eq, not_false_eq_true, ↓reduceIte]
  rfl

theorem mbusWriteResult_channel (host : Endian) (mbus : Mbus) {size : Nat} {r : Request}
    (hdecode : Request.decode (mbus.scratch.load 0 size) = some r)
    (hbacked : r.function.isBacked = true) (hv : r.ValuesOk)
    : ∃ (rxCount : Int) (mbus' : Mbus) (ch' : Channel Store),
        mbusExchange (channel host iomap) mbus slave size ch = some (rxCount, mbus', ch')
          ∧
        ch'.pending = []
          ∧
        WriteOutcome (r.RangesOk (ch.app.dataModel coils inputs hold inputRegisters))
          (mbusWriteResult rxCount mbus'.scratch)
          (ch.app.dataModel coils inputs hold inputRegisters)
          (ch'.app.dataModel coils inputs hold inputRegisters)
          (r.exec (ch.app.dataModel coils inputs hold inputRegisters)) := by
  obtain ⟨mbus', ch', response, hexchange, hscratch, hpending, hanswers⟩ :=
    mbusExchange_channel hiomap inputs inputRegisters hslave hidle host mbus size hdecode hbacked
  refine ⟨_, mbus', ch', hexchange, hpending, ?_⟩
  unfold mbusWriteResult
  rw [if_neg (by omega), hscratch]
  obtain ⟨hr, hd, -, hexc⟩ | ⟨hr, hd, hexc, herror⟩ :=
    hanswers.cases_of_valuesOk hv mbus.scratch
  . simp only [hexc, Bool.false_eq_true, ↓reduceIte]
    exact .of_inRange hr hd
  . simp only [hexc, ↓reduceIte, herror]
    exact .of_not_inRange hr hd

theorem mbusWrite_channel (host : Endian) (mbus : Mbus) {address : UInt32} {quantity : UInt16}
    {buffer request : Mem} {count : UInt8} {f : Function} {r : Request}
    (hdata : mbusWriteData mbus.scratch address quantity buffer = some (count, request))
    (hf : request 0 = f.code)
    (hdecode : ∀ (wire : UInt16), wire = ((address - 1) &&& 0xFFFF).toUInt16 →
      Request.decode
          (f.code :: hiByte wire :: loByte wire :: hiByte quantity :: loByte quantity :: count ::
            request.load 6 count.toNat)
        =
      some r)
    (hbacked : r.function.isBacked = true) (hv : r.ValuesOk)
    : Writes coils inputs hold inputRegisters ch
        (r.RangesOk (ch.app.dataModel coils inputs hold inputRegisters))
        (r.exec (ch.app.dataModel coils inputs hold inputRegisters))
        (mbusWrite (channel host iomap) host mbus slave address quantity buffer ch) := by
  have hload := load_write_request host request f ((address - 1) &&& 0xFFFF).toUInt16 quantity hf
    count
  obtain ⟨rxCount, mbus', ch', hexchange, hpending, houtcome⟩ :=
    mbusWriteResult_channel hiomap inputs inputRegisters hslave hidle host
      { mbus with
        scratch :=
          ((request.store16 host 1
            (ccToBe16 host ((address - 1) &&& 0xFFFF).toUInt16)).store16 host 3
              (ccToBe16 host quantity)).store 5 count }
      (by rw [hload]; exact hdecode _ rfl) hbacked hv
  refine ⟨mbusWriteResult rxCount mbus'.scratch, mbus', ch', ?_, hpending, houtcome⟩
  unfold mbusWrite
  rw [hdata]
  dsimp only [PduWrite.size]
  rw [hexchange]

theorem mbusWriteSingle_channel (host : Endian) (mbus : Mbus) (f : Function) (wire value : UInt16)
    {r : Request}
    (hdecode :
      Request.decode [f.code, hiByte wire, loByte wire, hiByte value, loByte value] = some r)
    (hbacked : r.function.isBacked = true) (hv : r.ValuesOk)
    : ∃ (rxCount : Int) (mbus' : Mbus) (ch' : Channel Store),
        mbusExchange (channel host iomap)
            { mbus with
              scratch :=
                ((mbus.scratch.store 0 f.code).store16 host 1 (ccToBe16 host wire)).store16 host 3
                  (ccToBe16 host value) }
            slave PduWriteSingle.size ch
          =
        some (rxCount, mbus', ch')
          ∧
        ch'.pending = []
          ∧
        WriteOutcome (r.RangesOk (ch.app.dataModel coils inputs hold inputRegisters))
          (mbusWriteResult rxCount mbus'.scratch)
          (ch.app.dataModel coils inputs hold inputRegisters)
          (ch'.app.dataModel coils inputs hold inputRegisters)
          (r.exec (ch.app.dataModel coils inputs hold inputRegisters)) := by
  apply mbusWriteResult_channel hiomap inputs inputRegisters hslave hidle host _ _ hbacked hv
  dsimp only [PduWriteSingle.size]
  rw [load_request]
  exact hdecode

theorem mbusRead_channel (host : Endian) (mbus : Mbus) {address : UInt32} {quantity : UInt16}
    (buffer : Mem) {f : Function} {limit : Nat} {r : Request}
    (htable : readTable address = some (f, limit)) (hq : quantity.toNat ≤ limit)
    (hdecode : ∀ (wire : UInt16), wire = ((address - 1) &&& 0xFFFF).toUInt16 →
      Request.decode [f.code, hiByte wire, loByte wire, hiByte quantity, loByte quantity] = some r)
    (hbacked : r.function.isBacked = true) (hv : r.ValuesOk)
    : ∃ (res : MbusResult (Channel Store)) (scratch : Mem),
        mbusRead (channel host iomap) host mbus slave address quantity buffer ch = some res
          ∧
        res.transport.pending = []
          ∧
        ((r.RangesOk (ch.app.dataModel coils inputs hold inputRegisters) ∧
            res.transport.app.dataModel coils inputs hold inputRegisters
              =
            r.exec (ch.app.dataModel coils inputs hold inputRegisters) ∧
            (res.result, res.buffer)
              =
            mbusReadResponse
              (scratch.copy 0 (r.response (ch.app.dataModel coils inputs hold inputRegisters)))
              buffer)
          ∨
        (¬r.RangesOk (ch.app.dataModel coils inputs hold inputRegisters) ∧
          res.transport.app.dataModel coils inputs hold inputRegisters
            =
          ch.app.dataModel coils inputs hold inputRegisters ∧
          res.result = eIllegalDataAddress ∧ res.buffer = buffer)) := by
  have hload := load_request host mbus.scratch f ((address - 1) &&& 0xFFFF).toUInt16 quantity
  generalize hscratch : ((mbus.scratch.store 0 f.code).store16 host 1
    (ccToBe16 host ((address - 1) &&& 0xFFFF).toUInt16)).store16 host 3 (ccToBe16 host quantity)
      = scratch at hload
  obtain ⟨mbus', ch', response, hexchange, hcopy, hpending, hanswers⟩ :=
    mbusExchange_channel hiomap inputs inputRegisters hslave hidle host { mbus with scratch }
      PduRead.size (by dsimp only [PduRead.size]; rw [hload]; exact hdecode _ rfl) hbacked
  unfold mbusRead
  rw [if_neg hslave.ne_zero, htable]
  dsimp only
  rw [if_neg (by omega), hscratch, hexchange]
  dsimp only
  rw [if_neg (by omega), hcopy]
  dsimp only
  obtain ⟨hr, hd, rfl, hexc⟩ | ⟨hr, hd, hexc, herror⟩ := hanswers.cases_of_valuesOk hv scratch
  . simp only [hexc, Bool.false_eq_true, ↓reduceIte]
    exact ⟨_, scratch, rfl, hpending, .inl ⟨hr, hd, rfl⟩⟩
  . simp only [hexc, ↓reduceIte, herror]
    exact ⟨_, scratch, rfl, hpending, .inr ⟨hr, hd, rfl, rfl⟩⟩

variable (mbus : Mbus) (buffer : Mem) {address : Nat} (h1 : 1 ≤ address) (h2 : address ≤ 65536)

include h1 h2

theorem mbusWrite_coils {quantity : UInt16} (hq1 : 1 ≤ quantity.toNat)
    (hq2 : quantity.toNat ≤ 1968)
    : Writes coils inputs hold inputRegisters ch (address - 1 + quantity.toNat ≤ coils)
        { ch.app.dataModel coils inputs hold inputRegisters with
          coils :=
            overwrite (ch.app.dataModel coils inputs hold inputRegisters).coils (address - 1)
              ((List.range quantity.toNat).map buffer.bit) }
        (mbusWrite (channel .little iomap) .little mbus slave
          (mbAddress (UInt32.ofNat 0) (UInt32.ofNat address)) quantity buffer ch) := by
  have htable := table_mbAddress 0 address (by omega)
  have hwire := wire_mbAddress 0 address (by omega) h1 h2
  have hcount := toNat_coilCount hq2
  have hdata : ∃ count : UInt8, count.toNat = (quantity.toNat + 7) / 8 ∧
      mbusWriteData mbus.scratch (mbAddress (UInt32.ofNat 0) (UInt32.ofNat address)) quantity buffer
        =
      some (count, (mbus.scratch.store 0 Function.writeCoils.code).copy 6
        (buffer.load 0 count.toNat)) := by
    unfold mbusWriteData
    simp only [htable]
    rw [if_neg (by omega)]
    exact ⟨_, hcount, rfl⟩
  obtain ⟨count, hcount, hdata⟩ := hdata
  generalize mbAddress (UInt32.ofNat 0) (UInt32.ofNat address) = mbAddress at hwire hdata ⊢
  have hload := Mem.load_copy (mbus.scratch.store 0 Function.writeCoils.code) 6
    (buffer.load 0 count.toNat)
  rw [Mem.length_load] at hload
  obtain ⟨result, mbus', ch', hwrite, hpending, houtcome⟩ :=
    mbusWrite_channel hiomap inputs inputRegisters hslave hidle .little mbus
      (f := .writeCoils)
      (r := .writeCoils ((mbAddress - 1) &&& 0xFFFF).toUInt16 quantity count
        (buffer.load 0 count.toNat))
      hdata rfl (by rintro wire rfl; rw [hload]; simp [Request.decode]) rfl
      ⟨⟨hq1, hq2⟩, hcount, by simp⟩
  refine ⟨result, mbus', ch', hwrite, hpending, ?_⟩
  simp only [Request.RangesOk, Request.exec, hwire] at houtcome
  rw [Mem.unpackBits_load _ _ (by omega), Mem.offset_zero] at houtcome
  simpa [Store.dataModel] using houtcome

theorem mbusWrite_holdingRegisters {quantity : UInt16} (hq1 : 1 ≤ quantity.toNat)
    (hq2 : quantity.toNat ≤ 123)
    : Writes coils inputs hold inputRegisters ch (address - 1 + quantity.toNat ≤ hold)
        { ch.app.dataModel coils inputs hold inputRegisters with
          holdingRegisters :=
            overwrite (ch.app.dataModel coils inputs hold inputRegisters).holdingRegisters
              (address - 1)
              ((List.range quantity.toNat).map (fun i => buffer.load16 .little (2 * i))) }
        (mbusWrite (channel .little iomap) .little mbus slave
          (mbAddress (UInt32.ofNat 4) (UInt32.ofNat address)) quantity buffer ch) := by
  have htable := table_mbAddress 4 address (by omega)
  have hwire := wire_mbAddress 4 address (by omega) h1 h2
  have hcount : (UInt8.ofNat (2 * quantity.toNat)).toNat = 2 * quantity.toNat := by
    simp only [UInt8.toNat_ofNat']
    omega
  have hdata : mbusWriteData mbus.scratch (mbAddress (UInt32.ofNat 4) (UInt32.ofNat address))
      quantity buffer
        =
      some (UInt8.ofNat (2 * quantity.toNat),
        (mbus.scratch.store 0 Function.writeHoldingRegisters.code).splice 6
          (swapRegisters ((mbus.scratch.store 0 Function.writeHoldingRegisters.code).offset 6)
            buffer quantity.toNat)) := by
    unfold mbusWriteData
    simp only [htable]
    rw [if_neg (by omega), hcount]
    rw [show (2 * quantity.toNat + 1) / 2 = quantity.toNat by omega]
    rfl
  generalize mbAddress (UInt32.ofNat 4) (UInt32.ofNat address) = mbAddress at hwire hdata ⊢
  have hcode : mbus.scratch.store 0 Function.writeHoldingRegisters.code 0
      = Function.writeHoldingRegisters.code := rfl
  generalize mbus.scratch.store 0 Function.writeHoldingRegisters.code = request at hdata hcode
  generalize UInt8.ofNat (2 * quantity.toNat) = count at hcount hdata
  -- The words of the data on the wire are those of the buffer.
  have hwords : unpackWords ((request.splice 6
        (swapRegisters (request.offset 6) buffer quantity.toNat)).load 6 count.toNat) quantity.toNat
      =
      (List.range quantity.toNat).map (fun i => buffer.load16 .little (2 * i)) := by
    rw [Mem.unpackWords_load _ _ (by omega)]
    apply List.map_congr_left
    intro i hi
    obtain ⟨hfst, hsnd⟩ := swapRegisters_lt (request.offset 6) buffer (List.mem_range.mp hi)
    rw [Mem.splice_add, Mem.splice_add, hfst, hsnd]
    rfl
  obtain ⟨result, mbus', ch', hwrite, hpending, houtcome⟩ :=
    mbusWrite_channel hiomap inputs inputRegisters hslave hidle .little mbus
      (f := .writeHoldingRegisters)
      (r := .writeHoldingRegisters ((mbAddress - 1) &&& 0xFFFF).toUInt16 quantity count
        ((request.splice 6 (swapRegisters (request.offset 6) buffer quantity.toNat)).load 6
          count.toNat))
      hdata (by rw [Mem.splice_lt _ _ _ _ (by omega)]; exact hcode)
      (by rintro wire rfl; simp [Request.decode]) rfl
      ⟨⟨hq1, hq2⟩, hcount, by simp⟩
  refine ⟨result, mbus', ch', hwrite, hpending, ?_⟩
  simp only [Request.RangesOk, Request.exec, hwire, hwords] at houtcome
  simpa [Store.dataModel] using houtcome

theorem mbusWriteSingle_coil (value : UInt16)
    : Writes coils inputs hold inputRegisters ch (address - 1 < coils)
        { ch.app.dataModel coils inputs hold inputRegisters with
          coils :=
            overwrite (ch.app.dataModel coils inputs hold inputRegisters).coils (address - 1)
              [value ≠ 0] }
        (mbusWriteSingle (channel .little iomap) .little mbus slave
          (mbAddress (UInt32.ofNat 0) (UInt32.ofNat address)) value ch) := by
  have htable := table_mbAddress 0 address (by omega)
  have hwire := wire_mbAddress 0 address (by omega) h1 h2
  unfold mbusWriteSingle writeSingleTable
  simp only [htable]
  have hon : (if value ≠ 0 then (0xFF00 : UInt16) else 0x0000) = 0xFF00 ↔ value ≠ 0 := by
    by_cases h : value = 0 <;> simp [h]
  have hlegal : (if value ≠ 0 then (0xFF00 : UInt16) else 0x0000) = 0 ∨
      (if value ≠ 0 then (0xFF00 : UInt16) else 0x0000) = 0xFF00 := by
    by_cases h : value = 0 <;> simp [h]
  generalize (if value ≠ 0 then (0xFF00 : UInt16) else 0x0000) = onOff at hon hlegal ⊢
  generalize ((mbAddress (UInt32.ofNat 0) (UInt32.ofNat address) - 1) &&& 0xFFFF).toUInt16 = wire
    at hwire ⊢
  obtain ⟨rxCount, mbus', ch', hexchange, hpending, houtcome⟩ :=
    mbusWriteSingle_channel hiomap inputs inputRegisters hslave hidle .little mbus
      .writeCoil wire onOff (r := .writeCoil wire onOff) (by simp [Request.decode]) rfl hlegal
  refine ⟨mbusWriteResult rxCount mbus'.scratch, mbus', ch', by rw [hexchange], hpending, ?_⟩
  simp only [Request.RangesOk, Request.exec, hwire, hon] at houtcome
  simpa [Store.dataModel] using houtcome

theorem mbusWriteSingle_holdingRegister (value : UInt16)
    : Writes coils inputs hold inputRegisters ch (address - 1 < hold)
        { ch.app.dataModel coils inputs hold inputRegisters with
          holdingRegisters :=
            overwrite (ch.app.dataModel coils inputs hold inputRegisters).holdingRegisters
              (address - 1) [value] }
        (mbusWriteSingle (channel .little iomap) .little mbus slave
          (mbAddress (UInt32.ofNat 4) (UInt32.ofNat address)) value ch) := by
  have htable := table_mbAddress 4 address (by omega)
  have hwire := wire_mbAddress 4 address (by omega) h1 h2
  unfold mbusWriteSingle writeSingleTable
  simp only [htable]
  generalize ((mbAddress (UInt32.ofNat 4) (UInt32.ofNat address) - 1) &&& 0xFFFF).toUInt16 = wire
    at hwire ⊢
  obtain ⟨rxCount, mbus', ch', hexchange, hpending, houtcome⟩ :=
    mbusWriteSingle_channel hiomap inputs inputRegisters hslave hidle .little mbus
      .writeHoldingRegister wire value (r := .writeHoldingRegister wire value)
      (by simp [Request.decode]) rfl trivial
  refine ⟨mbusWriteResult rxCount mbus'.scratch, mbus', ch', by rw [hexchange], hpending, ?_⟩
  simp only [Request.RangesOk, Request.exec, hwire] at houtcome
  simpa [Store.dataModel] using houtcome

theorem mbusRead_coils {quantity : UInt16} (hq1 : 1 ≤ quantity.toNat) (hq2 : quantity.toNat ≤ 2000)
    : Reads coils inputs hold inputRegisters ch (address - 1 + quantity.toNat ≤ coils) buffer
        (bitBytes quantity.toNat)
        (fun buffer' =>
          (List.range quantity.toNat).map buffer'.bit
          =
        slice (ch.app.dataModel coils inputs hold inputRegisters).coils (address - 1)
          quantity.toNat)
        (mbusRead (channel .little iomap) .little mbus slave
          (mbAddress (UInt32.ofNat 0) (UInt32.ofNat address)) quantity buffer ch) := by
  have htable := table_mbAddress 0 address (by omega)
  have hwire := wire_mbAddress 0 address (by omega) h1 h2
  have hread : readTable (mbAddress (UInt32.ofNat 0) (UInt32.ofNat address))
      = some (.readCoils, 2000) := by
    simp only [readTable, htable]
  generalize mbAddress (UInt32.ofNat 0) (UInt32.ofNat address) = mbAddress at hwire hread ⊢
  obtain ⟨res, scratch, hres, hpending, hcases⟩ :=
    mbusRead_channel hiomap inputs inputRegisters hslave hidle .little mbus buffer
      (r := .readCoils ((mbAddress - 1) &&& 0xFFFF).toUInt16 quantity) hread hq2
      (by rintro wire rfl; simp [Request.decode]) rfl ⟨hq1, hq2⟩
  simp only [Request.RangesOk, Request.exec, Request.response, hwire] at hcases
  have hlength : (ch.app.dataModel coils inputs hold inputRegisters).coils.length = coils := by
    simp [Store.dataModel]
  rw [hlength] at hcases
  obtain ⟨hr, hd, hbuffer⟩ | ⟨hr, hd, hresult, hbuffer⟩ := hcases
  . have hslice := length_slice (hr.trans hlength.ge)
    generalize slice _ (address - 1) quantity.toNat = items at hbuffer hslice ⊢
    simp only [Request.function] at hbuffer
    rw [mbusReadResponse_readCoils _ _ (by rw [length_packBits]; omega), Prod.mk.injEq] at hbuffer
    obtain ⟨hresult, hbuffer⟩ := hbuffer
    refine ⟨res, hres, hpending, hd, ?_⟩
    rw [hresult, hbuffer]
    apply ReadOutcome.of_inRange hr
    . apply List.ext_getElem
      . simp [hslice]
      . intro i _ hi
        simp [bit_copy_packBits _ _ _ hi]
    . intro i hi
      rw [Mem.copy_ge]
      rw [length_packBits, hslice]
      unfold bitBytes at hi
      omega
  . refine ⟨res, hres, hpending, hd, ?_⟩
    rw [hresult]
    exact .of_not_inRange hr hbuffer

theorem mbusRead_holdingRegisters {quantity : UInt16} (hq1 : 1 ≤ quantity.toNat)
    (hq2 : quantity.toNat ≤ 125)
    : Reads coils inputs hold inputRegisters ch (address - 1 + quantity.toNat ≤ hold) buffer
        (regBytes quantity.toNat)
        (fun buffer' =>
          (List.range quantity.toNat).map (fun i => buffer'.load16 .little (2 * i))
          =
        slice (ch.app.dataModel coils inputs hold inputRegisters).holdingRegisters (address - 1)
          quantity.toNat)
        (mbusRead (channel .little iomap) .little mbus slave
          (mbAddress (UInt32.ofNat 4) (UInt32.ofNat address)) quantity buffer ch) := by
  have htable := table_mbAddress 4 address (by omega)
  have hwire := wire_mbAddress 4 address (by omega) h1 h2
  have hread : readTable (mbAddress (UInt32.ofNat 4) (UInt32.ofNat address))
      = some (.readHoldingRegisters, 125) := by
    simp only [readTable, htable]
  generalize mbAddress (UInt32.ofNat 4) (UInt32.ofNat address) = mbAddress at hwire hread ⊢
  obtain ⟨res, scratch, hres, hpending, hcases⟩ :=
    mbusRead_channel hiomap inputs inputRegisters hslave hidle .little mbus buffer
      (r := .readHoldingRegisters ((mbAddress - 1) &&& 0xFFFF).toUInt16 quantity) hread hq2
      (by rintro wire rfl; simp [Request.decode]) rfl ⟨hq1, hq2⟩
  simp only [Request.RangesOk, Request.exec, Request.response, hwire] at hcases
  have hlength : (ch.app.dataModel coils inputs hold inputRegisters).holdingRegisters.length
      = hold := by
    simp [Store.dataModel]
  rw [hlength] at hcases
  obtain ⟨hr, hd, hbuffer⟩ | ⟨hr, hd, hresult, hbuffer⟩ := hcases
  . have hslice := length_slice (hr.trans hlength.ge)
    generalize slice _ (address - 1) quantity.toNat = items at hbuffer hslice ⊢
    obtain ⟨buffer', heq, hitems, hge⟩ :=
      mbusReadResponse_registers (.inr rfl) scratch buffer items (by omega)
    simp only [Request.function] at hbuffer
    rw [heq, Prod.mk.injEq] at hbuffer
    obtain ⟨hresult, hbuffer⟩ := hbuffer
    rw [hslice] at hitems hge
    refine ⟨res, hres, hpending, hd, ?_⟩
    rw [hresult, hbuffer]
    exact .of_inRange hr hitems hge
  . refine ⟨res, hres, hpending, hd, ?_⟩
    rw [hresult]
    exact .of_not_inRange hr hbuffer

end Exchange

/--
Master and slave agree. On a little endian host a write, a write of a single item or a read of `q`
items from the 1-based address `address` on succeeds if and only if the items are in the table. Then
the tables hold what the buffer of the caller held at these places and what they held before
anywhere else, or the buffer holds the items of the table. Otherwise the master returns
`EILLEGAL_DATA_ADDRESS` and nothing has changed.
-/
theorem mbus_channel (iomap : Iomap Store) (coils inputs hold inputRegisters : Nat)
    (hiomap : iomap.Backed coils hold) (slave : Int) (hslave : Unicast slave) (ch : Channel Store)
    (hidle : ch.pending = []) (mbus : Mbus) (buffer : Mem) (address : Nat) (h1 : 1 ≤ address)
    (h2 : address ≤ 65536) (q : UInt16) (hq : 1 ≤ q.toNat) (value : UInt16)
    : let d := ch.app.dataModel coils inputs hold inputRegisters
      let coil := mbAddress (UInt32.ofNat 0) (UInt32.ofNat address)
      let register := mbAddress (UInt32.ofNat 4) (UInt32.ofNat address)
      (q.toNat ≤ 1968 →
        Writes coils inputs hold inputRegisters ch (address - 1 + q.toNat ≤ coils)
          { d with
            coils := overwrite d.coils (address - 1) ((List.range q.toNat).map buffer.bit) }
          (mbusWrite (channel .little iomap) .little mbus slave coil q buffer ch))
        ∧
      (q.toNat ≤ 123 →
        Writes coils inputs hold inputRegisters ch (address - 1 + q.toNat ≤ hold)
          { d with
            holdingRegisters :=
              overwrite d.holdingRegisters (address - 1)
                ((List.range q.toNat).map (fun i => buffer.load16 .little (2 * i))) }
          (mbusWrite (channel .little iomap) .little mbus slave register q buffer ch))
        ∧
      Writes coils inputs hold inputRegisters ch (address - 1 < coils)
        { d with coils := overwrite d.coils (address - 1) [value ≠ 0] }
        (mbusWriteSingle (channel .little iomap) .little mbus slave coil value ch)
        ∧
      Writes coils inputs hold inputRegisters ch (address - 1 < hold)
        { d with holdingRegisters := overwrite d.holdingRegisters (address - 1) [value] }
        (mbusWriteSingle (channel .little iomap) .little mbus slave register value ch)
        ∧
      (q.toNat ≤ 2000 →
        Reads coils inputs hold inputRegisters ch (address - 1 + q.toNat ≤ coils) buffer
          (bitBytes q.toNat)
          (fun buffer' =>
            (List.range q.toNat).map buffer'.bit = slice d.coils (address - 1) q.toNat)
          (mbusRead (channel .little iomap) .little mbus slave coil q buffer ch))
        ∧
      (q.toNat ≤ 125 →
        Reads coils inputs hold inputRegisters ch (address - 1 + q.toNat ≤ hold) buffer
          (regBytes q.toNat)
          (fun buffer' =>
            (List.range q.toNat).map (fun i => buffer'.load16 .little (2 * i))
              =
            slice d.holdingRegisters (address - 1) q.toNat)
          (mbusRead (channel .little iomap) .little mbus slave register q buffer ch)) := by
  refine ⟨?_, ?_, ?_, ?_, ?_, ?_⟩
  . exact mbusWrite_coils hiomap inputs inputRegisters hslave hidle mbus buffer h1 h2 hq
  . exact mbusWrite_holdingRegisters hiomap inputs inputRegisters hslave hidle mbus buffer h1 h2 hq
  . exact mbusWriteSingle_coil hiomap inputs inputRegisters hslave hidle mbus h1 h2 value
  . exact mbusWriteSingle_holdingRegister hiomap inputs inputRegisters hslave hidle mbus h1 h2 value
  . exact mbusRead_coils hiomap inputs inputRegisters hslave hidle mbus buffer h1 h2 hq
  . exact mbusRead_holdingRegisters hiomap inputs inputRegisters hslave hidle mbus buffer h1 h2 hq

theorem mbus_channel_coils
    : ∃ (mbus' : Mbus) (ch' : Channel Store),
        mbusWrite (channel .little (storageIomap 16 2 4 5 none)) .little
            (mbusInit 1000 ⟨0, 0, 0, fun _ => 0⟩ (fun _ => 0)) 1
            (mbAddress (UInt32.ofNat 0) (UInt32.ofNat 3)) 3 (fun _ => 0x05)
            ⟨⟨0, 0, 0, fun _ => 0x55⟩, ⟨fun _ => 0, fun _ => 0, fun _ => 0, fun _ => 0⟩, []⟩
          =
        some (0, mbus', ch')
          ∧
        ch'.app.dataModel 16 2 4 5
          =
        { Store.dataModel 16 2 4 5 ⟨fun _ => 0, fun _ => 0, fun _ => 0, fun _ => 0⟩ with
          coils := overwrite (List.replicate 16 false) 2 [true, false, true] } := by
  obtain ⟨result, mbus', ch', hrun, -, houtcome⟩ :=
    (mbus_channel (storageIomap 16 2 4 5 none) 16 2 4 5 ⟨rfl, rfl⟩ 1 (by unfold Unicast; decide)
      ⟨⟨0, 0, 0, fun _ => 0x55⟩, ⟨fun _ => 0, fun _ => 0, fun _ => 0, fun _ => 0⟩, []⟩ rfl
      (mbusInit 1000 ⟨0, 0, 0, fun _ => 0⟩ (fun _ => 0)) (fun _ => 0x05) 3 (by decide) (by decide)
      3 (by decide) 0).1 (by decide)
  have hzero := houtcome.result_eq_zero_iff.mpr (by decide)
  rw [hzero] at hrun
  refine ⟨mbus', ch', hrun, ?_⟩
  rw [houtcome.written (by decide)]
  rfl

end Modbus
