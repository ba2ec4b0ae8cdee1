import Modbus.Master.Host

/-!
This module contains what the operations of the master are for: an operation asks one thing of the
tables of a slave, and the caller learns whether it was done. Whatever the transport is, an exchange
whose response is an answer of the data model makes the operation do that.
-/

namespace Modbus

def wireAddress (address : UInt32) : UInt16 :=
  ((address - 1) &&& 0xFFFF).toUInt16

/-- Registers as a little-endian caller keeps them in its buffer. -/
def bufferWords (ws : List UInt16) : List UInt8 :=
  ws.flatMap (fun w => [loByte w, hiByte w])

def Request.items (d : DataModel) : Request → List UInt8
  | readCoils address quantity => packBits (slice d.coils address.toNat quantity.toNat)
  | readInputs address quantity => packBits (slice d.inputs address.toNat quantity.toNat)
  | readHoldingRegisters address quantity =>
    bufferWords (slice d.holdingRegisters address.toNat quantity.toNat)
  | readInputRegisters address quantity =>
    bufferWords (slice d.inputRegisters address.toNat quantity.toNat)
  | _ => []

namespace MasterOp

def buffer : MasterOp → Mem
  | read _ _ buffer | write _ _ buffer => buffer
  | writeSingle _ _ => fun _ => 0

/--
What the operation asks of the given slave, unless it is refused. The registers in the buffer of a
write are read little-endian, as they go on the wire on any host.
-/
def asks (slave : Int) : MasterOp → Option Request
  | read address quantity _ =>
    if slave = 0 then
      none
    else
      match (address >>> 16).toNat with
      | 0 =>
        if quantity.toNat ≤ 2000 then some (.readCoils (wireAddress address) quantity) else none
      | 1 =>
        if quantity.toNat ≤ 2000 then some (.readInputs (wireAddress address) quantity) else none
      | 3 =>
        if quantity.toNat ≤ 125 then some (.readInputRegisters (wireAddress address) quantity)
        else none
      | 4 =>
        if quantity.toNat ≤ 125 then some (.readHoldingRegisters (wireAddress address) quantity)
        else none
      | _ => none
  | write address quantity buffer =>
    match (address >>> 16).toNat with
    | 0 =>
      if quantity.toNat ≤ 1968 then
        let count := (quantity.toNat + 7) / 8
        some
          (.writeCoils (wireAddress address) quantity (UInt8.ofNat count) (buffer.load 0 count))
      else
        none
    | 4 =>
      if quantity.toNat ≤ 123 then
        let words := (List.range quantity.toNat).map (fun i => buffer.load16 .little (2 * i))
        some
          (.writeHoldingRegisters (wireAddress address) quantity (UInt8.ofNat (2 * quantity.toNat))
            (packWords words))
      else
        none
    | _ => none
  | writeSingle address value =>
    match (address >>> 16).toNat with
    | 0 => some (.writeCoil (wireAddress address) (if value ≠ 0 then 0xFF00 else 0x0000))
    | 4 => some (.writeHoldingRegister (wireAddress address) value)
    | _ => none

/--
What becomes of the tables and of the buffer of the caller, and what the caller is told. A request
with an illegal value as well as a range outside of its table may be refused for either.
-/
inductive Outcome (slave : Int) (op : MasterOp) (d : DataModel) : Int → Mem → DataModel → Prop where
  | refused : op.asks slave = none → Outcome slave op d (-1) op.buffer d
  | done {r : Request} : op.asks slave = some r → r.ValuesOk → r.RangesOk d →
      Outcome slave op d 0 (op.buffer.copy 0 (r.items d)) (r.exec d)
  | illegalDataAddress {r : Request} : op.asks slave = some r → ¬r.RangesOk d →
      Outcome slave op d eIllegalDataAddress op.buffer d
  | illegalDataValue {r : Request} : op.asks slave = some r → ¬r.ValuesOk →
      Outcome slave op d eIllegalDataValue op.buffer d

/-- An operation together with the buffer of the caller, which only a read changes. -/
def call {τ : Type} (transport : Transport τ) (host : Endian) (op : MasterOp) (slave : Int)
    (mbus : Mbus) (w : τ)
    : Option (MbusResult τ) :=
  match op with
  | read address quantity buffer => mbusRead transport host mbus slave address quantity buffer w
  | _ =>
    (op.run transport host slave mbus w).map
      (fun r => { result := r.1, mbus := r.2.1, buffer := op.buffer, transport := r.2.2 })

/-- What the operation makes of a response. -/
def finish (op : MasterOp) (rxCount : Int) (response : Mem) : Int × Mem :=
  match op with
  | read _ _ buffer => if rxCount < 0 then (rxCount, buffer) else mbusReadOutcome response buffer
  | _ => (mbusWriteResult rxCount response, op.buffer)

theorem finish_neg (op : MasterOp) {rxCount : Int} (h : rxCount < 0) (response : Mem)
    : op.finish rxCount response = (rxCount, op.buffer) := by
  cases op with
  | read address quantity buffer => exact if_pos h
  | write address quantity buffer => exact congrArg (fun n => (n, buffer)) (if_pos h)
  | writeSingle address value => exact congrArg (fun n => (n, _)) (if_pos h)

section Call

variable {τ : Type} (transport : Transport τ) (host : Endian) (op : MasterOp) (slave : Int)
  (mbus : Mbus) (w : τ)

/-- An operation is a request, an exchange and a look at the response. -/
theorem call_eq
    : op.call transport host slave mbus w
        =
      match op.request host slave mbus.scratch with
      | none => some { result := -1, mbus, buffer := op.buffer, transport := w }
      | some (scratch, size) =>
        (mbusExchange transport { mbus with scratch } slave size w).map (fun r =>
          {
            result := (op.finish r.1 r.2.1.scratch).1
            mbus := r.2.1
            buffer := (op.finish r.1 r.2.1.scratch).2
            transport := r.2.2
          }) := by
  cases op with
  | read address quantity buffer =>
    simp only [call, mbusRead, request, finish, mbusReadOutcome]
    split
    . rfl
    . cases readTable address with
      | none => rfl
      | some entry =>
        dsimp only
        split
        . rfl
        . dsimp only
          cases mbusExchange transport _ slave PduRead.size w with
          | none => rfl
          | some r =>
            dsimp only [Option.map]
            split
            . rfl
            . split
              . rfl
              . rfl
  | write address quantity buffer =>
    simp only [call, run, mbusWrite, request]
    cases mbusWriteData mbus.scratch address quantity buffer with
    | none => rfl
    | some data =>
      dsimp only
      cases mbusExchange transport _ slave (PduWrite.size + data.1.toNat) w with
      | none => rfl
      | some r => rfl
  | writeSingle address value =>
    simp only [call, run, mbusWriteSingle, request]
    cases writeSingleTable address value with
    | none => rfl
    | some entry =>
      dsimp only
      cases mbusExchange transport _ slave PduWriteSingle.size w with
      | none => rfl
      | some r => rfl

end Call

theorem mbusWriteData_coils (scratch buffer : Mem) {address : UInt32} {quantity : UInt16}
    (haddress : (address >>> 16).toNat = 0) (hq : quantity.toNat ≤ 1968)
    : ∃ (request : Mem),
        mbusWriteData scratch address quantity buffer
          =
        some (UInt8.ofNat ((quantity.toNat + 7) / 8), request)
          ∧
        request 0 = Function.writeCoils.code
          ∧
        request.load PduWrite.data ((quantity.toNat + 7) / 8)
          =
        buffer.load 0 ((quantity.toNat + 7) / 8) := by
  have hcount := toNat_coilCount hq
  simp only [mbusWriteData, haddress]
  rw [if_neg (by omega)]
  generalize (if quantity.toNat % 8 ≠ 0 then UInt8.ofNat (quantity.toNat / 8) + 1
    else UInt8.ofNat (quantity.toNat / 8)) = count at hcount
  rw [← hcount, UInt8.ofNat_toNat]
  refine ⟨_, rfl, ?_, ?_⟩
  . simp [PduWrite.data, Mem.copy_lt]
  . have hload := Mem.load_copy (scratch.store 0 Function.writeCoils.code) PduWrite.data
      (buffer.load 0 count.toNat)
    rw [Mem.length_load] at hload
    exact hload

theorem request_asks_write (host : Endian) (slave : Int) (address : UInt32) (quantity : UInt16)
    (buffer scratch : Mem)
    : ((write address quantity buffer).request host slave scratch).map
          (fun r => Request.decode (r.1.load 0 r.2))
        =
      ((write address quantity buffer).asks slave).map some := by
  simp only [request, asks]
  generalize htable : (address >>> 16).toNat = table
  rcases table with _ | _ | _ | _ | _ | table
  . by_cases hq : quantity.toNat ≤ 1968
    . obtain ⟨request, hdata, hcode, hload⟩ := mbusWriteData_coils scratch buffer htable hq
      have hcount : (UInt8.ofNat ((quantity.toNat + 7) / 8)).toNat = (quantity.toNat + 7) / 8 := by
        rw [UInt8.toNat_ofNat']
        omega
      rw [hdata, if_pos hq]
      simp only [Option.map_some, PduWrite.size, load_write_request _ _ _ _ _ hcode]
      simp only [Request.decode, Function.ofCode_code, word_hiByte_loByte, wireAddress, hcount]
      rw [← hload]
      rfl
    . rw [if_neg hq]
      simp [mbusWriteData, htable, Nat.not_le.mp hq]
  . simp [mbusWriteData, htable]
  . simp [mbusWriteData, htable]
  . simp [mbusWriteData, htable]
  . by_cases hq : quantity.toNat ≤ 123
    . obtain ⟨count, request, hdata, hcount, hcode, hload⟩ :=
        mbusWriteData_registers htable hq scratch buffer
      rw [UInt16.ofNat_toNat] at hdata
      rw [hdata, if_pos hq]
      simp only [Option.map_some, PduWrite.size, load_write_request _ _ _ _ _ hcode]
      simp only [Request.decode, Function.ofCode_code, word_hiByte_loByte, wireAddress]
      rw [hcount, ← hcount, UInt8.ofNat_toNat, hcount, ← hostRegisters, ← hload]
      rfl
    . rw [if_neg hq]
      simp [mbusWriteData, htable, Nat.not_le.mp hq]
  . simp [mbusWriteData, htable]

theorem decode_read (host : Endian) {slave : Int} (hslave : slave ≠ 0) {address : UInt32}
    {f : Function} {limit : Nat} (htable : readTable address = some (f, limit))
    (quantity : UInt16) (buffer scratch : Mem)
    : ((read address quantity buffer).request host slave scratch).map
          (fun r => Request.decode (r.1.load 0 r.2))
        =
      if quantity.toNat ≤ limit then
        some
          (Request.decode
            [f.code, hiByte (wireAddress address), loByte (wireAddress address), hiByte quantity,
              loByte quantity])
      else
        none := by
  simp only [request, htable]
  rw [if_neg hslave]
  by_cases hq : quantity.toNat ≤ limit
  . rw [if_neg (by omega), if_pos hq]
    simp only [Option.map_some, PduRead.size, load_request]
    rfl
  . rw [if_pos (by omega), if_neg hq]
    rfl

theorem request_asks_read (host : Endian) {slave : Int} (hslave : slave ≠ 0) (address : UInt32)
    (quantity : UInt16) (buffer scratch : Mem)
    : ((read address quantity buffer).request host slave scratch).map
          (fun r => Request.decode (r.1.load 0 r.2))
        =
      ((read address quantity buffer).asks slave).map some := by
  simp only [asks, if_neg hslave]
  generalize htable : (address >>> 16).toNat = table
  rcases table with _ | _ | _ | _ | _ | table
  . have hread : readTable address = some (.readCoils, 2000) := by simp [readTable, htable]
    rw [decode_read host hslave hread]
    by_cases hq : quantity.toNat ≤ 2000
    . simp [hq, Request.decode, wireAddress]
    . simp [hq]
  . have hread : readTable address = some (.readInputs, 2000) := by simp [readTable, htable]
    rw [decode_read host hslave hread]
    by_cases hq : quantity.toNat ≤ 2000
    . simp [hq, Request.decode, wireAddress]
    . simp [hq]
  . simp [request, readTable, htable]
  . have hread : readTable address = some (.readInputRegisters, 125) := by simp [readTable, htable]
    rw [decode_read host hslave hread]
    by_cases hq : quantity.toNat ≤ 125
    . simp [hq, Request.decode, wireAddress]
    . simp [hq]
  . have hread : readTable address = some (.readHoldingRegisters, 125) := by
      simp [readTable, htable]
    rw [decode_read host hslave hread]
    by_cases hq : quantity.toNat ≤ 125
    . simp [hq, Request.decode, wireAddress]
    . simp [hq]
  . simp [request, readTable, htable]

/-- The request on the wire is what the operation asks. -/
theorem request_asks (host : Endian) (slave : Int) (op : MasterOp) (scratch : Mem)
    : (op.request host slave scratch).map (fun r => Request.decode (r.1.load 0 r.2))
        =
      (op.asks slave).map some := by
  cases op with
  | read address quantity buffer =>
    by_cases hslave : slave = 0
    . simp [request, asks, hslave]
    . apply request_asks_read
      exact hslave
  | write address quantity buffer => apply request_asks_write
  | writeSingle address value =>
    simp only [request, asks]
    generalize htable : (address >>> 16).toNat = table
    rcases table with _ | _ | _ | _ | _ | table
    . simp only [writeSingleTable, htable, Option.map_some, PduWriteSingle.size, load_request]
      simp only [Request.decode, Function.ofCode_code, word_hiByte_loByte, wireAddress]
    . simp [writeSingleTable, htable]
    . simp [writeSingleTable, htable]
    . simp [writeSingleTable, htable]
    . simp only [writeSingleTable, htable, Option.map_some, PduWriteSingle.size, load_request]
      simp only [Request.decode, Function.ofCode_code, word_hiByte_loByte, wireAddress]
    . simp [writeSingleTable, htable]

theorem request_of_asks (host : Endian) {slave : Int} {op : MasterOp} {r : Request}
    (h : op.asks slave = some r) (scratch : Mem)
    : ∃ (request : Mem) (size : Nat),
        op.request host slave scratch = some (request, size)
          ∧
        Request.decode (request.load 0 size) = some r := by
  have hrequest := request_asks host slave op scratch
  rw [h] at hrequest
  obtain ⟨⟨request, size⟩, hrequest, hdecode⟩ := Option.map_eq_some_iff.mp hrequest
  exact ⟨request, size, hrequest, hdecode⟩

theorem call_of_not_asks {τ : Type} (transport : Transport τ) (host : Endian) {slave : Int}
    {op : MasterOp} (h : op.asks slave = none) (mbus : Mbus) (w : τ)
    : op.call transport host slave mbus w
        =
      some { result := -1, mbus, buffer := op.buffer, transport := w } := by
  have hrequest := request_asks host slave op mbus.scratch
  rw [h] at hrequest
  rw [call_eq, Option.map_eq_none_iff.mp hrequest]

end MasterOp

theorem bufferWords_eq (ws : List UInt16)
    : bufferWords ws = packWords (ws.map (fun w => word (loByte w) (hiByte w))) := by
  simp [bufferWords, packWords, List.flatMap_map]

theorem length_bufferWords (ws : List UInt16) : (bufferWords ws).length = 2 * ws.length := by
  rw [bufferWords_eq, length_packWords, List.length_map]

theorem getElem_bufferWords (ws : List UInt16) (i : Nat) (h : i < ws.length)
    : (bufferWords ws)[2 * i]? = some (loByte ws[i])
        ∧
      (bufferWords ws)[2 * i + 1]? = some (hiByte ws[i]) := by
  have hget := getElem_packWords (ws.map (fun w => word (loByte w) (hiByte w))) i (by simpa using h)
  rw [← bufferWords_eq] at hget
  simpa using hget

theorem mbusReadResponse_bufferWords {f : Function}
    (hf : f = .readInputRegisters ∨ f = .readHoldingRegisters) (m buffer : Mem) (ws : List UInt16)
    (hlen : ws.length ≤ 125)
    : mbusReadResponse (m.copy 0 (Request.itemsResponse f (packWords ws))) buffer
        =
      (0, buffer.copy 0 (bufferWords ws)) := by
  obtain ⟨buffer', hresponse, hwords, hge⟩ := mbusReadResponse_registers hf m buffer ws hlen
  rw [hresponse]
  congr 1
  funext i
  by_cases hi : i < 2 * ws.length
  . have hlt : i / 2 < ws.length := by omega
    have hword : word (buffer' (2 * (i / 2) + 1)) (buffer' (2 * (i / 2))) = ws[i / 2] := by
      have hget := congrArg (fun l => l[i / 2]?) hwords
      simpa [hlt, Mem.load16, Endian.ofBytes] using hget
    obtain ⟨hlo, hhi⟩ := getElem_bufferWords ws (i / 2) hlt
    rw [← hword, loByte_word] at hlo
    rw [← hword, hiByte_word] at hhi
    obtain heven | hodd : i = 2 * (i / 2) ∨ i = 2 * (i / 2) + 1 := by omega
    . rw [heven, Mem.copy_of_getElem buffer hlo]
    . rw [hodd, Mem.copy_of_getElem buffer hhi]
  . rw [hge i (by omega)]
    rw [Mem.copy_ge _ _ _ _ (by rw [length_bufferWords]; omega)]

theorem mbusReadResponse_readInputs (m buffer : Mem) {data : List UInt8} (hlen : data.length < 256)
    : mbusReadResponse (m.copy 0 (Request.itemsResponse .readInputs data)) buffer
        =
      (0, buffer.copy 0 data) := by
  have hcount : (UInt8.ofNat data.length).toNat = data.length := by
    rw [UInt8.toNat_ofNat']
    omega
  have hload := Mem.load_copy_append m [Function.readInputs.code, UInt8.ofNat data.length] data
  change (0, buffer.copy 0 (Mem.load _ 2 (UInt8.ofNat data.length).toNat)) = _
  rw [hcount]
  exact congrArg (fun bs => (0, buffer.copy 0 bs)) hload

def Request.IsRead : Request → Prop
  | readCoils _ _ | readInputs _ _ | readHoldingRegisters _ _ | readInputRegisters _ _ => True
  | _ => False

theorem mbusReadResponse_items {d : DataModel} {r : Request} (hread : r.IsRead) (hv : r.ValuesOk)
    (hr : r.RangesOk d) (m buffer : Mem)
    : mbusReadResponse (m.copy 0 (r.response d)) buffer = (0, buffer.copy 0 (r.items d)) := by
  cases r with
  | readCoils address quantity =>
    have hlen := length_slice hr
    have hq := hv.2
    apply mbusReadResponse_readCoils
    rw [length_packBits]
    change ((slice d.coils address.toNat quantity.toNat).length + 7) / 8 < 256
    omega
  | readInputs address quantity =>
    have hlen := length_slice hr
    have hq := hv.2
    apply mbusReadResponse_readInputs
    rw [length_packBits]
    change ((slice d.inputs address.toNat quantity.toNat).length + 7) / 8 < 256
    omega
  | readHoldingRegisters address quantity =>
    apply mbusReadResponse_bufferWords (.inr rfl)
    exact (length_slice hr).trans_le hv.2
  | readInputRegisters address quantity =>
    apply mbusReadResponse_bufferWords (.inl rfl)
    exact (length_slice hr).trans_le hv.2
  | _ => exact hread.elim

namespace MasterOp

theorem isRead_of_asks {slave : Int} {address : UInt32} {quantity : UInt16} {buffer : Mem}
    {r : Request} (h : (read address quantity buffer).asks slave = some r)
    : r.IsRead := by
  simp only [asks] at h
  split at h
  . contradiction
  . split at h
    all_goals
      first
        | contradiction
        | split at h
          . cases h
            trivial
          . contradiction

theorem not_isRead_of_asks {slave : Int} {op : MasterOp} {r : Request}
    (hop : ∀ address quantity buffer, op ≠ .read address quantity buffer)
    (h : op.asks slave = some r) (d : DataModel)
    : r.items d = [] := by
  cases op with
  | read address quantity buffer => exact absurd rfl (hop address quantity buffer)
  | write address quantity buffer =>
    simp only [asks] at h
    split at h
    all_goals
      first
        | contradiction
        | split at h
          . cases h
            rfl
          . contradiction
  | writeSingle address value =>
    simp only [asks] at h
    split at h
    . cases h
      rfl
    . cases h
      rfl
    . contradiction

end MasterOp

theorem mbIsException_exceptionResponse (m : Mem) (r : Request) (code : UInt8)
    : mbIsException (m.copy 0 (r.exceptionResponse code)) = true := by
  rw [mbIsException, Pdu.function, Mem.copy_head m (b := r.function.code ||| 0x80) rfl]
  cases r.function <;> decide

theorem mbIsException_response (m : Mem) (r : Request) (d : DataModel)
    : mbIsException (m.copy 0 (r.response d)) = false := by
  rw [mbIsException, Pdu.function, Mem.copy_head m (r.head_response d)]
  cases r.function <;> decide

namespace MasterOp

theorem finish_exception (op : MasterOp) {rxCount : Int} (hrx : 0 ≤ rxCount) {response : Mem}
    (h : mbIsException response = true)
    : op.finish rxCount response = (mbException response, op.buffer) := by
  cases op with
  | read address quantity buffer =>
    simp only [finish, mbusReadOutcome, h, ↓reduceIte]
    rw [if_neg (by omega)]
    rfl
  | write address quantity buffer =>
    simp only [finish, mbusWriteResult, h, ↓reduceIte]
    rw [if_neg (by omega)]
  | writeSingle address value =>
    simp only [finish, mbusWriteResult, h, ↓reduceIte]
    rw [if_neg (by omega)]

theorem finish_normal {slave : Int} {op : MasterOp} {r : Request} {d : DataModel}
    (hasks : op.asks slave = some r) (hv : r.ValuesOk) (hr : r.RangesOk d) {rxCount : Int}
    (hrx : 0 ≤ rxCount) (m : Mem)
    : op.finish rxCount (m.copy 0 (r.response d)) = (0, op.buffer.copy 0 (r.items d)) := by
  have hnormal := mbIsException_response m r d
  cases op with
  | read address quantity buffer =>
    simp only [finish, mbusReadOutcome, hnormal]
    rw [if_neg (by omega)]
    exact mbusReadResponse_items (isRead_of_asks hasks) hv hr m buffer
  | write address quantity buffer =>
    rw [not_isRead_of_asks (by simp) hasks, Mem.copy_nil]
    simp only [finish, mbusWriteResult, hnormal]
    rw [if_neg (by omega)]
    rfl
  | writeSingle address value =>
    rw [not_isRead_of_asks (by simp) hasks, Mem.copy_nil]
    simp only [finish, mbusWriteResult, hnormal]
    rw [if_neg (by omega)]
    rfl

/-- If the response is an answer of the data model then the operation has done what it is for. -/
theorem outcome_of_answers {slave : Int} {op : MasterOp} {r : Request} {d d' : DataModel}
    {response : List UInt8} (hasks : op.asks slave = some r) (hanswers : d.Answers r d' response)
    {rxCount : Int} (hrx : 0 ≤ rxCount) {scratch : Mem}
    (hload : scratch.load 0 response.length = response)
    : op.Outcome slave d (op.finish rxCount scratch).1 (op.finish rxCount scratch).2 d' := by
  have hcopy := Mem.copy_of_load hload
  cases hanswers with
  | normal hv hr =>
    rw [← hcopy, finish_normal hasks hv hr hrx]
    exact .done hasks hv hr
  | illegalDataAddress hr =>
    rw [← hcopy, finish_exception op hrx (mbIsException_exceptionResponse _ _ _)]
    exact .illegalDataAddress hasks hr
  | illegalDataValue hv =>
    rw [← hcopy, finish_exception op hrx (mbIsException_exceptionResponse _ _ _)]
    exact .illegalDataValue hasks hv

end MasterOp

end Modbus
