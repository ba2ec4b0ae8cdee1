import Modbus.Rtu.Frame
import Modbus.Rtu.Poly

/-!
This module contains which strings of bytes `mb_rtu_rx` accepts, if they arrive in any chunks with
no gap in between. A string that does not fit into the buffer keeps the task busy until the timers
expire. It returns all the same if time goes on.
-/

namespace Modbus

section Pace

/-- Time goes on: however many calls have been made, something will happen later. -/
def Lively (schedule : Nat → Nat) : Prop :=
  ∀ (n : Nat), ∃ m, n ≤ m ∧ 0 < schedule m

theorem Lively.exists_happened {schedule : Nat → Nat} (h : Lively schedule) (n : Nat)
    : ∃ (calls : Nat), n ≤ happened schedule calls := by
  induction n with
  | zero => exact ⟨0, Nat.zero_le _⟩
  | succ n ih =>
    obtain ⟨calls, hcalls⟩ := ih
    obtain ⟨m, hm, hpos⟩ := h calls
    have hle := happened_le schedule hm
    refine ⟨m + 1, ?_⟩
    rw [happened]
    omega

def Line.Paced (rounds : Nat) (l : Line) : Prop :=
  l.script.length + happened l.schedule l.calls ≤ happened l.schedule (l.calls + rounds)

theorem Line.exists_paced {l : Line} (h : Lively l.schedule)
    : ∃ (rounds : Nat), l.Paced rounds := by
  obtain ⟨calls, hcalls⟩ := h.exists_happened (l.script.length + happened l.schedule l.calls)
  refine ⟨calls, Nat.le_trans hcalls ?_⟩
  apply happened_le
  omega

theorem Line.Paced.script_eq_nil {l : Line} (h : l.Paced 0) : l.script = [] := by
  unfold Line.Paced at h
  apply List.length_eq_zero_iff.mp
  rw [Nat.add_zero] at h
  omega

theorem Line.Paced.of_elapses {rounds : Nat} {l l' : Line} (h : l.Paced (rounds + 1))
    (helapses : l.Elapses l')
    : l'.Paced rounds := by
  have hcalls := helapses.calls
  have hscript := helapses.script
  have hle : happened l.schedule (l.calls + (rounds + 1))
      ≤ happened l.schedule (l'.calls + rounds) := by
    apply happened_le
    omega
  have hle' : happened l.schedule l'.calls ≤ happened l.schedule (l'.calls + rounds) := by
    apply happened_le
    omega
  unfold Line.Paced at h ⊢
  rw [helapses.schedule]
  omega

theorem Line.Paced.succ {rounds : Nat} {l : Line} (h : l.Paced rounds) : l.Paced (rounds + 1) := by
  apply Nat.le_trans h
  apply happened_le
  omega

variable {I : List UInt8 → Nat → Line → Prop} {l : Line} {rx : RxBuffer} {rounds : Nat}

theorem mbRtuRxMessage_paced {slave : UInt8} {rest taken : List UInt8} {data : Mem}
    (hI : Line.Invariant (slave :: rest) I) (hrest : rest.length < 2 ^ 63)
    (h : I (slave :: taken) 0 l) (hrx : rx.Holds data taken) (hle : taken.length ≤ maxPduSize)
    (hpaced : l.Paced rounds)
    : ∃ (rx' : RxBuffer) (l' : Line),
        mbRtuRxMessage rtuLine (rounds + 1) rx l = some (rx', l') ∧ l.Elapses l' := by
  induction rounds generalizing l taken rx with
  | zero =>
    obtain ⟨t1p5, taken', rx', l', hround, -, -, -, -, helapses, ht1p5, -⟩ :=
      mbRtuRxMessage_round hI hrest h hrx hle 0
    rw [hround, ht1p5 hpaced.script_eq_nil]
    exact ⟨rx', l', rfl, helapses⟩
  | succ rounds ih =>
    obtain ⟨t1p5, taken', rx', l', hround, h', hrx', hle', -, helapses, -⟩ :=
      mbRtuRxMessage_round hI hrest h hrx hle (rounds + 1)
    rw [hround]
    cases t1p5 with
    | true => exact ⟨rx', l', rfl, helapses⟩
    | false =>
      obtain ⟨rx'', l'', hrest, helapses'⟩ := ih h' hrx' hle' (hpaced.of_elapses helapses)
      exact ⟨rx'', l'', hrest, helapses.trans helapses'⟩

theorem mbRtuRxEnd_paced {bytes got : List UInt8} (hI : Line.Invariant bytes I)
    (hbytes : bytes.length < 2 ^ 64) (h : I got 0 l) (hpaced : l.Paced rounds)
    (error : Option Int)
    : ∃ result, mbRtuRxEnd rtuLine (rounds + 1) error rx l = some result := by
  induction rounds generalizing l got rx error with
  | zero =>
    obtain ⟨l₁, hwait, -, h₁, hlater⟩ :=
      hI.eventWait h { t3p5 := true, rxAvail := true } (.inr rfl) none
    have hscript := hlater.script
    rw [hpaced.script_eq_nil] at hscript
    have hnil : l₁.script = [] := List.length_eq_zero_iff.mp (by simpa using hscript)
    have ht3p5 := (hI.expired h₁ hnil).2
    rw [mbRtuRxEnd, hwait]
    simp only [Option.getD_some, Flags.and, ht3p5, Bool.and_true, ↓reduceIte]
    split
    . exact ⟨_, rfl⟩
    . exact ⟨_, rfl⟩
  | succ rounds ih =>
    obtain ⟨l₁, hwait, -, h₁, -⟩ :=
      hI.eventWait h { t3p5 := true, rxAvail := true } (.inr rfl) none
    have helapses := Line.elapses_eventWait hwait
    have hpaced₁ := hpaced.of_elapses helapses
    rw [mbRtuRxEnd, hwait]
    simp only [Option.getD_some, Flags.and, Bool.and_true]
    split
    . have hlength := congrArg List.length (hI.bytes h₁)
      rw [List.length_append] at hlength
      obtain ⟨bs, l', hread, htakes⟩ := @mbRtuRead_takes l₁ (by omega)
        (sizeT ((maxPduSize : Int) - rx.count))
      have helapses' := mbRtuRead_elapses rx.data rx.p (sizeT ((maxPduSize : Int) - rx.count)) l₁
      rw [hread] at helapses' ⊢
      dsimp only
      split
      . exact ⟨_, rfl⟩
      . apply ih (htakes.keeps hI h₁)
        exact hpaced.of_elapses (helapses.trans helapses')
    . split
      . exact ⟨_, rfl⟩
      . exact ih h₁ hpaced₁ error

end Pace

/-- Extra characters that have been notified are seen before the frame ends. -/
theorem mbRtuRxEnd_extra {bytes got : List UInt8} {I : List UInt8 → Nat → Line → Prop}
    (hI : Line.Invariant bytes I) {l l' : Line} (h : I got 0 l) (hrx : l.flags.rxAvail = true)
    {rounds : Nat} {error error' : Option Int} {rx rx' : RxBuffer}
    (hend : mbRtuRxEnd rtuLine rounds error rx l = some (error', rx', l'))
    : error' = some eFrameNok := by
  cases rounds with
  | zero => simp [mbRtuRxEnd] at hend
  | succ rounds =>
    obtain ⟨l₁, hwait, -, -, hlater⟩ :=
      hI.eventWait h { t3p5 := true, rxAvail := true } (.inr rfl) none
    rw [mbRtuRxEnd, hwait] at hend
    simp only [Option.getD_some, Flags.and, hlater.rxAvail hrx, Bool.and_true, ↓reduceIte] at hend
    split at hend
    . cases hend
      rfl
    . obtain ⟨-, herror⟩ := mbRtuRxEnd_cases rtuLine hend
      simpa using herror

theorem FrameTail.expired_of_length {script : List LineEvent} (h : FrameTail script)
    (hlen : script.length ≤ 1)
    : Expired script := by
  cases h with
  | coming chunks => cases chunks <;> simp [frameScript] at hlen
  | clr chunks => simp at hlen
  | set chunks => cases chunks <;> simp [frameScript] at hlen
  | expired => exact .inl rfl
  | finished => exact .inr rfl

/-- A buffer that is full is not written to any more. -/
theorem mbRtuRxEnd_full {bytes got : List UInt8} {I : List UInt8 → Nat → Line → Prop}
    (hI : Line.Invariant bytes I) (hbytes : bytes.length < 2 ^ 64) {l l' : Line} (h : I got 0 l)
    {rounds : Nat} {error error' : Option Int} {rx rx' : RxBuffer} (hfull : rx.count = maxPduSize)
    (hend : mbRtuRxEnd rtuLine rounds error rx l = some (error', rx', l'))
    : rx'.data = rx.data := by
  induction rounds generalizing l got rx error with
  | zero => simp [mbRtuRxEnd] at hend
  | succ rounds ih =>
    obtain ⟨l₁, hwait, -, h₁, -⟩ :=
      hI.eventWait h { t3p5 := true, rxAvail := true } (.inr rfl) none
    have hsize : sizeT ((maxPduSize : Int) - rx.count) = 0 := by
      rw [hfull, Int.sub_self]
      rfl
    rw [mbRtuRxEnd, hwait] at hend
    simp only [Option.getD_some, hsize] at hend
    split at hend
    . have hlength := congrArg List.length (hI.bytes h₁)
      rw [List.length_append] at hlength
      obtain ⟨bs, l₂, hread, htakes⟩ := @mbRtuRead_takes l₁ (by omega) 0
      have hnil : bs = [] := List.length_eq_zero_iff.mp (by simpa using htakes.length_le)
      have hdata : rx.data.copyAt rx.p bs = rx.data := by
        rw [hnil, Mem.copyAt_nil]
      rw [hread, hdata] at hend
      dsimp only at hend
      split at hend
      . cases hend
        rfl
      . exact ih (htakes.keeps hI h₁) hfull hend
    . split at hend
      . cases hend
        rfl
      . exact ih h₁ hfull hend

def rxResult (unit slave : UInt8) (rest : List UInt8) : Int :=
  if maxPduSize < rest.length then
    eFrameNok
  else if slave ≠ unit ∧ slave ≠ 0 then
    eSlaveId
  else if crcOf (slave :: rest) 0xFFFF ≠ 0 then
    eCrcFail
  else
    toInt (sizeT ((rest.length : Int) - 2))

section Frame

variable {slave : UInt8} {rest : List UInt8} (hrest : rest.length < 2 ^ 63)

include hrest

theorem mbRtuRxMessage_frame {data : Mem} {l l' : Line}
    (h : l.Receiving (slave :: rest) [slave] 0) {rounds : Nat} {rx : RxBuffer}
    (hmessage : mbRtuRxMessage rtuLine rounds { p := 0, count := 0, data } l = some (rx, l'))
    : rx.Holds data (rest.take maxPduSize)
        ∧
      l'.Receiving (slave :: rest) (slave :: rest.take maxPduSize) 0
        ∧
      Expired l'.script
        ∧
      (l'.flags.rxAvail = true ↔ maxPduSize < rest.length) := by
  obtain ⟨taken, hrx, hle, h', got, l₁, h₁, ht1p5, hscript, hall, hclear⟩ :=
    mbRtuRxMessage_keeps (Line.Receiving.invariant (slave :: rest)) hrest h
      (RxBuffer.holds_nil data) (Nat.zero_le _) hmessage
  have hexpired₁ := h₁.t1p5.mp ht1p5
  have hexpired : Expired l'.script := by
    apply h'.script.expired_of_length
    obtain hl | hl := hexpired₁
    . simpa [hl] using hscript
    . simp only [hl, List.length_nil] at hscript
      omega
  have hbytes := h'.bytes_of_expired hexpired
  simp only [List.cons_append, List.cons.injEq, true_and] at hbytes
  have htaken : taken = rest.take maxPduSize := by
    rw [← hbytes]
    obtain hfull | hnil := hall hexpired₁
    . rw [← hfull, List.take_left]
    . rw [hnil, List.append_nil, List.take_of_length_le hle]
  have hlength := congrArg List.length hbytes
  rw [List.length_append] at hlength
  refine ⟨htaken ▸ hrx, htaken ▸ h', hexpired, ?_⟩
  constructor
  . intro hrxAvail
    by_contra hfits
    obtain ⟨-, -, hfalse⟩ := hclear hexpired₁ (by omega)
    rw [hfalse] at hrxAvail
    contradiction
  . intro hlong
    -- What has not been taken is in the FIFO, and the hook has returned.
    obtain hrxAvail | hhooking := h'.notified (by omega)
    . exact hrxAvail
    . exact absurd hexpired (not_expired_of_hooking hhooking)

/-- What `mb_rtu_rx` makes of a string of bytes, whatever the chunks. -/
theorem mbRtuRx_frame {rtu : MbRtu Line} (h : rtu.line.Untouched (slave :: rest))
    {transaction : Txn} {tmo : UInt32} {rounds : Nat} {result : Int} {transaction' : Txn}
    {rtu' : MbRtu Line}
    (hrx : mbRtuRx rtuLine rounds transaction tmo rtu = some (result, transaction', rtu'))
    : rtu'.broadcast = (slave == 0)
        ∧
      transaction'.data = transaction.data.copy 0 (rest.take maxPduSize)
        ∧
      result = rxResult transaction.unit slave rest := by
  have hmax : maxPduSize = 253 := rfl
  obtain ⟨l, hl, -, hstart⟩ := mbRtuRx_start h transaction tmo hrest
  rw [hstart] at hrx
  obtain ⟨rx, rx', error, l₁, l₂, hmessage, hend, hended⟩ := mbRtuRxFrame_cases hrx
  obtain ⟨hholds, hl₁, hexpired, hrxAvail⟩ := mbRtuRxMessage_frame hrest hl hmessage
  have hI := Line.Receiving.invariant (slave :: rest)
  have hrtu := rxEnded_rtu rtuLine transaction slave rtu error rx' l₂
  rw [← hended] at hrtu
  dsimp only at hrtu
  have hdata : transaction'.data = rx'.data := by
    rw [show transaction' = _ from congrArg (fun r => r.2.1) hended]
    cases error <;> rfl
  refine ⟨by rw [hrtu], ?_⟩
  rw [hdata, ← hholds.data]
  by_cases hlong : maxPduSize < rest.length
  . have herror := mbRtuRxEnd_extra hI hl₁ (hrxAvail.mpr hlong) hend
    have hcount : rx.count = maxPduSize := by
      rw [hholds.count, List.length_take]
      omega
    have hfull := mbRtuRxEnd_full hI (by rw [List.length_cons]; omega) hl₁ hcount hend
    rw [herror] at hended
    rw [rxResult, if_pos hlong]
    exact ⟨hfull, congrArg Prod.fst hended⟩
  . have hclear : l₁.flags.rxAvail = false := by
      simpa [hlong] using hrxAvail
    have htake : rest.take maxPduSize = rest := List.take_of_length_le (by omega)
    rw [htake] at hholds
    cases rounds with
    | zero => simp [mbRtuRxEnd] at hend
    | succ rounds =>
      obtain ⟨l₃, hend'⟩ := mbRtuRxEnd_expired hl₁ hexpired hclear rounds
        (messageError transaction.unit slave rx) rx
      rw [hend'] at hend
      injection hend with hend
      injection hend with herror hend
      injection hend with hrx' _
      refine ⟨by rw [hrx'], ?_⟩
      rw [rxResult, if_neg hlong, show result = _ from congrArg Prod.fst hended, ← herror, ← hrx']
      rw [messageError, mbCrc_frame (by omega) hholds, ← hholds.count]
      unfold rxEnded
      dsimp only
      split_ifs
      all_goals dsimp only

theorem mbRtuRx_frame_returns {rtu : MbRtu Line} (h : rtu.line.Untouched (slave :: rest))
    (transaction : Txn) (tmo : UInt32)
    (htime : rest.length ≤ maxPduSize ∨ Lively rtu.line.schedule)
    : ∃ (rounds : Nat) (result : Int × Txn × MbRtu Line),
        mbRtuRx rtuLine rounds transaction tmo rtu = some result := by
  have hI := Line.Receiving.invariant (slave :: rest)
  have hnil := RxBuffer.holds_nil transaction.data
  obtain ⟨l, hl, helapses, hstart⟩ := mbRtuRx_start h transaction tmo hrest
  obtain hfits | hlively := htime
  . obtain ⟨rx, l₁, hmessage, hrx, hl₁, hexpired, hclear⟩ :=
      mbRtuRxMessage_fits hfits hl hnil (Nat.zero_le _) (Nat.lt_succ_self l.remaining)
    obtain ⟨l₂, hend⟩ := mbRtuRxEnd_expired hl₁ hexpired hclear l.remaining
      (messageError transaction.unit slave rx) rx
    refine ⟨l.remaining + 1, ?_⟩
    rw [hstart, mbRtuRxFrame_eq, hmessage]
    dsimp only
    rw [hend]
    exact ⟨_, rfl⟩
  . rw [← helapses.schedule] at hlively
    obtain ⟨rounds, hpaced⟩ := Line.exists_paced hlively
    obtain ⟨rx, l₁, hmessage, helapses₁⟩ :=
      mbRtuRxMessage_paced hI hrest hl hnil (Nat.zero_le _) hpaced
    obtain ⟨-, hl₁, -⟩ := mbRtuRxMessage_frame hrest hl hmessage
    obtain ⟨⟨error, rx', l₂⟩, hend⟩ := @mbRtuRxEnd_paced _ _ rx _ _ _ hI
      (by rw [List.length_cons]; omega) hl₁ (hpaced.succ.of_elapses helapses₁)
      (messageError transaction.unit slave rx)
    refine ⟨rounds + 1, ?_⟩
    rw [hstart, mbRtuRxFrame_eq, hmessage]
    dsimp only
    rw [hend]
    exact ⟨_, rfl⟩

end Frame

structure ValidFrame (unit : UInt8) (frame : List UInt8) : Prop where
  length_ge : 3 ≤ frame.length
  length_le : frame.length ≤ 254
  address : frame.head? = some unit ∨ frame.head? = some 0
  crc : crcReference frame 0xFFFF = 0

structure Verdict (unit : UInt8) (frame : List UInt8) (result : Int) (transaction' : Txn)
    (rtu' : MbRtu Line)
    : Prop where
  accepts : 0 ≤ result ↔ ValidFrame unit frame
  accepted : 0 ≤ result →
    result = frame.length - 3
      ∧
    transaction'.data.load 0 (frame.length - 3) = (frame.drop 1).take (frame.length - 3)
      ∧
    (mbRtuRxBc rtu' = true ↔ frame.head? = some 0)
  rejected : result < 0 → result ∈ [eCrcFail, eSlaveId, eFrameNok]

theorem Verdict.of_rejected {unit : UInt8} {frame : List UInt8} {result : Int} {transaction' : Txn}
    {rtu' : MbRtu Line} (hresult : result ∈ [eCrcFail, eSlaveId, eFrameNok])
    (hinvalid : ¬ValidFrame unit frame)
    : Verdict unit frame result transaction' rtu' := by
  have hneg : result < 0 := by
    simp only [List.mem_cons, List.not_mem_nil, or_false] at hresult
    obtain rfl | rfl | rfl := hresult <;> decide
  refine ⟨?_, by omega, fun _ => hresult⟩
  constructor
  . omega
  . intro hvalid
    exact absurd hvalid hinvalid

theorem rxResult_cases (unit slave : UInt8) (rest : List UInt8)
    : (rxResult unit slave rest ∈ [eCrcFail, eSlaveId, eFrameNok]
        ∧
      ¬(rest.length ≤ maxPduSize ∧ (slave = unit ∨ slave = 0) ∧
        crcOf (slave :: rest) 0xFFFF = 0))
        ∨
      (rxResult unit slave rest = toInt (sizeT ((rest.length : Int) - 2))
        ∧
      rest.length ≤ maxPduSize ∧ (slave = unit ∨ slave = 0) ∧
        crcOf (slave :: rest) 0xFFFF = 0) := by
  unfold rxResult
  split
  . next hlong =>
    left
    refine ⟨by simp, ?_⟩
    omega
  . next hfits =>
    split
    . next hslave =>
      left
      refine ⟨by simp, ?_⟩
      tauto
    . next hslave =>
      split
      . next hcrc =>
        left
        refine ⟨by simp, ?_⟩
        tauto
      . next hcrc =>
        right
        refine ⟨rfl, Nat.not_lt.mp hfits, ?_, not_not.mp hcrc⟩
        tauto

theorem rxResult_eq {rest : List UInt8} (htwo : 2 ≤ rest.length) (hle : rest.length ≤ maxPduSize)
    : toInt (sizeT ((rest.length : Int) - 2)) = (rest.length : Int) - 2 := by
  have hmax : maxPduSize = 253 := rfl
  rw [show ((rest.length : Int) - 2) = ((rest.length - 2 : Nat) : Int) by omega]
  rw [sizeT_natCast (by omega), toInt_of_lt (by omega)]

theorem mbRtuRx_verdict {slave : UInt8} {rest : List UInt8} {transaction transaction' : Txn}
    {result : Int} {rtu' : MbRtu Line} (hunit : transaction.unit ≤ 247)
    (hbroadcast : rtu'.broadcast = (slave == 0))
    (hdata : transaction'.data = transaction.data.copy 0 (rest.take maxPduSize))
    (hresult : result = rxResult transaction.unit slave rest)
    : Verdict transaction.unit (slave :: rest) result transaction' rtu' := by
  have hmax : maxPduSize = 253 := rfl
  obtain ⟨herror, hinvalid⟩ | ⟨hcount, hle, haddress, hcrc⟩ :=
    rxResult_cases transaction.unit slave rest
  . rw [← hresult] at herror
    apply Verdict.of_rejected herror
    intro hvalid
    apply hinvalid
    refine ⟨?_, ?_, ?_⟩
    . have hlength := hvalid.length_le
      rw [List.length_cons] at hlength
      omega
    . simpa using hvalid.address
    . rw [crcOf_eq_crcReference]
      exact hvalid.crc
  . have hlegal : slave ≤ 247 := by
      obtain rfl | rfl := haddress
      . exact hunit
      . decide
    have htwo := two_le_of_crcOf hlegal hcrc
    rw [hcount, rxResult_eq htwo hle] at hresult
    have hvalid : ValidFrame transaction.unit (slave :: rest) := by
      refine ⟨?_, ?_, ?_, ?_⟩
      . rw [List.length_cons]
        omega
      . rw [List.length_cons]
        omega
      . simpa using haddress
      . rw [← crcOf_eq_crcReference]
        exact hcrc
    refine ⟨?_, ?_, by omega⟩
    . exact iff_of_true (by omega) hvalid
    . intro _
      refine ⟨?_, ?_, ?_⟩
      . rw [hresult, List.length_cons]
        omega
      . rw [hdata, List.take_of_length_le (by omega), List.drop_one, List.tail_cons]
        rw [show (slave :: rest).length - 3 = rest.length - 2 by rw [List.length_cons]; omega]
        apply Mem.load_copy_take
        omega
      . rw [mbRtuRxBc, hbroadcast]
        simp

/--
Of all the strings that may arrive on the line, `mb_rtu_rx` accepts the valid frames. It always
returns if the string fits into the buffer, and else if time goes on.
-/
theorem mbRtuRx_accepts (rtu : MbRtu Line) (transaction : Txn) (hunit : transaction.unit ≤ 247)
    (tmo : UInt32) (chunks : List (List UInt8)) (hne : chunks.flatten ≠ [])
    -- `os_rtu_rx_avail` returns an `ssize_t`.
    (hlength : chunks.flatten.length < 2 ^ 63) (hawaits : rtu.line.Awaits chunks)
    : (chunks.flatten.length ≤ 254 ∨ Lively rtu.line.schedule →
        ∃ (rounds : Nat) (result : Int × Txn × MbRtu Line),
          mbRtuRx rtuLine rounds transaction tmo rtu = some result)
        ∧
      ∀ (rounds : Nat) (result : Int) (transaction' : Txn) (rtu' : MbRtu Line),
        mbRtuRx rtuLine rounds transaction tmo rtu = some (result, transaction', rtu') →
          Verdict transaction.unit chunks.flatten result transaction' rtu' := by
  have hmax : maxPduSize = 253 := rfl
  have huntouched := hawaits.untouched
  generalize chunks.flatten = frame at hne hlength huntouched ⊢
  cases frame with
  | nil => contradiction
  | cons slave rest =>
    rw [List.length_cons] at hlength
    refine ⟨?_, ?_⟩
    . intro htime
      apply mbRtuRx_frame_returns (by omega) huntouched
      obtain hfits | hlively := htime
      . rw [List.length_cons] at hfits
        exact .inl (by omega)
      . exact .inr hlively
    . intro rounds result transaction' rtu' hrx
      obtain ⟨hbroadcast, hdata, hresult⟩ := mbRtuRx_frame (by omega) huntouched hrx
      exact mbRtuRx_verdict hunit hbroadcast hdata hresult

theorem mbRtuRx_accepts_readExceptionStatus
    : ∃ (rounds : Nat) (transaction' : Txn) (rtu' : MbRtu Line),
        mbRtuRx rtuLine rounds ⟨1, 0, 1, fun _ => 0x55⟩ 1000
            (.awaiting [[0x01], [0x07, 0x41], [0xE2]])
          =
        some (1, transaction', rtu')
          ∧
        transaction'.data.load 0 1 = [0x07]
          ∧
        mbRtuRxBc rtu' = false := by
  obtain ⟨hreturns, hverdict⟩ := mbRtuRx_accepts (.awaiting [[0x01], [0x07, 0x41], [0xE2]])
    ⟨1, 0, 1, fun _ => 0x55⟩ (by decide) 1000 [[0x01], [0x07, 0x41], [0xE2]] (by decide)
    (by decide) ⟨rfl, rfl, rfl, rfl, by decide⟩
  obtain ⟨rounds, ⟨result, transaction', rtu'⟩, hrx⟩ := hreturns (.inl (by decide))
  obtain ⟨haccepts, haccepted, -⟩ := hverdict _ _ _ _ hrx
  have hvalid : ValidFrame 1 [0x01, 0x07, 0x41, 0xE2] := by
    refine ⟨by decide, by decide, .inl rfl, ?_⟩
    rw [← crcOf_eq_crcReference]
    decide
  obtain ⟨rfl, hdata, hbroadcast⟩ := haccepted (haccepts.mpr hvalid)
  refine ⟨rounds, transaction', rtu', hrx, hdata, ?_⟩
  apply Bool.eq_false_iff.mpr
  intro htrue
  exact absurd (hbroadcast.mp htrue) (by decide)

end Modbus
