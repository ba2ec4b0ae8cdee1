import Modbus.Master.Impl
import Modbus.Rtu.Accept
import Modbus.Tcp.Sync

/-!
This module contains how much of its buffer `mbus_get_msg` overwrites. The size of the buffer is
handed to it but not to the transport, which stores as much as the peer has sent.
-/

namespace Modbus

section Within

variable {τ : Type} (transport : Nat → Transport τ)

/--
Whatever a buffer of the given size holds, only the bytes of the buffer are modified, and no more of
them are reported.
-/
def GetsWithin (mbus : Mbus) (slave : Int) (size : UInt16) (w : τ) : Prop :=
  ∀ (rounds : Nat) (msg : Mem) (res : MbusResult τ),
    mbusGetMsg (transport rounds) mbus slave msg w = some res →
      (∀ (i : Nat), size.toNat ≤ i → res.buffer i = msg i)
        ∧
      (0 ≤ res.result → res.result ≤ size.toNat)

/-- Receiving stores these bytes, and reports no more than these, if the rounds are enough. -/
structure Stores (w : τ) (bs : List UInt8) : Prop where
  returns : ∀ (transaction : Txn) (tmo : UInt32),
    ∃ (rounds : Nat) (r : Int × Txn × τ), mbPduRx (transport rounds) transaction tmo w = some r
  data_eq : ∀ (transaction : Txn) (tmo : UInt32) (rounds : Nat) (r : Int × Txn × τ),
    mbPduRx (transport rounds) transaction tmo w = some r →
      r.2.1.data = transaction.data.copy 0 bs
  result_le : ∀ (transaction : Txn) (tmo : UInt32) (rounds : Nat) (r : Int × Txn × τ),
    mbPduRx (transport rounds) transaction tmo w = some r → 0 ≤ r.1 → r.1 ≤ bs.length

variable {transport} in
theorem Stores.getsWithin_iff {w : τ} {bs : List UInt8} (h : Stores transport w bs) (mbus : Mbus)
    (slave : Int) (size : UInt16)
    : GetsWithin transport mbus slave size w ↔ bs.length ≤ size.toNat := by
  constructor
  . intro hwithin
    by_contra hlt
    rw [Nat.not_le] at hlt
    -- The first byte behind the buffer is modified if it holds another value.
    obtain ⟨rounds, r, hrx⟩ := h.returns
      { mbus.transaction with
        arg := slave
        data := fun _ => bs[size.toNat] + 1
        unit := UInt8.ofInt slave } mbus.timeout
    have hdata := h.data_eq _ _ _ _ hrx
    obtain ⟨hkeep, -⟩ := hwithin rounds (fun _ => bs[size.toNat] + 1)
      { result := r.1, mbus := { mbus with transaction := r.2.1 }, buffer := r.2.1.data,
        transport := r.2.2 } (by simp only [mbusGetMsg, hrx])
    specialize hkeep size.toNat (Nat.le_refl _)
    have hcopy := Mem.copy_add (fun _ => bs[size.toNat] + 1) 0 size.toNat bs hlt
    rw [Nat.zero_add] at hcopy
    dsimp only at hkeep
    rw [hdata, hcopy] at hkeep
    simp at hkeep
  . intro hle rounds msg res hres
    simp only [mbusGetMsg] at hres
    split at hres
    . contradiction
    . next rxCount transaction' w' hrx =>
      cases hres
      refine ⟨?_, ?_⟩
      . intro i hi
        dsimp only
        rw [h.data_eq _ _ _ _ hrx]
        apply Mem.copy_ge
        omega
      . intro hnonneg
        have hresult := h.result_le _ _ _ _ hrx hnonneg
        dsimp only at hresult ⊢
        omega

theorem Stores.of_total {transport : Transport τ} {w : τ} {bs : List UInt8}
    (h : ∀ (transaction : Txn) (tmo : UInt32), ∃ (result : Int) (transaction' : Txn) (w' : τ),
      mbPduRx transport transaction tmo w = some (result, transaction', w') ∧
        transaction'.data = transaction.data.copy 0 bs ∧ (0 ≤ result → result ≤ bs.length))
    : Stores (fun _ => transport) w bs := by
  constructor
  . intro transaction tmo
    obtain ⟨result, transaction', w', hrx, -⟩ := h transaction tmo
    exact ⟨0, _, hrx⟩
  . intro transaction tmo _ r hrx
    obtain ⟨result, transaction', w', hrx', hdata, -⟩ := h transaction tmo
    rw [hrx] at hrx'
    cases hrx'
    exact hdata
  . intro transaction tmo _ r hrx
    obtain ⟨result, transaction', w', hrx', -, hresult⟩ := h transaction tmo
    rw [hrx] at hrx'
    cases hrx'
    exact hresult

end Within

section Rtu

theorem rxResult_le (unit slave : UInt8) (rest : List UInt8) (h : 0 ≤ rxResult unit slave rest)
    : rxResult unit slave rest ≤ (rest.take maxPduSize).length := by
  obtain ⟨herror, -⟩ | ⟨hcount, hle, -, -⟩ := rxResult_cases unit slave rest
  . simp only [List.mem_cons, List.not_mem_nil, or_false] at herror
    obtain herror | herror | herror := herror
    all_goals
      rw [herror] at h
      exact absurd h (by decide)
  . rw [hcount] at h ⊢
    rw [List.take_of_length_le hle]
    by_cases htwo : 2 ≤ rest.length
    . rw [rxResult_eq htwo hle]
      omega
    . -- There is no room for the checksum, and the result is negative.
      obtain hlen | hlen : rest.length = 0 ∨ rest.length = 1 := by omega
      . rw [hlen] at h
        exact absurd h (by decide)
      . rw [hlen] at h
        exact absurd h (by decide)

theorem stores_mbRtu (host : Endian) {rtu : MbRtu Line} {chunks : List (List UInt8)}
    (hawaits : rtu.line.Awaits chunks) (hne : chunks.flatten ≠ [])
    (hlength : chunks.flatten.length < 2 ^ 63)
    (htime : chunks.flatten.length ≤ 254 ∨ Lively rtu.line.schedule)
    : Stores (mbRtu rtuLine host) rtu (chunks.flatten.tail.take maxPduSize) := by
  have hmax : maxPduSize = 253 := rfl
  have huntouched := hawaits.untouched
  generalize chunks.flatten = frame at hne hlength htime huntouched ⊢
  cases frame with
  | nil => contradiction
  | cons slave rest =>
    rw [List.length_cons] at hlength htime
    rw [List.tail_cons]
    constructor
    . intro transaction tmo
      obtain ⟨rounds, r, hrx⟩ := mbRtuRx_frame_returns (by omega) huntouched transaction tmo
        (htime.imp_left (by omega))
      exact ⟨rounds, r, hrx⟩
    . intro transaction tmo rounds r hrx
      exact (mbRtuRx_frame (by omega) huntouched hrx).2.1
    . intro transaction tmo rounds r hrx
      have hresult := (mbRtuRx_frame (by omega) huntouched hrx).2.2
      rw [hresult]
      apply rxResult_le

end Rtu

section Tcp

theorem Sock.select_cases (s : Sock)
    : (∃ (s' : Sock), s.select = (0, s')) ∨ ∃ (s' : Sock), s.select = (1, s') := by
  unfold Sock.select
  split
  . split
    . exact .inl ⟨_, rfl⟩
    . exact .inr ⟨_, rfl⟩
  . exact .inl ⟨_, rfl⟩

theorem mbapHeader_of_length {bs : List UInt8} (h : mbapHeaderSize ≤ bs.length)
    : ∃ (id protocol length : UInt16) (unit : UInt8) (rest : List UInt8),
        bs = mbapHeader id protocol length unit ++ rest := by
  rcases bs with _ | ⟨b₀, _ | ⟨b₁, _ | ⟨b₂, _ | ⟨b₃, _ | ⟨b₄, _ | ⟨b₅, _ | ⟨b₆, rest⟩⟩⟩⟩⟩⟩⟩
  case cons.cons.cons.cons.cons.cons.cons =>
    exact ⟨word b₀ b₁, word b₂ b₃, word b₄ b₅, b₆, rest, by simp [mbapHeader]⟩
  all_goals exact absurd h (by simp [mbapHeaderSize])

theorem mbapHeader_append_inj {id id' protocol protocol' length length' : UInt16}
    {unit unit' : UInt8} {rest rest' : List UInt8}
    (h : mbapHeader id protocol length unit ++ rest
      = mbapHeader id' protocol' length' unit' ++ rest')
    : length = length' ∧ rest = rest' := by
  simp only [mbapHeader, List.cons_append, List.nil_append, List.cons.injEq] at h
  obtain ⟨-, -, -, -, hhi, hlo, -, hrest⟩ := h
  rw [← word_hiByte_loByte length, hhi, hlo, word_hiByte_loByte]
  exact ⟨rfl, hrest⟩

variable (host : Endian) {t : MbTcp Sock}

theorem stores_mbTcp_timeout {s : Sock} (hselect : t.net.select = (0, s))
    : Stores (fun _ => mbTcp sock host) t [] := by
  apply Stores.of_total
  intro transaction tmo
  refine ⟨_, _, _, mbTcpRx_timeout host transaction tmo t hselect, ?_, ?_⟩
  . rw [Mem.copy_nil]
  . intro h
    exact absurd h (by decide)

theorem stores_mbTcp_short {s : Sock} (hselect : t.net.select = (1, s))
    (hshort : s.inbox.length < mbapHeaderSize)
    : Stores (fun _ => mbTcp sock host) t [] := by
  apply Stores.of_total
  intro transaction tmo
  obtain ⟨t', hrx⟩ := mbTcpRx_short host transaction tmo t hselect hshort
  refine ⟨_, _, _, hrx, ?_, ?_⟩
  . rw [Mem.copy_nil]
  . intro h
    exact absurd h (by decide)

theorem stores_mbTcp {s : Sock} (hselect : t.net.select = (1, s)) {id protocol length : UInt16}
    {unit : UInt8} {rest : List UInt8}
    (hinbox : s.inbox = mbapHeader id protocol length unit ++ rest)
    : Stores (fun _ => mbTcp sock host) t (rest.take (pduSize length)) := by
  apply Stores.of_total
  intro transaction tmo
  by_cases hbroken : pduSize length = 0 ∨ rest.length < pduSize length
  . obtain ⟨transaction', t', hrx, -, hdata⟩ :=
      mbTcpRx_broken host transaction tmo t hselect hinbox hbroken
    refine ⟨_, _, _, hrx, hdata, ?_⟩
    intro h
    exact absurd h (by decide)
  . obtain ⟨k, hrx⟩ :=
      mbTcpRx_message host transaction tmo t hselect hinbox (by omega) (by omega)
    refine ⟨_, _, _, hrx, rfl, ?_⟩
    intro h
    rw [List.length_take, Nat.min_eq_left (by omega)]
    split at h
    . next hprotocol => exact Int.le_of_eq (if_pos hprotocol)
    . exact absurd h (by decide)

end Tcp

/--
What `mbus_get_msg` stores of the next message fits into the buffer if and only if the size is large
enough for all of it: on a serial line for everything that follows the address, on a connection for
as much as there is of what the length field announces. Both are cut off at the size of a PDU.
-/
theorem mbusGetMsg_getsWithin_iff (host : Endian) (mbus : Mbus) (slave : Int) (size : UInt16)
    : (∀ (rtu : MbRtu Line) (chunks : List (List UInt8)),
        rtu.line.Awaits chunks → chunks.flatten ≠ [] → chunks.flatten.length < 2 ^ 63 →
        (chunks.flatten.length ≤ 254 ∨ Lively rtu.line.schedule) →
          (GetsWithin (mbRtu rtuLine host) mbus slave size rtu
            ↔
          min (chunks.flatten.length - 1) maxPduSize ≤ size.toNat))
        ∧
      ∀ (t : MbTcp Sock),
        (GetsWithin (fun _ => mbTcp sock host) mbus slave size t
          ↔
        ∀ (s : Sock) (id protocol length : UInt16) (unit : UInt8) (rest : List UInt8),
          t.net.select = (1, s) → s.inbox = mbapHeader id protocol length unit ++ rest →
            min rest.length (pduSize length) ≤ size.toNat) := by
  constructor
  . intro rtu chunks hawaits hne hlength htime
    rw [(stores_mbRtu host hawaits hne hlength htime).getsWithin_iff]
    rw [List.length_take, List.length_tail, Nat.min_comm]
  . intro t
    obtain ⟨s, hselect⟩ | ⟨s, hselect⟩ := t.net.select_cases
    . rw [(stores_mbTcp_timeout host hselect).getsWithin_iff]
      simp [hselect]
    . by_cases hshort : s.inbox.length < mbapHeaderSize
      . rw [(stores_mbTcp_short host hselect hshort).getsWithin_iff]
        refine iff_of_true (Nat.zero_le _) ?_
        intro s' id protocol length unit rest hselect' hinbox
        rw [hselect] at hselect'
        cases hselect'
        rw [hinbox] at hshort
        simp only [mbapHeader, mbapHeaderSize, List.cons_append, List.length_cons] at hshort
        omega
      . obtain ⟨id, protocol, length, unit, rest, hinbox⟩ :=
          mbapHeader_of_length (Nat.not_lt.mp hshort)
        rw [(stores_mbTcp host hselect hinbox).getsWithin_iff]
        rw [List.length_take, Nat.min_comm]
        constructor
        . intro hle s' id' protocol' length' unit' rest' hselect' hinbox'
          rw [hselect] at hselect'
          cases hselect'
          rw [hinbox] at hinbox'
          obtain ⟨rfl, rfl⟩ := mbapHeader_append_inj hinbox'
          exact hle
        . intro hall
          exact hall s id protocol length unit rest hselect hinbox

theorem mbusGetMsg_getsWithin_readExceptionStatus
    : GetsWithin (mbRtu rtuLine .little) ⟨1000, ⟨0, 0, 0, fun _ => 0⟩, fun _ => 0x55⟩ 1 3
          (.awaiting [[0x01], [0x07, 0x41], [0xE2]])
        ∧
      GetsWithin (fun _ => mbTcp sock .little) ⟨1000, ⟨0, 0, 0, fun _ => 0⟩, fun _ => 0x55⟩ 1 3
          (.receiving (mbapHeader 1 0 3 1 ++ [0x07, 0x00])) := by
  obtain ⟨hrtu, htcp⟩ := mbusGetMsg_getsWithin_iff .little
    ⟨1000, ⟨0, 0, 0, fun _ => 0⟩, fun _ => 0x55⟩ 1 3
  constructor
  . rw [hrtu _ [[0x01], [0x07, 0x41], [0xE2]] ⟨rfl, rfl, rfl, rfl, by decide⟩ (by decide)
      (by decide) (.inl (by decide))]
    decide
  . rw [htcp]
    rintro s id protocol length unit rest hselect hinbox
    have hlen := congrArg List.length hinbox
    cases hselect
    rw [List.length_append] at hlen
    change 9 = 7 + rest.length at hlen
    rw [show (3 : UInt16).toNat = 3 from rfl]
    omega

theorem not_getsWithin_readExceptionStatus
    : ¬GetsWithin (mbRtu rtuLine .little) ⟨1000, ⟨0, 0, 0, fun _ => 0⟩, fun _ => 0x55⟩ 1 1
        (.awaiting [[0x01], [0x07, 0x41], [0xE2]]) := by
  have hstores := @stores_mbRtu .little (.awaiting [[0x01], [0x07, 0x41], [0xE2]])
    [[0x01], [0x07, 0x41], [0xE2]] ⟨rfl, rfl, rfl, rfl, by decide⟩ (by decide) (by decide)
    (.inl (by decide))
  rw [hstores.getsWithin_iff]
  decide

end Modbus
