import Modbus.Data.Word
import Mathlib.Data.List.GetD

/-!
This module contains the byte memory behind a C pointer. There is no bound on the index: a program
that leaves its buffer is a program that touches an index it does not own, and whether it does so
is something to be proved.
-/

/-- The bytes a pointer gives access to, indexed from the pointer. -/
abbrev Mem := Nat → UInt8

namespace Mem

def store (m : Mem) (idx : Nat) (b : UInt8) : Mem :=
  fun i => if i = idx then b else m i

def offset (m : Mem) (off : Nat) : Mem :=
  fun i => m (off + i)

/-- The memory behind `p` once the memory behind `p + off` has become `w`. -/
def splice (m : Mem) (off : Nat) (w : Mem) : Mem :=
  fun i => if off ≤ i then w (i - off) else m i

def load (m : Mem) (off len : Nat) : List UInt8 :=
  (List.range len).map (fun i => m (off + i))

def copy (m : Mem) (off : Nat) (bs : List UInt8) : Mem :=
  fun i => if off ≤ i then bs.getD (i - off) (m i) else m i

def copyAt (m : Mem) (off : Int) (bs : List UInt8) : Mem :=
  -- What would be stored before the start of the memory is not part of it.
  if 0 ≤ off then m.copy off.toNat bs else m.copy 0 (bs.drop (-off).toNat)

def load16 (host : Endian) (m : Mem) (off : Nat) : UInt16 :=
  host.ofBytes (m off) (m (off + 1))

def store16 (host : Endian) (m : Mem) (off : Nat) (v : UInt16) : Mem :=
  (m.store off (host.fstByte v)).store (off + 1) (host.sndByte v)

def bit (m : Mem) (i : Nat) : Bool :=
  byteBit (m (i / 8)) (i % 8)

def Agree (n : Nat) (m m' : Mem) : Prop :=
  ∀ (i : Nat), i < n → m i = m' i

@[simp]
theorem store_apply (m : Mem) (idx i : Nat) (b : UInt8)
    : m.store idx b i = if i = idx then b else m i := by
  rfl

@[simp]
theorem offset_apply (m : Mem) (off i : Nat) : m.offset off i = m (off + i) := by
  rfl

theorem splice_lt (m w : Mem) (off i : Nat) (h : i < off) : m.splice off w i = m i := by
  simp [splice, Nat.not_le.mpr h]

@[simp]
theorem splice_add (m w : Mem) (off i : Nat) : m.splice off w (off + i) = w i := by
  simp [splice]

@[simp]
theorem length_load (m : Mem) (off len : Nat) : (m.load off len).length = len := by
  simp [load]

@[simp]
theorem getElem_load (m : Mem) (off len i : Nat) (h : i < (m.load off len).length)
    : (m.load off len)[i] = m (off + i) := by
  simp [load]

@[simp]
theorem load_zero (m : Mem) (off : Nat) : m.load off 0 = [] := by
  rfl

theorem load_succ (m : Mem) (off len : Nat)
    : m.load off (len + 1) = m off :: m.load (off + 1) len := by
  apply List.ext_getElem
  . simp
  . intro i h1 h2
    cases i with
    | zero => simp
    | succ i =>
      simp only [getElem_load, List.getElem_cons_succ]
      congr 1
      omega

theorem load_add (m : Mem) (off len len' : Nat)
    : m.load off (len + len') = m.load off len ++ m.load (off + len) len' := by
  induction len generalizing off with
  | zero => simp
  | succ len ih =>
    rw [show len + 1 + len' = len + len' + 1 by omega]
    rw [load_succ, load_succ, ih]
    simp only [List.cons_append]
    rw [show off + 1 + len = off + (len + 1) by omega]

theorem load_front (m : Mem) (off : Nat) {len len' : Nat} (h : len ≤ len')
    : m.load off len <+: m.load off len' := by
  refine ⟨m.load (off + len) (len' - len), ?_⟩
  rw [← load_add]
  congr 1
  omega

theorem load_congr {m m' : Mem} {off len : Nat}
    (h : ∀ (i : Nat), i < len → m (off + i) = m' (off + i))
    : m.load off len = m'.load off len := by
  apply List.ext_getElem
  . simp
  . intro i h1 h2
    simp only [length_load] at h1
    simp [h i h1]

theorem copy_lt (m : Mem) (off i : Nat) (bs : List UInt8) (h : i < off)
    : m.copy off bs i = m i := by
  simp [copy, Nat.not_le.mpr h]

theorem copy_add (m : Mem) (off i : Nat) (bs : List UInt8) (h : i < bs.length)
    : m.copy off bs (off + i) = bs[i] := by
  simp [copy, h]

theorem copy_ge (m : Mem) (off i : Nat) (bs : List UInt8) (h : off + bs.length ≤ i)
    : m.copy off bs i = m i := by
  simp only [copy]
  rw [if_pos (by omega)]
  rw [List.getD_eq_default _ _ (by omega)]

theorem copy_head (m : Mem) {bs : List UInt8} {b : UInt8} (h : bs.head? = some b)
    : m.copy 0 bs 0 = b := by
  cases bs with
  | nil => simp at h
  | cons b' bs => simpa [copy] using h

theorem copy_of_getElem (m : Mem) {bs : List UInt8} {i : Nat} {b : UInt8} (h : bs[i]? = some b)
    : m.copy 0 bs i = b := by
  obtain ⟨hlt, hb⟩ := List.getElem?_eq_some_iff.mp h
  have hcopy := Mem.copy_add m 0 i bs hlt
  rw [Nat.zero_add] at hcopy
  rw [hcopy, hb]

theorem copy_of_load {m : Mem} {bs : List UInt8} (h : m.load 0 bs.length = bs)
    : m.copy 0 bs = m := by
  funext i
  by_cases hi : i < bs.length
  . have hget : bs[i]? = some (m i) := by
      rw [← h]
      simp [hi]
    exact copy_of_getElem m hget
  . exact Mem.copy_ge _ _ _ _ (by omega)

@[simp]
theorem copy_nil (m : Mem) (off : Nat) : m.copy off [] = m := by
  funext i
  simp [copy]

@[simp]
theorem copyAt_natCast (m : Mem) (off : Nat) (bs : List UInt8)
    : m.copyAt off bs = m.copy off bs := by
  simp [copyAt]

@[simp]
theorem copyAt_nil (m : Mem) (off : Int) : m.copyAt off [] = m := by
  simp [copyAt]

@[simp]
theorem load_copy (m : Mem) (off : Nat) (bs : List UInt8)
    : (m.copy off bs).load off bs.length = bs := by
  apply List.ext_getElem
  . simp
  . intro i h1 h2
    rw [getElem_load]
    rw [copy_add]

theorem copy_append (m : Mem) (off : Nat) (bs bs' : List UInt8)
    : m.copy off (bs ++ bs') = (m.copy off bs).copy (off + bs.length) bs' := by
  funext i
  by_cases h1 : i < off
  . rw [copy_lt _ _ _ _ h1]
    rw [copy_lt _ _ _ _ (by omega)]
    rw [copy_lt _ _ _ _ h1]
  . obtain ⟨k, rfl⟩ : ∃ k, i = off + k := ⟨i - off, by omega⟩
    by_cases h2 : k < bs.length
    . rw [copy_add _ _ _ _ (by simp; omega)]
      rw [copy_lt _ _ _ _ (by omega)]
      rw [copy_add _ _ _ _ h2]
      rw [List.getElem_append_left h2]
    . obtain ⟨j, rfl⟩ : ∃ j, k = bs.length + j := ⟨k - bs.length, by omega⟩
      by_cases h3 : j < bs'.length
      . rw [copy_add _ _ _ _ (by simp; omega)]
        rw [← Nat.add_assoc]
        rw [copy_add _ _ _ _ h3]
        simp
      . rw [copy_ge _ _ _ _ (by simp; omega)]
        rw [copy_ge _ _ _ _ (by omega)]
        rw [copy_ge _ _ _ _ (by omega)]

theorem load_copy_left (m : Mem) (bs bs' : List UInt8)
    : (m.copy 0 (bs ++ bs')).load 0 bs.length = bs := by
  have hload := load_copy m 0 (bs ++ bs')
  rw [List.length_append, load_add] at hload
  apply List.append_inj_left hload
  rw [length_load]

theorem load_copy_take (m : Mem) {bs : List UInt8} {n : Nat} (h : n ≤ bs.length)
    : (m.copy 0 bs).load 0 n = bs.take n := by
  have hload := load_copy_left m (bs.take n) (bs.drop n)
  rwa [List.take_append_drop, List.length_take, Nat.min_eq_left h] at hload

theorem load_copy_append (m : Mem) (front bs : List UInt8)
    : (m.copy 0 (front ++ bs)).load front.length bs.length = bs := by
  rw [copy_append]
  rw [Nat.zero_add]
  rw [load_copy]

@[simp]
theorem offset_zero (m : Mem) : m.offset 0 = m := by
  funext i
  simp

theorem load_store_lt (m : Mem) {idx off : Nat} (b : UInt8) (len : Nat) (h : idx < off)
    : (m.store idx b).load off len = m.load off len := by
  apply load_congr
  intro i _
  rw [store_apply]
  rw [if_neg (by omega)]

@[simp]
theorem offset_splice (m w : Mem) (off : Nat) : (m.splice off w).offset off = w := by
  funext i
  simp

@[simp]
theorem splice_offset (m : Mem) (off : Nat) : m.splice off (m.offset off) = m := by
  funext i
  simp only [splice, offset_apply]
  split
  . congr 1
    omega
  . rfl

@[simp]
theorem swapBe_load16 (host : Endian) (m : Mem) (off : Nat)
    : host.swapBe (m.load16 host off) = word (m off) (m (off + 1)) := by
  simp [load16]

theorem store16_swapBe (host : Endian) (m : Mem) (off : Nat) (v : UInt16)
    : m.store16 host off (host.swapBe v)
        =
      (m.store off (hiByte v)).store (off + 1) (loByte v) := by
  simp [store16]

namespace Agree

theorem mono {n k : Nat} {m m' : Mem} (h : Agree n m m') (hk : k ≤ n) : Agree k m m' := by
  intro i hi
  exact h i (by omega)

theorem load_eq {n off len : Nat} {m m' : Mem} (h : Agree n m m') (hlen : off + len ≤ n)
    : m.load off len = m'.load off len := by
  apply load_congr
  intro i hi
  exact h _ (by omega)

end Agree

end Mem
