import Modbus.Data.Mem

/-!
This module contains tables of bits and words as lists: how their items are packed into bytes and
how a range of them is read or overwritten.
-/

def byteOf (f : Nat → Bool) : UInt8 :=
  UInt8.ofNat (Nat.ofBits (fun k : Fin 8 => f k))

/-- Eight bits to a byte, least significant bit first, the last byte padded with zeros. -/
def packBits (bits : List Bool) : List UInt8 :=
  (List.range ((bits.length + 7) / 8)).map
    (fun j => byteOf (fun k => bits.getD (8 * j + k) false))

def unpackBits (bs : List UInt8) (n : Nat) : List Bool :=
  (List.range n).map (fun i => byteBit (bs.getD (i / 8) 0) (i % 8))

def packWords (ws : List UInt16) : List UInt8 :=
  ws.flatMap (fun w => [hiByte w, loByte w])

def unpackWords (bs : List UInt8) (n : Nat) : List UInt16 :=
  (List.range n).map (fun i => word (bs.getD (2 * i) 0) (bs.getD (2 * i + 1) 0))

def slice {α : Type} (items : List α) (a n : Nat) : List α :=
  (items.drop a).take n

/-- The items from index `a` on are replaced by the new ones, as far as these go. -/
def overwrite {α : Type} (items : List α) (a : Nat) (new : List α) : List α :=
  items.take a ++ new ++ items.drop (a + new.length)

@[simp]
theorem byteBit_byteOf (f : Nat → Bool) (k : Nat) (h : k < 8) : byteBit (byteOf f) k = f k := by
  have hlt := Nat.ofBits_lt_two_pow (fun k : Fin 8 => f k)
  unfold byteBit byteOf
  rw [UInt8.toNat_ofNat']
  rw [Nat.mod_eq_of_lt hlt]
  rw [Nat.testBit_ofBits_lt _ _ h]

namespace Mem

theorem load_eq_packBits {m : Mem} {off n : Nat} {bits : List Bool} (hlen : bits.length = n)
    (h : ∀ (j k : Nat), j < (n + 7) / 8 → k < 8 →
      byteBit (m (off + j)) k = bits.getD (8 * j + k) false)
    : m.load off ((n + 7) / 8) = packBits bits := by
  subst hlen
  apply List.ext_getElem
  . simp [packBits]
  . intro j h1 h2
    simp only [length_load] at h1
    simp only [getElem_load, packBits, List.getElem_map, List.getElem_range]
    apply byteBit_ext
    intro k hk
    rw [h j k h1 hk]
    rw [byteBit_byteOf _ _ hk]

theorem load_eq_packWords {m : Mem} {off n : Nat} {ws : List UInt16} (hlen : ws.length = n)
    (h : ∀ (i : Nat) (hi : i < ws.length),
      m (off + 2 * i) = hiByte ws[i] ∧ m (off + 2 * i + 1) = loByte ws[i])
    : m.load off (2 * n) = packWords ws := by
  subst hlen
  induction ws generalizing off with
  | nil => rfl
  | cons w ws ih =>
    obtain ⟨hhi, hlo⟩ := h 0 (by simp)
    simp only [Nat.mul_zero, Nat.add_zero, List.getElem_cons_zero] at hhi hlo
    rw [List.length_cons, Nat.mul_add]
    rw [load_succ, load_succ]
    rw [hhi, hlo]
    rw [ih]
    . rfl
    . intro i hi
      have hnext := h (i + 1) (by simpa using hi)
      rw [show off + 2 * (i + 1) = off + 1 + 1 + 2 * i by omega] at hnext
      simpa using hnext

theorem unpackBits_load (m : Mem) (off : Nat) {n len : Nat} (h : (n + 7) / 8 ≤ len)
    : unpackBits (m.load off len) n = (List.range n).map (m.offset off).bit := by
  apply List.map_congr_left
  intro i hi
  simp only [List.mem_range] at hi
  have hlt : i / 8 < len := by omega
  simp [Mem.bit, hlt]

theorem unpackWords_load (m : Mem) (off : Nat) {n len : Nat} (h : 2 * n ≤ len)
    : unpackWords (m.load off len) n
        =
      (List.range n).map (fun i => word (m (off + 2 * i)) (m (off + (2 * i + 1)))) := by
  apply List.map_congr_left
  intro i hi
  simp only [List.mem_range] at hi
  have hfst : 2 * i < len := by omega
  have hsnd : 2 * i + 1 < len := by omega
  simp [hfst, hsnd]

end Mem

theorem length_packBits (bits : List Bool) : (packBits bits).length = (bits.length + 7) / 8 := by
  simp [packBits]

theorem length_packWords (ws : List UInt16) : (packWords ws).length = 2 * ws.length := by
  induction ws with
  | nil => rfl
  | cons w ws ih =>
    simp only [packWords, List.flatMap_cons, List.length_append, List.length_cons,
      List.length_nil] at ih ⊢
    omega

theorem bit_copy_packBits (m : Mem) (bits : List Bool) (i : Nat) (h : i < bits.length)
    : (m.copy 0 (packBits bits)).bit i = bits[i] := by
  have hlt : i / 8 < (packBits bits).length := by
    rw [length_packBits]
    omega
  have hcopy := Mem.copy_add m 0 (i / 8) (packBits bits) hlt
  rw [Nat.zero_add] at hcopy
  rw [Mem.bit, hcopy]
  simp only [packBits, List.getElem_map, List.getElem_range]
  rw [byteBit_byteOf _ _ (by omega)]
  rw [show 8 * (i / 8) + i % 8 = i by omega]
  simp [h]

theorem getElem_packWords (ws : List UInt16) (i : Nat) (h : i < ws.length)
    : (packWords ws)[2 * i]? = some (hiByte ws[i]) ∧
      (packWords ws)[2 * i + 1]? = some (loByte ws[i]) := by
  induction ws generalizing i with
  | nil => simp at h
  | cons w ws ih =>
    cases i with
    | zero => simp [packWords]
    | succ i =>
      simp only [List.length_cons, Nat.add_lt_add_iff_right] at h
      rw [show 2 * (i + 1) = 2 * i + 1 + 1 by omega]
      simpa [packWords] using ih i h

section Tables

variable {α : Type}

theorem length_slice {items : List α} {a n : Nat} (h : a + n ≤ items.length)
    : (slice items a n).length = n := by
  simp [slice]
  omega

theorem slice_map_range (f : Nat → α) {n a q : Nat} (h : a + q ≤ n)
    : slice ((List.range n).map f) a q = (List.range q).map (fun i => f (a + i)) := by
  apply List.ext_getElem
  . simp [slice]
    omega
  . intro i h1 h2
    simp [slice]

theorem overwrite_map_range (f g : Nat → α) {n a q : Nat} (h : a + q ≤ n)
    : overwrite ((List.range n).map f) a ((List.range q).map g)
        =
      (List.range n).map (fun i => if a ≤ i ∧ i < a + q then g (i - a) else f i) := by
  apply List.ext_getElem
  . simp [overwrite]
    omega
  . intro i h1 h2
    simp only [overwrite, List.length_map, List.length_range, List.getElem_map, List.getElem_range]
    by_cases hlo : i < a
    . rw [List.getElem_append_left (by simp; omega)]
      rw [List.getElem_append_left (by simp; simp at h2; omega)]
      rw [if_neg (by omega)]
      simp
    . by_cases hhi : i < a + q
      . rw [List.getElem_append_left (by simp; omega)]
        rw [List.getElem_append_right (by simp; omega)]
        rw [if_pos ⟨by omega, hhi⟩]
        simp only [List.length_take, List.length_map, List.length_range, List.getElem_map,
          List.getElem_range]
        congr 1
        omega
      . rw [List.getElem_append_right (by simp; omega)]
        rw [if_neg (by omega)]
        simp only [List.length_append, List.length_take, List.length_map, List.length_range,
          List.getElem_drop, List.getElem_map, List.getElem_range]
        congr 1
        omega

end Tables
