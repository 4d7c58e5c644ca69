import Mathlib.Algebra.BigOperators.Ring.Finset
import Mathlib.Data.List.Basic
import Mathlib.Tactic.Ring
import Mathlib.Tactic.Common

/-!
Typed values in bytes: a type and a length in two bytes each, the lower byte first, and a value of
that length.
-/
namespace Tlv

def readLE : List UInt8 → Nat
  | [] => 0
  | b :: bs => b.toNat + 256 * readLE bs

theorem readLE_take (n : Nat) (bytes : List UInt8) :
    readLE (bytes.take n) = ∑ k ∈ Finset.range n, (bytes.getD k 0).toNat * 256 ^ k := by
  induction n generalizing bytes with
  | zero => rfl
  | succ n ih =>
      rw [Finset.sum_range_succ']
      cases bytes with
      | nil => simp [readLE]
      | cons b bs =>
          simp only [List.take_succ_cons, readLE, ih, List.getD_cons_succ, List.getD_cons_zero,
            Finset.mul_sum, pow_zero, mul_one]
          rw [add_comm]
          congr 1
          exact Finset.sum_congr rfl fun k _ => by ring

def le16 (n : Nat) : List UInt8 := [UInt8.ofNat n, UInt8.ofNat (n / 256)]

theorem readLE_le16 {n : Nat} (h : n < 65536) : readLE (le16 n) = n := by
  simp only [le16, readLE, UInt8.toNat_ofNat']
  omega

theorem le16_readLE (a b : UInt8) : le16 (readLE [a, b]) = [a, b] := by
  have ha := a.toNat_lt
  have hb := b.toNat_lt
  have hlow : UInt8.ofNat (a.toNat + 256 * b.toNat) = a := by
    rw [← UInt8.toNat_inj, UInt8.toNat_ofNat']
    omega
  have hhigh : UInt8.ofNat ((a.toNat + 256 * b.toNat) / 256) = b := by
    rw [← UInt8.toNat_inj, UInt8.toNat_ofNat']
    omega
  simp only [le16, readLE, Nat.mul_zero, Nat.add_zero, hlow, hhigh]

theorem readLE_two_lt (a b : UInt8) : readLE [a, b] < 65536 := by
  have ha := a.toNat_lt
  have hb := b.toNat_lt
  simp only [readLE]
  omega

structure TypedValue where
  type : Nat
  value : List UInt8
  type_lt : type < 65536
  length_lt : value.length < 65536

def TypedValue.bytes (r : TypedValue) : List UInt8 :=
  le16 r.type ++ le16 r.value.length ++ r.value

theorem TypedValue.length_bytes (r : TypedValue) : r.bytes.length = 4 + r.value.length := by
  simp only [TypedValue.bytes, le16, List.length_append, List.length_cons, List.length_nil]

/-- The four bytes before a value, and what is behind the value. -/
theorem TypedValue.split (r : TypedValue) (rest : List UInt8) : ∃ a b c d,
    r.bytes ++ rest = a :: b :: c :: d :: (r.value ++ rest) ∧ readLE [a, b] = r.type ∧
      readLE [c, d] = r.value.length := by
  refine ⟨_, _, _, _, ?_, readLE_le16 r.type_lt, readLE_le16 r.length_lt⟩
  simp [TypedValue.bytes, le16]

/-- Bytes that hold a value of the length that stands before it begin with a record. -/
theorem exists_typedValue (a b c d : UInt8) (bytes : List UInt8)
    (h : readLE [c, d] ≤ bytes.length) : ∃ r : TypedValue, r.type = readLE [a, b] ∧
      r.value.length = readLE [c, d] ∧
      a :: b :: c :: d :: bytes = r.bytes ++ bytes.drop (readLE [c, d]) := by
  have hlength : (bytes.take (readLE [c, d])).length = readLE [c, d] := by
    rw [List.length_take]
    omega
  refine ⟨⟨readLE [a, b], bytes.take (readLE [c, d]), readLE_two_lt a b, ?_⟩, rfl, hlength, ?_⟩
  · rw [hlength]
    exact readLE_two_lt c d
  · rw [TypedValue.bytes]
    simp only [hlength, le16_readLE, List.append_assoc, List.take_append_drop]
    rfl

/-- Records of different types and nothing after them but zeros. -/
structure Padded (allowed : Nat → Prop) (bytes : List UInt8) : Prop where
  parts : ∃ records : List TypedValue, ∃ zeros : List UInt8,
    bytes = records.flatMap TypedValue.bytes ++ zeros ∧ (∀ b ∈ zeros, b = 0) ∧
      (records.map TypedValue.type).Nodup ∧ ∀ r ∈ records, allowed r.type

theorem Padded.mono {allowed wanted : Nat → Prop} {bytes : List UInt8} (h : Padded allowed bytes)
    (hsub : ∀ type, allowed type → wanted type) : Padded wanted bytes := by
  obtain ⟨records, zeros, hbytes, hzeros, hnodup, hall⟩ := h.parts
  exact ⟨records, zeros, hbytes, hzeros, hnodup, fun r hr => hsub r.type (hall r hr)⟩

theorem padded_zeros {allowed : Nat → Prop} {bytes : List UInt8} (h : ∀ b ∈ bytes, b = 0) :
    Padded allowed bytes :=
  ⟨[], bytes, rfl, h, List.nodup_nil, fun _ hr => absurd hr List.not_mem_nil⟩

/-- A record before others must be of a type of its own. -/
theorem Padded.cons {allowed : Nat → Prop} {bytes : List UInt8} {r : TypedValue}
    (h : Padded (fun type => allowed type ∧ type ≠ r.type) bytes) (hr : allowed r.type) :
    Padded allowed (r.bytes ++ bytes) := by
  obtain ⟨records, zeros, rfl, hzeros, hnodup, hall⟩ := h.parts
  refine ⟨r :: records, zeros, ?_, hzeros, ?_, ?_⟩
  · rw [List.flatMap_cons, List.append_assoc]
  · rw [List.map_cons, List.nodup_cons]
    refine ⟨fun hmem => ?_, hnodup⟩
    obtain ⟨other, hother, htype⟩ := List.mem_map.mp hmem
    exact (hall other hother).2 htype
  · exact List.forall_mem_cons.mpr ⟨hr, fun other hother => (hall other hother).1⟩

/-- Bytes that are not all zero begin with a record. -/
theorem Padded.cases {allowed : Nat → Prop} {bytes : List UInt8} (h : Padded allowed bytes)
    (hsome : ¬ ∀ b ∈ bytes, b = 0) : ∃ r rest, bytes = TypedValue.bytes r ++ rest ∧
      allowed r.type ∧ Padded (fun type => allowed type ∧ type ≠ r.type) rest := by
  obtain ⟨records, zeros, rfl, hzeros, hnodup, hall⟩ := h.parts
  cases records with
  | nil => exact absurd hzeros hsome
  | cons r records =>
      rw [List.map_cons, List.nodup_cons] at hnodup
      refine ⟨r, records.flatMap TypedValue.bytes ++ zeros, ?_, hall r List.mem_cons_self,
        records, zeros, rfl, hzeros, hnodup.2, fun other hother => ?_⟩
      · rw [List.flatMap_cons, List.append_assoc]
      · refine ⟨hall other (List.mem_cons_of_mem r hother), fun htype => hnodup.1 ?_⟩
        rw [← htype]
        exact List.mem_map_of_mem hother

end Tlv
