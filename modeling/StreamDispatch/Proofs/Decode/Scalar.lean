import Mathlib.Algebra.Ring.Int.Defs
import StreamDispatch.Proofs.Decode.Record

set_option autoImplicit false

/-! # When a scalar is decoded

In any document format, a scalar is decoded from the nodes of its own shape alone, and as what they
hold. A word is decoded from the integers within the bounds of its type (`AreWords`), so that no
integer is wrapped. -/

namespace StreamDispatch.Decode

open Document (view)

variable {σ β : Type} [Document σ] {v : σ} {expected : String}

theorem bool_eq_ok_iff {b : Bool} : bool v = .ok b ↔ view v = .bool b := by
  cases hview : view v <;> simp [bool, wrongType, hview]

theorem text_eq_ok_iff {t : String} : text expected v = .ok t ↔ view v = .text t := by
  cases hview : view v <;> simp [text, wrongType, hview]

theorem integer_eq_ok_iff {low high n : Int} :
    integer low high expected v = .ok n ↔ view v = .integer n ∧ low ≤ n ∧ n ≤ high := by
  cases hview : view v with
  | integer m =>
    simp only [integer, hview, Shape.integer.injEq]
    split
    · next hm =>
      rw [Except.ok.injEq]
      exact ⟨fun h => ⟨h, h ▸ hm⟩, And.left⟩
    · next hm =>
      constructor
      · intro h
        cases h
      · rintro ⟨rfl, hn⟩
        exact absurd hn hm
  | _ => simp [integer, wrongType, hview]

/-! ## Words -/

/-- The words of a type are the integers within bounds. -/
structure AreWords (low high : Int) (ofInt : Int → β) (toInt : β → Int) : Prop where
  range : ∀ b, low ≤ toInt b ∧ toInt b ≤ high
  ofInt_toInt : ∀ b, ofInt (toInt b) = b
  toInt_ofInt : ∀ n, low ≤ n → n ≤ high → toInt (ofInt n) = n

theorem areWords_uint8 :
    AreWords 0 255 (fun n => UInt8.ofNat n.toNat) (fun b => (b.toNat : Int)) where
  range b := by
    have hb := b.toNat_lt
    omega
  ofInt_toInt b := by simp
  toInt_ofInt n hlow hhigh := by
    rw [UInt8.toNat_ofNat', Nat.mod_eq_of_lt (by omega), Int.toNat_of_nonneg hlow]

theorem areWords_uint64 :
    AreWords 0 (2 ^ 64 - 1) (fun n => UInt64.ofNat n.toNat) (fun b => (b.toNat : Int)) where
  range b := by
    have hb := b.toNat_lt
    omega
  ofInt_toInt b := by simp
  toInt_ofInt n hlow hhigh := by
    rw [UInt64.toNat_ofNat', Nat.mod_eq_of_lt (by omega), Int.toNat_of_nonneg hlow]

theorem areWords_int32 : AreWords (-2 ^ 31) (2 ^ 31 - 1) Int32.ofInt Int32.toInt where
  range b := by
    have hlow := b.le_toInt
    have hhigh := b.toInt_lt
    omega
  ofInt_toInt := Int32.ofInt_toInt
  toInt_ofInt _ hlow hhigh := Int32.toInt_ofInt_of_le hlow (by omega)

theorem areWords_int64 : AreWords (-2 ^ 63) (2 ^ 63 - 1) Int64.ofInt Int64.toInt where
  range b := by
    have hlow := b.le_toInt
    have hhigh := b.toInt_lt
    omega
  ofInt_toInt := Int64.ofInt_toInt
  toInt_ofInt _ hlow hhigh := Int64.toInt_ofInt_of_le hlow (by omega)

section Words

variable {low high : Int} {ofInt : Int → β} {toInt : β → Int}

theorem AreWords.exists_iff (h : AreWords low high ofInt toInt) {n : Int} :
    (∃ b, n = toInt b) ↔ low ≤ n ∧ n ≤ high := by
  constructor
  · rintro ⟨b, rfl⟩
    exact h.range b
  · rintro ⟨hlow, hhigh⟩
    exact ⟨ofInt n, (h.toInt_ofInt n hlow hhigh).symm⟩

theorem AreWords.decode_eq_ok_iff (h : AreWords low high ofInt toInt) {b : β} :
    (integer low high expected v).map ofInt = .ok b ↔ view v = .integer (toInt b) := by
  simp only [map_eq_ok_iff, integer_eq_ok_iff]
  constructor
  · rintro ⟨n, ⟨hview, hlow, hhigh⟩, rfl⟩
    rw [hview, h.toInt_ofInt n hlow hhigh]
  · intro hview
    exact ⟨toInt b, ⟨hview, h.range b⟩, h.ofInt_toInt b⟩

end Words

theorem uint64_eq_ok_iff {b : UInt64} : uint64 expected v = .ok b ↔ view v = .integer b.toNat :=
  areWords_uint64.decode_eq_ok_iff

theorem int64_eq_ok_iff {b : Int64} : int64 v = .ok b ↔ view v = .integer b.toInt :=
  areWords_int64.decode_eq_ok_iff

end StreamDispatch.Decode
