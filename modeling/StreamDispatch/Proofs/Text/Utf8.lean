import Mathlib.Tactic.ByContra
import Mathlib.Tactic.SplitIfs

set_option autoImplicit false

/-! # The bytes of texts

Texts are compared by their characters. That is the order of their UTF-8 bytes as well
(`lt_iff_bytes_lt`): the bytes of a smaller character are smaller at the first place where the bytes
of the two differ, and there is such a place, whatever follows. The bytes tell which text they are
(`bytes_injective`). -/

namespace StreamDispatch.Text

/-- The bytes of a text in UTF-8. -/
def bytes (s : String) : List UInt8 := s.toUTF8.data.toList

theorem bytes_eq_flatMap (s : String) : bytes s = s.toList.flatMap String.utf8EncodeChar := by
  obtain ⟨cs, rfl⟩ : ∃ cs, s = String.ofList cs := ⟨s.toList, String.ofList_toList.symm⟩
  rw [bytes, String.toUTF8_eq_toByteArray, String.toByteArray_ofList, List.utf8Encode,
    List.data_toByteArray, String.toList_ofList]

/-- Bytes that begin with those of a smaller character are smaller. -/
theorem utf8EncodeChar_append_lt {c d : Char} (h : c < d) (x y : List UInt8) :
    String.utf8EncodeChar c ++ x < String.utf8EncodeChar d ++ y := by
  have hcd : c.val.toNat < d.val.toNat := h
  have hd : d.val.toNat < 0x110000 := by
    have hvalid := d.valid
    simp only [UInt32.isValidChar, Nat.isValidChar] at hvalid
    omega
  have h4096 (n : Nat) : n / 4096 = n / 64 / 64 := by omega
  have h262144 (n : Nat) : n / 262144 = n / 64 / 64 / 64 := by omega
  -- Either both have as many bytes, or the first bytes tell that they have not.
  simp only [String.utf8EncodeChar, h4096, h262144]
  split_ifs
  all_goals
    simp only [List.cons_append, List.nil_append, List.cons_lt_cons_iff, UInt8.lt_iff_toNat_lt,
      ← UInt8.toNat_inj, UInt8.toNat_ofNat']
    omega

theorem flatMap_utf8EncodeChar_lt {cs ds : List Char} (h : cs < ds) :
    cs.flatMap String.utf8EncodeChar < ds.flatMap String.utf8EncodeChar := by
  induction h with
  | @nil d ds =>
    obtain ⟨b, rest, hd⟩ := List.exists_cons_of_ne_nil (String.utf8EncodeChar_ne_nil (c := d))
    rw [List.flatMap_nil, List.flatMap_cons, hd]
    exact List.nil_lt_cons _ _
  | @cons c cs ds _ ih => exact List.append_left_lt ih
  | @rel c cs d ds hlt => exact utf8EncodeChar_append_lt hlt _ _

/-- Texts are ordered as their bytes are. -/
theorem lt_iff_bytes_lt {s t : String} : s < t ↔ bytes s < bytes t := by
  rw [bytes_eq_flatMap, bytes_eq_flatMap]
  refine ⟨flatMap_utf8EncodeChar_lt, fun h => ?_⟩
  by_contra hst
  by_cases heq : s = t
  · exact List.lt_irrefl _ (heq ▸ h)
  · have hts : t < s :=
      String.not_le.mp fun hle => heq (String.le_antisymm hle (String.not_lt.mp hst))
    exact List.lt_asymm h (flatMap_utf8EncodeChar_lt hts)

/-! ## Bytes as a list -/

theorem toList_loop (bs : ByteArray) (i : Nat) (seen : List UInt8) :
    ByteArray.toList.loop bs i seen = seen.reverse ++ bs.data.toList.drop i := by
  induction hleft : bs.size - i generalizing i seen with
  | zero =>
    have hi : ¬i < bs.size := by omega
    have hdrop : bs.data.toList.drop i = [] := List.drop_eq_nil_of_le (by
      rw [Array.length_toList]
      exact Nat.not_lt.mp hi)
    rw [ByteArray.toList.loop, if_neg hi, hdrop, List.append_nil]
  | succ n ih =>
    have hi : i < bs.size := by omega
    have hlength : i < bs.data.toList.length := hi
    have hget : bs.get! i = bs.data.toList[i] := by
      have hdata : bs.get! i = bs.data[i]! := rfl
      rw [hdata, getElem!_pos bs.data i hi, Array.getElem_toList]
    rw [ByteArray.toList.loop, if_pos hi, ih _ _ (by omega), List.drop_eq_getElem_cons hlength,
      hget]
    simp

theorem toList_toUTF8 (s : String) : s.toUTF8.toList = bytes s := toList_loop _ 0 []

theorem bytes_injective {s t : String} (h : bytes s = bytes t) : s = t :=
  String.toByteArray_inj.mp (ByteArray.ext (Array.toList_inj.mp h))

end StreamDispatch.Text
