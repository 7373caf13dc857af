import LetLang.Text.Utf8

/-! Plain text: bytes below `80`, each of which is a character on its own. -/
namespace LetLang.Utf8

def IsPlain (bytes : List UInt8) : Prop := ∀ b ∈ bytes, b < 0x80

theorem ofNat_toNat_eq (b : UInt8) : Char.ofNat b.toNat = Char.ofUInt8 b := by
  have h : (Char.ofUInt8 b).toNat = b.toNat := UInt8.toNat_toUInt32 b
  rw [← h, Char.ofNat_toNat]

theorem units_of_isPlain {bytes : List UInt8} (h : IsPlain bytes) :
    units bytes = bytes.map fun b => some (Char.ofUInt8 b) := by
  induction bytes with
  | nil => rw [units, List.map_nil]
  | cons b bytes ih =>
    have hb : b < 0x80 := h b List.mem_cons_self
    have hfollowers : followers? b = some [] := by
      rw [followers?, if_pos hb]
    have hfitting : fitting [] bytes = [] := by
      unfold fitting
      rfl
    have ih := ih fun d hd => h d (List.mem_cons_of_mem b hd)
    rw [units, hfollowers]
    simp [hfitting, ih, scalar, ofNat_toNat_eq]

theorem toList_lossy_of_isPlain {bytes : List UInt8} (h : IsPlain bytes) :
    (lossy bytes).toList = bytes.map Char.ofUInt8 := by
  rw [lossy, units_of_isPlain h, String.toList_ofList, List.map_map]
  rfl

theorem utf8EncodeChar_ofUInt8 {b : UInt8} (h : b < 0x80) :
    String.utf8EncodeChar (Char.ofUInt8 b) = [b] := by
  have hsize : (Char.ofUInt8 b).utf8Size = 1 := by
    rw [Char.utf8Size_eq_one_iff]
    change b.toUInt32 ≤ 127
    rw [UInt32.le_iff_toNat_le, UInt8.toNat_toUInt32]
    rw [UInt8.lt_iff_toNat_lt] at h
    change b.toNat < 128 at h
    change b.toNat ≤ 127
    omega
  rw [String.utf8EncodeChar_eq_singleton hsize]
  change [b.toUInt32.toUInt8] = [b]
  rw [UInt8.toUInt8_toUInt32]

/-- Plain bytes are what their text is written as. -/
theorem encode_lossy_of_isPlain {bytes : List UInt8} (h : IsPlain bytes) :
    encode (lossy bytes) = bytes := by
  rw [encode, toList_lossy_of_isPlain h]
  induction bytes with
  | nil => rfl
  | cons b bytes ih =>
    rw [List.map_cons, List.flatMap_cons, utf8EncodeChar_ofUInt8 (h b List.mem_cons_self),
      ih fun d hd => h d (List.mem_cons_of_mem b hd), List.singleton_append]

end LetLang.Utf8
