import LetLang.Proofs.Text.Cut
import LetLang.Proofs.Text.Utf8
import Mathlib.Data.List.Forall2

/-! Reading undoes writing. The sequence that a character is written as is well-formed, its payload
is the character, and none of its bytes is zero unless the character is. -/
namespace LetLang.Utf8

section
variable {b d : UInt8}

theorem followers?_of_two (hlow : 0xC2 ≤ b.toNat) (hhigh : b.toNat < 0xE0) :
    followers? b = some [continuation] := by
  simp only [followers?, UInt8.lt_iff_toNat_lt, UInt8.reduceToNat]
  rw [if_neg (by omega), if_neg (by omega), if_pos hhigh]

/-- Overlong forms and surrogates are kept out by the second byte. -/
theorem exists_followers?_of_three (hlow : 0xE0 ≤ b.toNat) (hhigh : b.toNat < 0xF0) :
    ∃ second, followers? b = some [second, continuation] ∧
      ∀ d : UInt8, 0x80 ≤ d.toNat → d.toNat ≤ 0xBF → (b.toNat = 0xE0 → 0xA0 ≤ d.toNat) →
        (b.toNat = 0xED → d.toNat ≤ 0x9F) → second.contains d = true := by
  simp only [followers?, contains_eq_true_iff, UInt8.lt_iff_toNat_lt, UInt8.le_iff_toNat_le,
    ← UInt8.toNat_inj, UInt8.reduceToNat]
  rw [if_neg (by omega), if_neg (by omega), if_neg (by omega)]
  by_cases hoverlong : b.toNat = 0xE0
  · rw [if_pos hoverlong]
    exact ⟨_, rfl, fun d _ hd hlow _ => ⟨hlow hoverlong, hd⟩⟩
  · rw [if_neg hoverlong]
    by_cases hsurrogate : b.toNat = 0xED
    · rw [if_pos hsurrogate]
      exact ⟨_, rfl, fun d hd _ _ hhigh => ⟨hd, hhigh hsurrogate⟩⟩
    · rw [if_neg hsurrogate, if_pos hhigh]
      exact ⟨_, rfl, fun d hd hd' _ _ => ⟨hd, hd'⟩⟩

/-- Overlong forms and what is above `10FFFF` are kept out by the second byte. -/
theorem exists_followers?_of_four (hlow : 0xF0 ≤ b.toNat) (hhigh : b.toNat ≤ 0xF4) :
    ∃ second, followers? b = some [second, continuation, continuation] ∧
      ∀ d : UInt8, 0x80 ≤ d.toNat → d.toNat ≤ 0xBF → (b.toNat = 0xF0 → 0x90 ≤ d.toNat) →
        (b.toNat = 0xF4 → d.toNat ≤ 0x8F) → second.contains d = true := by
  simp only [followers?, contains_eq_true_iff, UInt8.lt_iff_toNat_lt, UInt8.le_iff_toNat_le,
    ← UInt8.toNat_inj, UInt8.reduceToNat]
  rw [if_neg (by omega), if_neg (by omega), if_neg (by omega), if_neg (by omega),
    if_neg (by omega), if_neg (by omega)]
  by_cases hoverlong : b.toNat = 0xF0
  · rw [if_pos hoverlong]
    exact ⟨_, rfl, fun d _ hd hlow _ => ⟨hlow hoverlong, hd⟩⟩
  · rw [if_neg hoverlong]
    by_cases hlast : b.toNat = 0xF4
    · rw [if_neg (by omega), if_pos hlast]
      exact ⟨_, rfl, fun d hd _ _ hhigh => ⟨hd, hhigh hlast⟩⟩
    · rw [if_pos (by omega)]
      exact ⟨_, rfl, fun d hd hd' _ _ => ⟨hd, hd'⟩⟩

end

/-- A lead byte with what has to follow it is one character, whatever comes next. -/
theorem units_of_contains {b : UInt8} {ranges : List ByteRange} {bytes : List UInt8}
    (hfollowers : followers? b = some ranges)
    (hbytes : List.Forall₂ (fun r d => r.contains d = true) ranges bytes) (more : List UInt8) :
    units (b :: bytes ++ more) = some (scalar b bytes) :: units more := by
  have hfitting : fitting ranges (bytes ++ more) = bytes := by
    clear hfollowers
    induction hbytes with
    | nil =>
      unfold fitting
      rfl
    | cons hd _ ih => rw [List.cons_append, fitting, if_pos hd, ih]
  rw [List.cons_append, units_of_followers? hfollowers, hfitting, if_pos hbytes.length_eq.symm,
    List.drop_left]

theorem continuation_contains {d : UInt8} (hlow : 0x80 ≤ d.toNat) (hhigh : d.toNat ≤ 0xBF) :
    continuation.contains d = true := by
  rw [contains_eq_true_iff, UInt8.le_iff_toNat_le, UInt8.le_iff_toNat_le]
  exact ⟨hlow, hhigh⟩

section
variable {c : Char} {b d e f : UInt8}

theorem units_of_two (hlow : 0x80 ≤ c.toNat) (hhigh : c.toNat ≤ 0x7FF)
    (hb : b.toNat = c.toNat / 64 % 0x20 + 0xC0) (hd : d.toNat = c.toNat % 0x40 + 0x80)
    (more : List UInt8) : units (b :: [d] ++ more) = some c :: units more := by
  have hvalue : b.toNat % 32 * 64 + d.toNat % 64 = c.toNat := by omega
  have hscalar : scalar b [d] = c := (congrArg Char.ofNat hvalue).trans (Char.ofNat_toNat c)
  have hfollowers : followers? b = some [continuation] :=
    followers?_of_two (by omega) (by omega)
  have hd : continuation.contains d = true := continuation_contains (by omega) (by omega)
  rw [units_of_contains hfollowers (.cons hd .nil), hscalar]

theorem units_of_three (hvalid : c.toNat < 0xD800 ∨ 0xDFFF < c.toNat) (hlow : 0x7FF < c.toNat)
    (hhigh : c.toNat ≤ 0xFFFF) (hb : b.toNat = c.toNat / 4096 % 0x10 + 0xE0)
    (hd : d.toNat = c.toNat / 64 % 0x40 + 0x80) (he : e.toNat = c.toNat % 0x40 + 0x80)
    (more : List UInt8) : units (b :: [d, e] ++ more) = some c :: units more := by
  have hvalue : (b.toNat % 16 * 64 + d.toNat % 64) * 64 + e.toNat % 64 = c.toNat := by omega
  have hscalar : scalar b [d, e] = c := (congrArg Char.ofNat hvalue).trans (Char.ofNat_toNat c)
  obtain ⟨second, hfollowers, hsecond⟩ :=
    exists_followers?_of_three (b := b) (by omega) (by omega)
  have hd : second.contains d = true := hsecond d (by omega) (by omega) (by omega) (by omega)
  have he : continuation.contains e = true := continuation_contains (by omega) (by omega)
  rw [units_of_contains hfollowers (.cons hd (.cons he .nil)), hscalar]

theorem units_of_four (hlow : 0xFFFF < c.toNat) (hhigh : c.toNat < 0x110000)
    (hb : b.toNat = c.toNat / 262144 % 0x08 + 0xF0) (hd : d.toNat = c.toNat / 4096 % 0x40 + 0x80)
    (he : e.toNat = c.toNat / 64 % 0x40 + 0x80) (hf : f.toNat = c.toNat % 0x40 + 0x80)
    (more : List UInt8) : units (b :: [d, e, f] ++ more) = some c :: units more := by
  have hvalue : ((b.toNat % 8 * 64 + d.toNat % 64) * 64 + e.toNat % 64) * 64 + f.toNat % 64 =
      c.toNat := by omega
  have hscalar : scalar b [d, e, f] = c := (congrArg Char.ofNat hvalue).trans (Char.ofNat_toNat c)
  obtain ⟨second, hfollowers, hsecond⟩ :=
    exists_followers?_of_four (b := b) (by omega) (by omega)
  have hd : second.contains d = true := hsecond d (by omega) (by omega) (by omega) (by omega)
  have he : continuation.contains e = true := continuation_contains (by omega) (by omega)
  have hf : continuation.contains f = true := continuation_contains (by omega) (by omega)
  rw [units_of_contains hfollowers (.cons hd (.cons he (.cons hf .nil))), hscalar]

end

theorem toNat_valid (c : Char) : c.toNat < 0xD800 ∨ 0xDFFF < c.toNat ∧ c.toNat < 0x110000 :=
  c.valid

/-- The bytes of a character are read as that character. -/
theorem units_encodeChar (c : Char) (more : List UInt8) :
    units (String.utf8EncodeChar c ++ more) = some c :: units more := by
  have hvalid := toNat_valid c
  have hofNat {n : Nat} (hn : n < 256) : (UInt8.ofNat n).toNat = n := UInt8.toNat_ofNat_of_lt' hn
  fun_cases String.utf8EncodeChar c
  · next v hv =>
    have hb : (UInt8.ofNat v).toNat = c.toNat := hofNat (by omega)
    have hfollowers : followers? (UInt8.ofNat v) = some [] := by
      rw [followers?, if_pos]
      rw [UInt8.lt_iff_toNat_lt, hb]
      exact Nat.lt_succ_of_le hv
    have hscalar : scalar (UInt8.ofNat v) [] = c :=
      (congrArg Char.ofNat hb).trans (Char.ofNat_toNat c)
    rw [units_of_contains hfollowers .nil, hscalar]
  · next v hv hv' =>
    have hv : 0x80 ≤ c.toNat := Nat.lt_of_not_le hv
    exact units_of_two hv hv' (hofNat (by omega)) (hofNat (by omega)) more
  · next v hv hv' hv'' =>
    have hv' : 0x7FF < c.toNat := Nat.lt_of_not_le hv'
    exact units_of_three (by omega) hv' hv'' (hofNat (by omega)) (hofNat (by omega))
      (hofNat (by omega)) more
  · next v hv hv' hv'' =>
    have hv'' : 0xFFFF < c.toNat := Nat.lt_of_not_le hv''
    exact units_of_four hv'' (by omega) (hofNat (by omega)) (hofNat (by omega))
      (hofNat (by omega)) (hofNat (by omega)) more

theorem units_encode (text : String) : units (encode text) = text.toList.map some := by
  rw [encode]
  induction text.toList with
  | nil => rw [List.flatMap_nil, units, List.map_nil]
  | cons c text ih => rw [List.flatMap_cons, units_encodeChar, ih, List.map_cons]

theorem lossy_encode (text : String) : lossy (encode text) = text := by
  rw [lossy, units_encode, List.map_map]
  exact (congrArg String.ofList (List.map_id _)).trans String.ofList_toList

theorem length_encode_le {text : String} {front back : List Char}
    (htext : text.toList = front ++ back) :
    (encode (String.ofList front)).length ≤ (encode text).length := by
  have htext : text = String.ofList front ++ String.ofList back := by
    rw [← String.toList_inj, htext]
    simp
  rw [htext, encode_append, List.length_append]
  exact Nat.le_add_right _ _

/-- A plain byte is no part of any character but the one it is. -/
theorem eq_ofUInt8_of_mem_encodeChar {b : UInt8} {c : Char} (h : b ∈ String.utf8EncodeChar c)
    (hb : b < 0x80) : c = Char.ofUInt8 b := by
  have hb : b.toNat < 0x80 := UInt8.lt_iff_toNat_lt.1 hb
  have hbyte {n : Nat} (hn : 0x80 ≤ n % 256) : b ≠ UInt8.ofNat n := by
    rintro rfl
    rw [UInt8.toNat_ofNat'] at hb
    exact Nat.not_lt_of_le hn hb
  revert h
  fun_cases String.utf8EncodeChar c
  all_goals simp only [List.mem_cons, List.not_mem_nil, or_false]
  · next v hv =>
    intro h
    have hvalue : b.toNat = c.toNat := by
      rw [h]
      exact UInt8.toNat_ofNat_of_lt' (Nat.lt_of_le_of_lt hv (by decide))
    rw [← ofNat_toNat_eq, hvalue, Char.ofNat_toNat]
  · rintro (h | h)
    all_goals exact absurd h (hbyte (by omega))
  · rintro (h | h | h)
    all_goals exact absurd h (hbyte (by omega))
  · rintro (h | h | h | h)
    all_goals exact absurd h (hbyte (by omega))

theorem zero_not_mem_encodeChar {c : Char} (h : c ≠ '\x00') : 0 ∉ String.utf8EncodeChar c :=
  fun hzero => h (eq_ofUInt8_of_mem_encodeChar hzero (by decide))

theorem mem_encode_iff {b : UInt8} {text : String} (hb : b < 0x80) :
    b ∈ encode text ↔ Char.ofUInt8 b ∈ text.toList := by
  rw [encode, List.mem_flatMap]
  constructor
  · rintro ⟨c, hc, hmem⟩
    rwa [← eq_ofUInt8_of_mem_encodeChar hmem hb]
  · intro h
    refine ⟨_, h, ?_⟩
    rw [utf8EncodeChar_ofUInt8 hb]
    exact List.mem_singleton_self b

theorem getLast?_encode_eq_some_iff {b : UInt8} {text : String} (hb : b < 0x80) :
    (encode text).getLast? = some b ↔ text.toList.getLast? = some (Char.ofUInt8 b) := by
  rw [encode]
  rcases List.eq_nil_or_concat text.toList with htext | ⟨front, c, htext⟩
  · simp [htext]
  · have hlast : (String.utf8EncodeChar c).getLast? = some b ↔ c = Char.ofUInt8 b := by
      constructor
      · exact fun h => eq_ofUInt8_of_mem_encodeChar (List.mem_of_getLast? h) hb
      · rintro rfl
        rw [utf8EncodeChar_ofUInt8 hb]
        rfl
    have hne : String.utf8EncodeChar c ≠ [] := by
      rw [← List.length_pos_iff, String.length_utf8EncodeChar]
      exact c.utf8Size_pos
    rw [htext, List.concat_eq_append, List.flatMap_append, List.flatMap_singleton,
      List.getLast?_append_of_ne_nil _ hne, hlast, List.getLast?_concat, Option.some.injEq]

/-- A text ends for bytes where it ends for characters. -/
theorem takeWhile_encode (text : String) :
    (encode text).takeWhile (· ≠ 0) =
      encode (String.ofList (text.toList.takeWhile (· ≠ '\x00'))) := by
  rw [encode, encode, String.toList_ofList]
  induction text.toList with
  | nil => rfl
  | cons c text ih =>
    by_cases hc : c = '\x00'
    · subst hc
      rfl
    · have hbytes : ∀ b ∈ String.utf8EncodeChar c, decide (b ≠ 0) = true := by
        intro b hb
        exact decide_eq_true (ne_of_mem_of_not_mem hb (zero_not_mem_encodeChar hc))
      rw [List.flatMap_cons, List.takeWhile_append_of_pos hbytes, ih, List.takeWhile_cons,
        if_pos (decide_eq_true hc), List.flatMap_cons]

end LetLang.Utf8
