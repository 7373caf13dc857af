import LetLang.Proofs.Text.Encoding

/-! Strict reading takes what writing produces, and nothing else: a well-formed sequence is the one
that its character is written as. -/
namespace LetLang.Utf8

theorem toNat_ofNat {n : Nat} (h : n.isValidChar) : (Char.ofNat n).toNat = n := by
  rw [Char.ofNat, dif_pos h]
  rfl

/-- The lead bytes, by how many bytes follow them. -/
theorem followers?_cases {b : UInt8} {ranges : List ByteRange} (h : followers? b = some ranges) :
    (b.toNat < 0x80 ∧ ranges = []) ∨
    (0xC2 ≤ b.toNat ∧ b.toNat < 0xE0 ∧ ranges = [continuation]) ∨
    (0xE0 ≤ b.toNat ∧ b.toNat < 0xF0 ∧ ∃ second, ranges = [second, continuation] ∧
      0x80 ≤ second.low.toNat ∧ second.high.toNat ≤ 0xBF ∧
      (b.toNat = 0xE0 → 0xA0 ≤ second.low.toNat) ∧
      (b.toNat = 0xED → second.high.toNat ≤ 0x9F)) ∨
    (0xF0 ≤ b.toNat ∧ b.toNat ≤ 0xF4 ∧ ∃ second, ranges = [second, continuation, continuation] ∧
      0x80 ≤ second.low.toNat ∧ second.high.toNat ≤ 0xBF ∧
      (b.toNat = 0xF0 → 0x90 ≤ second.low.toNat) ∧
      (b.toNat = 0xF4 → second.high.toNat ≤ 0x8F)) := by
  simp only [followers?, UInt8.lt_iff_toNat_lt, ← UInt8.toNat_inj, UInt8.reduceToNat] at h
  repeat' split at h
  all_goals
    cases h
    try simp [continuation]
    try omega

theorem continuation_bounds {d : UInt8} (h : continuation.contains d = true) :
    0x80 ≤ d.toNat ∧ d.toNat ≤ 0xBF := by
  rw [contains_eq_true_iff, UInt8.le_iff_toNat_le, UInt8.le_iff_toNat_le] at h
  exact h

theorem ofNat_eq_of_toNat {b : UInt8} {n : Nat} (h : b.toNat = n) : UInt8.ofNat n = b := by
  rw [← h, UInt8.ofNat_toNat]

section
variable {c : Char} {b d e f : UInt8}

theorem encodeChar_of_one (hhigh : c.toNat < 0x80) (hb : b.toNat = c.toNat) :
    String.utf8EncodeChar c = [b] := by
  have hhigh : c.val.toNat ≤ 0x7F := Nat.le_of_lt_succ hhigh
  have hb : UInt8.ofNat c.val.toNat = b := ofNat_eq_of_toNat hb
  unfold String.utf8EncodeChar
  rw [if_pos hhigh, hb]

theorem encodeChar_of_two (hlow : 0x80 ≤ c.toNat) (hhigh : c.toNat ≤ 0x7FF)
    (hb : b.toNat = c.toNat / 64 % 0x20 + 0xC0) (hd : d.toNat = c.toNat % 0x40 + 0x80) :
    String.utf8EncodeChar c = [b, d] := by
  have hlow : ¬c.val.toNat ≤ 0x7F := Nat.not_le_of_lt hlow
  have hhigh : c.val.toNat ≤ 0x7FF := hhigh
  have hb : UInt8.ofNat (c.val.toNat / 64 % 0x20 + 0xC0) = b := ofNat_eq_of_toNat hb
  have hd : UInt8.ofNat (c.val.toNat % 0x40 + 0x80) = d := ofNat_eq_of_toNat hd
  unfold String.utf8EncodeChar
  rw [if_neg hlow, if_pos hhigh, hb, hd]

theorem encodeChar_of_three (hlow : 0x7FF < c.toNat) (hhigh : c.toNat ≤ 0xFFFF)
    (hb : b.toNat = c.toNat / 4096 % 0x10 + 0xE0) (hd : d.toNat = c.toNat / 64 % 0x40 + 0x80)
    (he : e.toNat = c.toNat % 0x40 + 0x80) : String.utf8EncodeChar c = [b, d, e] := by
  have hlow : 0x7FF < c.val.toNat := hlow
  have hhigh : c.val.toNat ≤ 0xFFFF := hhigh
  have hb : UInt8.ofNat (c.val.toNat / 4096 % 0x10 + 0xE0) = b := ofNat_eq_of_toNat hb
  have hd : UInt8.ofNat (c.val.toNat / 64 % 0x40 + 0x80) = d := ofNat_eq_of_toNat hd
  have he : UInt8.ofNat (c.val.toNat % 0x40 + 0x80) = e := ofNat_eq_of_toNat he
  unfold String.utf8EncodeChar
  rw [if_neg (by omega), if_neg (by omega), if_pos hhigh, hb, hd, he]

theorem encodeChar_of_four (hlow : 0xFFFF < c.toNat)
    (hb : b.toNat = c.toNat / 262144 % 0x08 + 0xF0) (hd : d.toNat = c.toNat / 4096 % 0x40 + 0x80)
    (he : e.toNat = c.toNat / 64 % 0x40 + 0x80) (hf : f.toNat = c.toNat % 0x40 + 0x80) :
    String.utf8EncodeChar c = [b, d, e, f] := by
  have hlow : 0xFFFF < c.val.toNat := hlow
  have hb : UInt8.ofNat (c.val.toNat / 262144 % 0x08 + 0xF0) = b := ofNat_eq_of_toNat hb
  have hd : UInt8.ofNat (c.val.toNat / 4096 % 0x40 + 0x80) = d := ofNat_eq_of_toNat hd
  have he : UInt8.ofNat (c.val.toNat / 64 % 0x40 + 0x80) = e := ofNat_eq_of_toNat he
  have hf : UInt8.ofNat (c.val.toNat % 0x40 + 0x80) = f := ofNat_eq_of_toNat hf
  unfold String.utf8EncodeChar
  rw [if_neg (by omega), if_neg (by omega), if_neg (by omega), hb, hd, he, hf]

end

/-- A well-formed sequence is the one that its character is written as. -/
theorem encodeChar_scalar {b : UInt8} {ranges : List ByteRange} {bytes : List UInt8}
    (hfollowers : followers? b = some ranges)
    (hbytes : List.Forall₂ (fun r d => r.contains d = true) ranges bytes) :
    String.utf8EncodeChar (scalar b bytes) = b :: bytes := by
  rcases followers?_cases hfollowers with ⟨hhigh, rfl⟩ | ⟨hlow, hhigh, rfl⟩ |
    ⟨hlow, hhigh, second, rfl, hsecond⟩ | ⟨hlow, hhigh, second, rfl, hsecond⟩
  · cases hbytes
    have hvalid : b.toNat.isValidChar := .inl (by omega)
    have hvalue : (scalar b []).toNat = b.toNat := toNat_ofNat hvalid
    exact encodeChar_of_one (by omega) hvalue.symm
  · obtain _ | @⟨_, d, _, _, hd, ⟨⟩⟩ := hbytes
    have hd := continuation_bounds hd
    have hvalid : (b.toNat % 32 * 64 + d.toNat % 64).isValidChar := .inl (by omega)
    have hvalue : (scalar b [d]).toNat = b.toNat % 32 * 64 + d.toNat % 64 := toNat_ofNat hvalid
    apply encodeChar_of_two <;> omega
  · obtain _ | @⟨_, d, _, _, hd, _ | @⟨_, e, _, _, he, ⟨⟩⟩⟩ := hbytes
    have he := continuation_bounds he
    rw [contains_eq_true_iff, UInt8.le_iff_toNat_le, UInt8.le_iff_toNat_le] at hd
    have hvalid : ((b.toNat % 16 * 64 + d.toNat % 64) * 64 + e.toNat % 64).isValidChar := by
      unfold Nat.isValidChar
      omega
    have hvalue : (scalar b [d, e]).toNat =
        (b.toNat % 16 * 64 + d.toNat % 64) * 64 + e.toNat % 64 := toNat_ofNat hvalid
    apply encodeChar_of_three <;> omega
  · obtain _ | @⟨_, d, _, _, hd, _ | @⟨_, e, _, _, he, _ | @⟨_, f, _, _, hf, ⟨⟩⟩⟩⟩ := hbytes
    have he := continuation_bounds he
    have hf := continuation_bounds hf
    rw [contains_eq_true_iff, UInt8.le_iff_toNat_le, UInt8.le_iff_toNat_le] at hd
    have hvalid : (((b.toNat % 8 * 64 + d.toNat % 64) * 64 + e.toNat % 64) * 64 +
        f.toNat % 64).isValidChar := by
      unfold Nat.isValidChar
      omega
    have hvalue : (scalar b [d, e, f]).toNat =
        ((b.toNat % 8 * 64 + d.toNat % 64) * 64 + e.toNat % 64) * 64 + f.toNat % 64 :=
      toNat_ofNat hvalid
    apply encodeChar_of_four <;> omega

theorem forall₂_fitting {ranges : List ByteRange} {bytes : List UInt8}
    (h : (fitting ranges bytes).length = ranges.length) :
    List.Forall₂ (fun r d => r.contains d = true) ranges (fitting ranges bytes) := by
  fun_induction fitting ranges bytes with
  | case1 r ranges b bytes hb ih => exact .cons hb (ih (Nat.succ.inj h))
  | case2 => cases h
  | case3 =>
    cases List.eq_nil_of_length_eq_zero h.symm
    exact .nil

/-- A character that is read was written in front of what is read next. -/
theorem exists_eq_encodeChar_append {bytes : List UInt8} {c : Char} {us : List (Option Char)}
    (h : units bytes = some c :: us) :
    ∃ more, bytes = String.utf8EncodeChar c ++ more ∧ units more = us := by
  cases bytes with
  | nil =>
    rw [units] at h
    cases h
  | cons b bytes =>
    cases hfollowers : followers? b with
    | none =>
      rw [units_of_followers?_eq_none hfollowers] at h
      cases h
    | some ranges =>
      rw [units_of_followers? hfollowers] at h
      obtain ⟨hhead, htail⟩ := List.cons.inj h
      split at hhead
      · next hfits =>
        cases hhead
        refine ⟨_, ?_, htail⟩
        rw [encodeChar_scalar hfollowers (forall₂_fitting hfits), List.cons_append,
          List.prefix_iff_eq_append.1 (fitting_isPrefix ranges bytes)]
      · cases hhead

/-- Bytes that are read as characters are what these are written as. -/
theorem units_eq_map_some_iff {bytes : List UInt8} {cs : List Char} :
    units bytes = cs.map some ↔ bytes = encode (String.ofList cs) := by
  constructor
  · intro h
    induction cs generalizing bytes with
    | nil =>
      cases bytes with
      | nil => rfl
      | cons b bytes =>
        rw [units] at h
        split at h <;> cases h
    | cons c cs ih =>
      obtain ⟨more, rfl, hmore⟩ := exists_eq_encodeChar_append h
      rw [ih hmore, encode, encode, String.toList_ofList, String.toList_ofList, List.flatMap_cons]
  · rintro rfl
    rw [units_encode, String.toList_ofList]

theorem mapM_id_eq_some_iff {us : List (Option Char)} {cs : List Char} :
    us.mapM id = some cs ↔ us = cs.map some := by
  induction us generalizing cs with
  | nil => cases cs <;> simp
  | cons u us ih =>
    rw [List.mapM_cons, id, Option.bind_eq_bind, Option.bind_eq_some_iff]
    constructor
    · rintro ⟨c, rfl, h⟩
      obtain ⟨cs', hcs', h⟩ := Option.bind_eq_some_iff.1 h
      cases h
      rw [ih.1 hcs', List.map_cons]
    · intro h
      cases cs with
      | nil => cases h
      | cons c cs =>
        obtain ⟨rfl, hus⟩ := List.cons.inj h
        exact ⟨c, rfl, Option.bind_eq_some_iff.2 ⟨cs, ih.2 hus, rfl⟩⟩

/-- Strict reading takes just what texts are written as, and gives the text back. -/
theorem decode?_eq_some_iff {bytes : List UInt8} {text : String} :
    decode? bytes = some text ↔ bytes = encode text := by
  rw [decode?, Option.map_eq_some_iff]
  constructor
  · rintro ⟨cs, hcs, rfl⟩
    exact units_eq_map_some_iff.1 (mapM_id_eq_some_iff.1 hcs)
  · rintro rfl
    exact ⟨text.toList, mapM_id_eq_some_iff.2 (units_encode text), String.ofList_toList⟩

end LetLang.Utf8
