import LetLang.Text.Utf8

/-! Cuts that reading respects. Bytes that are cut behind a whole sequence, or in front of a byte
that goes on no sequence, are read part by part. -/
namespace LetLang.Utf8

variable {b d : UInt8} {bytes front more : List UInt8} {ranges : List ByteRange}

theorem contains_eq_true_iff {r : ByteRange} : r.contains d = true ↔ r.low ≤ d ∧ d ≤ r.high := by
  rw [ByteRange.contains, Bool.and_eq_true, decide_eq_true_eq, decide_eq_true_eq]

/-- What may follow a lead byte is a continuation byte at every place. -/
theorem contains_continuation_of_mem (h : followers? b = some ranges) {r : ByteRange}
    (hr : r ∈ ranges) (hd : r.contains d = true) : continuation.contains d = true := by
  have hbounds : ∀ r ∈ ranges, 0x80 ≤ r.low ∧ r.high ≤ 0xBF := by
    unfold followers? at h
    repeat' split at h
    all_goals
      cases h
      try decide
  obtain ⟨hlow, hhigh⟩ := hbounds r hr
  rw [contains_eq_true_iff] at hd ⊢
  exact ⟨UInt8.le_trans hlow hd.1, UInt8.le_trans hd.2 hhigh⟩

/-- A continuation byte leads no sequence. -/
theorem followers?_of_continuation (h : continuation.contains b = true) : followers? b = none := by
  obtain ⟨hlow, hhigh⟩ := contains_eq_true_iff.1 h
  have hlow : ¬b < 0x80 := UInt8.not_lt.2 hlow
  have hhigh : b < 0xC2 := UInt8.lt_of_le_of_lt hhigh (by decide)
  rw [followers?, if_neg hlow, if_pos hhigh]

theorem width_of_continuation (h : continuation.contains b = true) : width b = 1 := by
  rw [width, followers?_of_continuation h]

theorem width_of_lt (h : b < 0x80) : width b = 1 := by
  rw [width, followers?, if_pos h]
  rfl

theorem width_eq (h : followers? b = some ranges) : width b = ranges.length + 1 := by
  rw [width, h]

theorem units_of_followers?_eq_none (h : followers? b = none) (bytes : List UInt8) :
    units (b :: bytes) = none :: units bytes := by
  rw [units, h]

theorem units_of_followers? (h : followers? b = some ranges) (bytes : List UInt8) :
    units (b :: bytes) =
      (if (fitting ranges bytes).length = ranges.length then
        some (scalar b (fitting ranges bytes)) else none) ::
      units (bytes.drop (fitting ranges bytes).length) := by
  rw [units, h]

/-- A byte that takes no other is read on its own. -/
theorem units_of_width (h : width b = 1) (more : List UInt8) :
    units (b :: more) = units [b] ++ units more := by
  cases hfollowers : followers? b with
  | none =>
    rw [units_of_followers?_eq_none hfollowers, units_of_followers?_eq_none hfollowers, units]
    rfl
  | some ranges =>
    have hranges : ranges = [] := by
      rw [width_eq hfollowers] at h
      exact List.eq_nil_of_length_eq_zero (Nat.succ.inj h)
    subst hranges
    have hfitting (bytes : List UInt8) : fitting [] bytes = [] := by
      unfold fitting
      rfl
    rw [units_of_followers? hfollowers, units_of_followers? hfollowers, hfitting, hfitting,
      List.length_nil, List.drop_zero, List.drop_zero, units]
    rfl

theorem units_append_of_width (h : ∀ b ∈ front, width b = 1) :
    units (front ++ more) = units front ++ units more := by
  induction front with
  | nil => rw [units, List.nil_append, List.nil_append]
  | cons b front ih =>
    have hb := h b List.mem_cons_self
    rw [List.cons_append, units_of_width hb, units_of_width hb front,
      ih fun d hd => h d (List.mem_cons_of_mem b hd), List.append_assoc]

/-- What stands behind a sequence that lacks bytes changes nothing about it, unless it goes on. -/
theorem fitting_append
    (hranges : ∀ r ∈ ranges, ∀ d, r.contains d = true → continuation.contains d = true)
    (hnext : bytes.length < ranges.length → ∀ d ∈ more.head?, continuation.contains d = false) :
    fitting ranges (bytes ++ more) = fitting ranges bytes := by
  fun_induction fitting ranges bytes with
  | case1 r ranges b bytes hb ih =>
    rw [List.cons_append, fitting, if_pos hb]
    rw [ih (fun r hr => hranges r (List.mem_cons_of_mem _ hr))
      fun hlt => hnext (Nat.succ_lt_succ hlt)]
  | case2 r ranges b bytes hb => rw [List.cons_append, fitting, if_neg hb]
  | case3 ranges bytes hcons =>
    cases ranges with
    | nil =>
      unfold fitting
      rfl
    | cons r ranges =>
      cases bytes with
      | cons b bytes => exact absurd rfl (hcons r ranges b bytes rfl)
      | nil =>
        cases more with
        | nil =>
          unfold fitting
          rfl
        | cons d more =>
          have hd := hnext (Nat.succ_pos _) d rfl
          rw [List.nil_append, fitting, if_neg]
          intro hcontains
          rw [hranges r List.mem_cons_self d hcontains] at hd
          cases hd

/-- A sequence that is as long as its lead byte lets it be, or is not gone on with, is read on
its own. -/
theorem units_append_of_lead (hbytes : ∀ d ∈ bytes, continuation.contains d = true)
    (hnext : bytes.length < width b - 1 → ∀ d ∈ more.head?, continuation.contains d = false) :
    units (b :: bytes ++ more) = units (b :: bytes) ++ units more := by
  have hcut {back : List UInt8} (hback : ∀ d ∈ back, continuation.contains d = true) :
      units (back ++ more) = units back ++ units more :=
    units_append_of_width fun d hd => width_of_continuation (hback d hd)
  cases hfollowers : followers? b with
  | none =>
    rw [List.cons_append, units_of_followers?_eq_none hfollowers,
      units_of_followers?_eq_none hfollowers, hcut hbytes, List.cons_append]
  | some ranges =>
    rw [width_eq hfollowers, Nat.add_sub_cancel] at hnext
    have hfitting : fitting ranges (bytes ++ more) = fitting ranges bytes :=
      fitting_append (fun r hr d => contains_continuation_of_mem hfollowers hr) hnext
    have hback : ∀ d ∈ bytes.drop (fitting ranges bytes).length, continuation.contains d = true :=
      fun d hd => hbytes d (List.mem_of_mem_drop hd)
    rw [List.cons_append, units_of_followers? hfollowers, units_of_followers? hfollowers, hfitting,
      List.drop_append_of_le_length (fitting_isPrefix ranges bytes).length_le, hcut hback,
      List.cons_append]

/-- A lead byte with no more than may follow it is one character, if it is well-formed. -/
theorem exists_units_eq_singleton (hlength : bytes.length ≤ width b - 1)
    (hformed : none ∉ units (b :: bytes)) : ∃ c, units (b :: bytes) = [some c] := by
  cases hfollowers : followers? b with
  | none =>
    rw [units_of_followers?_eq_none hfollowers] at hformed
    exact absurd List.mem_cons_self hformed
  | some ranges =>
    rw [units_of_followers? hfollowers] at hformed ⊢
    by_cases hfits : (fitting ranges bytes).length = ranges.length
    · rw [width_eq hfollowers, Nat.add_sub_cancel] at hlength
      rw [if_pos hfits, hfits, List.drop_eq_nil_of_le hlength, units]
      exact ⟨_, rfl⟩
    · rw [if_neg hfits] at hformed
      exact absurd List.mem_cons_self hformed

theorem lossy_append_of_units (h : units (front ++ more) = units front ++ units more) :
    lossy (front ++ more) = lossy front ++ lossy more := by
  rw [lossy, h, List.map_append, String.ofList_append, lossy, lossy]

end LetLang.Utf8
