import LetLang.Location
import Mathlib.Data.List.Induction
import Mathlib.Order.Defs.PartialOrder

/-! Places along a text. Each line feed starts the next line, a text put below other lines keeps
its columns, and as long as no counter wraps every byte moves on. -/
namespace LetLang.Location

def lineFeeds (bytes : List UInt8) : Nat := bytes.count 0x0A

@[simp] theorem lineFeeds_nil : lineFeeds [] = 0 := rfl

theorem lineFeeds_le_length (bytes : List UInt8) : lineFeeds bytes ≤ bytes.length :=
  List.count_le_length

theorem lineFeeds_lineFeed (bytes : List UInt8) :
    lineFeeds (0x0A :: bytes) = lineFeeds bytes + 1 :=
  List.count_cons_self

theorem lineFeeds_cons_of_ne {b : UInt8} (h : b ≠ 0x0A) (bytes : List UInt8) :
    lineFeeds (b :: bytes) = lineFeeds bytes :=
  List.count_cons_of_ne h

/-- The place `n` lines further down, in the same column. -/
def down (n : Nat) (a : Location) : Location := ⟨a.line + UInt32.ofNat n, a.column⟩

theorem down_injective (n : Nat) : Function.Injective (down n) := by
  intro a b h
  obtain ⟨hline, hcolumn⟩ := Location.mk.inj h
  cases a
  cases b
  congr 1
  exact (UInt32.add_left_inj _).1 hline

theorem after_down (n : Nat) (a : Location) (b : UInt8) :
    (a.down n).after b = (a.after b).down n := by
  unfold after
  split
  · have hline : a.line + UInt32.ofNat n + 1 = a.line + 1 + UInt32.ofNat n := by
      rw [UInt32.add_assoc, UInt32.add_assoc, UInt32.add_comm 1]
    rw [down, hline]
    rfl
  · rfl

theorem afterAll_down (n : Nat) (a : Location) (bytes : List UInt8) :
    (a.down n).afterAll bytes = (a.afterAll bytes).down n := by
  induction bytes generalizing a with
  | nil => rfl
  | cons b bytes ih => rw [afterAll_cons, after_down, ih, afterAll_cons]

theorem line_afterAll (a : Location) (bytes : List UInt8) :
    (a.afterAll bytes).line = a.line + UInt32.ofNat (lineFeeds bytes) := by
  induction bytes generalizing a with
  | nil => simp
  | cons b bytes ih =>
    rw [afterAll_cons, ih]
    by_cases h : b = 0x0A
    · rw [h, lineFeeds_lineFeed, after, if_pos rfl, UInt32.add_assoc, Nat.add_comm,
        UInt32.ofNat_add]
      rfl
    · rw [lineFeeds_cons_of_ne h, after, if_neg h]

/-- As long as the line feeds can be counted, no line number wraps. -/
theorem toNat_line_start_afterAll {bytes : List UInt8} (h : lineFeeds bytes + 1 < UInt32.size) :
    (start.afterAll bytes).line.toNat = lineFeeds bytes + 1 := by
  have hone : start.line = UInt32.ofNat 1 := rfl
  rw [line_afterAll, hone, ← UInt32.ofNat_add, UInt32.toNat_ofNat_of_lt' (by rwa [Nat.add_comm]),
    Nat.add_comm]

/-- The bytes behind the last line feed, or all bytes if there is none. -/
def lastLine (bytes : List UInt8) : List UInt8 := (bytes.reverse.takeWhile (· ≠ 0x0A)).reverse

theorem lastLine_append_lineFeed (bytes : List UInt8) : lastLine (bytes ++ [0x0A]) = [] := by
  simp [lastLine]

theorem lastLine_append_of_ne {b : UInt8} (h : b ≠ 0x0A) (bytes : List UInt8) :
    lastLine (bytes ++ [b]) = lastLine bytes ++ [b] := by
  simp [lastLine, h]

theorem lastLine_append_of_not_mem {back : List UInt8} (h : 0x0A ∉ back) (front : List UInt8) :
    lastLine (front ++ back) = lastLine front ++ back := by
  have hback : ∀ b ∈ back.reverse, decide (b ≠ 0x0A) = true := fun b hb =>
    decide_eq_true (ne_of_mem_of_not_mem (List.mem_reverse.1 hb) h)
  rw [lastLine, List.reverse_append, List.takeWhile_append_of_pos hback, List.reverse_append,
    List.reverse_reverse, lastLine]

theorem lastLine_length_le (bytes : List UInt8) : (lastLine bytes).length ≤ bytes.length := by
  have hle := (List.takeWhile_prefix (· ≠ (0x0A : UInt8)) (l := bytes.reverse)).length_le
  rw [List.length_reverse] at hle
  rwa [lastLine, List.length_reverse]

/-- The last byte decides what the column goes by, so the induction takes bytes off the back. -/
theorem column_start_afterAll (bytes : List UInt8) :
    (start.afterAll bytes).column = start.column + UInt32.ofNat (lastLine bytes).length := by
  induction bytes using List.reverseRecOn with
  | nil => rfl
  | append_singleton front b ih =>
    rw [afterAll_append, afterAll_cons, afterAll_nil, after]
    by_cases hb : b = 0x0A
    · subst hb
      rw [if_pos rfl, lastLine_append_lineFeed]
      rfl
    · rw [if_neg hb, lastLine_append_of_ne hb, List.length_append, UInt32.ofNat_add, ih,
        UInt32.add_assoc]
      rfl

/-- Bytes without a line feed lead along the first line. -/
theorem start_afterAll_of_not_mem {bytes : List UInt8} (h : 0x0A ∉ bytes) :
    start.afterAll bytes = ⟨1, 1 + UInt32.ofNat bytes.length⟩ := by
  have hlines : lineFeeds bytes = 0 := List.count_eq_zero_of_not_mem h
  have hlast : lastLine bytes = bytes := lastLine_append_of_not_mem h []
  have hline := line_afterAll start bytes
  have hcolumn := column_start_afterAll bytes
  rw [hlines] at hline
  rw [hlast] at hcolumn
  exact congrArg₂ Location.mk hline hcolumn

/-- The place in a text that the bytes are put in front of, whose lines it then stands below. On the
first line it also stands behind what is left of them on their last one. -/
def behind (front : List UInt8) (a : Location) : Location where
  line := a.line + UInt32.ofNat (lineFeeds front)
  column := if a.line = 1 then a.column + UInt32.ofNat (lastLine front).length else a.column

theorem behind_start (front : List UInt8) : start.behind front = start.afterAll front := by
  rw [behind, ← column_start_afterAll, ← line_afterAll]
  rfl

/-- A line feed leads to no first line, unless the counter wraps. -/
theorem after_behind {a : Location} (h : a.line ≠ 0) (front : List UInt8) (b : UInt8) :
    (a.behind front).after b = (a.after b).behind front := by
  unfold after
  split
  · have hline : a.line + 1 ≠ 1 := by rwa [ne_eq, UInt32.add_eq_right]
    rw [behind, behind, if_neg hline, UInt32.add_assoc, UInt32.add_assoc, UInt32.add_comm 1]
  · rw [behind, behind]
    split
    · rw [UInt32.add_assoc, UInt32.add_assoc, UInt32.add_comm 1]
    · rfl

theorem afterAll_start_afterAll (front : List UInt8) {bytes : List UInt8}
    (h : lineFeeds bytes + 1 < UInt32.size) :
    (start.afterAll front).afterAll bytes = (start.afterAll bytes).behind front := by
  induction bytes using List.reverseRecOn with
  | nil => exact (behind_start front).symm
  | append_singleton bytes b ih =>
    have hle : lineFeeds bytes ≤ lineFeeds (bytes ++ [b]) := (List.sublist_append_left _ _).count_le _
    have hline : (start.afterAll bytes).line.toNat = lineFeeds bytes + 1 :=
      toNat_line_start_afterAll (by omega)
    have hne : (start.afterAll bytes).line ≠ 0 := by
      intro hzero
      rw [hzero] at hline
      cases hline
    rw [afterAll_append, afterAll_append, ih (by omega), afterAll_cons, afterAll_nil,
      after_behind hne, afterAll_cons, afterAll_nil]

theorem toNat_add_ofNat {x : UInt32} {n : Nat} (h : x.toNat + n < UInt32.size) :
    (x + UInt32.ofNat n).toNat = x.toNat + n := by
  have hn : n < UInt32.size := by omega
  have hsum : (x + UInt32.ofNat n).toNat = (x.toNat + (UInt32.ofNat n).toNat) % UInt32.size :=
    UInt32.toNat_add _ _
  rw [hsum, UInt32.toNat_ofNat_of_lt' hn, Nat.mod_eq_of_lt h]

theorem toNat_line_down {a : Location} {n : Nat} (h : a.line.toNat + n < UInt32.size) :
    (a.down n).line.toNat = a.line.toNat + n :=
  toNat_add_ofNat h

theorem toNat_behind {a : Location} {front : List UInt8}
    (hline : a.line.toNat + lineFeeds front < UInt32.size)
    (hcolumn : a.column.toNat + (lastLine front).length < UInt32.size) :
    (a.behind front).line.toNat = a.line.toNat + lineFeeds front ∧
      (a.behind front).column.toNat =
        if a.line = 1 then a.column.toNat + (lastLine front).length else a.column.toNat := by
  refine ⟨toNat_add_ofNat hline, ?_⟩
  rw [behind]
  split
  · exact toNat_add_ofNat hcolumn
  · rfl

instance : PartialOrder Location where
  le_refl a := .inr rfl
  le_trans a b c := by
    rintro (hab | rfl) hbc
    · rcases hbc with hbc | rfl
      · exact .inl (lt_trans hab hbc)
      · exact .inl hab
    · exact hbc
  lt_iff_le_not_ge a b := by
    constructor
    · intro hab
      refine ⟨.inl hab, ?_⟩
      rintro (hba | rfl)
      · exact lt_irrefl a (lt_trans hab hba)
      · exact lt_irrefl b hab
    · rintro ⟨hab | rfl, hba⟩
      · exact hab
      · exact absurd (.inr rfl) hba
  le_antisymm a b := by
    rintro (hab | rfl) hba
    · rcases hba with hba | rfl
      · exact absurd (lt_trans hab hba) (lt_irrefl a)
      · rfl
    · rfl

/-- Over the next `n` bytes neither counter wraps. -/
def HasRoom (n : Nat) (a : Location) : Prop :=
  a.line.toNat + n < UInt32.size ∧ a.column.toNat + n < UInt32.size

theorem hasRoom_start {n : Nat} (h : n < UInt32.size - 1) : start.HasRoom n := by
  change 1 + n < UInt32.size ∧ 1 + n < UInt32.size
  omega

theorem HasRoom.mono {m n : Nat} {a : Location} (h : a.HasRoom n) (hle : m ≤ n) : a.HasRoom m := by
  unfold HasRoom at h ⊢
  omega

section
variable {a : Location} {n : Nat} {bytes : List UInt8}

theorem toNat_add_one {x : UInt32} (h : x.toNat + 1 < UInt32.size) :
    (x + 1).toNat = x.toNat + 1 := by
  have hone : (1 : UInt32).toNat = 1 := rfl
  rw [UInt32.toNat_add, hone]
  exact Nat.mod_eq_of_lt h

/-- As long as the bytes can be counted, no column number wraps. -/
theorem toNat_column_start_afterAll (h : bytes.length + 1 < UInt32.size) :
    (start.afterAll bytes).column.toNat = (lastLine bytes).length + 1 := by
  have hle := lastLine_length_le bytes
  have hone : start.column = UInt32.ofNat 1 := rfl
  rw [column_start_afterAll, hone, ← UInt32.ofNat_add, UInt32.toNat_ofNat_of_lt' (by omega),
    Nat.add_comm]

theorem HasRoom.after (h : a.HasRoom (n + 1)) (b : UInt8) : (a.after b).HasRoom n := by
  obtain ⟨hline, hcolumn⟩ := h
  unfold Location.after
  split
  · change (a.line + 1).toNat + n < UInt32.size ∧ 1 + n < UInt32.size
    rw [toNat_add_one (by omega)]
    omega
  · change a.line.toNat + n < UInt32.size ∧ (a.column + 1).toNat + n < UInt32.size
    rw [toNat_add_one (by omega)]
    omega

theorem lt_after (h : a.HasRoom 1) (b : UInt8) : a < a.after b := by
  obtain ⟨hline, hcolumn⟩ := h
  unfold after
  split
  · left
    rw [UInt32.lt_iff_toNat_lt, toNat_add_one hline]
    exact Nat.lt_succ_self _
  · refine .inr ⟨rfl, ?_⟩
    rw [UInt32.lt_iff_toNat_lt, toNat_add_one hcolumn]
    exact Nat.lt_succ_self _

theorem HasRoom.afterAll (h : a.HasRoom (bytes.length + n)) : (a.afterAll bytes).HasRoom n := by
  induction bytes generalizing a with
  | nil =>
    rw [List.length_nil, Nat.zero_add] at h
    exact h
  | cons b bytes ih =>
    rw [List.length_cons, Nat.add_right_comm] at h
    exact ih (h.after b)

theorem le_afterAll (h : a.HasRoom bytes.length) : a ≤ a.afterAll bytes := by
  induction bytes generalizing a with
  | nil => exact le_refl a
  | cons b bytes ih =>
    have hlt := lt_after (h.mono (Nat.le_add_left 1 bytes.length)) b
    exact le_trans (le_of_lt hlt) (ih (h.after b))

theorem lt_afterAll_cons {b : UInt8} (h : a.HasRoom (bytes.length + 1)) :
    a < a.afterAll (b :: bytes) :=
  lt_of_lt_of_le (lt_after (h.mono (Nat.le_add_left 1 bytes.length)) b) (le_afterAll (h.after b))

end

end LetLang.Location
