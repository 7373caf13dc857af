/-! Sets of characters, written as ranges of code points. -/
namespace LetLang.Text

/-- The ranges are not empty, and each starts above the one before it, the first at `least`
or above. -/
def ascendingFrom (least : Nat) : List (Nat × Nat) → Bool
  | [] => true
  | (low, high) :: ranges => least ≤ low && low ≤ high && ascendingFrom (high + 1) ranges

/-- Whether a range holds `n`. No range past one that starts above `n` is looked at. -/
def anyHolds (n : Nat) : List (Nat × Nat) → Bool
  | [] => false
  | (low, high) :: ranges => low ≤ n && (n ≤ high || anyHolds n ranges)

structure CharSet where
  /-- The first and the last code point of each range. -/
  ranges : List (Nat × Nat)
  ascending : ascendingFrom 0 ranges = true := by decide +kernel

def CharSet.contains (s : CharSet) (c : Char) : Bool := anyHolds c.toNat s.ranges

def CharSet.size (s : CharSet) : Nat :=
  s.ranges.foldl (fun n (low, high) => n + (high + 1 - low)) 0

theorem le_of_ascendingFrom {least : Nat} {ranges : List (Nat × Nat)}
    (h : ascendingFrom least ranges = true) : ∀ r ∈ ranges, least ≤ r.1 := by
  induction ranges generalizing least with
  | nil => simp
  | cons r ranges ih =>
    simp only [ascendingFrom, Bool.and_eq_true, decide_eq_true_eq] at h
    intro s hs
    rcases List.mem_cons.1 hs with rfl | hs
    · exact h.1.1
    · have := ih h.2 s hs
      omega

theorem anyHolds_iff {least n : Nat} {ranges : List (Nat × Nat)}
    (h : ascendingFrom least ranges = true) :
    anyHolds n ranges = true ↔ ∃ r ∈ ranges, r.1 ≤ n ∧ n ≤ r.2 := by
  induction ranges generalizing least with
  | nil => simp [anyHolds]
  | cons r ranges ih =>
    simp only [ascendingFrom, Bool.and_eq_true, decide_eq_true_eq] at h
    have later : anyHolds n ranges = true → r.1 ≤ n := fun hn => by
      obtain ⟨s, hs, hsn, _⟩ := (ih h.2).1 hn
      have := le_of_ascendingFrom h.2 s hs
      omega
    simp only [anyHolds, Bool.and_eq_true, Bool.or_eq_true, decide_eq_true_eq, List.mem_cons,
      exists_eq_or_imp, ← ih h.2, and_or_left]
    exact or_congr_right (and_iff_right_of_imp later)

/-- A set contains what one of its ranges holds. -/
theorem CharSet.contains_iff (s : CharSet) (c : Char) :
    s.contains c = true ↔ ∃ r ∈ s.ranges, r.1 ≤ c.toNat ∧ c.toNat ≤ r.2 :=
  anyHolds_iff s.ascending

end LetLang.Text
