import LetLang.Text.CharSet

/-! Blank characters and trimming. The blanks are the characters with the Unicode
property `White_Space`; blank bytes between tokens are a smaller set, kept with the scanner. -/
namespace LetLang.Text

def blanks : CharSet where
  ranges :=
    [(0x09, 0x0D), (0x20, 0x20), (0x85, 0x85), (0xA0, 0xA0), (0x1680, 0x1680), (0x2000, 0x200A),
     (0x2028, 0x2029), (0x202F, 0x202F), (0x205F, 0x205F), (0x3000, 0x3000)]

example : blanks.size = 25 := by decide

def isBlank (c : Char) : Bool := blanks.contains c

theorem isBlank_of_isWhitespace {c : Char} (h : c.isWhitespace = true) : isBlank c = true := by
  simp only [Char.isWhitespace, Bool.or_eq_true, decide_eq_true_eq] at h
  rcases h with ((rfl | rfl) | rfl) | rfl <;> decide

/-- What is left of `cs` without the longest run of `p` at its end. -/
def trimEnd (p : Char → Bool) (cs : List Char) : List Char :=
  (cs.reverse.dropWhile p).reverse

theorem trimEnd_isPrefix (p : Char → Bool) (cs : List Char) : trimEnd p cs <+: cs := by
  have h := (List.dropWhile_suffix p (l := cs.reverse))
  simpa [trimEnd] using List.reverse_prefix.2 h

end LetLang.Text
