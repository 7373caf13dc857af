import LetLang.Scanner.Lexeme
import LetLang.Source
import LetLang.Token.Basic

/-! The scanner: what is left of a text, and the place where it starts. Each step skips
blanks and cuts one lexeme off; behind the last one every step brings the same token. -/
namespace LetLang

structure Scanner where
  rest : List UInt8
  location : Location
deriving DecidableEq, Repr

namespace Scanner

def ofSource (source : Source) : Scanner := ⟨source.visible, .start⟩

def skipBlanks (s : Scanner) : Scanner where
  rest := s.rest.dropWhile Lexeme.isBlank
  location := s.location.afterAll (s.rest.takeWhile Lexeme.isBlank)

theorem length_skipBlanks_le (s : Scanner) : s.skipBlanks.rest.length ≤ s.rest.length :=
  (List.dropWhile_suffix _).length_le

def next (s : Scanner) : Token × Scanner :=
  match s.skipBlanks.rest with
  | [] => (.finish s.skipBlanks.location, s.skipBlanks)
  | b :: bytes =>
    let tail := Lexeme.tail b bytes
    let literal := Utf8.lossy (b :: tail)
    (⟨Lexeme.kind b literal, literal, s.skipBlanks.location⟩,
      ⟨bytes.drop tail.length, s.skipBlanks.location.afterAll (b :: tail)⟩)

theorem next_of_nil {s : Scanner} (h : s.skipBlanks.rest = []) :
    s.next = (.finish s.skipBlanks.location, s.skipBlanks) := by
  simp [next, h]

theorem next_of_cons {s : Scanner} {b : UInt8} {bytes : List UInt8}
    (h : s.skipBlanks.rest = b :: bytes) :
    s.next =
      (⟨Lexeme.kind b (Utf8.lossy (b :: Lexeme.tail b bytes)), Utf8.lossy (b :: Lexeme.tail b bytes),
          s.skipBlanks.location⟩,
        ⟨bytes.drop (Lexeme.tail b bytes).length,
          s.skipBlanks.location.afterAll (b :: Lexeme.tail b bytes)⟩) := by
  simp [next, h]

theorem length_next_lt {s : Scanner} (h : s.skipBlanks.rest ≠ []) :
    s.next.2.rest.length < s.rest.length := by
  have hle := length_skipBlanks_le s
  unfold next
  split
  · contradiction
  · next b bytes hrest =>
    simp only [hrest, List.length_cons, List.length_drop] at hle ⊢
    omega

/-- The next token, unless the text is over. -/
def next? (s : Scanner) : Option Token × Scanner :=
  if s.skipBlanks.rest = [] then (none, s.skipBlanks) else (some s.next.1, s.next.2)

def tokens (s : Scanner) : List Token :=
  if s.skipBlanks.rest = [] then [] else s.next.1 :: s.next.2.tokens
termination_by s.rest.length
decreasing_by exact length_next_lt ‹_›

theorem tokens_of_nil {s : Scanner} (h : s.skipBlanks.rest = []) : s.tokens = [] := by
  rw [tokens, if_pos h]

theorem tokens_of_ne_nil {s : Scanner} (h : s.skipBlanks.rest ≠ []) :
    s.tokens = s.next.1 :: s.next.2.tokens := by
  rw [tokens, if_neg h]

def finish (s : Scanner) : Location := s.location.afterAll s.rest

@[simp] theorem finish_skipBlanks (s : Scanner) : s.skipBlanks.finish = s.finish := by
  rw [finish, skipBlanks, ← Location.afterAll_append, List.takeWhile_append_dropWhile, finish]

/-- No step moves the end of the text. -/
@[simp] theorem finish_next (s : Scanner) : s.next.2.finish = s.finish := by
  rw [← finish_skipBlanks s]
  cases h : s.skipBlanks.rest with
  | nil => rw [next_of_nil h]
  | cons b bytes =>
    rw [next_of_cons h, finish, ← Location.afterAll_append, List.cons_append,
      Lexeme.tail_append_drop, ← h, finish]

def exhausted (s : Scanner) : Scanner := ⟨[], s.finish⟩

end Scanner

/-- The tokens of a source; the last one, and no other, marks its end. -/
def tokenize (source : Source) : List Token :=
  (Scanner.ofSource source).tokens ++ [.finish (Scanner.ofSource source).finish]

end LetLang
