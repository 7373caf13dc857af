import LetLang.Scanner.Basic

/-! Where tokens come from: each is a lexeme of the text, and stands where that lexeme starts. -/
namespace LetLang

namespace Kind

variable {kind : Kind} (h : kind ∈ [integer, endOfInput])
include h

theorem ofMark?_ne (b : UInt8) : ofMark? b ≠ some kind := by
  unfold ofMark?
  split <;> rintro ⟨⟩ <;> exact absurd h (by decide)

theorem ofOperator_ne (spelling : String) : ofOperator spelling ≠ kind := by
  unfold ofOperator
  split <;> rintro rfl <;> exact absurd h (by decide)

theorem ofWord_ne (spelling : String) : ofWord spelling ≠ kind := by
  unfold ofWord
  split <;> rintro rfl <;> exact absurd h (by decide)

end Kind

theorem Lexeme.classOf_eq_mark_iff {b : UInt8} {kind : Kind} :
    classOf b = .mark kind ↔ Kind.ofMark? b = some kind := by
  rw [classOf]
  split
  · next h => simp [h]
  · next h =>
    repeat' split
    all_goals simp [h]

/-- Only what starts with a digit has a kind that is no matter of spelling. -/
theorem Lexeme.classOf_of_kind_mem {b : UInt8} {literal : String}
    (h : kind b literal ∈ [.integer, .endOfInput]) :
    classOf b = .digit ∧ kind b literal = .integer := by
  rw [kind] at h ⊢
  split at h
  · next hclass => exact absurd (classOf_eq_mark_iff.1 hclass) (Kind.ofMark?_ne h b)
  · exact absurd rfl (Kind.ofOperator_ne h literal)
  · exact absurd rfl (Kind.ofWord_ne h literal)
  · next hclass => exact ⟨hclass, rfl⟩
  · exact absurd h (by decide)

/-- No lexeme stands for the end of the text. -/
theorem Lexeme.kind_ne_endOfInput (b : UInt8) (literal : String) :
    kind b literal ≠ .endOfInput := by
  intro h
  have hmem : kind b literal ∈ [.integer, .endOfInput] := by simp [h]
  exact absurd (h.symm.trans (classOf_of_kind_mem hmem).2) (by decide)

namespace Scanner

theorem skipBlanks_rest (s : Scanner) : s.skipBlanks.rest = s.rest.dropWhile Lexeme.isBlank := rfl

theorem rest_eq (s : Scanner) :
    s.rest = s.rest.takeWhile Lexeme.isBlank ++ s.skipBlanks.rest :=
  List.takeWhile_append_dropWhile.symm

/-- A step takes bytes off the text and moves behind them. -/
theorem exists_next_eq (s : Scanner) :
    ∃ front, s.rest = front ++ s.next.2.rest ∧ s.next.2.location = s.location.afterAll front := by
  cases h : s.skipBlanks.rest with
  | nil =>
    rw [next_of_nil h]
    exact ⟨_, s.rest_eq, rfl⟩
  | cons b bytes =>
    rw [next_of_cons h]
    refine ⟨s.rest.takeWhile Lexeme.isBlank ++ b :: Lexeme.tail b bytes, ?_, ?_⟩
    · rw [List.append_assoc, List.cons_append, Lexeme.tail_append_drop, ← h]
      exact s.rest_eq
    · rw [Location.afterAll_append]
      rfl

/-- The token of the lexeme that starts with `b` at `place`, out of the bytes that follow. -/
def lexed (place : Location) (b : UInt8) (bytes : List UInt8) : Token :=
  ⟨Lexeme.kind b (Utf8.lossy (b :: Lexeme.tail b bytes)), Utf8.lossy (b :: Lexeme.tail b bytes),
    place⟩

theorem exists_of_mem_tokens {s : Scanner} {t : Token} (h : t ∈ s.tokens) :
    ∃ front b bytes, s.rest = front ++ b :: bytes ∧
      Lexeme.isBlank b = false ∧ t = lexed (s.location.afterAll front) b bytes := by
  fun_induction tokens s with
  | case1 s hnil => cases h
  | case2 s hne ih =>
    rcases List.mem_cons.1 h with rfl | h
    · cases hrest : s.skipBlanks.rest with
      | nil => exact absurd hrest hne
      | cons b bytes =>
        refine ⟨s.rest.takeWhile Lexeme.isBlank, b, bytes, ?_, ?_, ?_⟩
        · rw [← hrest]
          exact s.rest_eq
        · have hblank := List.head?_dropWhile_not Lexeme.isBlank s.rest
          rwa [← skipBlanks_rest, hrest] at hblank
        · rw [next_of_cons hrest]
          rfl
    · obtain ⟨front', b, bytes, hrest, hblank, rfl⟩ := ih h
      obtain ⟨front, hfront, hplace⟩ := s.exists_next_eq
      refine ⟨front ++ front', b, bytes, ?_, hblank, ?_⟩
      · rw [hfront, hrest, List.append_assoc]
      · rw [hplace, Location.afterAll_append]

theorem kind_ne_endOfInput_of_mem {s : Scanner} {t : Token} (h : t ∈ s.tokens) :
    t.kind ≠ .endOfInput := by
  obtain ⟨front, b, bytes, _, _, rfl⟩ := exists_of_mem_tokens h
  exact Lexeme.kind_ne_endOfInput b _

theorem next_fst (s : Scanner) : s.next.1 = s.tokens.headD (.finish s.finish) := by
  by_cases h : s.skipBlanks.rest = []
  · rw [tokens_of_nil h, next_of_nil h, List.headD_nil, ← s.finish_skipBlanks, finish, h]
    rfl
  · rw [tokens_of_ne_nil h, List.headD_cons]

theorem tokens_next (s : Scanner) : s.next.2.tokens = s.tokens.tail := by
  by_cases h : s.skipBlanks.rest = []
  · have hskip : s.skipBlanks.skipBlanks.rest = [] := by
      rw [skipBlanks_rest, h, List.dropWhile_nil]
    rw [tokens_of_nil h, next_of_nil h, tokens_of_nil hskip, List.tail_nil]
  · rw [tokens_of_ne_nil h, List.tail_cons]

end Scanner

theorem dropLast_tokenize (source : Source) :
    (tokenize source).dropLast = (Scanner.ofSource source).tokens :=
  List.dropLast_concat

theorem length_tokenize (source : Source) :
    (tokenize source).length = (Scanner.ofSource source).tokens.length + 1 :=
  List.length_append

/-- The tokens of a source, and behind them the last one over and over. -/
def tokenAt (source : Source) (i : Nat) : Token :=
  (tokenize source).getD i (.finish (Scanner.ofSource source).finish)

theorem headD_drop_tokens (source : Source) (i : Nat) :
    ((Scanner.ofSource source).tokens.drop i).headD (.finish (Scanner.ofSource source).finish) =
      tokenAt source i := by
  rw [tokenAt, tokenize, List.getD_eq_getElem?_getD, List.headD_eq_head?_getD, List.head?_drop]
  rcases Nat.lt_trichotomy i (Scanner.ofSource source).tokens.length with h | rfl | h
  · rw [List.getElem?_append_left h]
  · simp
  · have hlength : ((Scanner.ofSource source).tokens ++
        [Token.finish (Scanner.ofSource source).finish]).length ≤ i := by
      rw [List.length_append, List.length_singleton]
      exact h
    rw [List.getElem?_eq_none (Nat.le_of_lt h), List.getElem?_eq_none hlength]

end LetLang
