import LetLang.Proofs.Scanner.Border
import LetLang.Proofs.Text.Utf8

/-! Tokens that can be read off their own literals. All tokens of a tree are such tokens: their
bytes are plain ones, and scanning these again brings the token back. -/
namespace LetLang

namespace Lexeme

/-- A byte of a spelling: neither a zero byte nor a parenthesis, and a character on its own. -/
def IsSpelling (d : UInt8) : Prop := d < 0x80 ∧ d ≠ 0 ∧ d ≠ 0x28 ∧ d ≠ 0x29

instance (d : UInt8) : Decidable (IsSpelling d) :=
  inferInstanceAs (Decidable (d < 0x80 ∧ d ≠ 0 ∧ d ≠ 0x28 ∧ d ≠ 0x29))

theorem isSpelling_of_isOperator {d : UInt8} (h : isOperator d = true) : IsSpelling d := by
  simp only [isOperator, Bool.or_eq_true, decide_eq_true_eq] at h
  rcases h with ((rfl | rfl) | rfl) | rfl <;> decide

theorem isSpelling_of_isLetter {d : UInt8} (h : isLetter d = true) : IsSpelling d := by
  simp only [isLetter, Bool.or_eq_true, Bool.and_eq_true, decide_eq_true_eq] at h
  unfold IsSpelling
  simp only [UInt8.le_iff_toNat_le, UInt8.lt_iff_toNat_lt, ne_eq, ← UInt8.toNat_inj] at *
  simp only [UInt8.reduceToNat] at *
  omega

theorem isSpelling_of_isDigit {d : UInt8} (h : isDigit d = true) : IsSpelling d := by
  simp only [isDigit, Bool.and_eq_true, decide_eq_true_eq] at h
  unfold IsSpelling
  simp only [UInt8.le_iff_toNat_le, UInt8.lt_iff_toNat_lt, ne_eq, ← UInt8.toNat_inj] at *
  simp only [UInt8.reduceToNat] at *
  omega

theorem eq_of_ofUInt8_eq {b : UInt8} {c : Char} (h : Char.ofUInt8 b = c) : b = c.val.toUInt8 := by
  rw [← h]
  exact (UInt8.toUInt8_toUInt32 b).symm

theorem isSpelling_of_ofMark? {b : UInt8} {k : Kind} (h : Kind.ofMark? b = some k)
    (hleft : k ≠ .leftParen) (hright : k ≠ .rightParen) : IsSpelling b := by
  unfold Kind.ofMark? at h
  split at h
  case h_7 =>
    cases h
    exact absurd rfl hleft
  case h_8 =>
    cases h
    exact absurd rfl hright
  case h_11 => cases h
  all_goals
    next heq =>
      rw [eq_of_ofUInt8_eq heq]
      decide

theorem classOf_of_isOperator {b : UInt8} (h : isOperator b = true) : classOf b = .operator := by
  simp only [isOperator, Bool.or_eq_true, decide_eq_true_eq] at h
  rcases h with ((rfl | rfl) | rfl) | rfl <;> decide

/-- A lexeme that may take more than its first byte takes bytes like that one. -/
theorem takes_self {b : UInt8} (hmark : ∀ k, classOf b ≠ .mark k) (hother : classOf b ≠ .other) :
    takes b b = true := by
  unfold takes
  cases hclass : classOf b with
  | mark k => exact absurd hclass (hmark k)
  | other => exact absurd hclass hother
  | operator | letter | digit =>
    unfold classOf at hclass
    split at hclass
    · cases hclass
    · repeat' split at hclass
      all_goals first | assumption | cases hclass

theorem isSpelling_of_takes {b d : UInt8} (hother : classOf b ≠ .other) (h : takes b d = true) :
    IsSpelling d := by
  unfold takes at h
  split at h
  · cases h
  · exact isSpelling_of_isOperator h
  · exact isSpelling_of_isLetter h
  · exact isSpelling_of_isDigit h
  · next hclass => exact absurd hclass hother

/-- Apart from parentheses and illegal tokens all lexemes are spellings. -/
theorem isSpelling_of_mem {b : UInt8} {bytes : List UInt8} {literal : String}
    (hillegal : kind b literal ≠ .illegal) (hleft : kind b literal ≠ .leftParen)
    (hright : kind b literal ≠ .rightParen) : ∀ d ∈ b :: tail b bytes, IsSpelling d := by
  intro d hd
  unfold kind at hillegal hleft hright
  have hother : classOf b ≠ .other := by
    intro hclass
    exact hillegal (by rw [hclass])
  rcases List.mem_cons.1 hd with rfl | hd
  · by_cases hmark : ∃ k, classOf d = .mark k
    · obtain ⟨k, hclass⟩ := hmark
      rw [hclass] at hleft hright
      exact isSpelling_of_ofMark? (classOf_eq_mark_iff.1 hclass) hleft hright
    · exact isSpelling_of_takes hother (takes_self (fun k hk => hmark ⟨k, hk⟩) hother)
  · exact isSpelling_of_takes hother (takes_of_mem_tail hd)

end Lexeme

namespace Scanner

theorem lexed_tail (place : Location) (b : UInt8) (bytes : List UInt8) :
    lexed place b (Lexeme.tail b bytes) = lexed place b bytes := by
  rw [lexed, lexed, Lexeme.tail_tail]

end Scanner

/-- A token that its own literal brings back. -/
inductive Token.Legible : Token → Prop
  | lexed {b : UInt8} {bytes : List UInt8} {place : Location}
      (hblank : Lexeme.isBlank b = false) (htail : Lexeme.tail b bytes = bytes)
      (hspelling : ∀ d ∈ b :: bytes, Lexeme.IsSpelling d) :
      Legible (Scanner.lexed place b bytes)

/-- All tokens that a tree may keep are legible. -/
theorem Scanner.legible_of_mem_tokens {s : Scanner} {t : Token} (h : t ∈ s.tokens)
    (hillegal : t.kind ≠ .illegal) (hleft : t.kind ≠ .leftParen)
    (hright : t.kind ≠ .rightParen) : t.Legible := by
  obtain ⟨front, b, bytes, _, hblank, rfl⟩ := exists_of_mem_tokens h
  rw [← lexed_tail]
  exact .lexed hblank (Lexeme.tail_tail b bytes)
    (Lexeme.isSpelling_of_mem hillegal hleft hright)

/-- The tokens of a text without their places. -/
def scanned (bytes : List UInt8) : List Token :=
  (Scanner.mk bytes .start).tokens.map (Token.relocate .forget)

theorem map_forget_tokens (s : Scanner) :
    s.tokens.map (Token.relocate .forget) = scanned s.rest := by
  apply Scanner.map_relocate_tokens
  intro front
  rfl

theorem scanned_nil : scanned [] = [] := by
  rw [scanned, Scanner.tokens_of_nil rfl, List.map_nil]

theorem scanned_blank {b : UInt8} (h : Lexeme.isBlank b = true) (bytes : List UInt8) :
    scanned (b :: bytes) = scanned bytes := by
  have hblanks : ∀ d ∈ [b], Lexeme.isBlank d = true := by simpa using h
  have htokens := Scanner.tokens_blanks hblanks bytes .start
  rw [List.singleton_append] at htokens
  rw [scanned, htokens]
  exact map_forget_tokens _

theorem Scanner.literal_lexed {place : Location} {b : UInt8} {bytes : List UInt8}
    (htail : Lexeme.tail b bytes = bytes) :
    (lexed place b bytes).literal = Utf8.lossy (b :: bytes) := by
  rw [lexed, htail]

namespace Token.Legible

/-- In front of a text that it does not go on into, a literal is scanned on its own. -/
theorem scanned_append {t : Token} (h : t.Legible) {more : List UInt8}
    (hmore : ∀ b ∈ (Utf8.encode t.literal).head?, ∀ d ∈ more.head?, Lexeme.takes b d = false) :
    scanned (Utf8.encode t.literal ++ more) = t.relocate .forget :: scanned more := by
  obtain ⟨hblank, htail, hspelling⟩ := h
  next b bytes place =>
    have hplain : Utf8.IsPlain (b :: bytes) := fun d hd => (hspelling d hd).1
    rw [Scanner.literal_lexed htail, Utf8.encode_lossy_of_isPlain hplain] at hmore ⊢
    have htokens := Scanner.tokens_lexeme hblank htail (hmore b rfl) .start
    rw [List.cons_append, scanned, htokens, List.map_cons, map_forget_tokens]
    rfl

end Token.Legible

namespace Token.Legible

theorem isSpelling_of_mem_encode {t : Token} (h : t.Legible) {d : UInt8}
    (hd : d ∈ Utf8.encode t.literal) : Lexeme.IsSpelling d := by
  obtain ⟨hblank, htail, hspelling⟩ := h
  have hplain : Utf8.IsPlain _ := fun d hd => (hspelling d hd).1
  rw [Scanner.literal_lexed htail, Utf8.encode_lossy_of_isPlain hplain] at hd
  exact hspelling d hd

theorem isSpelling_of_mem_literal {t : Token} (h : t.Legible) {c : Char}
    (hc : c ∈ t.literal.toList) : Lexeme.IsSpelling c.val.toUInt8 := by
  obtain ⟨hblank, htail, hspelling⟩ := h
  have hplain : Utf8.IsPlain _ := fun d hd => (hspelling d hd).1
  rw [Scanner.literal_lexed htail, Utf8.toList_lossy_of_isPlain hplain] at hc
  obtain ⟨d, hd, hchar⟩ := List.mem_map.1 hc
  rw [← Lexeme.eq_of_ofUInt8_eq hchar]
  exact hspelling d hd

theorem exists_encode_eq {t : Token} (h : t.Legible) :
    ∃ b bytes, Utf8.encode t.literal = b :: bytes ∧ t.kind = Lexeme.kind b t.literal := by
  obtain ⟨hblank, htail, hspelling⟩ := h
  have hplain : Utf8.IsPlain _ := fun d hd => (hspelling d hd).1
  rw [Scanner.literal_lexed htail, Utf8.encode_lossy_of_isPlain hplain,
    ← Scanner.literal_lexed htail]
  exact ⟨_, _, rfl, by rw [Scanner.lexed]⟩

end Token.Legible

/-- A text writes tokens if it is scanned to them, as long as nothing runs into it from behind. -/
structure Spells (bytes : List UInt8) (ts : List Token) : Prop where
  scanned_append : ∀ {more}, Lexeme.Severed more →
    scanned (bytes ++ more) = ts.map (Token.relocate .forget) ++ scanned more
  isSpelling : ∀ d ∈ bytes, Lexeme.IsSpelling d

namespace Spells

variable {front back bytes : List UInt8} {ts us : List Token} {t : Token}

theorem append (h : Spells front ts) (h' : Spells back us) (hborder : Lexeme.Severed back) :
    Spells (front ++ back) (ts ++ us) where
  scanned_append := by
    intro more hmore
    have hborder : Lexeme.Severed (back ++ more) := by
      cases back with
      | nil => exact hmore
      | cons d back => exact hborder
    rw [List.append_assoc, h.scanned_append hborder, h'.scanned_append hmore, List.map_append,
      List.append_assoc]
  isSpelling := by
    intro d hd
    rcases List.mem_append.1 hd with hd | hd
    · exact h.isSpelling d hd
    · exact h'.isSpelling d hd

theorem isBlank_space : Lexeme.isBlank 0x20 = true := by decide

theorem severed_space (bytes : List UInt8) : Lexeme.Severed (0x20 :: bytes) :=
  Lexeme.severed_of_isBlank isBlank_space bytes

theorem space_cons (h : Spells bytes ts) : Spells (0x20 :: bytes) ts where
  scanned_append := by
    intro more hmore
    rw [List.cons_append, scanned_blank isBlank_space, h.scanned_append hmore]
  isSpelling := by
    intro d hd
    rcases List.mem_cons.1 hd with rfl | hd
    · decide
    · exact h.isSpelling d hd

theorem nil : Spells [] [] := ⟨fun _ => rfl, by simp⟩

theorem space : Spells [0x20] [] := nil.space_cons

theorem literal (h : t.Legible) : Spells (Utf8.encode t.literal) [t] where
  scanned_append := by
    intro more hmore
    rw [h.scanned_append fun b _ d hd => hmore d hd b]
    rfl
  isSpelling := fun _ hd => h.isSpelling_of_mem_encode hd

end Spells

end LetLang
