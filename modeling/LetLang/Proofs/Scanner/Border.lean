import LetLang.Proofs.Scanner.Tokens
import LetLang.Proofs.Tree.Relocation
import Mathlib.Data.List.TakeWhile

/-! Borders between lexemes. Which bytes a lexeme takes is settled by its first one, so a text can
be cut in front of any byte that no lexeme takes, and both parts are scanned on their own. -/
namespace LetLang

namespace Lexeme

/-- Whether a lexeme that starts with `b` takes the byte `d`, as long as it takes any. -/
def takes (b d : UInt8) : Bool :=
  match classOf b with
  | .mark _ => false
  | .operator => isOperator d
  | .letter => isLetter d
  | .digit => isDigit d
  | .other => isContinuation d

/-- No lexeme goes on into the text. -/
def Severed (bytes : List UInt8) : Prop := ∀ d ∈ bytes.head?, ∀ b, takes b d = false

theorem takes_of_isBlank {d : UInt8} (h : isBlank d = true) (b : UInt8) : takes b d = false := by
  simp only [isBlank, Bool.or_eq_true, decide_eq_true_eq] at h
  unfold takes
  rcases h with ((rfl | rfl) | rfl) | rfl <;> split <;> decide

theorem takes_semicolon (b : UInt8) : takes b 0x3B = false := by
  unfold takes
  split <;> decide

theorem severed_nil : Severed [] := by simp [Severed]

theorem severed_of_isBlank {b : UInt8} (h : isBlank b = true) (bytes : List UInt8) :
    Severed (b :: bytes) := by
  simpa [Severed] using takes_of_isBlank h

theorem severed_semicolon (bytes : List UInt8) : Severed (0x3B :: bytes) := by
  simpa [Severed] using takes_semicolon

section
variable {p : UInt8 → Bool} {front back : List UInt8}

theorem takeWhile_append_of_head (h : ∀ d ∈ back.head?, p d = false) :
    (front ++ back).takeWhile p = front.takeWhile p := by
  induction front with
  | nil =>
    cases back with
    | nil => rfl
    | cons d back => simp [h d rfl]
  | cons x front ih => rw [List.cons_append, List.takeWhile_cons, List.takeWhile_cons, ih]

theorem takeWhile_take_append_of_head (n : Nat) (h : ∀ d ∈ back.head?, p d = false) :
    ((front ++ back).take n).takeWhile p = (front.take n).takeWhile p := by
  rw [List.take_append]
  apply takeWhile_append_of_head
  intro d hd
  rw [List.head?_take] at hd
  split at hd
  · cases hd
  · exact h d hd

end

theorem tail_append {b : UInt8} {bytes more : List UInt8}
    (h : ∀ d ∈ more.head?, takes b d = false) : tail b (bytes ++ more) = tail b bytes := by
  unfold takes at h
  unfold tail
  split
  · rfl
  · next hclass =>
    rw [hclass] at h
    exact takeWhile_take_append_of_head 1 h
  · next hclass =>
    rw [hclass] at h
    exact takeWhile_append_of_head h
  · next hclass =>
    rw [hclass] at h
    exact takeWhile_append_of_head h
  · next hclass =>
    rw [hclass] at h
    exact takeWhile_take_append_of_head _ h

theorem takes_of_mem_tail {b d : UInt8} {bytes : List UInt8} (h : d ∈ tail b bytes) :
    takes b d = true := by
  cases hclass : classOf b with
  | mark kind => simp [tail, hclass] at h
  | operator =>
    simp only [tail, takes, hclass] at h ⊢
    have h := List.mem_takeWhile_imp h
    exact h
  | letter =>
    simp only [tail, takes, hclass] at h ⊢
    have h := List.mem_takeWhile_imp h
    exact h
  | digit =>
    simp only [tail, takes, hclass] at h ⊢
    have h := List.mem_takeWhile_imp h
    exact h
  | other =>
    simp only [tail, takes, hclass] at h ⊢
    have h := List.mem_takeWhile_imp h
    exact h

/-- A lexeme takes all of itself. -/
theorem tail_tail (b : UInt8) (bytes : List UInt8) : tail b (tail b bytes) = tail b bytes := by
  have take_idem (n : Nat) (p : UInt8 → Bool) :
      (((bytes.take n).takeWhile p).take n).takeWhile p = (bytes.take n).takeWhile p := by
    have hlength : ((bytes.take n).takeWhile p).length ≤ n :=
      (List.takeWhile_prefix p).length_le.trans (List.length_take_le n bytes)
    rw [List.take_of_length_le hlength, List.takeWhile_idem]
  unfold tail
  split
  · rfl
  · exact take_idem 1 isOperator
  · exact List.takeWhile_idem
  · exact List.takeWhile_idem
  · exact take_idem _ isContinuation

end Lexeme

namespace Scanner

/-- A scanner starts where its blanks end. -/
theorem tokens_congr {s s' : Scanner} (h : s.skipBlanks = s'.skipBlanks) :
    s.tokens = s'.tokens := by
  have hnext : s.next = s'.next := by
    unfold next
    rw [h]
  unfold tokens
  rw [h, hnext]

theorem tokens_blanks {blanks : List UInt8} (h : ∀ b ∈ blanks, Lexeme.isBlank b = true)
    (bytes : List UInt8) (place : Location) :
    (Scanner.mk (blanks ++ bytes) place).tokens =
      (Scanner.mk bytes (place.afterAll blanks)).tokens := by
  apply tokens_congr
  unfold skipBlanks
  rw [List.dropWhile_append_of_pos h, List.takeWhile_append_of_pos h, Location.afterAll_append]

theorem tokens_cons {b : UInt8} (hblank : Lexeme.isBlank b = false) (bytes : List UInt8)
    (place : Location) :
    (Scanner.mk (b :: bytes) place).tokens =
      lexed place b bytes :: (Scanner.mk (bytes.drop (Lexeme.tail b bytes).length)
        (place.afterAll (b :: Lexeme.tail b bytes))).tokens := by
  have hskip : (Scanner.mk (b :: bytes) place).skipBlanks = ⟨b :: bytes, place⟩ := by
    unfold skipBlanks
    simp [hblank]
  have hrest := congrArg Scanner.rest hskip
  rw [tokens_of_ne_nil (by rw [hrest]; exact List.cons_ne_nil _ _), next_of_cons hrest, hskip, lexed]

theorem tokens_lexeme {b : UInt8} {bytes more : List UInt8} (hblank : Lexeme.isBlank b = false)
    (htail : Lexeme.tail b bytes = bytes) (hmore : ∀ d ∈ more.head?, Lexeme.takes b d = false)
    (place : Location) :
    (Scanner.mk (b :: (bytes ++ more)) place).tokens =
      lexed place b bytes :: (Scanner.mk more (place.afterAll (b :: bytes))).tokens := by
  have hall : Lexeme.tail b (bytes ++ more) = bytes := by
    rw [Lexeme.tail_append hmore, htail]
  rw [tokens_cons hblank, lexed, lexed, hall, htail, List.drop_left]

theorem skipBlanks_append {s : Scanner} (h : s.skipBlanks.rest ≠ []) (more : List UInt8) :
    (Scanner.mk (s.rest ++ more) s.location).skipBlanks =
      ⟨s.skipBlanks.rest ++ more, s.skipBlanks.location⟩ := by
  have hlength : (s.rest.takeWhile Lexeme.isBlank).length ≠ s.rest.length := by
    intro hall
    have hsplit := congrArg List.length s.rest_eq
    rw [List.length_append, hall] at hsplit
    exact h (List.eq_nil_of_length_eq_zero (by omega))
  unfold skipBlanks at h ⊢
  rw [List.dropWhile_append, List.takeWhile_append, if_neg hlength,
    if_neg (by simpa using h)]

/-- A text that is cut where no lexeme goes on is scanned part by part. -/
theorem tokens_append (s : Scanner) {more : List UInt8} (hmore : Lexeme.Severed more) :
    (Scanner.mk (s.rest ++ more) s.location).tokens =
      s.tokens ++ (Scanner.mk more s.finish).tokens := by
  fun_induction tokens s with
  | case1 s hnil =>
    have hblank : ∀ b ∈ s.rest, Lexeme.isBlank b = true := by
      rwa [skipBlanks_rest, List.dropWhile_eq_nil_iff] at hnil
    rw [tokens_blanks hblank, finish, List.nil_append]
  | case2 s hne ih =>
    cases hrest : s.skipBlanks.rest with
    | nil => exact absurd hrest hne
    | cons b bytes =>
      have hskip := s.skipBlanks_append hne more
      rw [hrest, List.cons_append] at hskip
      have htail : Lexeme.tail b (bytes ++ more) = Lexeme.tail b bytes :=
        Lexeme.tail_append fun d hd => hmore d hd b
      have hle := (Lexeme.tail_isPrefix b bytes).length_le
      rw [finish_next, next_of_cons hrest] at ih
      rw [tokens_of_ne_nil (by rw [hskip]; exact List.cons_ne_nil _ _),
        next_of_cons (congrArg Scanner.rest hskip), next_of_cons hrest, hskip, htail,
        List.drop_append_of_le_length hle, ih]
      rfl

/-- The same text at two places has the same tokens. Where they stand in one goes along with where
they stand in the other, as far as the text reaches. -/
theorem map_relocate_tokens_of_isPrefix {f g : Location → Location} (s : Scanner) (place : Location)
    (h : ∀ front, front <+: s.rest → f (s.location.afterAll front) = g (place.afterAll front)) :
    s.tokens.map (Token.relocate f) = (Scanner.mk s.rest place).tokens.map (Token.relocate g) := by
  fun_induction tokens s generalizing place with
  | case1 s hnil =>
    have hnil : (Scanner.mk s.rest place).skipBlanks.rest = [] := hnil
    rw [tokens_of_nil hnil, List.map_nil, List.map_nil]
  | case2 s hne ih =>
    cases hrest : s.skipBlanks.rest with
    | nil => exact absurd hrest hne
    | cons b bytes =>
      have hne : (Scanner.mk s.rest place).skipBlanks.rest ≠ [] := hne
      have hrest' : (Scanner.mk s.rest place).skipBlanks.rest = b :: bytes := hrest
      rw [tokens_of_ne_nil hne, next_of_cons hrest']
      rw [next_of_cons hrest] at ih ⊢
      rw [List.map_cons, List.map_cons, ih (Location.afterAll _ (b :: Lexeme.tail b bytes))]
      · congr 1
        exact congrArg (Token.mk _ _) (h _ (List.takeWhile_prefix _))
      · rintro front ⟨back, hback⟩
        rw [skipBlanks, skipBlanks, ← Location.afterAll_append, ← Location.afterAll_append,
          ← Location.afterAll_append, ← Location.afterAll_append]
        refine h _ ⟨back, ?_⟩
        rw [List.append_assoc, List.append_assoc, hback, List.cons_append, Lexeme.tail_append_drop,
          ← hrest]
        exact s.rest_eq.symm

theorem map_relocate_tokens {f g : Location → Location} (s : Scanner) (place : Location)
    (h : ∀ front, f (s.location.afterAll front) = g (place.afterAll front)) :
    s.tokens.map (Token.relocate f) = (Scanner.mk s.rest place).tokens.map (Token.relocate g) :=
  s.map_relocate_tokens_of_isPrefix place fun front _ => h front

end Scanner

end LetLang
