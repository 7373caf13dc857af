import LetLang.Proofs.Scanner.Spelling

/-! Segmentations. A text is cut into blank bytes and lexemes, each of them as long as its class
lets it be. There is one such cut, and the tokens of the text are the lexemes of it. -/
namespace LetLang

namespace Lexeme

/-- A byte that starts an illegal lexeme. -/
def IsStray (b : UInt8) : Prop :=
  isBlank b = false ∧ Kind.ofMark? b = none ∧ isOperator b = false ∧ isLetter b = false ∧
    isDigit b = false

/-- A lexeme of a class in front of the rest of a text, by the rules of the class. It has all
the bytes that it may have. -/
inductive Munch : Class → List UInt8 → List UInt8 → Prop
  | mark {b : UInt8} {kind : Kind} {rest : List UInt8} (hmark : Kind.ofMark? b = some kind) :
      Munch (.mark kind) [b] rest
  | operator {b : UInt8} {rest : List UInt8} (hb : isOperator b = true)
      (hnext : ∀ d ∈ rest.head?, isOperator d = false) : Munch .operator [b] rest
  | operatorPair {b d : UInt8} {rest : List UInt8} (hb : isOperator b = true)
      (hd : isOperator d = true) : Munch .operator [b, d] rest
  | word {bytes rest : List UInt8} (hne : bytes ≠ []) (hbytes : ∀ b ∈ bytes, isLetter b = true)
      (hnext : ∀ d ∈ rest.head?, isLetter d = false) : Munch .letter bytes rest
  | numeral {bytes rest : List UInt8} (hne : bytes ≠ []) (hbytes : ∀ b ∈ bytes, isDigit b = true)
      (hnext : ∀ d ∈ rest.head?, isDigit d = false) : Munch .digit bytes rest
  | stray {b : UInt8} {bytes rest : List UInt8} (hb : IsStray b)
      (hlength : bytes.length ≤ Utf8.width b - 1) (hbytes : ∀ d ∈ bytes, isContinuation d = true)
      (hnext : bytes.length < Utf8.width b - 1 → ∀ d ∈ rest.head?, isContinuation d = false) :
      Munch .other (b :: bytes) rest

section
variable {b : UInt8}

/-- A mark is a plain byte, and of no other class. -/
theorem lt_and_not_of_ofMark? {kind : Kind} (h : Kind.ofMark? b = some kind) :
    b < 0x80 ∧ isBlank b = false ∧ isOperator b = false ∧ isLetter b = false ∧
      isDigit b = false := by
  unfold Kind.ofMark? at h
  split at h
  case h_11 => cases h
  all_goals
    next heq =>
      rw [eq_of_ofUInt8_eq heq]
      decide

theorem ofMark?_eq_none (h : isOperator b = true ∨ isLetter b = true ∨ isDigit b = true) :
    Kind.ofMark? b = none := by
  cases hmark : Kind.ofMark? b with
  | none => rfl
  | some kind =>
    obtain ⟨_, _, hoperator, hletter, hdigit⟩ := lt_and_not_of_ofMark? hmark
    simp [hoperator, hletter, hdigit] at h

theorem isOperator_eq_false (h : isLetter b = true ∨ isDigit b = true) : isOperator b = false := by
  refine Bool.eq_false_iff.2 fun hoperator => ?_
  simp only [isOperator, Bool.or_eq_true, decide_eq_true_eq] at hoperator
  rcases hoperator with ((rfl | rfl) | rfl) | rfl <;> revert h <;> decide

theorem isBlank_eq_false (h : isOperator b = true ∨ isLetter b = true ∨ isDigit b = true) :
    isBlank b = false := by
  refine Bool.eq_false_iff.2 fun hblank => ?_
  simp only [isBlank, Bool.or_eq_true, decide_eq_true_eq] at hblank
  rcases hblank with ((rfl | rfl) | rfl) | rfl <;> revert h <;> decide

theorem isLetter_eq_false_of_isDigit (h : isDigit b = true) : isLetter b = false := by
  simp only [isDigit, isLetter, Bool.and_eq_true, Bool.or_eq_false_iff, Bool.and_eq_false_iff,
    decide_eq_true_eq, decide_eq_false_iff_not] at h ⊢
  simp only [UInt8.le_iff_toNat_le, ← UInt8.toNat_inj, UInt8.reduceToNat] at h ⊢
  omega

theorem classOf_of_isLetter (h : isLetter b = true) : classOf b = .letter := by
  simp [classOf, ofMark?_eq_none (.inr (.inl h)), isOperator_eq_false (.inl h), h]

theorem classOf_of_isDigit (h : isDigit b = true) : classOf b = .digit := by
  simp [classOf, ofMark?_eq_none (.inr (.inr h)), isOperator_eq_false (.inr h),
    isLetter_eq_false_of_isDigit h, h]

theorem classOf_of_isStray (h : IsStray b) : classOf b = .other := by
  obtain ⟨_, hmark, hoperator, hletter, hdigit⟩ := h
  simp [classOf, hmark, hoperator, hletter, hdigit]

theorem isStray_of_classOf (hblank : isBlank b = false) (h : classOf b = .other) : IsStray b := by
  refine ⟨hblank, ?_⟩
  unfold classOf at h
  split at h
  · cases h
  · next hmark =>
    repeat' split at h
    all_goals simp_all

end

section
variable {p : UInt8 → Bool} {bytes rest : List UInt8}

/-- What stands behind the bytes that were taken, as long as more could be, is none to take. -/
theorem eq_false_of_head_drop {n : Nat} (hlength : ((bytes.take n).takeWhile p).length < n) :
    ∀ d ∈ (bytes.drop ((bytes.take n).takeWhile p).length).head?, p d = false := by
  induction bytes generalizing n with
  | nil => simp
  | cons x bytes ih =>
    cases n with
    | zero => exact absurd hlength (Nat.not_lt_zero _)
    | succ n =>
      rw [List.take_succ_cons, List.takeWhile_cons] at hlength ⊢
      split at hlength
      · next hx =>
        rw [if_pos hx, List.length_cons, List.drop_succ_cons]
        exact ih (Nat.lt_of_succ_lt_succ hlength)
      · next hx =>
        rw [if_neg hx]
        intro d hd
        cases hd
        exact Bool.eq_false_iff.2 hx

theorem takeWhile_take_append {n : Nat} (hlength : bytes.length ≤ n)
    (hbytes : ∀ d ∈ bytes, p d = true)
    (hnext : bytes.length < n → ∀ d ∈ rest.head?, p d = false) :
    ((bytes ++ rest).take n).takeWhile p = bytes := by
  rw [List.take_append, List.take_of_length_le hlength, List.takeWhile_append_of_pos hbytes]
  cases rest with
  | nil => simp
  | cons d rest =>
    rcases Nat.eq_or_lt_of_le hlength with heq | hlt
    · simp [heq]
    · have hpos : n - bytes.length = (n - bytes.length - 1) + 1 := by omega
      rw [hpos, List.take_succ_cons, List.takeWhile_cons, hnext hlt d rfl]
      simp

theorem eq_false_of_head_drop_takeWhile :
    ∀ d ∈ (bytes.drop (bytes.takeWhile p).length).head?, p d = false := by
  have h := @eq_false_of_head_drop p bytes (bytes.length + 1)
  rw [List.take_of_length_le (Nat.le_succ _)] at h
  exact h (Nat.lt_succ_of_le (List.takeWhile_prefix p).length_le)

end

/-- The scanner's lexemes are as long as the rules let them be. -/
theorem munch_tail {b : UInt8} (hblank : isBlank b = false) (bytes : List UInt8) :
    Munch (classOf b) (b :: tail b bytes) (bytes.drop (tail b bytes).length) := by
  have hself := @takes_self b
  have htail : ∀ d ∈ tail b bytes, takes b d = true := fun d hd => takes_of_mem_tail hd
  unfold takes at hself htail
  unfold tail at htail ⊢
  cases hclass : classOf b with
  | mark kind =>
    simp only [hclass] at hself htail ⊢
    exact .mark (classOf_eq_mark_iff.1 hclass)
  | operator =>
    simp only [hclass] at hself htail ⊢
    have hb := hself nofun nofun
    cases bytes with
    | nil => exact .operator hb nofun
    | cons d bytes =>
      by_cases hd : isOperator d
      · have h : Munch .operator [b, d] bytes := .operatorPair hb hd
        simpa [hd] using h
      · have h : Munch .operator [b] (d :: bytes) := .operator hb (by simpa using hd)
        simpa [hd] using h
  | letter =>
    simp only [hclass] at hself htail ⊢
    refine .word (List.cons_ne_nil _ _) ?_ eq_false_of_head_drop_takeWhile
    exact List.forall_mem_cons.2 ⟨hself nofun nofun, htail⟩
  | digit =>
    simp only [hclass] at hself htail ⊢
    refine .numeral (List.cons_ne_nil _ _) ?_ eq_false_of_head_drop_takeWhile
    exact List.forall_mem_cons.2 ⟨hself nofun nofun, htail⟩
  | other =>
    simp only [hclass] at hself htail ⊢
    refine .stray (isStray_of_classOf hblank hclass) ?_ htail eq_false_of_head_drop
    exact (List.takeWhile_prefix _).length_le.trans (List.length_take_le _ _)

/-- The rules leave the scanner no choice. -/
theorem Munch.exists_tail {c : Class} {bytes rest : List UInt8} (h : Munch c bytes rest) :
    ∃ b back, bytes = b :: back ∧ isBlank b = false ∧ classOf b = c ∧
      tail b (back ++ rest) = back := by
  cases h with
  | @mark b kind _ hmark =>
    have hclass := classOf_eq_mark_iff.2 hmark
    exact ⟨b, [], rfl, (lt_and_not_of_ofMark? hmark).2.1, hclass, by simp [tail, hclass]⟩
  | @operator b _ hb hnext =>
    have hclass := classOf_of_isOperator hb
    refine ⟨b, [], rfl, isBlank_eq_false (.inl hb), hclass, ?_⟩
    have htail := @takeWhile_take_append isOperator [] rest 1 (Nat.zero_le 1)
      (List.forall_mem_nil _) fun _ => hnext
    simpa [tail, hclass] using htail
  | @operatorPair b d _ hb hd =>
    have hclass := classOf_of_isOperator hb
    exact ⟨b, [d], rfl, isBlank_eq_false (.inl hb), hclass, by simp [tail, hclass, hd]⟩
  | word hne hbytes hnext =>
    obtain ⟨b, back, rfl⟩ := List.exists_cons_of_ne_nil hne
    obtain ⟨hb, hback⟩ := List.forall_mem_cons.1 hbytes
    have hclass := classOf_of_isLetter hb
    refine ⟨b, back, rfl, isBlank_eq_false (.inr (.inl hb)), hclass, ?_⟩
    simp [tail, hclass, takeWhile_append_of_head hnext, List.takeWhile_eq_self_iff.2 hback]
  | numeral hne hbytes hnext =>
    obtain ⟨b, back, rfl⟩ := List.exists_cons_of_ne_nil hne
    obtain ⟨hb, hback⟩ := List.forall_mem_cons.1 hbytes
    have hclass := classOf_of_isDigit hb
    refine ⟨b, back, rfl, isBlank_eq_false (.inr (.inr hb)), hclass, ?_⟩
    simp [tail, hclass, takeWhile_append_of_head hnext, List.takeWhile_eq_self_iff.2 hback]
  | @stray b back _ hb hlength hback hnext =>
    have hclass := classOf_of_isStray hb
    exact ⟨b, back, rfl, hb.1, hclass, by
      simpa [tail, hclass] using takeWhile_take_append hlength hback hnext⟩

/-- The kind that a class gives a lexeme, by its literal where that is needed. -/
def Class.kind : Class → String → Kind
  | mark kind, _ => kind
  | operator, literal => .ofOperator literal
  | letter, literal => .ofWord literal
  | digit, _ => .integer
  | other, _ => .illegal

theorem kind_eq (b : UInt8) (literal : String) : kind b literal = (classOf b).kind literal := by
  unfold kind
  cases classOf b <;> rfl

end Lexeme

/-- A piece of a text: a blank byte between tokens, or the lexeme of a token. -/
inductive Piece where
  | blank (b : UInt8)
  | lexeme (c : Lexeme.Class) (bytes : List UInt8)
deriving DecidableEq, Repr

/-- The tokens of pieces of which the first one stands at the place. -/
def Piece.tokens : Location → List Piece → List Token
  | _, [] => []
  | place, blank b :: pieces => tokens (place.after b) pieces
  | place, lexeme c bytes :: pieces =>
    ⟨c.kind (Utf8.lossy bytes), Utf8.lossy bytes, place⟩ :: tokens (place.afterAll bytes) pieces

/-- The pieces are a cut of the text, with each lexeme as long as its class lets it be. -/
inductive Segmentation : List UInt8 → List Piece → Prop
  | nil : Segmentation [] []
  | blank {b : UInt8} {rest : List UInt8} {pieces : List Piece} (hblank : Lexeme.isBlank b = true)
      (hrest : Segmentation rest pieces) : Segmentation (b :: rest) (.blank b :: pieces)
  | lexeme {c : Lexeme.Class} {bytes rest : List UInt8} {pieces : List Piece}
      (hmunch : Lexeme.Munch c bytes rest) (hrest : Segmentation rest pieces) :
      Segmentation (bytes ++ rest) (.lexeme c bytes :: pieces)

/-- The pieces that the scanner cuts off, one after the other. -/
def Piece.cut : List UInt8 → List Piece
  | [] => []
  | b :: bytes =>
    if Lexeme.isBlank b then blank b :: cut bytes
    else
      lexeme (Lexeme.classOf b) (b :: Lexeme.tail b bytes) ::
        cut (bytes.drop (Lexeme.tail b bytes).length)
termination_by bytes => bytes.length

namespace Segmentation

variable {bytes : List UInt8} {pieces : List Piece}

theorem eq_cut (h : Segmentation bytes pieces) : pieces = Piece.cut bytes := by
  induction h with
  | nil => rw [Piece.cut]
  | blank hblank _ ih => rw [Piece.cut, if_pos hblank, ih]
  | lexeme hmunch _ ih =>
    obtain ⟨b, back, rfl, hblank, rfl, htail⟩ := hmunch.exists_tail
    rw [List.cons_append, Piece.cut, if_neg (Bool.eq_false_iff.1 hblank), htail, List.drop_left, ih]

theorem cut (bytes : List UInt8) : Segmentation bytes (Piece.cut bytes) := by
  fun_induction Piece.cut bytes with
  | case1 => exact .nil
  | case2 b bytes hblank ih => exact .blank hblank ih
  | case3 b bytes hblank ih =>
    have h := Segmentation.lexeme (Lexeme.munch_tail (Bool.eq_false_iff.2 hblank) bytes) ih
    rwa [List.cons_append, Lexeme.tail_append_drop] at h

theorem tokens_eq (h : Segmentation bytes pieces) (place : Location) :
    (Scanner.mk bytes place).tokens = Piece.tokens place pieces := by
  induction h generalizing place with
  | nil => rw [Scanner.tokens_of_nil rfl, Piece.tokens]
  | @blank b rest _ hblank _ ih =>
    have hblanks := Scanner.tokens_blanks (List.forall_mem_singleton.2 hblank) rest place
    rw [List.singleton_append] at hblanks
    rw [hblanks, ih, Piece.tokens]
    rfl
  | lexeme hmunch _ ih =>
    obtain ⟨b, back, rfl, hblank, rfl, htail⟩ := hmunch.exists_tail
    rw [List.cons_append, Scanner.tokens_cons hblank, Scanner.lexed, htail, List.drop_left, ih,
      Lexeme.kind_eq, Piece.tokens]

end Segmentation

/-- A text has one segmentation, and the tokens of a source are the lexemes of the one that its
bytes in front of a zero byte have, with one token behind them for the end. -/
theorem tokenize_segmentation (name : String) (bytes : List UInt8) :
    ∃ pieces, Segmentation (bytes.takeWhile (· ≠ 0)) pieces ∧
      (∀ pieces', Segmentation (bytes.takeWhile (· ≠ 0)) pieces' → pieces' = pieces) ∧
      tokenize (.ofBytes name bytes) = Piece.tokens .start pieces ++
        [⟨.endOfInput, "", Location.start.afterAll (bytes.takeWhile (· ≠ 0))⟩] ∧
      ∀ t ∈ Piece.tokens .start pieces, t.kind ≠ .endOfInput := by
  have hcut := Segmentation.cut (bytes.takeWhile (· ≠ 0))
  have hsource : Scanner.ofSource (.ofBytes name bytes) = ⟨bytes.takeWhile (· ≠ 0), .start⟩ := by
    rw [Scanner.ofSource, Source.visible_ofBytes]
  refine ⟨_, hcut, fun pieces' h => h.eq_cut, ?_, ?_⟩
  · rw [tokenize, hsource, hcut.tokens_eq]
    rfl
  · rw [← hcut.tokens_eq]
    exact fun t ht => Scanner.kind_ne_endOfInput_of_mem ht

end LetLang
