import LetLang.Proofs.Scanner.Spelling

/-! Rendered trees as source text. Brackets are not part of the language, so blanks take their
place; what is left has the tokens of the tree, in their order. -/
namespace LetLang

namespace Text

/-- The text with a blank for every parenthesis. -/
def unbracket (text : String) : String :=
  String.ofList (text.toList.map fun c => if c = '(' ∨ c = ')' then ' ' else c)

@[simp] theorem unbracket_append (s t : String) :
    unbracket (s ++ t) = unbracket s ++ unbracket t := by
  simp [unbracket]

theorem unbracket_eq_self {text : String} (hleft : '(' ∉ text.toList)
    (hright : ')' ∉ text.toList) : unbracket text = text := by
  have hall : text.toList.map (fun c => if c = '(' ∨ c = ')' then ' ' else c) =
      text.toList.map id := by
    apply List.map_congr_left
    intro c hc
    apply if_neg
    rintro (rfl | rfl)
    · exact hleft hc
    · exact hright hc
  rw [unbracket, hall, List.map_id, String.ofList_toList]

end Text

open Text

theorem Token.Legible.unbracket_literal {t : Token} (h : t.Legible) :
    unbracket t.literal = t.literal := by
  apply unbracket_eq_self
  · intro hmem
    exact (h.isSpelling_of_mem_literal hmem).2.2.1 rfl
  · intro hmem
    exact (h.isSpelling_of_mem_literal hmem).2.2.2 rfl

namespace Lexeme

/-- Operator bytes do not start a leaf. -/
theorem isOperator_of_kind {b : UInt8} {literal : String}
    (h : kind b literal = .identifier ∨ kind b literal = .integer) : isOperator b = false := by
  have hnot (spelling : String) : Kind.ofOperator spelling ≠ .identifier ∧
      Kind.ofOperator spelling ≠ .integer := by
    unfold Kind.ofOperator
    split <;> decide
  cases hb : isOperator b with
  | false => rfl
  | true =>
    rw [kind, classOf_of_isOperator hb] at h
    rcases h with h | h
    · exact absurd h (hnot literal).1
    · exact absurd h (hnot literal).2

/-- A sign takes operator bytes at most. -/
theorem takes_of_kind {b d : UInt8} {literal : String} (h : kind b literal ∈ Kind.signs)
    (hd : isOperator d = false) : takes b d = false := by
  have hnot (spelling : String) : Kind.ofWord spelling ∉ Kind.signs := by
    unfold Kind.ofWord
    split <;> decide
  unfold kind at h
  unfold takes
  cases hclass : classOf b with
  | mark k => rfl
  | operator => exact hd
  | letter =>
    rw [hclass] at h
    exact absurd h (hnot literal)
  | digit =>
    rw [hclass] at h
    exact absurd h (show Kind.integer ∉ Kind.signs by decide)
  | other =>
    rw [hclass] at h
    exact absurd h (show Kind.illegal ∉ Kind.signs by decide)

end Lexeme

theorem Spells.sign {t : Token} {bytes : List UInt8} {ts : List Token} (ht : t.Legible)
    (hsign : t.kind ∈ Kind.signs) (h : Spells bytes ts)
    (hborder : ∀ d ∈ bytes.head?, Lexeme.isOperator d = false) :
    Spells (Utf8.encode t.literal ++ bytes) (t :: ts) where
  scanned_append := by
    intro more hmore
    rw [List.append_assoc, ht.scanned_append, h.scanned_append hmore]
    · rfl
    · intro b hb d hd
      cases bytes with
      | nil => exact hmore d hd b
      | cons x bytes =>
        obtain ⟨b', _, hencode, hkind⟩ := ht.exists_encode_eq
        rw [hencode] at hb
        cases hb
        rw [hkind] at hsign
        exact Lexeme.takes_of_kind hsign (hborder d hd)
  isSpelling := by
    intro d hd
    rcases List.mem_append.1 hd with hd | hd
    · exact ht.isSpelling_of_mem_encode hd
    · exact h.isSpelling d hd

namespace Expr

/-- The text of an expression with blanks for its brackets. -/
def plainText (e : Expr) : String := unbracket e.render

theorem plainText_leaf {t : Token} {e : Expr} (ht : t.Legible) (he : e.render = t.literal) :
    e.plainText = t.literal := by
  rw [plainText, he, ht.unbracket_literal]

theorem encode_space : Utf8.encode " " = [0x20] := by decide +kernel

theorem encode_plainText_unary {t : Token} (ht : t.Legible) (operand : Expr) :
    Utf8.encode (unary t t.literal operand).plainText =
      0x20 :: (Utf8.encode t.literal ++ (Utf8.encode operand.plainText ++ [0x20])) := by
  have hrender : (unary t t.literal operand).render =
      "(" ++ t.literal ++ operand.render ++ ")" := rfl
  have htext : (unary t t.literal operand).plainText =
      " " ++ t.literal ++ operand.plainText ++ " " := by
    rw [plainText, hrender]
    simp only [unbracket_append, ht.unbracket_literal]
    rfl
  simp [htext, encode_space]

theorem encode_plainText_binary {t : Token} (ht : t.Legible) (left right : Expr) :
    Utf8.encode (binary t t.literal left right).plainText =
      0x20 :: (Utf8.encode left.plainText ++ 0x20 :: (Utf8.encode t.literal ++
        0x20 :: (Utf8.encode right.plainText ++ [0x20]))) := by
  have hrender : (binary t t.literal left right).render =
      "(" ++ left.render ++ " " ++ t.literal ++ " " ++ right.render ++ ")" := rfl
  have htext : (binary t t.literal left right).plainText =
      " " ++ left.plainText ++ " " ++ t.literal ++ " " ++ right.plainText ++ " " := by
    rw [plainText, hrender]
    simp only [unbracket_append, ht.unbracket_literal]
    rfl
  simp [htext, encode_space]

theorem head_leaf_ne_operator {t : Token} (ht : t.Legible)
    (hkind : t.kind = .identifier ∨ t.kind = .integer) (more : List UInt8) :
    ∀ d ∈ (Utf8.encode t.literal ++ more).head?, Lexeme.isOperator d = false := by
  obtain ⟨b, bytes, hencode, hb⟩ := ht.exists_encode_eq
  rw [hb] at hkind
  rw [hencode]
  simpa using Lexeme.isOperator_of_kind hkind

/-- No operator byte starts an expression's text, so no sign runs into its operand. -/
theorem head_plainText_ne_operator {e : Expr} (hwell : e.WellFormed)
    (hlegible : ∀ t ∈ e.tokens, t.Legible) (more : List UInt8) :
    ∀ d ∈ (Utf8.encode e.plainText ++ more).head?, Lexeme.isOperator d = false := by
  cases e with
  | name identifier =>
    have hgenuine := wellFormed_name.1 hwell
    have ht : identifier.token.Legible := hlegible _ (by simp [tokens])
    have hrender : (name identifier).render = identifier.token.literal := hgenuine.2
    rw [plainText_leaf ht hrender]
    exact head_leaf_ne_operator ht (.inl hgenuine.1) more
  | integer t value =>
    have ht : t.Legible := hlegible _ (by simp [tokens])
    rw [plainText_leaf ht rfl]
    exact head_leaf_ne_operator ht (.inr (wellFormed_integer.1 hwell).1) more
  | unary t operator operand =>
    obtain ⟨⟨_, _, rfl⟩, _⟩ := wellFormed_unary.1 hwell
    rw [encode_plainText_unary (hlegible _ (by simp [tokens]))]
    simp [Lexeme.isOperator]
  | binary t operator left right =>
    obtain ⟨⟨_, _, rfl⟩, _⟩ := wellFormed_binary.1 hwell
    rw [encode_plainText_binary (hlegible _ (by simp [tokens]))]
    simp [Lexeme.isOperator]

/-- Without its brackets an expression still has the same tokens. -/
theorem spells_plainText {e : Expr} (hwell : e.WellFormed)
    (hlegible : ∀ t ∈ e.tokens, t.Legible) : Spells (Utf8.encode e.plainText) e.tokens := by
  induction e with
  | name identifier =>
    have ht : identifier.token.Legible := hlegible _ (by simp [tokens])
    have hrender : (name identifier).render = identifier.token.literal :=
      (wellFormed_name.1 hwell).2
    rw [plainText_leaf ht hrender]
    exact .literal ht
  | integer t value =>
    have ht : t.Legible := hlegible _ (by simp [tokens])
    rw [plainText_leaf ht rfl]
    exact .literal ht
  | unary t operator operand ih =>
    obtain ⟨⟨_, hsign, rfl⟩, hoperand⟩ := wellFormed_unary.1 hwell
    have ht : t.Legible := hlegible _ (by simp [tokens])
    have hlegible : ∀ u ∈ operand.tokens, u.Legible := fun u hu => hlegible u (by simp [tokens, hu])
    have hborder := head_plainText_ne_operator hoperand hlegible [0x20]
    have hclosed := (ih hoperand hlegible).append .space (Spells.severed_space [])
    rw [List.append_nil] at hclosed
    rw [encode_plainText_unary ht, tokens]
    apply Spells.space_cons
    exact Spells.sign ht hsign hclosed hborder
  | binary t operator left right ihleft ihright =>
    obtain ⟨⟨_, _, rfl⟩, hleft, hright⟩ := wellFormed_binary.1 hwell
    have ht : t.Legible := hlegible _ (by simp [tokens])
    have ihleft := ihleft hleft fun u hu => hlegible u (by simp [tokens, hu])
    have ihright := ihright hright fun u hu => hlegible u (by simp [tokens, hu])
    have hclosed := ihright.append .space (Spells.severed_space [])
    have hjoined := (Spells.literal ht).append hclosed.space_cons (Spells.severed_space _)
    have h := (ihleft.append hjoined.space_cons (Spells.severed_space _)).space_cons
    rw [encode_plainText_binary ht, tokens]
    rwa [List.append_nil] at h

end Expr

namespace Token

theorem legible_assignSign : assignSign.Legible := by
  have h : assignSign = Scanner.lexed .start 0x3D [] := by decide +kernel
  rw [h]
  exact .lexed (by decide) (by decide) (List.forall_mem_singleton.2 (by decide))

theorem legible_semicolonSign : semicolonSign.Legible := by
  have h : semicolonSign = Scanner.lexed .start 0x3B [] := by decide +kernel
  rw [h]
  exact .lexed (by decide) (by decide) (List.forall_mem_singleton.2 (by decide))

end Token

theorem Spells.assign : Spells [0x3D] [.assignSign] := by
  have h := Spells.literal Token.legible_assignSign
  have hencode : Utf8.encode Token.assignSign.literal = [0x3D] := by decide +kernel
  rwa [hencode] at h

/-- A semicolon takes nothing, so anything may stand behind it. -/
theorem scanned_semicolon (more : List UInt8) :
    scanned (0x3B :: more) = .semicolonSign :: scanned more := by
  have hencode : Utf8.encode Token.semicolonSign.literal = [0x3B] := by decide +kernel
  have hclass : Lexeme.classOf 0x3B = .mark .semicolon := by decide
  have htakes : ∀ b ∈ (Utf8.encode Token.semicolonSign.literal).head?, ∀ d ∈ more.head?,
      Lexeme.takes b d = false := by
    intro b hb d _
    rw [hencode] at hb
    cases hb
    rw [Lexeme.takes, hclass]
  have h := Token.legible_semicolonSign.scanned_append htakes
  rwa [hencode, List.singleton_append] at h

namespace Statement

/-- What a statement's text needs at its end: an expression is rendered without a semicolon. -/
def closing : Statement → String
  | binding _ _ _ => ""
  | returning _ _ => ""
  | expression _ _ => ";"

/-- The text of a statement with blanks for its brackets, and with its semicolon. -/
def plainText (s : Statement) : String := unbracket s.render ++ s.closing

theorem encode_semicolon : Utf8.encode ";" = [0x3B] := by decide +kernel

theorem encode_assign : Utf8.encode " = " = [0x20, 0x3D, 0x20] := by decide +kernel

section
variable {token : Token} (htoken : token.Legible)
include htoken

theorem encode_plainText_binding {name : Identifier} (hname : name.token.Legible)
    (hliteral : name.name = name.token.literal) (value : Expr) :
    Utf8.encode (binding token name (some value)).plainText =
      Utf8.encode token.literal ++ 0x20 :: (Utf8.encode name.token.literal ++ 0x20 ::
        ([0x3D] ++ 0x20 :: Utf8.encode value.plainText)) ++ [0x3B] := by
  have hrender : (binding token name (some value)).render =
      token.literal ++ " " ++ name.name ++ " = " ++ value.render ++ ";" := rfl
  have htext : (binding token name (some value)).plainText =
      token.literal ++ " " ++ name.token.literal ++ " = " ++ value.plainText ++ ";" := by
    rw [plainText, hrender, hliteral, closing, String.append_empty]
    simp only [unbracket_append, htoken.unbracket_literal, hname.unbracket_literal]
    rfl
  simp [htext, Expr.encode_space, encode_semicolon, encode_assign]

theorem encode_plainText_returning (value : Expr) :
    Utf8.encode (returning token (some value)).plainText =
      Utf8.encode token.literal ++ 0x20 :: Utf8.encode value.plainText ++ [0x3B] := by
  have hrender : (returning token (some value)).render =
      token.literal ++ " " ++ value.render ++ ";" := rfl
  have htext : (returning token (some value)).plainText =
      token.literal ++ " " ++ value.plainText ++ ";" := by
    rw [plainText, hrender, closing, String.append_empty]
    simp only [unbracket_append, htoken.unbracket_literal]
    rfl
  simp [htext, Expr.encode_space, encode_semicolon]

theorem encode_plainText_returning_none :
    Utf8.encode (returning token none).plainText = Utf8.encode token.literal ++ [0x3B] := by
  have hrender : (returning token none).render = token.literal ++ ";" := rfl
  have htext : (returning token none).plainText = token.literal ++ ";" := by
    rw [plainText, hrender, closing, String.append_empty]
    simp only [unbracket_append, htoken.unbracket_literal]
    rfl
  simp [htext, encode_semicolon]

end

theorem encode_plainText_expression (token : Token) (expr : Expr) :
    Utf8.encode (expression token expr).plainText = Utf8.encode expr.plainText ++ [0x3B] := by
  have htext : (expression token expr).plainText = expr.plainText ++ ";" := rfl
  simp [htext, encode_semicolon]

theorem exists_spells {s : Statement} (hwell : s.WellFormed)
    (hlegible : ∀ t ∈ s.tokens, t.Legible) :
    ∃ bytes, Utf8.encode s.plainText = bytes ++ [0x3B] ∧ Spells bytes s.written := by
  cases s with
  | binding token name value? =>
    obtain ⟨_, ⟨_, hliteral⟩, value, rfl, hwell⟩ := hwell
    have htoken : token.Legible := hlegible _ (by simp [tokens])
    have hname : name.token.Legible := hlegible _ (by simp [tokens])
    have hvalue := Expr.spells_plainText hwell fun t ht => hlegible t (by simp [tokens, ht])
    have hassign := Spells.assign.append hvalue.space_cons (Spells.severed_space _)
    have hnamed := (Spells.literal hname).append hassign.space_cons (Spells.severed_space _)
    have hbinding := (Spells.literal htoken).append hnamed.space_cons (Spells.severed_space _)
    exact ⟨_, encode_plainText_binding htoken hname hliteral value, hbinding⟩
  | returning token value? =>
    have htoken : token.Legible := hlegible _ (by simp [tokens])
    cases value? with
    | none => exact ⟨_, encode_plainText_returning_none htoken, .literal htoken⟩
    | some value =>
      have hvalue := Expr.spells_plainText (hwell.2 value rfl) fun t ht =>
        hlegible t (by simp [tokens, ht])
      have hreturning := (Spells.literal htoken).append hvalue.space_cons (Spells.severed_space _)
      exact ⟨_, encode_plainText_returning htoken value, hreturning⟩
  | expression token expr =>
    exact ⟨_, encode_plainText_expression token expr, Expr.spells_plainText hwell.2 hlegible⟩

theorem scanned_plainText {s : Statement} (hwell : s.WellFormed)
    (hlegible : ∀ t ∈ s.tokens, t.Legible) (more : List UInt8) :
    scanned (Utf8.encode s.plainText ++ more) =
      (s.written ++ [Token.semicolonSign]).map (Token.relocate .forget) ++ scanned more := by
  obtain ⟨bytes, htext, h⟩ := exists_spells hwell hlegible
  rw [htext, List.append_assoc, List.singleton_append,
    h.scanned_append (Lexeme.severed_semicolon more), scanned_semicolon, List.map_append,
    List.append_assoc]
  rfl

theorem zero_not_mem_plainText {s : Statement} (hwell : s.WellFormed)
    (hlegible : ∀ t ∈ s.tokens, t.Legible) : 0 ∉ Utf8.encode s.plainText := by
  obtain ⟨bytes, htext, h⟩ := exists_spells hwell hlegible
  rw [htext]
  intro hmem
  rcases List.mem_append.1 hmem with hmem | hmem
  · exact (h.isSpelling 0 hmem).2.1 rfl
  · simp at hmem

end Statement

def Program.plainText (p : Program) : String :=
  String.join (p.statements.map Statement.plainText)

end LetLang
