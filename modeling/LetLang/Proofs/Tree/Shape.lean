import LetLang.Numeral
import LetLang.Precedence
import LetLang.Tree.Program

/-! The shape of expressions: their tokens from left to right, and which trees the precedences
allow. Brackets are no part of an expression, so the precedences alone must tell trees apart. -/
namespace LetLang

namespace Kind

def signs : List Kind := [bang, minus, plus]

def operators : List Kind :=
  [equal, notEqual, less, greater, lessEqual, greaterEqual, plus, minus, asterisk, slash]

theorem mem_signs_iff {k : Kind} : k ∈ signs ↔ k.lead? = some .sign := by
  cases k <;> decide

theorem lead?_eq_name_iff {k : Kind} : k.lead? = some .name ↔ k = identifier := by
  cases k <;> decide

theorem lead?_eq_numeral_iff {k : Kind} : k.lead? = some .numeral ↔ k = integer := by
  cases k <;> decide

/-- A kind that starts an expression is none of those that cannot. -/
theorem ne_of_lead? {k k' : Kind} (hlead : k.lead? ≠ none) (h : k'.lead? = none) : k ≠ k' := by
  intro hsame
  rw [hsame] at hlead
  exact hlead h

theorem mem_operators_iff {k : Kind} : k ∈ operators ↔ k.isBinary = true := by
  cases k <;> decide

theorem lowest_lt_precedence_of_isBinary {k : Kind} (h : k.isBinary = true) :
    .lowest < k.precedence :=
  lowest_lt_precedence_iff.2 (.inl h)

theorem precedence_lt_unary_of_isBinary {k : Kind} (h : k.isBinary = true) :
    k.precedence < .unary := by
  cases k <;> revert h <;> decide

theorem precedence_lt_call_of_isBinary {k : Kind} (h : k.isBinary = true) :
    k.precedence < .call :=
  Nat.lt_trans (precedence_lt_unary_of_isBinary h) (by decide)

theorem eq_leftParen_of_lt {bound : Precedence} {k : Kind} (hbound : bound < k.precedence)
    (hbinary : k.isBinary = false) : k = leftParen := by
  have hlowest : .lowest < k.precedence := Nat.lt_of_le_of_lt (Nat.zero_le _) hbound
  simpa [hbinary] using lowest_lt_precedence_iff.1 hlowest

/-- The opening parenthesis alone binds tighter than a sign. -/
theorem unary_lt_precedence_iff {k : Kind} : .unary < k.precedence ↔ k = .leftParen := by
  cases k <;> decide

end Kind

namespace Expr

/-- The tokens of an expression, from left to right. -/
def tokens : Expr → List Token
  | name identifier => [identifier.token]
  | integer token _ => [token]
  | unary token _ operand => token :: operand.tokens
  | binary token _ left right => left.tokens ++ token :: right.tokens

def lastToken : Expr → Token
  | name identifier => identifier.token
  | integer token _ => token
  | unary _ _ operand => operand.lastToken
  | binary _ _ _ right => right.lastToken

@[simp] theorem tokens_ofSign (t : Token) (operand : Expr) :
    (ofSign t operand).tokens = t :: operand.tokens := rfl

@[simp] theorem tokens_ofOperator (t : Token) (left right : Expr) :
    (ofOperator t left right).tokens = left.tokens ++ t :: right.tokens := rfl

@[simp] theorem lastToken_ofSign (t : Token) (operand : Expr) :
    (ofSign t operand).lastToken = operand.lastToken := rfl

@[simp] theorem lastToken_ofOperator (t : Token) (left right : Expr) :
    (ofOperator t left right).lastToken = right.lastToken := rfl

theorem exists_tokens_eq (e : Expr) : ∃ front, e.tokens = front ++ [e.lastToken] := by
  induction e with
  | name identifier => exact ⟨[], rfl⟩
  | integer token value => exact ⟨[], rfl⟩
  | unary token operator operand ih =>
    obtain ⟨front, h⟩ := ih
    exact ⟨token :: front, by rw [tokens, h, lastToken, List.cons_append]⟩
  | binary token operator left right _ ih =>
    obtain ⟨front, h⟩ := ih
    exact ⟨left.tokens ++ token :: front, by simp [tokens, lastToken, h]⟩

theorem tokens_ne_nil (e : Expr) : e.tokens ≠ [] := by
  obtain ⟨front, h⟩ := e.exists_tokens_eq
  simp [h]

/-- An expression and all expressions in it. -/
def parts : Expr → List Expr
  | name identifier => [name identifier]
  | integer token value => [integer token value]
  | unary token operator operand => unary token operator operand :: operand.parts
  | binary token operator left right =>
    binary token operator left right :: (left.parts ++ right.parts)

theorem self_mem_parts (e : Expr) : e ∈ e.parts := by
  cases e <;> simp [parts]

/-- The precedence of the operator that joins an expression together, if there is one. -/
def joint? : Expr → Option Precedence
  | binary token _ _ _ => some token.kind.precedence
  | _ => none

/-- A node stands in an order that the precedences allow: a sign has no joined operand, a left
operand does not bind weaker than the operator, and a right operand binds tighter. -/
def Ordered : Expr → Prop
  | name _ => True
  | integer _ _ => True
  | unary _ _ operand => operand.joint? = none
  | binary token _ left right =>
    (∀ p ∈ left.joint?, token.kind.precedence ≤ p) ∧
      ∀ p ∈ right.joint?, token.kind.precedence < p

/-- A node says what its token says. -/
def Genuine : Expr → Prop
  | name identifier =>
    identifier.token.kind = .identifier ∧ identifier.name = identifier.token.literal
  | integer token value =>
    token.kind = .integer ∧ ∃ n : Nat, Numeral.value? token.literal = some n ∧ value.toInt = n
  | unary token operator _ => token.kind ∈ Kind.signs ∧ operator = token.literal
  | binary token operator _ _ => token.kind ∈ Kind.operators ∧ operator = token.literal

def WellFormed (e : Expr) : Prop := ∀ part ∈ e.parts, part.Ordered ∧ part.Genuine

theorem wellFormed_name {identifier : Identifier} :
    (name identifier).WellFormed ↔ (name identifier).Genuine := by
  simp [WellFormed, parts, Ordered]

theorem wellFormed_integer {token : Token} {value : Int64} :
    (integer token value).WellFormed ↔ (integer token value).Genuine := by
  simp [WellFormed, parts, Ordered]

theorem wellFormed_unary {token : Token} {operator : String} {operand : Expr} :
    (unary token operator operand).WellFormed ↔
      ((unary token operator operand).Ordered ∧ (unary token operator operand).Genuine) ∧
        operand.WellFormed := by
  simp [WellFormed, parts]

theorem wellFormed_binary {token : Token} {operator : String} {left right : Expr} :
    (binary token operator left right).WellFormed ↔
      ((binary token operator left right).Ordered ∧
        (binary token operator left right).Genuine) ∧ left.WellFormed ∧ right.WellFormed := by
  simp only [WellFormed, parts, List.mem_cons, List.mem_append, forall_eq_or_imp]
  exact and_congr_right' ⟨fun h => ⟨fun e he => h e (.inl he), fun e he => h e (.inr he)⟩,
    fun h e he => he.elim (h.1 e) (h.2 e)⟩

theorem WellFormed.genuine {e : Expr} (h : e.WellFormed) : e.Genuine :=
  (h e e.self_mem_parts).2

theorem parts_subset {e part : Expr} (h : part ∈ e.parts) : part.parts ⊆ e.parts := by
  induction e with
  | name identifier =>
    obtain rfl := List.mem_singleton.1 h
    exact List.Subset.refl _
  | integer token value =>
    obtain rfl := List.mem_singleton.1 h
    exact List.Subset.refl _
  | unary token operator operand ih =>
    rcases List.mem_cons.1 h with rfl | h
    · exact List.Subset.refl _
    · exact List.subset_cons_of_subset _ (ih h)
  | binary token operator left right ihleft ihright =>
    rcases List.mem_cons.1 h with rfl | h
    · exact List.Subset.refl _
    · apply List.subset_cons_of_subset
      rcases List.mem_append.1 h with h | h
      · exact List.subset_append_of_subset_left _ (ihleft h)
      · exact List.subset_append_of_subset_right _ (ihright h)

theorem WellFormed.of_mem_parts {e part : Expr} (h : e.WellFormed) (hpart : part ∈ e.parts) :
    part.WellFormed :=
  fun _ hmem => h _ (parts_subset hpart hmem)

/-- An expression starts with a token that may start one. -/
theorem WellFormed.exists_tokens_eq_cons {e : Expr} (h : e.WellFormed) :
    ∃ t ts, e.tokens = t :: ts ∧ t.kind.lead? ≠ none := by
  induction e with
  | name identifier =>
    have hkind := (wellFormed_name.1 h).1
    exact ⟨_, _, rfl, by rw [hkind]; decide⟩
  | integer token value =>
    have hkind := (wellFormed_integer.1 h).1
    exact ⟨_, _, rfl, by rw [hkind]; decide⟩
  | unary token operator operand ih =>
    have hsign := Kind.mem_signs_iff.1 (wellFormed_unary.1 h).1.2.1
    exact ⟨_, _, rfl, by rw [hsign]; decide⟩
  | binary token operator left right ihleft ihright =>
    obtain ⟨t, ts, htokens, hlead⟩ := ihleft (wellFormed_binary.1 h).2.1
    exact ⟨t, ts ++ token :: right.tokens, by rw [tokens, htokens]; rfl, hlead⟩

theorem WellFormed.kind_of_mem_tokens {e : Expr} (h : e.WellFormed) :
    ∀ t ∈ e.tokens, t.kind.lead? ≠ none ∨ t.kind.isBinary = true := by
  induction e with
  | name identifier =>
    have hkind := (wellFormed_name.1 h).1
    simp [tokens, hkind, Kind.lead?]
  | integer token value =>
    have hkind := (wellFormed_integer.1 h).1
    simp [tokens, hkind, Kind.lead?]
  | unary token operator operand ih =>
    have hsign := Kind.mem_signs_iff.1 (wellFormed_unary.1 h).1.2.1
    intro t ht
    rcases List.mem_cons.1 ht with rfl | ht
    · exact .inl (by rw [hsign]; decide)
    · exact ih (wellFormed_unary.1 h).2 t ht
  | binary token operator left right ihleft ihright =>
    have hbinary := Kind.mem_operators_iff.1 (wellFormed_binary.1 h).1.2.1
    intro t ht
    rcases List.mem_append.1 ht with ht | ht
    · exact ihleft (wellFormed_binary.1 h).2.1 t ht
    · rcases List.mem_cons.1 ht with rfl | ht
      · exact .inr hbinary
      · exact ihright (wellFormed_binary.1 h).2.2 t ht

end Expr

namespace Token

def assignSign : Token := ⟨.assign, "=", .start⟩

def semicolonSign : Token := ⟨.semicolon, ";", .start⟩

end Token

namespace Statement

/-- The tokens that a statement keeps, from left to right. -/
def tokens : Statement → List Token
  | binding token name value? => token :: name.token :: value?.elim [] Expr.tokens
  | returning token value? => token :: value?.elim [] Expr.tokens
  | expression _ expr => expr.tokens

/-- The tokens that a statement is written with, but for the semicolon behind it. -/
def written : Statement → List Token
  | binding token name value? =>
    token :: name.token :: .assignSign :: value?.elim [] Expr.tokens
  | returning token value? => token :: value?.elim [] Expr.tokens
  | expression _ expr => expr.tokens

/-- All expressions in a statement, the name of a binding among them. -/
def expressions : Statement → List Expr
  | binding _ name value? => .name name :: value?.elim [] Expr.parts
  | returning _ value? => value?.elim [] Expr.parts
  | expression _ expr => expr.parts

def WellFormed : Statement → Prop
  | binding token name value? =>
    token.kind = .letWord ∧ (Expr.name name).Genuine ∧ ∃ value, value? = some value ∧
      value.WellFormed
  | returning token value? => token.kind = .returnWord ∧ ∀ value ∈ value?, value.WellFormed
  | expression token expr => expr.tokens.head? = some token ∧ expr.WellFormed

theorem WellFormed.of_mem_expressions {s : Statement} {e : Expr} (h : s.WellFormed)
    (he : e ∈ s.expressions) : e.WellFormed := by
  cases s with
  | binding token name value? =>
    obtain ⟨_, hname, value, rfl, hvalue⟩ := h
    rcases List.mem_cons.1 he with rfl | he
    · exact Expr.wellFormed_name.2 hname
    · exact hvalue.of_mem_parts he
  | returning token value? =>
    cases value? with
    | none => cases he
    | some value => exact (h.2 value rfl).of_mem_parts he
  | expression token expr => exact h.2.of_mem_parts he

theorem WellFormed.kind_of_mem_tokens {s : Statement} (h : s.WellFormed) :
    ∀ t ∈ s.tokens, t.kind = .letWord ∨ t.kind = .returnWord ∨ t.kind.lead? ≠ none ∨
      t.kind.isBinary = true := by
  intro t ht
  cases s with
  | binding token name value? =>
    obtain ⟨htoken, hname, value, rfl, hvalue⟩ := h
    rcases List.mem_cons.1 ht with rfl | ht
    · exact .inl htoken
    · rcases List.mem_cons.1 ht with rfl | ht
      · exact .inr (.inr ((Expr.wellFormed_name.2 hname).kind_of_mem_tokens _ (by simp [Expr.tokens])))
      · exact .inr (.inr (hvalue.kind_of_mem_tokens t ht))
  | returning token value? =>
    rcases List.mem_cons.1 ht with rfl | ht
    · exact .inr (.inl h.1)
    · cases value? with
      | none => cases ht
      | some value => exact .inr (.inr ((h.2 value rfl).kind_of_mem_tokens t ht))
  | expression token expr => exact .inr (.inr (h.2.kind_of_mem_tokens t ht))

end Statement

def Program.expressions (p : Program) : List Expr := p.statements.flatMap Statement.expressions

end LetLang
