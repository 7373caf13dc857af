import LetLang.Token.Kind

/-! Binding strength of operators, and the part each kind plays in an expression. -/
namespace LetLang

inductive Precedence where
  | lowest
  | equals
  | comparison
  | sum
  | product
  | unary
  | call
deriving DecidableEq, Repr, Inhabited

namespace Precedence

def all : List Precedence := [lowest, equals, comparison, sum, product, unary, call]

def rank : Precedence → Nat
  | lowest => 0
  | equals => 1
  | comparison => 2
  | sum => 3
  | product => 4
  | unary => 5
  | call => 6

instance : LT Precedence := ⟨fun p q => p.rank < q.rank⟩

instance (p q : Precedence) : Decidable (p < q) := inferInstanceAs (Decidable (p.rank < q.rank))

instance : LE Precedence := ⟨fun p q => p.rank ≤ q.rank⟩

instance (p q : Precedence) : Decidable (p ≤ q) := inferInstanceAs (Decidable (p.rank ≤ q.rank))

theorem lt_iff {p q : Precedence} : p < q ↔ p.rank < q.rank := Iff.rfl

theorem le_iff {p q : Precedence} : p ≤ q ↔ p.rank ≤ q.rank := Iff.rfl

theorem rank_inj {p q : Precedence} : p.rank = q.rank ↔ p = q := by
  cases p <;> cases q <;> decide

theorem not_lt_lowest (p : Precedence) : ¬ p < lowest := Nat.not_lt_zero _

/-- The precedences weaker than `p`, weakest first. -/
def weaker (p : Precedence) : List Precedence := all.filter (· < p)

end Precedence

namespace Kind

/-- How strongly a kind binds behind an operand; `lowest` if it binds nothing. The opening
parenthesis binds, though nothing can be made of it there. -/
def precedence : Kind → Precedence
  | equal | notEqual => .equals
  | less | greater | lessEqual | greaterEqual => .comparison
  | plus | minus => .sum
  | asterisk | slash => .product
  | leftParen => .call
  | _ => .lowest

inductive Lead where
  | name
  | numeral
  | sign
deriving DecidableEq, Repr

/-- The part a kind plays at the start of an expression, if it can stand there. -/
def lead? : Kind → Option Lead
  | identifier => some .name
  | integer => some .numeral
  | bang | minus | plus => some .sign
  | _ => none

def isBinary : Kind → Bool
  | equal | notEqual | less | greater | lessEqual | greaterEqual => true
  | plus | minus | asterisk | slash => true
  | _ => false

/-- The kinds that bind are the ones that join two operands, and the opening parenthesis. -/
theorem lowest_lt_precedence_iff {k : Kind} :
    .lowest < k.precedence ↔ k.isBinary = true ∨ k = .leftParen := by
  cases k <;> decide

end Kind
end LetLang
