import LetLang.Token.Basic

/-! Expressions. Each node keeps the token it was built around; the operator and name texts
are kept beside the token, since a tree built by hand may give them freely. -/
namespace LetLang

structure Identifier where
  token : Token
  name : String
deriving DecidableEq, Repr

def Identifier.ofToken (t : Token) : Identifier := ⟨t, t.literal⟩

inductive Expr where
  | name (identifier : Identifier)
  | integer (token : Token) (value : Int64)
  | unary (token : Token) (operator : String) (operand : Expr)
  | binary (token : Token) (operator : String) (left right : Expr)
deriving DecidableEq, Repr

namespace Expr

/-- The token a node was built around; for an operator, the operator's. -/
def token : Expr → Token
  | name identifier => identifier.token
  | integer token _ => token
  | unary token _ _ => token
  | binary token _ _ _ => token

/-- The place where the text of a node starts: a binary node starts with its left operand. -/
def location : Expr → Location
  | binary _ _ left _ => left.location
  | e => e.token.location

/-- The text of an expression with every operator in brackets of its own. -/
def render : Expr → String
  | name identifier => identifier.name
  | integer token _ => token.literal
  | unary _ operator operand => s!"({operator}{operand.render})"
  | binary _ operator left right => s!"({left.render} {operator} {right.render})"

instance : ToString Expr := ⟨render⟩

@[simp] theorem location_binary (token : Token) (operator : String) (left right : Expr) :
    (binary token operator left right).location = left.location := rfl

def ofSign (t : Token) (operand : Expr) : Expr := .unary t t.literal operand

def ofOperator (t : Token) (left right : Expr) : Expr := .binary t t.literal left right

end Expr
end LetLang
