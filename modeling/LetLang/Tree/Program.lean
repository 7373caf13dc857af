import LetLang.Tree.Expr

/-! Statements, and programs made of them. -/
namespace LetLang

inductive Statement where
  /-- A name bound to a value, as in `let x = 1;`. -/
  | binding (token : Token) (name : Identifier) (value? : Option Expr)
  | returning (token : Token) (value? : Option Expr)
  /-- An expression on its own; the token is the first of the expression. -/
  | expression (token : Token) (expr : Expr)
deriving DecidableEq, Repr

namespace Statement

def token : Statement → Token
  | binding token _ _ => token
  | returning token _ => token
  | expression token _ => token

def location : Statement → Location
  | expression _ expr => expr.location
  | s => s.token.location

def render : Statement → String
  | binding token name none => s!"{token.literal} {name.name} = ;"
  | binding token name (some value) => s!"{token.literal} {name.name} = {value};"
  | returning token none => s!"{token.literal};"
  | returning token (some value) => s!"{token.literal} {value};"
  | expression _ expr => expr.render

instance : ToString Statement := ⟨render⟩

end Statement

structure Program where
  statements : List Statement
deriving DecidableEq, Repr, Inhabited

namespace Program

/-- The statements one after the other, with nothing between them. -/
def render (p : Program) : String := String.join (p.statements.map Statement.render)

instance : ToString Program := ⟨render⟩

def literal (p : Program) : String :=
  (p.statements.head?.map (·.token.literal)).getD ""

end Program
end LetLang
