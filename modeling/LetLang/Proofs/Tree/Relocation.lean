import LetLang.Diagnostic.Basic
import LetLang.Proofs.Tree.Shape

/-! Moving tokens to other places. Kinds and spellings stay as they are, and a tree moves with
the tokens it was built around. -/
namespace LetLang

variable (f : Location → Location)

/-- The map that leaves nothing of a place. -/
def Location.forget (_ : Location) : Location := .start

def Token.relocate (t : Token) : Token := ⟨t.kind, t.literal, f t.location⟩

@[simp] theorem Token.kind_relocate (t : Token) : (t.relocate f).kind = t.kind := rfl

@[simp] theorem Token.literal_relocate (t : Token) : (t.relocate f).literal = t.literal := rfl

@[simp] theorem Token.location_relocate (t : Token) :
    (t.relocate f).location = f t.location := rfl

@[simp] theorem Token.relocate_finish (place : Location) :
    (Token.finish place).relocate f = .finish (f place) := rfl

def Identifier.relocate (identifier : Identifier) : Identifier :=
  ⟨identifier.token.relocate f, identifier.name⟩

@[simp] theorem Identifier.relocate_ofToken (t : Token) :
    (Identifier.ofToken t).relocate f = .ofToken (t.relocate f) := rfl

namespace Expr

def relocate : Expr → Expr
  | name identifier => name (identifier.relocate f)
  | integer token value => integer (token.relocate f) value
  | unary token operator operand => unary (token.relocate f) operator operand.relocate
  | binary token operator left right =>
    binary (token.relocate f) operator left.relocate right.relocate

@[simp] theorem relocate_ofSign (t : Token) (operand : Expr) :
    (ofSign t operand).relocate f = ofSign (t.relocate f) (operand.relocate f) := rfl

@[simp] theorem relocate_ofOperator (t : Token) (left right : Expr) :
    (ofOperator t left right).relocate f =
      ofOperator (t.relocate f) (left.relocate f) (right.relocate f) := rfl

end Expr

def Statement.relocate : Statement → Statement
  | binding token name value? =>
    binding (token.relocate f) (name.relocate f) (value?.map (Expr.relocate f))
  | returning token value? => returning (token.relocate f) (value?.map (Expr.relocate f))
  | expression token expr => expression (token.relocate f) (expr.relocate f)

def Program.relocate (p : Program) : Program := ⟨p.statements.map (Statement.relocate f)⟩

def Diagnostic.relocate (d : Diagnostic) : Diagnostic := ⟨d.fault, f d.location⟩

end LetLang
