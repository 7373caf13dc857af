import LetLang.Location
import LetLang.Token.Kind

/-! Tokens: a kind, the text it was read from, and the place where that text starts. -/
namespace LetLang

structure Token where
  kind : Kind
  literal : String
  location : Location
deriving DecidableEq, Repr, Inhabited

namespace Token

/-- The token behind the last one of a text that ends at `place`. -/
def finish (place : Location) : Token := ⟨.endOfInput, "", place⟩

instance : ToString Token where
  toString t :=
    if t.kind.isOpen then s!"{t.kind} ({t.literal}) at {t.location}"
    else s!"{t.kind} at {t.location}"

end Token
end LetLang
