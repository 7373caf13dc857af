/-! What a session prints for a line. -/
namespace LetLang

inductive Mode where
  /-- One line for each token. -/
  | tokens
  /-- The program in brackets, or reports about it. -/
  | program
deriving DecidableEq, Repr, Inhabited

namespace Mode

/-- The mode with the given name on the command line. -/
def ofName? : String → Option Mode
  | "tokens" => some tokens
  | "ast" => some program
  | _ => none

/-- The name of a mode in log lines. -/
def title : Mode → String
  | tokens => "Tokens"
  | program => "Ast"

end Mode
end LetLang
