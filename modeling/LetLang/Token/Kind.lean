/-! The kinds of tokens: what each is called in messages, and the kind that a spelling
has. Which bytes form a spelling is the scanner's business. -/
namespace LetLang

inductive Kind where
  | illegal
  | endOfInput
  | identifier
  | integer
  | assign
  | plus
  | minus
  | bang
  | asterisk
  | slash
  | less
  | greater
  | lessEqual
  | greaterEqual
  | equal
  | notEqual
  | comma
  | semicolon
  | leftParen
  | rightParen
  | leftBrace
  | rightBrace
  | functionWord
  | returnWord
  | letWord
  | ifWord
  | trueWord
  | falseWord
deriving DecidableEq, Repr, Inhabited

namespace Kind

def text : Kind → String
  | illegal => "ILLEGAL"
  | endOfInput => "EOF"
  | identifier => "IDENT"
  | integer => "INT"
  | assign => "="
  | plus => "+"
  | minus => "-"
  | bang => "!"
  | asterisk => "*"
  | slash => "/"
  | less => "<"
  | greater => ">"
  | lessEqual => "<="
  | greaterEqual => ">="
  | equal => "=="
  | notEqual => "!="
  | comma => ","
  | semicolon => ";"
  | leftParen => "("
  | rightParen => ")"
  | leftBrace => "\x7b"
  | rightBrace => "\x7d"
  | functionWord => "FUNCTION"
  | returnWord => "RETURN"
  | letWord => "LET"
  | ifWord => "IF"
  | trueWord => "TRUE"
  | falseWord => "FALSE"

instance : ToString Kind := ⟨text⟩

/-- The kind of a mark, a byte that is a token on its own. -/
def ofMark? (b : UInt8) : Option Kind :=
  match Char.ofUInt8 b with
  | '+' => some plus
  | '-' => some minus
  | '*' => some asterisk
  | '/' => some slash
  | ',' => some comma
  | ';' => some semicolon
  | '(' => some leftParen
  | ')' => some rightParen
  | '\x7b' => some leftBrace
  | '\x7d' => some rightBrace
  | _ => none

def ofOperator : String → Kind
  | "=" => assign
  | "==" => equal
  | "!" => bang
  | "!=" => notEqual
  | "<" => less
  | "<=" => lessEqual
  | ">" => greater
  | ">=" => greaterEqual
  | _ => illegal

/-- The kind of a word: reserved, or else an identifier. -/
def ofWord : String → Kind
  | "fn" => functionWord
  | "return" => returnWord
  | "let" => letWord
  | "if" => ifWord
  | "true" => trueWord
  | "false" => falseWord
  | _ => identifier

/-- Operators are spelled as they are called. -/
theorem text_ofOperator {s : String} : ofOperator s = illegal ∨ (ofOperator s).text = s := by
  unfold ofOperator
  split <;> simp [text]

/-- Kinds that stand for many spellings, so that messages show the spelling too. -/
def isOpen : Kind → Bool
  | identifier | integer | illegal => true
  | _ => false

end Kind
end LetLang
