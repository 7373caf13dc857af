import LetLang.Text.Utf8
import LetLang.Token.Kind

/-! The bytes of one token. The first byte of a lexeme decides its class, the class decides
which bytes may follow and how many, and a lexeme takes as many as it may. -/
namespace LetLang.Lexeme

/-- Bytes that separate tokens: space, tab, line feed and carriage return. -/
def isBlank (b : UInt8) : Bool := b = 0x20 || b = 0x09 || b = 0x0A || b = 0x0D

def isOperator (b : UInt8) : Bool := b = 0x3D || b = 0x21 || b = 0x3C || b = 0x3E

def isLetter (b : UInt8) : Bool :=
  (0x41 ≤ b && b ≤ 0x5A) || (0x61 ≤ b && b ≤ 0x7A) || b = 0x5F

def isDigit (b : UInt8) : Bool := 0x30 ≤ b && b ≤ 0x39

def isContinuation (b : UInt8) : Bool := Utf8.continuation.contains b

inductive Class where
  | mark (kind : Kind)
  | operator
  | letter
  | digit
  | other
deriving DecidableEq, Repr

def classOf (b : UInt8) : Class :=
  match Kind.ofMark? b with
  | some kind => .mark kind
  | none =>
    if isOperator b then .operator
    else if isLetter b then .letter
    else if isDigit b then .digit
    else .other

/-- The bytes of a lexeme behind its first byte `b`, out of the bytes that follow. -/
def tail (b : UInt8) (bytes : List UInt8) : List UInt8 :=
  match classOf b with
  | .mark _ => []
  | .operator => (bytes.take 1).takeWhile isOperator
  | .letter => bytes.takeWhile isLetter
  | .digit => bytes.takeWhile isDigit
  | .other => (bytes.take (Utf8.width b - 1)).takeWhile isContinuation

theorem tail_isPrefix (b : UInt8) (bytes : List UInt8) : tail b bytes <+: bytes := by
  unfold tail
  split
  · exact List.nil_prefix
  · exact (List.takeWhile_prefix _).trans (List.take_prefix ..)
  · exact List.takeWhile_prefix _
  · exact List.takeWhile_prefix _
  · exact (List.takeWhile_prefix _).trans (List.take_prefix ..)

theorem tail_append_drop (b : UInt8) (bytes : List UInt8) :
    tail b bytes ++ bytes.drop (tail b bytes).length = bytes :=
  List.prefix_iff_eq_append.1 (tail_isPrefix b bytes)

def kind (b : UInt8) (literal : String) : Kind :=
  match classOf b with
  | .mark kind => kind
  | .operator => .ofOperator literal
  | .letter => .ofWord literal
  | .digit => .integer
  | .other => .illegal

end LetLang.Lexeme
