import LetLang.Text.Blank

/-! Lines of a text, numbered from one. A line ends at a line feed, and carriage returns
before it do not belong to the line. -/
namespace LetLang.Text

/-- The stretch of `cs` with the given index, where stretches are what lies between line
feeds; a text with `n` line feeds has `n + 1` of them. -/
def stretch? : Nat → List Char → Option (List Char)
  | 0, cs => some (cs.takeWhile (· ≠ '\n'))
  | index + 1, cs =>
    match cs.dropWhile (· ≠ '\n') with
    | [] => none
    | _ :: rest => stretch? index rest

/-- The line with the given number, without its terminator. -/
def line? (text : String) (number : UInt32) : Option String :=
  if number = 0 then none
  else (stretch? (number.toNat - 1) text.toList).map fun line =>
    String.ofList (trimEnd (· = '\r') line)

example : line? "a\r\r\nb\n" 1 = some "a" := by decide +kernel

end LetLang.Text
