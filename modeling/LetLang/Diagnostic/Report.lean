import LetLang.Diagnostic.Basic
import LetLang.Text.Lines

/-! Reports: a diagnostic shown against the text it is about, with the line it names and a
caret under the column it names. Columns count bytes, the caret counts characters. -/
namespace LetLang.Diagnostic

/-- How many characters of `line` start before the byte offset `bytes`. -/
def charsBefore (line : List Char) (bytes : Nat) : Nat :=
  match line with
  | [] => 0
  | c :: cs => if bytes = 0 then 0 else charsBefore cs (bytes - c.utf8Size) + 1

def isIndent (c : Char) : Bool := c = ' ' || c = '\t'

/-- The line without its indentation and without the blanks at its end. -/
def shown (line : List Char) : List Char :=
  Text.trimEnd Text.isBlank (line.dropWhile isIndent)

/-- How many dashes stand before the caret: the characters between the indentation and the
column, and none for a column in the indentation. -/
def dashes (line : List Char) (column : UInt32) : Nat :=
  charsBefore line (column.toNat - 1) - (line.takeWhile isIndent).length

/-- The blank margin with its bar, as wide as the line number needs. -/
def margin (number : String) : String :=
  String.ofList (List.replicate (number.length + 1) ' ') ++ "|"

def heading (d : Diagnostic) (file : String) : String :=
  match d.fault.hint? with
  | none => s!"Error: {d.fault.name}\n-> {file}:{d.location}\n"
  | some hint => s!"Error: {d.fault.name} ({hint})\n-> {file}:{d.location}\n"

def excerpt (d : Diagnostic) (line : String) : String :=
  let number := toString d.location.line
  let caret := String.ofList (List.replicate (dashes line.toList d.location.column) '-') ++ "^"
  s!"{number} | {String.ofList (shown line.toList)}\n{margin number} {caret}\n"

/-- A report ends behind its bar when the text has no line of that number. -/
def report (d : Diagnostic) (text file : String) : String :=
  let bar := margin (toString d.location.line)
  match Text.line? text d.location.line with
  | none => s!"{d.heading file}{bar}\n"
  | some line => s!"{d.heading file}{bar}\n{d.excerpt line}"

end LetLang.Diagnostic
