import LetLang.Text.Combining
import LetLang.Text.Graphic
import LetLang.Text.Ignorable

/-! Quoted text, as log lines show it: between double quotes, on one line, with every
character in it apart from its neighbours. -/
namespace LetLang.Text

/-- Whether a character can be told by its looks: a space, or a graphic character that
neither combines with the one before it nor is ignored. -/
def standsAlone (c : Char) : Bool :=
  c = ' ' || (isGraphic c && !isCombining c && !isIgnorable c)

/-- A quote or backslash follows a backslash, and a character that does not stand alone is
written as its code point in lower-case hexadecimal. -/
def escape (c : Char) : List Char :=
  if c = '"' || c = '\\' then ['\\', c]
  else if standsAlone c then [c]
  else ['\\', 'u', '\x7b'] ++ Nat.toDigits 16 c.toNat ++ ['\x7d']

def quote (s : String) : String :=
  String.ofList ('"' :: s.toList.flatMap escape ++ ['"'])

-- Of these two spacing marks only the first combines.
example : quote "\u09be\u0903" = "\"\\u\x7b9be\x7d\u0903\"" := by decide +kernel

end LetLang.Text
