/-! Decimal numerals. They have any number of digits, leading zeros included; as values of
the language they must fit into a signed 64-bit word. -/
namespace LetLang.Numeral

def value (digits : List Char) : Nat :=
  digits.foldl (fun n c => n * 10 + (c.toNat - '0'.toNat)) 0

/-- The number that a text of one or more digits, and nothing else, writes. -/
def value? (text : String) : Option Nat :=
  if text.toList ≠ [] ∧ text.toList.all Char.isDigit then some (value text.toList) else none

/-- One more than the greatest value of an integer literal. -/
def limit : Nat := 0x8000000000000000

def int64? (text : String) : Option Int64 :=
  match value? text with
  | some n => if n < limit then some (Int64.ofNat n) else none
  | none => none

theorem int64?_eq_some_iff {text : String} {v : Int64} :
    int64? text = some v ↔ ∃ n, value? text = some n ∧ n < limit ∧ Int64.ofNat n = v := by
  unfold int64?
  cases value? text with
  | none => simp
  | some n => by_cases h : n < limit <;> simp [h]

/-- Below the limit nothing is lost. -/
theorem toInt_ofNat {n : Nat} (h : n < limit) : (Int64.ofNat n).toInt = n :=
  Int64.toInt_ofNat_of_lt h

end LetLang.Numeral
