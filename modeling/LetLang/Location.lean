/-! Places in a text. A place is a line and a column, both counted from one in
32-bit words; the column counts bytes. What a token is lives elsewhere. -/
namespace LetLang

structure Location where
  line : UInt32
  column : UInt32
deriving DecidableEq, Repr, Inhabited

namespace Location

/-- The place of the first byte of any text. -/
def start : Location := ⟨1, 1⟩

/-- Earlier lines come first; within a line, earlier columns do. -/
instance : LT Location where
  lt a b := a.line < b.line ∨ a.line = b.line ∧ a.column < b.column

instance (a b : Location) : Decidable (a < b) :=
  inferInstanceAs (Decidable (a.line < b.line ∨ a.line = b.line ∧ a.column < b.column))

instance : LE Location where
  le a b := a < b ∨ a = b

instance (a b : Location) : Decidable (a ≤ b) :=
  inferInstanceAs (Decidable (a < b ∨ a = b))

theorem lt_iff {a b : Location} :
    a < b ↔ a.line < b.line ∨ a.line = b.line ∧ a.column < b.column := Iff.rfl

theorem le_iff_lt_or_eq {a b : Location} : a ≤ b ↔ a < b ∨ a = b := Iff.rfl

theorem lt_irrefl (a : Location) : ¬ a < a := by
  simp [lt_iff]

theorem lt_trans {a b c : Location} (hab : a < b) (hbc : b < c) : a < c := by
  simp only [lt_iff, UInt32.lt_iff_toNat_lt, ← UInt32.toNat_inj] at *
  omega

instance : Ord Location where
  compare a b := if a < b then .lt else if a = b then .eq else .gt

instance : ToString Location where
  toString a := s!"{a.line}:{a.column}"

/-- The place behind the byte `b` at `a`: the next line after a line feed, and the next
column after any other byte. -/
def after (a : Location) (b : UInt8) : Location :=
  if b = 0x0A then ⟨a.line + 1, 1⟩ else ⟨a.line, a.column + 1⟩

def afterAll (a : Location) (bytes : List UInt8) : Location :=
  bytes.foldl after a

@[simp] theorem afterAll_nil (a : Location) : a.afterAll [] = a := rfl

@[simp] theorem afterAll_cons (a : Location) (b : UInt8) (bytes : List UInt8) :
    a.afterAll (b :: bytes) = (a.after b).afterAll bytes := rfl

theorem afterAll_append (a : Location) (front back : List UInt8) :
    a.afterAll (front ++ back) = (a.afterAll front).afterAll back :=
  List.foldl_append

end Location
end LetLang
