/-! UTF-8 text as bytes: one way to write it, and two ways to read it. Strict reading
refuses malformed bytes; lossy reading puts a replacement character for each of them. -/
namespace LetLang.Utf8

def encode (s : String) : List UInt8 :=
  s.toList.flatMap String.utf8EncodeChar

@[simp] theorem encode_append (s t : String) : encode (s ++ t) = encode s ++ encode t := by
  simp [encode]

/-- The least and the greatest byte allowed at one place of a sequence. -/
structure ByteRange where
  low : UInt8
  high : UInt8
deriving DecidableEq, Repr

def ByteRange.contains (r : ByteRange) (b : UInt8) : Bool :=
  r.low ≤ b && b ≤ r.high

def continuation : ByteRange := ⟨0x80, 0xBF⟩

/-- The ranges of the bytes that follow the lead byte `b` in a well-formed sequence, or
`none` if no sequence starts with `b`. Overlong forms, surrogates and code points above
`10FFFF` are excluded by the range of the second byte. -/
def followers? (b : UInt8) : Option (List ByteRange) :=
  if b < 0x80 then some []
  else if b < 0xC2 then none
  else if b < 0xE0 then some [continuation]
  else if b = 0xE0 then some [⟨0xA0, 0xBF⟩, continuation]
  else if b = 0xED then some [⟨0x80, 0x9F⟩, continuation]
  else if b < 0xF0 then some [continuation, continuation]
  else if b = 0xF0 then some [⟨0x90, 0xBF⟩, continuation, continuation]
  else if b < 0xF4 then some [continuation, continuation, continuation]
  else if b = 0xF4 then some [⟨0x80, 0x8F⟩, continuation, continuation]
  else none

/-- The longest front of `bytes` that stays in `ranges`, place by place. -/
def fitting : List ByteRange → List UInt8 → List UInt8
  | r :: ranges, b :: bytes => if r.contains b then b :: fitting ranges bytes else []
  | _, _ => []

theorem fitting_isPrefix (ranges : List ByteRange) (bytes : List UInt8) :
    fitting ranges bytes <+: bytes := by
  fun_induction fitting ranges bytes with
  | case1 r ranges b bytes _ ih => exact (List.prefix_cons_inj b).2 ih
  | case2 => exact List.nil_prefix
  | case3 => exact List.nil_prefix

/-- The code point of a well-formed sequence: the payload bits of the lead byte, then six
bits from each byte that follows it. -/
def scalar (lead : UInt8) (rest : List UInt8) : Char :=
  let payload := if rest.isEmpty then lead.toNat else lead.toNat % (1 <<< (6 - rest.length))
  Char.ofNat (rest.foldl (fun value b => value * 64 + b.toNat % 64) payload)

/-- Cuts bytes into characters and malformed pieces (`none`). A malformed piece is the
longest front that starts some well-formed sequence, or a single byte if there is none. -/
def units : List UInt8 → List (Option Char)
  | [] => []
  | b :: bytes =>
    match followers? b with
    | none => none :: units bytes
    | some ranges =>
      let rest := fitting ranges bytes
      (if rest.length = ranges.length then some (scalar b rest) else none) ::
        units (bytes.drop rest.length)
termination_by bytes => bytes.length

/-- Reads bytes with one `U+FFFD` for each malformed piece. -/
def lossy (bytes : List UInt8) : String :=
  String.ofList ((units bytes).map (·.getD '\uFFFD'))

def decode? (bytes : List UInt8) : Option String :=
  ((units bytes).mapM id).map String.ofList

/-- How many bytes a sequence takes whose first byte is `b`, judged by that byte alone;
one for a byte that starts none. -/
def width (b : UInt8) : Nat :=
  match followers? b with
  | some ranges => ranges.length + 1
  | none => 1

end LetLang.Utf8
