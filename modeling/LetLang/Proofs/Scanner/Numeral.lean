import LetLang.Numeral
import LetLang.Proofs.Scanner.Concatenation
import LetLang.Proofs.Scanner.Segmentation
import LetLang.Proofs.Text.Encoding

/-! Numerals as texts. A numeral token is one or more digits and nothing else, and its number is the
one that the digits write, however many they are. Signs in front of it are tokens of their own. -/
namespace LetLang

namespace Numeral

/-- One or more decimal digits. -/
def IsNumeral (text : String) : Prop := text.toList ≠ [] ∧ ∀ c ∈ text.toList, c.isDigit = true

theorem isNumeral_iff {text : String} :
    IsNumeral text ↔ text.toList ≠ [] ∧ text.toList.all Char.isDigit = true := by
  rw [IsNumeral, List.all_eq_true]

instance (text : String) : Decidable (IsNumeral text) :=
  decidable_of_iff' _ isNumeral_iff

/-- The number that the digits write to base ten. -/
def magnitude (text : String) : Nat := Nat.ofDigitChars 10 text.toList 0

theorem value_toList (text : String) : value text.toList = magnitude text := by
  have hstep : (fun (n : Nat) (c : Char) => n * 10 + (c.toNat - '0'.toNat)) =
      fun n c => 10 * n + (c.toNat - '0'.toNat) := by
    funext n c
    rw [Nat.mul_comm]
  rw [value, magnitude, Nat.ofDigitChars, hstep]

theorem value?_eq_some_iff {text : String} {n : Nat} :
    value? text = some n ↔ IsNumeral text ∧ magnitude text = n := by
  rw [value?, value_toList, isNumeral_iff]
  split
  · next h => simp [h]
  · next h => exact ⟨nofun, fun hn => absurd hn.1 h⟩

section
variable {text : String} (h : IsNumeral text)
include h

theorem value?_of_isNumeral : value? text = some (magnitude text) :=
  value?_eq_some_iff.2 ⟨h, rfl⟩

theorem int64?_of_lt (hlimit : magnitude text < limit) :
    int64? text = some (Int64.ofNat (magnitude text)) :=
  int64?_eq_some_iff.2 ⟨_, value?_of_isNumeral h, hlimit, rfl⟩

theorem int64?_eq_none_iff : int64? text = none ↔ limit ≤ magnitude text := by
  rw [int64?, value?_of_isNumeral h]
  dsimp only
  split
  · next hlimit => simp [hlimit]
  · next hlimit => simpa using Nat.le_of_not_lt hlimit

end

end Numeral

open Numeral (IsNumeral)

namespace Lexeme

variable {b : UInt8} {bytes : List UInt8}

theorem isDigit_ofUInt8 (b : UInt8) : (Char.ofUInt8 b).isDigit = isDigit b := by
  have hval : (Char.ofUInt8 b).val.toNat = b.toNat := UInt8.toNat_toUInt32 b
  simp only [Char.isDigit, isDigit, ge_iff_le, UInt32.le_iff_toNat_le, UInt8.le_iff_toNat_le, hval]
  rfl

theorem ofUInt8_toUInt8 {c : Char} (h : c.isDigit = true) : Char.ofUInt8 c.val.toUInt8 = c := by
  have hle : c.val.toNat ≤ 57 := by
    simp only [Char.isDigit, Bool.and_eq_true, decide_eq_true_eq, UInt32.le_iff_toNat_le] at h
    exact h.2
  apply Char.ext
  rw [← UInt32.toNat_inj]
  change c.val.toUInt8.toUInt32.toNat = c.val.toNat
  rw [UInt8.toNat_toUInt32, UInt32.toNat_toUInt8, Nat.mod_eq_of_lt (by omega)]

theorem isPlain_of_isDigit (h : ∀ d ∈ bytes, isDigit d = true) : Utf8.IsPlain bytes :=
  fun d hd => (isSpelling_of_isDigit (h d hd)).1

theorem isNumeral_lossy (hne : bytes ≠ []) (h : ∀ d ∈ bytes, isDigit d = true) :
    IsNumeral (Utf8.lossy bytes) := by
  rw [IsNumeral, Utf8.toList_lossy_of_isPlain (isPlain_of_isDigit h)]
  refine ⟨mt List.map_eq_nil_iff.1 hne, List.forall_mem_map.2 fun d hd => ?_⟩
  rw [isDigit_ofUInt8, h d hd]

/-- A numeral is written in bytes that are digits as well. -/
theorem exists_bytes_of_isNumeral {numeral : String} (h : IsNumeral numeral) :
    ∃ bytes, bytes ≠ [] ∧ (∀ d ∈ bytes, isDigit d = true) ∧ Utf8.lossy bytes = numeral ∧
      Utf8.encode numeral = bytes := by
  have hdigits : ∀ d ∈ numeral.toList.map (·.val.toUInt8), isDigit d = true := by
    refine List.forall_mem_map.2 fun c hc => ?_
    rw [← isDigit_ofUInt8, ofUInt8_toUInt8 (h.2 c hc), h.2 c hc]
  have hlossy : Utf8.lossy (numeral.toList.map (·.val.toUInt8)) = numeral := by
    rw [← String.toList_inj, Utf8.toList_lossy_of_isPlain (isPlain_of_isDigit hdigits),
      List.map_map]
    exact (List.map_congr_left fun c hc => ofUInt8_toUInt8 (h.2 c hc)).trans (List.map_id' _)
  have hencode := Utf8.encode_lossy_of_isPlain (isPlain_of_isDigit hdigits)
  rw [hlossy] at hencode
  exact ⟨_, mt List.map_eq_nil_iff.1 h.1, hdigits, hlossy, hencode⟩

end Lexeme

namespace Scanner

/-- An integer token is spelled in digits. -/
theorem isNumeral_literal {s : Scanner} {t : Token} (ht : t ∈ s.tokens)
    (hkind : t.kind = .integer) : IsNumeral t.literal := by
  obtain ⟨front, b, bytes, _, hblank, rfl⟩ := exists_of_mem_tokens ht
  have hmunch := Lexeme.munch_tail hblank bytes
  rw [(Lexeme.classOf_of_kind_mem (List.mem_cons.2 (.inl hkind))).1] at hmunch
  cases hmunch with
  | numeral hne hbytes _ => exact Lexeme.isNumeral_lossy hne hbytes

theorem tokens_of_munch {c : Lexeme.Class} {bytes : List UInt8} (h : Lexeme.Munch c bytes [])
    (place : Location) :
    (Scanner.mk bytes place).tokens = [⟨c.kind (Utf8.lossy bytes), Utf8.lossy bytes, place⟩] := by
  have hcut : Segmentation (bytes ++ []) [.lexeme c bytes] := .lexeme h .nil
  rw [List.append_nil] at hcut
  rw [hcut.tokens_eq]
  rfl

theorem tokens_numeral {numeral : String} (h : IsNumeral numeral) (place : Location) :
    (Scanner.mk (Utf8.encode numeral) place).tokens = [⟨.integer, numeral, place⟩] := by
  obtain ⟨bytes, hne, hbytes, hlossy, hencode⟩ := Lexeme.exists_bytes_of_isNumeral h
  rw [hencode, tokens_of_munch (.numeral hne hbytes nofun), hlossy]
  rfl

theorem tokens_sign {sign : Kind} (h : sign ∈ Kind.signs) (place : Location) :
    (Scanner.mk (Utf8.encode sign.text) place).tokens = [⟨sign, sign.text, place⟩] := by
  have hbyte {c : Lexeme.Class} {b : UInt8} (hmunch : Lexeme.Munch c [b] [])
      (hencode : Utf8.encode sign.text = [b]) (hkind : c.kind sign.text = sign) :
      (Scanner.mk (Utf8.encode sign.text) place).tokens = [⟨sign, sign.text, place⟩] := by
    have hlossy : Utf8.lossy [b] = sign.text := by rw [← hencode, Utf8.lossy_encode]
    rw [hencode, tokens_of_munch hmunch, hlossy, hkind]
  simp only [Kind.signs, List.mem_cons, List.not_mem_nil, or_false] at h
  rcases h with rfl | rfl | rfl
  · exact @hbyte _ 0x21 (.operator (by decide) nofun) (by decide) rfl
  · exact @hbyte _ 0x2D (.mark (by decide)) (by decide) rfl
  · exact @hbyte _ 0x2B (.mark (by decide)) (by decide) rfl

end Scanner

namespace Numeral

/-- Signs, each with one or more spaces behind it; the numbers are those of further spaces. -/
def spaced (signs : List (Kind × Nat)) : String :=
  String.join (signs.map fun (sign, further) =>
    sign.text ++ String.ofList (List.replicate (further + 1) ' '))

theorem encode_spaces (n : Nat) :
    Utf8.encode (String.ofList (List.replicate n ' ')) = List.replicate n 0x20 := by
  induction n with
  | zero => rfl
  | succ n ih =>
    rw [Utf8.encode, String.toList_ofList] at ih ⊢
    rw [List.replicate_succ, List.flatMap_cons, ih]
    rfl

theorem encode_spaced_cons (sign : Kind) (further : Nat) (signs : List (Kind × Nat)) :
    Utf8.encode (spaced ((sign, further) :: signs)) =
      Utf8.encode sign.text ++ (List.replicate (further + 1) 0x20 ++ Utf8.encode (spaced signs)) := by
  rw [spaced, List.map_cons, String.join_cons, Utf8.encode_append, Utf8.encode_append,
    encode_spaces, List.append_assoc, spaced]

/-- Signs in front of a text are tokens of their own, and the text is scanned from behind them. -/
theorem exists_tokens_spaced {signs : List (Kind × Nat)} (hsigns : ∀ s ∈ signs, s.1 ∈ Kind.signs)
    (bytes : List UInt8) (place : Location) :
    ∃ ts : List Token,
      ts.map (fun t => (t.kind, t.literal)) = signs.map (fun s => (s.1, s.1.text)) ∧
      (Scanner.mk (Utf8.encode (spaced signs) ++ bytes) place).tokens =
        ts ++ (Scanner.mk bytes (place.afterAll (Utf8.encode (spaced signs)))).tokens := by
  induction signs generalizing place with
  | nil => exact ⟨[], rfl, rfl⟩
  | cons s signs ih =>
    obtain ⟨sign, further⟩ := s
    obtain ⟨hsign, hsigns⟩ := List.forall_mem_cons.1 hsigns
    obtain ⟨ts, hts, htokens⟩ := ih hsigns ((Scanner.mk (Utf8.encode sign.text) place).finish.afterAll
      (List.replicate (further + 1) 0x20))
    have hcut := Scanner.tokens_append_blanks ⟨Utf8.encode sign.text, place⟩
      (isBlanks_spaces further) (Utf8.encode (spaced signs) ++ bytes)
    rw [htokens, Scanner.tokens_sign hsign, Scanner.finish, ← Location.afterAll_append,
      ← Location.afterAll_append] at hcut
    refine ⟨⟨sign, sign.text, place⟩ :: ts, by rw [List.map_cons, hts, List.map_cons], ?_⟩
    rw [encode_spaced_cons, List.append_assoc, List.append_assoc, hcut]
    rfl

/-- Neither signs nor spaces are written in control bytes. -/
theorem le_of_mem_encode_spaced {signs : List (Kind × Nat)}
    (hsigns : ∀ s ∈ signs, s.1 ∈ Kind.signs) : ∀ b ∈ Utf8.encode (spaced signs), 0x20 ≤ b := by
  induction signs with
  | nil => nofun
  | cons s signs ih =>
    obtain ⟨sign, further⟩ := s
    obtain ⟨hsign, hsigns⟩ := List.forall_mem_cons.1 hsigns
    have hbytes : ∀ sign ∈ Kind.signs, ∀ b ∈ Utf8.encode sign.text, 0x20 ≤ b := by
      decide +kernel
    rw [encode_spaced_cons, List.forall_mem_append, List.forall_mem_append]
    refine ⟨hbytes sign hsign, fun b hb => ?_, ih hsigns⟩
    rw [List.eq_of_mem_replicate hb]
    decide

theorem zero_not_mem_encode_spaced_append {signs : List (Kind × Nat)} {numeral : String}
    (hsigns : ∀ s ∈ signs, s.1 ∈ Kind.signs) (hnumeral : IsNumeral numeral) :
    0 ∉ Utf8.encode (spaced signs ++ numeral) := by
  rw [Utf8.encode_append, List.mem_append]
  rintro (h | h)
  · exact absurd (le_of_mem_encode_spaced hsigns 0 h) (by decide)
  · obtain ⟨_, _, hbytes, _, rfl⟩ := Lexeme.exists_bytes_of_isNumeral hnumeral
    exact absurd (hbytes 0 h) (by decide)

/-- What stands behind signs is on the first line, as many bytes on as they and their spaces take. -/
theorem afterAll_encode_spaced {signs : List (Kind × Nat)}
    (hsigns : ∀ s ∈ signs, s.1 ∈ Kind.signs) :
    Location.start.afterAll (Utf8.encode (spaced signs)) =
      ⟨1, 1 + UInt32.ofNat (Utf8.encode (spaced signs)).length⟩ :=
  Location.start_afterAll_of_not_mem fun h =>
    absurd (le_of_mem_encode_spaced hsigns 0x0A h) (by decide)

/-- The tokens of a numeral with signs in front of it. -/
theorem exists_tokens_signed (name : String) {signs : List (Kind × Nat)} {numeral : String}
    (hsigns : ∀ s ∈ signs, s.1 ∈ Kind.signs) (hnumeral : IsNumeral numeral) :
    ∃ ts : List Token,
      ts.map (fun t => (t.kind, t.literal)) = signs.map (fun s => (s.1, s.1.text)) ∧
      (Scanner.ofSource (.ofText name (spaced signs ++ numeral))).tokens = ts ++ [⟨.integer, numeral,
        ⟨1, 1 + UInt32.ofNat (Utf8.encode (spaced signs)).length⟩⟩] := by
  have hvisible : (Source.ofText name (spaced signs ++ numeral)).visible =
      Utf8.encode (spaced signs) ++ Utf8.encode numeral :=
    (Source.visible_ofBytes_of_zero_not_mem
      (zero_not_mem_encode_spaced_append hsigns hnumeral) name).trans (Utf8.encode_append _ _)
  obtain ⟨ts, hts, htokens⟩ := exists_tokens_spaced hsigns (Utf8.encode numeral) .start
  refine ⟨ts, hts, ?_⟩
  rw [Scanner.ofSource, hvisible, htokens, Scanner.tokens_numeral hnumeral,
    afterAll_encode_spaced hsigns]

end Numeral

end LetLang
