import LetLang.Proofs.Scanner.Order
import LetLang.Proofs.Scanner.Segmentation

/-! Offsets and places. A token stands where the first byte of its lexeme does, and its line and
column are what counting line feeds and bytes up to there comes to. -/
namespace LetLang

open Location (lineFeeds lastLine)

/-- The place of the byte at an offset of a text, or of the end: one more than the line feeds in
front of it, and one more than the bytes behind the last of these. -/
structure Location.IsAt (text : List UInt8) (offset : Nat) (place : Location) : Prop where
  offset_le : offset ≤ text.length
  line_eq : place.line.toNat = lineFeeds (text.take offset) + 1
  column_eq : place.column.toNat = (lastLine (text.take offset)).length + 1

/-- The tokens of the pieces from an offset of a text on. Each has the kind and the literal of
its lexeme and stands at the first byte of it; the last token stands at the end of the text. -/
inductive Charted (text : List UInt8) : Nat → List Piece → List Token → Prop
  | finish {place : Location} (hplace : place.IsAt text text.length) :
      Charted text text.length [] [.finish place]
  | blank {offset : Nat} {b : UInt8} {pieces : List Piece} {ts : List Token}
      (hrest : Charted text (offset + 1) pieces ts) : Charted text offset (.blank b :: pieces) ts
  | lexeme {offset : Nat} {c : Lexeme.Class} {bytes : List UInt8} {t : Token}
      {pieces : List Piece} {ts : List Token} (hkind : t.kind = c.kind (Utf8.lossy bytes))
      (hliteral : t.literal = Utf8.lossy bytes) (hplace : t.location.IsAt text offset)
      (hrest : Charted text (offset + bytes.length) pieces ts) :
      Charted text offset (.lexeme c bytes :: pieces) (t :: ts)

section
variable {text front rest : List UInt8}

theorem Location.isAt_afterAll (htext : text = front ++ rest)
    (hlength : text.length + 1 < UInt32.size) :
    (start.afterAll front).IsAt text front.length := by
  subst htext
  rw [List.length_append] at hlength
  have hfeeds := lineFeeds_le_length front
  refine ⟨by simp, ?_, ?_⟩
  · rw [List.take_left]
    exact toNat_line_start_afterAll (by omega)
  · rw [List.take_left]
    exact toNat_column_start_afterAll (by omega)

/-- The scanner's tokens of the rest of a text are charted from where the rest begins. -/
theorem Segmentation.charted {pieces : List Piece} (h : Segmentation rest pieces)
    (htext : text = front ++ rest) (hlength : text.length + 1 < UInt32.size) :
    Charted text front.length pieces
      (Piece.tokens (Location.start.afterAll front) pieces ++
        [.finish (Location.start.afterAll text)]) := by
  induction h generalizing front with
  | nil =>
    rw [List.append_nil] at htext
    subst htext
    exact .finish (Location.isAt_afterAll (List.append_nil _).symm hlength)
  | @blank b rest pieces _ _ ih =>
    have h := @ih (front ++ [b]) (by rw [htext, List.append_cons])
    rw [List.length_append, Location.afterAll_append] at h
    exact .blank h
  | @lexeme c bytes rest pieces _ _ ih =>
    have h := @ih (front ++ bytes) (by rw [htext, List.append_assoc])
    rw [List.length_append, Location.afterAll_append] at h
    exact .lexeme rfl rfl (Location.isAt_afterAll htext hlength) h

/-- A byte that is read moves neither counter beyond a word. -/
theorem hasRoom_one_of_isPrefix {b : UInt8} (h : front ++ [b] <+: text)
    (hlength : text.length < UInt32.size - 1) : (Location.start.afterAll front).HasRoom 1 := by
  have hle := h.length_le
  rw [List.length_append, List.length_singleton] at hle
  exact ((Location.hasRoom_start hlength).mono hle).afterAll

end

/-- Every token stands at the offset of its lexeme, in the line and the column that the bytes in
front of this offset come to. On the way no counter wraps, and so places only go down the text. -/
theorem tokens_stand_at_lexemes (name : String) (bytes : List UInt8)
    (hlength : (bytes.takeWhile (· ≠ 0)).length < UInt32.size - 1) :
    (∃ pieces, Segmentation (bytes.takeWhile (· ≠ 0)) pieces ∧
      Charted (bytes.takeWhile (· ≠ 0)) 0 pieces (tokenize (.ofBytes name bytes))) ∧
    (∀ front b, front ++ [b] <+: bytes.takeWhile (· ≠ 0) →
      (Location.start.afterAll front).HasRoom 1) ∧
    ((tokenize (.ofBytes name bytes)).map (·.location)).Pairwise (· < ·) := by
  have hvisible := Source.visible_ofBytes name bytes
  refine ⟨?_, fun front b h => hasRoom_one_of_isPrefix h hlength, ?_⟩
  · have hcut := Segmentation.cut (bytes.takeWhile (· ≠ 0))
    have hsource : Scanner.ofSource (.ofBytes name bytes) = ⟨bytes.takeWhile (· ≠ 0), .start⟩ := by
      rw [Scanner.ofSource, hvisible]
    refine ⟨_, hcut, ?_⟩
    rw [tokenize, hsource, hcut.tokens_eq]
    exact hcut.charted (List.nil_append _).symm (by omega)
  · rw [← hvisible] at hlength
    exact pairwise_location_tokenize hlength

/-- A line break, a character of two bytes, a tab, and a zero byte that hides the rest. -/
theorem tokens_stand_at_lexemes_of_accented :
    tokenize (.ofText "" "x\r\n é\t>=5;\x00y") =
        [⟨.identifier, "x", ⟨1, 1⟩⟩, ⟨.illegal, "é", ⟨2, 2⟩⟩, ⟨.greaterEqual, ">=", ⟨2, 5⟩⟩,
          ⟨.integer, "5", ⟨2, 7⟩⟩, ⟨.semicolon, ";", ⟨2, 8⟩⟩, .finish ⟨2, 9⟩] ∧
      ((tokenize (.ofText "" "x\r\n é\t>=5;\x00y")).map (·.location)).Pairwise (· < ·) :=
  ⟨by decide +kernel,
    (tokens_stand_at_lexemes "" (Utf8.encode "x\r\n é\t>=5;\x00y") (by decide +kernel)).2.2⟩

end LetLang
