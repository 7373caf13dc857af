import LetLang.Proofs.Scanner.Literals
import LetLang.Proofs.Text.Decoding
import LetLang.Proofs.Text.Lines

/-! Where tokens stand in a text. Each is written out between other characters, at the place that
these come to, and it can be found again on the line and behind the bytes that its place names. -/
namespace LetLang

open Location (lineFeeds lastLine)
open Text (IsLine joined)

/-- The token stands between the characters, at the place behind those in front of it. -/
structure Token.Between (t : Token) (front back : List Char) (text : String) : Prop where
  split : text.toList = front ++ t.literal.toList ++ back
  place : t.location = Location.start.afterAll (Utf8.encode (String.ofList front))
  nonempty : t.literal.toList ≠ []
  solid : ∀ c ∈ t.literal.toList, c ∉ [' ', '\t', '\n', '\r']

theorem Lexeme.Munch.solid {c : Class} {rest : List UInt8} {cs : List Char}
    (h : Munch c (Utf8.encode (String.ofList cs)) rest) :
    ∀ d ∈ cs, d ∉ [' ', '\t', '\n', '\r'] := by
  have hchar {b : UInt8} (hblank : isBlank b = true) : Char.ofUInt8 b ∉ cs := by
    intro hmem
    rw [← String.toList_ofList (l := cs), ← Utf8.mem_encode_iff (lt_of_isBlank hblank)] at hmem
    rw [h.isBlank_eq_false b hmem] at hblank
    cases hblank
  intro d hd hblank
  simp only [List.mem_cons, List.not_mem_nil, or_false] at hblank
  rcases hblank with rfl | rfl | rfl | rfl
  · exact @hchar 0x20 rfl hd
  · exact @hchar 0x09 rfl hd
  · exact @hchar 0x0A rfl hd
  · exact @hchar 0x0D rfl hd

/-- What is visible of a text is some front part of it. -/
theorem exists_visible_ofText (name text : String) :
    ∃ seen hidden : List Char, text.toList = seen ++ hidden ∧
      (Source.ofText name text).visible = Utf8.encode (String.ofList seen) :=
  ⟨_, _, List.takeWhile_append_dropWhile.symm,
    (Source.visible_ofBytes name _).trans (Utf8.takeWhile_encode text)⟩

/-- Every token of a text but the last is written out in it somewhere. -/
theorem exists_between {name text : String} {t : Token} (ht : t ∈ tokenize (.ofText name text))
    (hkind : t.kind ≠ .endOfInput) : ∃ front back, t.Between front back text := by
  obtain ⟨seen, hidden, htext, hvisible⟩ := exists_visible_ofText name text
  have hmem : t ∈ (Scanner.ofSource (.ofText name text)).tokens := by
    rcases List.mem_append.1 ht with ht | ht
    · exact ht
    · rw [List.mem_singleton.1 ht] at hkind
      exact absurd rfl hkind
  have hcut := Segmentation.cut (Utf8.encode (String.ofList seen))
  rw [Scanner.ofSource, hvisible, hcut.tokens_eq] at hmem
  obtain ⟨c, front, lexeme, rest, _, hmunch, hunits, rfl⟩ := hcut.exists_cut_of_mem hmem
  rw [Utf8.units_encode, String.toList_ofList, List.map_eq_append_iff] at hunits
  obtain ⟨cs, _, rfl, hcs, hunits⟩ := hunits
  obtain ⟨ms, ds, rfl, hms, _⟩ := List.map_eq_append_iff.1 hunits
  obtain rfl := Utf8.units_eq_map_some_iff.1 hcs.symm
  obtain rfl := Utf8.units_eq_map_some_iff.1 hms.symm
  have hliteral : (Utf8.lossy (Utf8.encode (String.ofList ms))).toList = ms := by
    rw [Utf8.lossy_encode, String.toList_ofList]
  refine ⟨cs, ds ++ hidden, ?_, rfl, ?_, ?_⟩
  all_goals
    dsimp only
    rw [hliteral]
  · rw [htext, List.append_assoc, List.append_assoc, List.append_assoc]
  · rintro rfl
    exact hmunch.ne_nil rfl
  · exact hmunch.solid

namespace Token.Between

variable {t : Token} {front back : List Char} {text : String}

theorem isLine_literal (h : t.Between front back text) : IsLine t.literal :=
  fun hmem => h.solid _ hmem (by decide)

theorem split_front (h : t.Between front back text) :
    text.toList = front ++ (t.literal.toList ++ back) := by
  rw [h.split, List.append_assoc]

theorem ne_carriageReturn_of_getLast? (h : t.Between front back text) (before : List Char) :
    ∀ c ∈ (before ++ t.literal.toList).getLast?, c ≠ '\r' := by
  rw [List.getLast?_append_of_ne_nil _ h.nonempty]
  rintro _ hc rfl
  exact h.solid _ (List.mem_of_getLast? hc) (by decide)

end Token.Between

/-- The token stands on a line of the text, below the lines above and behind what comes before it
on its own. The line is the one that its place names, and so are the bytes before it. -/
structure Token.OnLine (t : Token) (text : String) (above : List String)
    (before behind : List Char) : Prop where
  between : ∃ back, behind <+: back ∧ t.Between ((joined above).toList ++ before) back text
  isLine_above : ∀ line ∈ above, IsLine line
  isLine : '\n' ∉ before ++ t.literal.toList ++ behind
  line?_eq : Text.line? text t.location.line =
    some (String.ofList (before ++ t.literal.toList ++ behind))
  column_eq : t.location.column.toNat = (Utf8.encode (String.ofList before)).length + 1

theorem Token.Between.exists_onLine {t : Token} {front back : List Char} {text : String}
    (h : t.Between front back text) (hlength : (Utf8.encode text).length < UInt32.size - 1) :
    ∃ above before behind, t.OnLine text above before behind := by
  obtain ⟨above, before, rfl, habove, hbefore⟩ := Text.exists_lines front
  have hle := Utf8.length_encode_le h.split_front
  obtain ⟨hline, hcolumn⟩ := Text.toNat_afterAll_lines habove hbefore (by omega)
  rw [← h.place] at hline hcolumn
  have hsplit : text.toList = (joined above).toList ++ (before ++ t.literal.toList ++ back) := by
    rw [h.split, List.append_assoc, List.append_assoc, List.append_assoc]
  have hsolid : '\n' ∉ before ++ t.literal.toList := List.not_mem_append hbefore h.isLine_literal
  obtain ⟨behind, hbehind, hlineFeed, hfound⟩ := Text.exists_line?_eq habove hsplit hline hsolid
    (h.ne_carriageReturn_of_getLast? before)
  exact ⟨above, before, behind,
    { between := ⟨back, hbehind, h⟩
      isLine_above := habove
      isLine := List.not_mem_append hsolid hlineFeed
      line?_eq := hfound
      column_eq := hcolumn }⟩

/-- A token stands between two characters of the text, or at one of its ends. -/
theorem exists_place_of_mem_tokenize {name text : String} {t : Token}
    (ht : t ∈ tokenize (.ofText name text)) :
    ∃ front back, text.toList = front ++ back ∧
      t.location = Location.start.afterAll (Utf8.encode (String.ofList front)) := by
  by_cases hkind : t.kind = .endOfInput
  · obtain ⟨seen, hidden, htext, hvisible⟩ := exists_visible_ofText name text
    rcases List.mem_append.1 ht with ht | ht
    · exact absurd hkind (Scanner.kind_ne_endOfInput_of_mem ht)
    · obtain rfl := List.mem_singleton.1 ht
      refine ⟨seen, hidden, htext, ?_⟩
      rw [← hvisible]
      rfl
  · obtain ⟨front, back, hbetween⟩ := exists_between ht hkind
    exact ⟨front, _, hbetween.split_front, hbetween.place⟩

/-- Every token stands on a line of the text, and all but the last are written out there behind as
many bytes as their columns say. The bytes are those of whole characters. -/
theorem literals_found_on_lines {name text : String} {t : Token}
    (hlength : (Utf8.encode text).length < UInt32.size - 1)
    (ht : t ∈ tokenize (.ofText name text)) :
    ∃ line, Text.line? text t.location.line = some line ∧
      (t.kind ≠ .endOfInput → t.literal ≠ "" ∧
        ∃ before behind : String, line = before ++ t.literal ++ behind ∧
          t.location.column.toNat = (Utf8.encode before).length + 1) := by
  obtain ⟨front, back, htext, hplace⟩ := exists_place_of_mem_tokenize ht
  have hle := Utf8.length_encode_le htext
  obtain ⟨line, hline⟩ := Text.exists_line?_afterAll htext (by omega)
  rw [← hplace] at hline
  refine ⟨line, hline, fun hkind => ?_⟩
  obtain ⟨front, back, hbetween⟩ := exists_between ht hkind
  obtain ⟨above, before, behind, honLine⟩ := hbetween.exists_onLine hlength
  refine ⟨mt String.toList_eq_nil_iff.2 hbetween.nonempty, .ofList before, .ofList behind, ?_, ?_⟩
  · rw [← Option.some.inj (honLine.line?_eq.symm.trans hline), String.ofList_append,
      String.ofList_append, String.ofList_toList]
  · exact honLine.column_eq

/-- The second line has a character of two bytes and a carriage return on it, and two more at its
end. The zero byte behind a line feed ends the text on the third. -/
theorem literals_found_on_lines_of_accented :
    let text := "x\r\n é\r=5\r\r\n\x00y"
    tokenize (.ofText "" text) = [⟨.identifier, "x", ⟨1, 1⟩⟩, ⟨.illegal, "é", ⟨2, 2⟩⟩,
        ⟨.assign, "=", ⟨2, 5⟩⟩, ⟨.integer, "5", ⟨2, 6⟩⟩, .finish ⟨3, 1⟩] ∧
      Text.line? text 2 = some " é\r=5" ∧
      (∃ before behind, " é\r=5" = before ++ "=" ++ behind ∧ (Utf8.encode before).length = 4) ∧
      ∃ line, Text.line? text 3 = some line := by
  intro text
  have hlength : (Utf8.encode text).length < UInt32.size - 1 := by decide +kernel
  have htokens : tokenize (.ofText "" text) = [⟨.identifier, "x", ⟨1, 1⟩⟩,
      ⟨.illegal, "é", ⟨2, 2⟩⟩, ⟨.assign, "=", ⟨2, 5⟩⟩, ⟨.integer, "5", ⟨2, 6⟩⟩,
      .finish ⟨3, 1⟩] := by decide +kernel
  have hline : Text.line? text 2 = some " é\r=5" := by decide +kernel
  have hassign : ⟨.assign, "=", ⟨2, 5⟩⟩ ∈ tokenize (.ofText "" text) := by simp [htokens]
  have hfinish : .finish ⟨3, 1⟩ ∈ tokenize (.ofText "" text) := by simp [htokens]
  obtain ⟨line, hfound, hwritten⟩ := literals_found_on_lines hlength hassign
  obtain rfl := Option.some.inj (hline.symm.trans hfound)
  obtain ⟨_, before, behind, hsplit, hcolumn⟩ := hwritten (by decide)
  obtain ⟨last, hlast, _⟩ := literals_found_on_lines hlength hfinish
  exact ⟨htokens, hline, ⟨before, behind, hsplit, (Nat.succ.inj hcolumn).symm⟩, last, hlast⟩

end LetLang
