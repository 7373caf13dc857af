import LetLang.Proofs.Location
import LetLang.Proofs.Scanner.Border
import LetLang.Proofs.Source

/-! Texts behind one another. Blanks end every lexeme just as the end of a text does, so what stands
behind blanks has the tokens it has on its own, further down and on the first line further on. -/
namespace LetLang

open Location (lineFeeds lastLine)

/-- One or more of the bytes that separate tokens. -/
structure IsBlanks (blanks : List UInt8) : Prop where
  ne_nil : blanks ≠ []
  forall_mem : ∀ b ∈ blanks, b ∈ [0x20, 0x09, 0x0A, 0x0D]

theorem isBlanks_lineFeed : IsBlanks [0x0A] := ⟨by decide, by simp⟩

namespace IsBlanks

variable {blanks : List UInt8}

theorem isBlank (h : IsBlanks blanks) : ∀ b ∈ blanks, Lexeme.isBlank b = true := by
  intro b hb
  have hmem := h.forall_mem b hb
  simp only [List.mem_cons, List.not_mem_nil, or_false] at hmem
  rcases hmem with rfl | rfl | rfl | rfl <;> decide

theorem zero_not_mem (h : IsBlanks blanks) : 0 ∉ blanks :=
  fun hzero => absurd (h.forall_mem 0 hzero) (by decide)

theorem severed_append (h : IsBlanks blanks) (back : List UInt8) :
    Lexeme.Severed (blanks ++ back) := by
  obtain ⟨b, blanks, rfl⟩ := List.exists_cons_of_ne_nil h.ne_nil
  exact Lexeme.severed_of_isBlank (h.isBlank b List.mem_cons_self) _

end IsBlanks

theorem isBlanks_spaces (n : Nat) : IsBlanks (List.replicate (n + 1) 0x20) where
  ne_nil := nofun
  forall_mem := by
    intro b hb
    rw [List.eq_of_mem_replicate hb]
    decide

namespace Scanner

/-- Blanks cut a text in two, and the second part is scanned from where they end. -/
theorem tokens_append_blanks (s : Scanner) {blanks : List UInt8} (h : IsBlanks blanks)
    (bytes : List UInt8) :
    (Scanner.mk (s.rest ++ (blanks ++ bytes)) s.location).tokens =
      s.tokens ++ (Scanner.mk bytes (s.finish.afterAll blanks)).tokens := by
  rw [tokens_append s (h.severed_append bytes), tokens_blanks h.isBlank]

section
variable {front blanks : List UInt8} (hfront : 0 ∉ front) (hblanks : IsBlanks blanks)
  (name : String) (back : List UInt8)
include hfront hblanks

theorem rest_ofBytes_append :
    (ofSource (.ofBytes name (front ++ blanks ++ back))).rest =
      front ++ blanks ++ (ofSource (.ofBytes name back)).rest :=
  Source.visible_ofBytes_append (List.not_mem_append hfront hblanks.zero_not_mem) name back

theorem tokens_ofBytes_append :
    (ofSource (.ofBytes name (front ++ blanks ++ back))).tokens =
      (ofSource (.ofBytes name front)).tokens ++
        (Scanner.mk (ofSource (.ofBytes name back)).rest
          (Location.start.afterAll (front ++ blanks))).tokens := by
  have hrest := (rest_ofBytes_append hfront hblanks name back).trans (List.append_assoc ..)
  have hwhole : ofSource (.ofBytes name front) = ⟨front, .start⟩ := by
    rw [ofSource, Source.visible_ofBytes_of_zero_not_mem hfront]
  generalize (ofSource (.ofBytes name back)).rest = rest at hrest ⊢
  rw [hwhole, Location.afterAll_append]
  exact (congrArg (fun bytes => (Scanner.mk bytes .start).tokens) hrest).trans
    (tokens_append_blanks ⟨front, .start⟩ hblanks rest)

theorem finish_ofBytes_append :
    (ofSource (.ofBytes name (front ++ blanks ++ back))).finish =
      (Location.start.afterAll (front ++ blanks)).afterAll
        (ofSource (.ofBytes name back)).rest := by
  rw [finish, rest_ofBytes_append hfront hblanks, Location.afterAll_append]
  rfl

end

theorem tokens_behind (front : List UInt8) {bytes : List UInt8}
    (h : lineFeeds bytes + 1 < UInt32.size) :
    (Scanner.mk bytes (Location.start.afterAll front)).tokens =
      (Scanner.mk bytes .start).tokens.map (Token.relocate (.behind front)) := by
  have hplaces : ∀ part, part <+: bytes → Location.behind front (Location.start.afterAll part) =
      id ((Location.start.afterAll front).afterAll part) := by
    intro part hpart
    have hle : lineFeeds part ≤ lineFeeds bytes := hpart.sublist.count_le _
    exact (Location.afterAll_start_afterAll front (by omega)).symm
  rw [map_relocate_tokens_of_isPrefix ⟨bytes, .start⟩ (Location.start.afterAll front) hplaces]
  exact (List.map_id _).symm

end Scanner

/-- A token stands behind some front part of the text. -/
theorem exists_of_mem_tokenize {source : Source} {t : Token} (h : t ∈ tokenize source) :
    ∃ front, front <+: source.visible ∧ t.location = Location.start.afterAll front := by
  rcases List.mem_append.1 h with h | h
  · obtain ⟨front, b, bytes, hrest, _, rfl⟩ := Scanner.exists_of_mem_tokens h
    exact ⟨front, ⟨b :: bytes, hrest.symm⟩, rfl⟩
  · obtain rfl := List.mem_singleton.1 h
    exact ⟨source.visible, List.prefix_refl _, rfl⟩

/-- A text behind blanks has the tokens that it has on its own, and so has the text in front of them.
On the first line of the second text columns move on by what is in front of them on that line, and
all lines move down by the lines in front. No counter wraps. -/
theorem tokenize_append_blanks (name : String) (front blanks back : List UInt8)
    (hfront : 0 ∉ front) (hblanks : IsBlanks blanks)
    (hlength : (front ++ blanks ++ back).length < UInt32.size - 1) :
    tokenize (.ofBytes name (front ++ blanks ++ back)) =
        (tokenize (.ofBytes name front)).dropLast ++
          (tokenize (.ofBytes name back)).map (Token.relocate (.behind (front ++ blanks))) ∧
      ∀ t ∈ tokenize (.ofBytes name back),
        let moved := t.location.behind (front ++ blanks)
        moved.line.toNat = t.location.line.toNat + lineFeeds (front ++ blanks) ∧
          moved.column.toNat = if t.location.line = 1 then
            t.location.column.toNat + (lastLine (front ++ blanks)).length
          else t.location.column.toNat := by
  have hprefix := Source.visible_ofBytes_isPrefix name back
  rw [List.length_append] at hlength
  constructor
  · have hlines : lineFeeds (Source.ofBytes name back).visible + 1 < UInt32.size := by
      have hle := Location.lineFeeds_le_length (Source.ofBytes name back).visible
      have hle' := hprefix.length_le
      omega
    rw [dropLast_tokenize, tokenize, tokenize, Scanner.tokens_ofBytes_append hfront hblanks,
      Scanner.finish_ofBytes_append hfront hblanks, List.map_append, List.append_assoc]
    congr 2
    · exact Scanner.tokens_behind (front ++ blanks) hlines
    · exact congrArg (fun place => [Token.finish place])
        (Location.afterAll_start_afterAll (front ++ blanks) hlines)
  · intro t ht
    obtain ⟨part, hpart, hplace⟩ := exists_of_mem_tokenize ht
    have hle := (hpart.trans hprefix).length_le
    have hfeeds := Location.lineFeeds_le_length part
    have hlast := Location.lastLine_length_le part
    have hfeeds' := Location.lineFeeds_le_length (front ++ blanks)
    have hlast' := Location.lastLine_length_le (front ++ blanks)
    have hline : t.location.line.toNat = lineFeeds part + 1 := by
      rw [hplace, Location.toNat_line_start_afterAll (by omega)]
    have hcolumn : t.location.column.toNat = (lastLine part).length + 1 := by
      rw [hplace, Location.toNat_column_start_afterAll (by omega)]
    exact Location.toNat_behind (by omega) (by omega)

/-- The first text ends inside a character, and the second starts with a byte that would end it. -/
theorem tokenize_append_blanks_of_truncated :
    tokenize (.ofBytes "" ([0x78, 0xE2, 0x82] ++ [0x0A, 0x20] ++ [0xAC, 0x0A, 0x3D])) =
        [⟨.identifier, "x", ⟨1, 1⟩⟩, ⟨.illegal, "\uFFFD", ⟨1, 2⟩⟩, ⟨.illegal, "\uFFFD", ⟨2, 2⟩⟩,
          ⟨.assign, "=", ⟨3, 1⟩⟩, .finish ⟨3, 2⟩] ∧
      tokenize (.ofBytes "" [0xAC, 0x0A, 0x3D]) =
        [⟨.illegal, "\uFFFD", ⟨1, 1⟩⟩, ⟨.assign, "=", ⟨2, 1⟩⟩, .finish ⟨2, 2⟩] := by
  have hblanks : IsBlanks [0x0A, 0x20] := ⟨by decide, by simp⟩
  obtain ⟨htokens, _⟩ := tokenize_append_blanks "" [0x78, 0xE2, 0x82] [0x0A, 0x20]
    [0xAC, 0x0A, 0x3D] (by decide) hblanks (by decide)
  rw [htokens]
  decide +kernel

end LetLang
