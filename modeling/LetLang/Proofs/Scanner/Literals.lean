import LetLang.Proofs.Scanner.Segmentation
import LetLang.Proofs.Text.Encoding

/-! Literals and the text that they were scanned from. No lexeme ends inside a sequence that goes
on, so reading the lexemes one by one comes to the same as reading the whole text. -/
namespace LetLang

namespace Lexeme

theorem lt_of_isBlank {b : UInt8} (h : isBlank b = true) : b < 0x80 := by
  simp only [isBlank, Bool.or_eq_true, decide_eq_true_eq] at h
  rcases h with ((rfl | rfl) | rfl) | rfl <;> decide

theorem units_of_isBlank {b : UInt8} (h : isBlank b = true) (rest : List UInt8) :
    Utf8.units (b :: rest) = Utf8.units [b] ++ Utf8.units rest :=
  Utf8.units_of_width (Utf8.width_of_lt (lt_of_isBlank h)) rest

variable {c : Class} {bytes rest : List UInt8}

theorem Munch.isPlain (h : Munch c bytes rest) (hother : c ≠ .other) : Utf8.IsPlain bytes := by
  cases h with
  | mark hmark => exact List.forall_mem_singleton.2 (lt_and_not_of_ofMark? hmark).1
  | operator hb => exact List.forall_mem_singleton.2 (isSpelling_of_isOperator hb).1
  | operatorPair hb hd =>
    exact List.forall_mem_cons.2 ⟨(isSpelling_of_isOperator hb).1,
      List.forall_mem_singleton.2 (isSpelling_of_isOperator hd).1⟩
  | word _ hbytes => exact fun b hb => (isSpelling_of_isLetter (hbytes b hb)).1
  | numeral _ hbytes => exact fun b hb => (isSpelling_of_isDigit (hbytes b hb)).1
  | stray => exact absurd rfl hother

/-- A lexeme is as long in front of a part of what follows it. -/
theorem Munch.of_append {more : List UInt8} (h : Munch c bytes (rest ++ more)) :
    Munch c bytes rest := by
  have hhead : ∀ d ∈ rest.head?, d ∈ (rest ++ more).head? := by
    intro d hd
    rw [List.head?_append, Option.mem_def.1 hd]
    rfl
  cases h with
  | mark hmark => exact .mark hmark
  | operator hb hnext => exact .operator hb fun d hd => hnext d (hhead d hd)
  | operatorPair hb hd => exact .operatorPair hb hd
  | word hne hbytes hnext => exact .word hne hbytes fun d hd => hnext d (hhead d hd)
  | numeral hne hbytes hnext => exact .numeral hne hbytes fun d hd => hnext d (hhead d hd)
  | stray hb hlength hbytes hnext =>
    exact .stray hb hlength hbytes fun hlt d hd => hnext hlt d (hhead d hd)

theorem Munch.isBlank_eq_false (h : Munch c bytes rest) : ∀ b ∈ bytes, isBlank b = false := by
  cases h with
  | mark hmark => exact List.forall_mem_singleton.2 (lt_and_not_of_ofMark? hmark).2.1
  | operator hb => exact List.forall_mem_singleton.2 (Lexeme.isBlank_eq_false (.inl hb))
  | operatorPair hb hd =>
    exact List.forall_mem_cons.2 ⟨Lexeme.isBlank_eq_false (.inl hb),
      List.forall_mem_singleton.2 (Lexeme.isBlank_eq_false (.inl hd))⟩
  | word _ hbytes => exact fun b hb => Lexeme.isBlank_eq_false (.inr (.inl (hbytes b hb)))
  | numeral _ hbytes => exact fun b hb => Lexeme.isBlank_eq_false (.inr (.inr (hbytes b hb)))
  | stray hb _ hbytes =>
    refine List.forall_mem_cons.2 ⟨hb.1, fun d hd => Bool.eq_false_iff.2 fun hblank => ?_⟩
    have hlow := (Utf8.contains_eq_true_iff.1 (hbytes d hd)).1
    exact UInt8.not_lt.2 hlow (lt_of_isBlank hblank)

theorem Munch.ne_nil (h : Munch c bytes rest) : bytes ≠ [] := by
  obtain ⟨b, back, rfl, _⟩ := h.exists_tail
  exact List.cons_ne_nil b back

/-- The border behind a lexeme is one between characters and malformed pieces. -/
theorem Munch.units_append (h : Munch c bytes rest) :
    Utf8.units (bytes ++ rest) = Utf8.units bytes ++ Utf8.units rest := by
  by_cases hother : c = .other
  · subst hother
    cases h with
    | stray _ _ hbytes hnext => exact Utf8.units_append_of_lead hbytes hnext
  · exact Utf8.units_append_of_width fun b hb => Utf8.width_of_lt (h.isPlain hother b hb)

/-- In well-formed text a lexeme with a character that is not plain is this character. -/
theorem Munch.exists_lossy_eq_singleton {text : String} (h : Munch c bytes rest)
    (hunits : Utf8.units bytes ⊆ text.toList.map some)
    (hchar : ∃ d ∈ (Utf8.lossy bytes).toList, 0x80 ≤ d.toNat) :
    c = .other ∧ ∃ d ∈ text.toList, Utf8.lossy bytes = .singleton d := by
  have hother : c = .other := by
    by_contra hother
    have hplain := h.isPlain hother
    obtain ⟨d, hd, hlow⟩ := hchar
    rw [Utf8.toList_lossy_of_isPlain hplain] at hd
    obtain ⟨b, hb, rfl⟩ := List.mem_map.1 hd
    have hb : b.toNat < 0x80 := UInt8.lt_iff_toNat_lt.1 (hplain b hb)
    have hvalue : (Char.ofUInt8 b).toNat = b.toNat := UInt8.toNat_toUInt32 b
    omega
  subst hother
  cases h with
  | stray _ hlength =>
    have hformed : none ∉ Utf8.units _ := fun hnone => by
      simpa using hunits hnone
    obtain ⟨d, hd⟩ := Utf8.exists_units_eq_singleton hlength hformed
    rw [hd] at hunits
    have hmem : d ∈ text.toList := by simpa using hunits
    refine ⟨rfl, d, hmem, ?_⟩
    rw [Utf8.lossy, hd, String.singleton_eq_ofList]
    rfl

end Lexeme

/-- Nothing but characters that separate tokens. -/
def IsGap (gap : String) : Prop := ∀ c ∈ gap.toList, c ∈ [' ', '\t', '\n', '\r']

/-- The text is the literals of the tokens, with a gap in front of each and one behind the last. -/
inductive Interspersed : List Token → String → Prop
  | nil {gap : String} (hgap : IsGap gap) : Interspersed [] gap
  | cons {gap text : String} {t : Token} {ts : List Token} (hgap : IsGap gap)
      (h : Interspersed ts text) : Interspersed (t :: ts) (gap ++ t.literal ++ text)

theorem isGap_lossy {b : UInt8} (h : Lexeme.isBlank b = true) : IsGap (Utf8.lossy [b]) := by
  have hplain : Utf8.IsPlain [b] := List.forall_mem_singleton.2 (Lexeme.lt_of_isBlank h)
  rw [IsGap, Utf8.toList_lossy_of_isPlain hplain]
  simp only [Lexeme.isBlank, Bool.or_eq_true, decide_eq_true_eq] at h
  rw [List.map_singleton, List.forall_mem_singleton]
  rcases h with ((rfl | rfl) | rfl) | rfl <;> decide

theorem isGap_empty : IsGap "" := nofun

theorem IsGap.append {gap gap' : String} (h : IsGap gap) (h' : IsGap gap') :
    IsGap (gap ++ gap') := by
  intro c hc
  rw [String.toList_append, List.mem_append] at hc
  exact hc.elim (h c) (h' c)

theorem Interspersed.gap_append {gap text : String} {ts : List Token} (h : Interspersed ts text)
    (hgap : IsGap gap) : Interspersed ts (gap ++ text) := by
  cases h with
  | nil hgap' => exact .nil (hgap.append hgap')
  | cons hgap' h =>
    rw [← String.append_assoc, ← String.append_assoc]
    exact .cons (hgap.append hgap') h

namespace Segmentation

variable {bytes : List UInt8} {pieces : List Piece}

/-- The literals of a text with its blanks between them are the text. -/
theorem interspersed (h : Segmentation bytes pieces) (place : Location) :
    Interspersed (Piece.tokens place pieces) (Utf8.lossy bytes) := by
  induction h generalizing place with
  | nil =>
    rw [Utf8.lossy, Utf8.units]
    exact .nil isGap_empty
  | @blank b rest _ hblank _ ih =>
    have hcut : Utf8.lossy (b :: rest) = Utf8.lossy [b] ++ Utf8.lossy rest :=
      @Utf8.lossy_append_of_units [b] rest (Lexeme.units_of_isBlank hblank rest)
    rw [hcut]
    exact (ih (place.after b)).gap_append (isGap_lossy hblank)
  | @lexeme c bytes rest _ hmunch _ ih =>
    rw [Utf8.lossy_append_of_units hmunch.units_append]
    exact (ih (place.afterAll bytes)).cons isGap_empty

/-- A token's lexeme is cut out of the text between characters and malformed pieces. -/
theorem exists_cut_of_mem (h : Segmentation bytes pieces) {place : Location} {t : Token}
    (ht : t ∈ Piece.tokens place pieces) :
    ∃ c front lexeme rest, bytes = front ++ (lexeme ++ rest) ∧ Lexeme.Munch c lexeme rest ∧
      Utf8.units bytes = Utf8.units front ++ (Utf8.units lexeme ++ Utf8.units rest) ∧
      t = ⟨c.kind (Utf8.lossy lexeme), Utf8.lossy lexeme, place.afterAll front⟩ := by
  induction h generalizing place with
  | nil => cases ht
  | @blank b rest _ hblank _ ih =>
    obtain ⟨c, front, lexeme, more, rfl, hmunch, hunits, rfl⟩ := ih ht
    refine ⟨c, b :: front, lexeme, more, rfl, hmunch, ?_, rfl⟩
    rw [Lexeme.units_of_isBlank hblank, hunits, Lexeme.units_of_isBlank hblank front,
      List.append_assoc]
  | @lexeme c lexeme rest _ hmunch _ ih =>
    rcases List.mem_cons.1 ht with rfl | ht
    · refine ⟨c, [], lexeme, rest, rfl, hmunch, ?_, rfl⟩
      rw [hmunch.units_append, Utf8.units, List.nil_append]
    · obtain ⟨c', front, lexeme', more, rfl, hmunch', hunits, rfl⟩ := ih ht
      refine ⟨c', lexeme ++ front, lexeme', more, ?_, hmunch', ?_, ?_⟩
      · rw [List.append_assoc]
      -- The text between the two lexemes is only a part of what the first one was cut off from.
      · rw [hmunch.units_append, hunits, hmunch.of_append.units_append, List.append_assoc]
      · rw [Location.afterAll_append]

theorem exists_munch_of_mem (h : Segmentation bytes pieces) {place : Location} {t : Token}
    (ht : t ∈ Piece.tokens place pieces) :
    ∃ c lexeme rest, Lexeme.Munch c lexeme rest ∧ t.kind = c.kind (Utf8.lossy lexeme) ∧
      t.literal = Utf8.lossy lexeme ∧ Utf8.units lexeme ⊆ Utf8.units bytes := by
  obtain ⟨c, front, lexeme, rest, _, hmunch, hunits, rfl⟩ := h.exists_cut_of_mem ht
  refine ⟨c, lexeme, rest, hmunch, rfl, rfl, ?_⟩
  rw [hunits]
  exact List.subset_append_of_subset_right _ (List.subset_append_left _ _)

end Segmentation

/-- The literals of a source give its text back, up to the first zero byte. Where that is
well-formed, it comes back byte by byte, and a character that is not plain is a token. -/
theorem literals_interspersed (name : String) (bytes : List UInt8) :
    Interspersed (tokenize (.ofBytes name bytes)).dropLast
        (Utf8.lossy (bytes.takeWhile (· ≠ 0))) ∧
      ∀ text, bytes = Utf8.encode text →
        Utf8.encode (Utf8.lossy (bytes.takeWhile (· ≠ 0))) = bytes.takeWhile (· ≠ 0) ∧
        ∀ t ∈ (tokenize (.ofBytes name bytes)).dropLast, (∃ c ∈ t.literal.toList, 0x80 ≤ c.toNat) →
          t.kind = .illegal ∧ ∃ c ∈ text.toList, t.literal = .singleton c := by
  have hcut := Segmentation.cut (bytes.takeWhile (· ≠ 0))
  have htokens : (tokenize (.ofBytes name bytes)).dropLast =
      Piece.tokens .start (Piece.cut (bytes.takeWhile (· ≠ 0))) := by
    rw [dropLast_tokenize, Scanner.ofSource, Source.visible_ofBytes, hcut.tokens_eq]
  rw [htokens]
  refine ⟨hcut.interspersed .start, ?_⟩
  rintro text rfl
  rw [Utf8.takeWhile_encode] at hcut ⊢
  refine ⟨by rw [Utf8.lossy_encode], fun t ht hchar => ?_⟩
  obtain ⟨c, lexeme, rest, hmunch, hkind, hliteral, hunits⟩ := hcut.exists_munch_of_mem ht
  rw [Utf8.units_encode] at hunits
  rw [hliteral] at hchar
  obtain ⟨rfl, d, hd, hlossy⟩ := hmunch.exists_lossy_eq_singleton hunits hchar
  rw [String.toList_ofList] at hd
  exact ⟨hkind, d, (List.takeWhile_sublist _).subset hd, hliteral.trans hlossy⟩

/-- The character in front is two bytes long, and the zero byte behind ends the text. -/
theorem literals_interspersed_of_accented :
    Utf8.encode "é = \x00" = [0xC3, 0xA9, 0x20, 0x3D, 0x20, 0x00] ∧
      ⟨.illegal, "é", ⟨1, 1⟩⟩ ∈ (tokenize (.ofText "" "é = \x00")).dropLast ∧
      Utf8.encode (Utf8.lossy [0xC3, 0xA9, 0x20, 0x3D, 0x20]) = [0xC3, 0xA9, 0x20, 0x3D, 0x20] ∧
      ∃ c ∈ "é = \x00".toList, "é" = .singleton c := by
  have hencode : Utf8.encode "é = \x00" = [0xC3, 0xA9, 0x20, 0x3D, 0x20, 0x00] := by
    decide +kernel
  have hmem : ⟨.illegal, "é", ⟨1, 1⟩⟩ ∈ (tokenize (.ofText "" "é = \x00")).dropLast := by
    decide +kernel
  obtain ⟨_, htext⟩ := literals_interspersed "" (Utf8.encode "é = \x00")
  obtain ⟨hback, hliterals⟩ := htext _ rfl
  refine ⟨hencode, hmem, ?_, (hliterals _ hmem ⟨'é', by decide +kernel, by decide⟩).2⟩
  rw [hencode] at hback
  exact hback

end LetLang
