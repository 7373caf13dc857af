import LetLang.Proofs.Grammar.Recovery
import LetLang.Proofs.Parser
import LetLang.Proofs.Scanner.Lines

/-! Resynchronization. Behind a semicolon the parser starts anew: what stands below a text that
ends in one is read as if it stood alone, however malformed either of them is. -/
namespace LetLang

open Location (lineFeeds)

theorem closed_of_getLast? {source : Source}
    (h : (tokenize source).dropLast.getLast?.map (·.kind) = some .semicolon) :
    Grammar.Closed (Scanner.ofSource source).tokens := by
  rw [dropLast_tokenize] at h
  obtain ⟨semicolon, hlast, hkind⟩ := Option.map_eq_some_iff.1 h
  obtain ⟨front, htokens⟩ := List.getLast?_eq_some_iff.1 hlast
  exact ⟨front, semicolon, htokens, hkind⟩

theorem currentToken_ne_of_head? {source : Source} (f : Location → Location) (finish : Location)
    (h : (tokenize source).head?.map (·.kind) ≠ some .semicolon) :
    (Grammar.currentToken finish
      ((Scanner.ofSource source).tokens.map (Token.relocate f))).kind ≠ .semicolon := by
  unfold tokenize at h
  cases htokens : (Scanner.ofSource source).tokens with
  | nil => exact (by decide : Kind.endOfInput ≠ .semicolon)
  | cons t ts =>
    rw [htokens] at h
    simpa using h

section
variable {above below : List UInt8} (name : String)
  (hlength : (above ++ 0x0A :: below).length < UInt32.size - 1)
include hlength

/-- No line of the text above is a line of the text below. -/
theorem location_ne_of_below {upper lower : Token} (hupper : upper ∈ tokenize (.ofBytes name above))
    (hlower : lower ∈ tokenize (.ofBytes name below)) :
    upper.location ≠ lower.location.down (lineFeeds above + 1) := by
  have habove := Location.lineFeeds_le_length above
  have hbelow := Location.lineFeeds_le_length below
  rw [List.length_append, List.length_cons] at hlength
  have hupper := toNat_line_of_mem_tokenize (by omega) hupper
  have hlower := toNat_line_of_mem_tokenize (by omega) hlower
  have hdown : (lower.location.down (lineFeeds above + 1)).line.toNat =
      lower.location.line.toNat + (lineFeeds above + 1) := Location.toNat_line_down (by omega)
  intro hsame
  rw [hsame] at hupper
  omega

theorem faults_apart (d : Diagnostic)
    (hd : .fault d ∈ (readings (.ofBytes name below)).2.map
      (Grammar.Action.relocate (.down (lineFeeds above + 1)))) :
    ((readings (.ofBytes name above)).2.foldl Grammar.Action.record []).head?.map (·.location) ≠
      some d.location := by
  intro hsame
  obtain ⟨latest, hlatest, hlocation⟩ := Option.map_eq_some_iff.1 hsame
  obtain ⟨action, haction, hmoved⟩ := List.mem_map.1 hd
  cases action with
  | pull => cases hmoved
  | fault lower =>
    cases hmoved
    have hreported := mem_of_mem_foldl_record (List.mem_of_mem_head? hlatest)
    obtain ⟨upper, hupper, hplace⟩ :=
      exists_token_of_fault (hreported.resolve_left List.not_mem_nil)
    obtain ⟨below, hbelow, hplace'⟩ := exists_token_of_fault haction
    apply location_ne_of_below name hlength hupper hbelow
    rw [hplace, hplace']
    exact hlocation

end

section
variable {above below : List UInt8} (name : String) (habove : 0 ∉ above)
  (hclosed : (tokenize (.ofBytes name above)).dropLast.getLast?.map (·.kind) = some .semicolon)
  (hfirst : (tokenize (.ofBytes name below)).head?.map (·.kind) ≠ some .semicolon)
include habove hclosed hfirst

theorem readings_ofBytes_below :
    readings (.ofBytes name (above ++ 0x0A :: below)) =
      ((readings (.ofBytes name above)).1 ++ (readings (.ofBytes name below)).1.map
          (Statement.relocate (.down (lineFeeds above + 1))),
        (readings (.ofBytes name above)).2 ++ (readings (.ofBytes name below)).2.map
          (Grammar.Action.relocate (.down (lineFeeds above + 1)))) := by
  have hmore := currentToken_ne_of_head? (.down (lineFeeds above + 1))
    ((Scanner.ofSource (.ofBytes name below)).finish.down (lineFeeds above + 1)) hfirst
  unfold readings
  rw [Scanner.tokens_ofBytes_below habove, Scanner.finish_ofBytes_below habove,
    Grammar.statements_append (.inr (closed_of_getLast? hclosed)) hmore,
    Grammar.statements_relocate]

theorem diagnostics_ofBytes_below (hlength : (above ++ 0x0A :: below).length < UInt32.size - 1) :
    (parse (.ofBytes name (above ++ 0x0A :: below))).2 =
      (parse (.ofBytes name above)).2 ++ (parse (.ofBytes name below)).2.map
        (Diagnostic.relocate (.down (lineFeeds above + 1))) := by
  have happend := foldl_record_append (faults_apart name hlength) []
  have hmoved := foldl_record_relocate (Location.down_injective (lineFeeds above + 1))
    (readings (.ofBytes name below)).2 []
  rw [List.nil_append] at happend
  rw [List.map_nil] at hmoved
  rw [parse_eq, parse_eq, parse_eq, readings_ofBytes_below name habove hclosed hfirst]
  dsimp only
  rw [List.foldl_append, happend, hmoved, List.reverse_append, List.map_reverse]

end

/-- A text below one that ends in a semicolon is read as on its own. All its places, none of which
wraps, are as many lines further down as there are lines above, in the same columns. -/
theorem parse_resynchronizes (above below : List UInt8) (name : String) (habove : 0 ∉ above)
    (hclosed : (tokenize (.ofBytes name above)).dropLast.getLast?.map (·.kind) = some .semicolon)
    (hfirst : (tokenize (.ofBytes name below)).head?.map (·.kind) ≠ some .semicolon)
    (hlength : (above ++ 0x0A :: below).length < UInt32.size - 1) :
    parse (.ofBytes name (above ++ 0x0A :: below)) =
        (⟨(parse (.ofBytes name above)).1.statements ++
            ((parse (.ofBytes name below)).1.relocate (.down (lineFeeds above + 1))).statements⟩,
          (parse (.ofBytes name above)).2 ++ (parse (.ofBytes name below)).2.map
            (Diagnostic.relocate (.down (lineFeeds above + 1)))) ∧
      ∀ t ∈ tokenize (.ofBytes name below),
        (t.location.down (lineFeeds above + 1)).line.toNat =
          t.location.line.toNat + (lineFeeds above + 1) := by
  constructor
  · apply Prod.ext
    · rw [parse_fst, readings_ofBytes_below name habove hclosed hfirst]
      rfl
    · exact diagnostics_ofBytes_below name habove hclosed hfirst hlength
  · intro t ht
    have habove := Location.lineFeeds_le_length above
    have hbelow := Location.lineFeeds_le_length below
    rw [List.length_append, List.length_cons] at hlength
    have hline := toNat_line_of_mem_tokenize (by omega) ht
    exact Location.toNat_line_down (by omega)

/-- The first binding has no name, and a parenthesis blocks the text below it. -/
theorem parse_resynchronizes_of_faulty :
    parse (.ofBytes "faulty" (Utf8.encode "let 5;" ++ 0x0A :: Utf8.encode "x(")) =
      (⟨[.expression ⟨.integer, "5", ⟨1, 5⟩⟩ (.integer ⟨.integer, "5", ⟨1, 5⟩⟩ 5),
          .expression ⟨.identifier, "x", ⟨2, 1⟩⟩ (.name (.ofToken ⟨.identifier, "x", ⟨2, 1⟩⟩))]⟩,
        [⟨.unexpected .identifier .integer, ⟨1, 5⟩⟩,
          ⟨.cannotContinue .leftParen, ⟨2, 2⟩⟩]) := by
  have h := parse_resynchronizes (Utf8.encode "let 5;") (Utf8.encode "x(") "faulty"
    (by decide +kernel) (by decide +kernel) (by decide +kernel) (by decide +kernel)
  rw [h.1]
  decide +kernel

end LetLang
