import LetLang.Proofs.Diagnostics
import LetLang.Proofs.Precedence
import LetLang.Proofs.Scanner.Numeral

/-! Numerals in programs. Whether a numeral is read goes by its number alone, not by how many digits
write it, and the signs in front of it do not matter: they take it as it is or fail with it. -/
namespace LetLang

open Grammar (Action)
open Numeral (IsNumeral magnitude spaced)

namespace Grammar

variable {finish : Location} {bound : Precedence} {signs : List Token} {t : Token}

theorem opening_of_isNumeral_lt (hkind : t.kind = .integer) (hnumeral : IsNumeral t.literal)
    (h : magnitude t.literal < Numeral.limit) :
    opening t = .leaf (.integer t (.ofNat (magnitude t.literal))) := by
  rw [opening, Kind.lead?_eq_numeral_iff.2 hkind, Numeral.int64?_of_lt hnumeral h]

theorem opening_of_isNumeral_le (hkind : t.kind = .integer) (hnumeral : IsNumeral t.literal)
    (h : Numeral.limit ≤ magnitude t.literal) :
    opening t = .obstacle (.outOfRange t.literal) := by
  rw [opening, Kind.lead?_eq_numeral_iff.2 hkind, (Numeral.int64?_eq_none_iff hnumeral).2 h]

section
variable (hsigns : ∀ sign ∈ signs, sign.kind ∈ Kind.signs)
include hsigns

/-- Signs apply to what stands behind them from the last to the first. -/
theorem Derivation.ofSigns {e : Expr} (hopening : opening t = .leaf e) :
    Derivation finish .start bound (signs ++ [t])
      ⟨some (signs.foldr .ofSign e), [t], List.replicate signs.length .pull⟩ := by
  have hdone {bound : Precedence} {e : Expr} :
      Derivation finish (.onward e) bound [t] ⟨some e, [t], []⟩ :=
    .done (not_lt_precedence_finish bound finish)
  induction signs generalizing bound with
  | nil => exact .leaf hopening hdone
  | cons sign signs ih =>
    obtain ⟨hsign, hsigns⟩ := List.forall_mem_cons.1 hsigns
    have h := Derivation.sign (opening_eq_sign_iff.2 hsign) (ih hsigns) (@hdone bound _)
    rwa [List.append_nil] at h

/-- A failure behind signs is the failure of all of them, and is found once. -/
theorem Derivation.ofSigns_of_obstacle {fault : Fault} (hopening : opening t = .obstacle fault) :
    Derivation finish .start bound (signs ++ [t])
      ⟨none, [t], List.replicate signs.length .pull ++ [.fault ⟨fault, t.location⟩]⟩ := by
  induction signs generalizing bound with
  | nil => exact .obstacle hopening
  | cons sign signs ih =>
    obtain ⟨hsign, hsigns⟩ := List.forall_mem_cons.1 hsigns
    exact .signFailed (opening_eq_sign_iff.2 hsign) (ih hsigns)

/-- Signs with a numeral behind them are a single statement, if they are one at all. -/
theorem statements_signs (finish : Location) {value? : Option Expr} {trail : List Action}
    (hkind : t.kind = .integer)
    (h : Derivation finish .start .lowest (signs ++ [t]) ⟨value?, [t], trail⟩) :
    statements finish (signs ++ [t]) =
      ((value?.map (.expression (signs.headD t))).toList, trail ++ [.pull]) := by
  have hcurrent : currentToken finish (signs ++ [t]) = signs.headD t := by
    cases signs <;> rfl
  have hlead : (signs.headD t).kind.lead? ≠ none := by
    cases signs with
    | nil =>
      rw [List.headD_nil, hkind]
      decide
    | cons sign signs =>
      rw [List.headD_cons, Kind.mem_signs_iff.1 (hsigns sign List.mem_cons_self)]
      decide
  have hskip : SemicolonSkip finish [t] [t] [] := .absent nofun
  have hlet : (signs.headD t).kind ≠ .letWord := Kind.ne_of_lead? hlead rfl
  have hreturn : (signs.headD t).kind ≠ .returnWord := Kind.ne_of_lead? hlead rfl
  rw [← hcurrent] at hlet hreturn
  rw [statements_of_derivation (.bare hlet hreturn h hskip) (by simp), hcurrent, List.tail_cons,
    statements, List.append_nil, List.append_nil]

end

end Grammar

section
variable (name : String) {signs : List (Kind × Nat)} {numeral : String}
  (hsigns : ∀ s ∈ signs, s.1 ∈ Kind.signs) (hnumeral : IsNumeral numeral)
include hsigns hnumeral

/-- A numeral is read as its number, or reported where it stands. -/
theorem exists_parse_signed :
    let source := Source.ofText name (spaced signs ++ numeral)
    let t : Token :=
      ⟨.integer, numeral, ⟨1, 1 + UInt32.ofNat (Utf8.encode (spaced signs)).length⟩⟩
    ∃ ts : List Token,
      ts.map (fun t => (t.kind, t.literal)) = signs.map (fun s => (s.1, s.1.text)) ∧
      (tokenize source).dropLast = ts ++ [t] ∧
      (magnitude numeral < Numeral.limit →
        parse source = (⟨[.expression (ts.headD t)
          (ts.foldr .ofSign (.integer t (.ofNat (magnitude numeral))))]⟩, [])) ∧
      (Numeral.limit ≤ magnitude numeral →
        parse source = (⟨[]⟩, [⟨.outOfRange numeral, t.location⟩])) := by
  intro source t
  obtain ⟨ts, hts, htokens⟩ := Numeral.exists_tokens_signed name hsigns hnumeral
  have hkinds : ∀ sign ∈ ts, sign.kind ∈ Kind.signs := by
    intro sign hsign
    have hmem := List.mem_map_of_mem (f := fun t : Token => (t.kind, t.literal)) hsign
    rw [hts] at hmem
    obtain ⟨s, hs, heq⟩ := List.mem_map.1 hmem
    obtain ⟨hkind, _⟩ := Prod.mk.inj heq
    rw [← hkind]
    exact hsigns s hs
  refine ⟨ts, hts, by rw [dropLast_tokenize, htokens], fun hlimit => ?_, fun hlimit => ?_⟩
  · have hopening := Grammar.opening_of_isNumeral_lt (t := t) rfl hnumeral hlimit
    have hread := Grammar.statements_signs hkinds (Scanner.ofSource source).finish rfl
      (.ofSigns hkinds hopening)
    rw [parse_eq, readings, htokens, hread, foldl_record_of_quiet (by simp)]
    rfl
  · have hopening := Grammar.opening_of_isNumeral_le (t := t) rfl hnumeral hlimit
    have hread := Grammar.statements_signs hkinds (Scanner.ofSource source).finish rfl
      (.ofSigns_of_obstacle hkinds hopening)
    rw [parse_eq, readings, htokens, hread, List.append_assoc, List.foldl_append,
      foldl_record_of_quiet (Grammar.quiet_replicate_pull ts.length)]
    rfl

end

theorem isNumeral_of_mem_expressions {source : Source} {token : Token} {value : Int64}
    (h : .integer token value ∈ (parse source).1.expressions) :
    token.kind = .integer ∧ IsNumeral token.literal ∧ value.toInt = magnitude token.literal ∧
      magnitude token.literal < Numeral.limit := by
  obtain ⟨hkind, n, hvalue, hn⟩ := (wellFormed_of_mem_expressions h).genuine
  obtain ⟨hnumeral, rfl⟩ := Numeral.value?_eq_some_iff.1 hvalue
  have hlimit : value.toInt < (Numeral.limit : Int) := value.toInt_lt
  exact ⟨hkind, hnumeral, hn, Int.ofNat_lt.1 (hn ▸ hlimit)⟩

theorem exists_numeral_of_outOfRange {source : Source} {literal : String} {place : Location}
    (h : ⟨.outOfRange literal, place⟩ ∈ (parse source).2) :
    ∃ t ∈ tokenize source, t.kind = .integer ∧ t.literal = literal ∧ t.location = place ∧
      IsNumeral literal ∧ Numeral.limit ≤ magnitude literal := by
  obtain ⟨t, ht, hplace, hkind, rfl, hnone⟩ := exists_described_of_mem_diagnostics h
  have hnumeral : IsNumeral t.literal := by
    rcases List.mem_append.1 ht with ht | ht
    · exact Scanner.isNumeral_literal ht hkind
    · obtain rfl := List.mem_singleton.1 ht
      cases hkind
  exact ⟨t, ht, hkind, rfl, hplace, hnumeral, (Numeral.int64?_eq_none_iff hnumeral).1 hnone⟩

/-- Integers in a program have the numbers that their digits write, and a numeral is reported only
if its number does not fit. Behind any signs a numeral is taken just when its number fits, and else
reported once, so a minus makes no further number fit. -/
theorem numerals_go_by_value :
    (∀ source token (value : Int64), .integer token value ∈ (parse source).1.expressions →
      token.kind = .integer ∧ IsNumeral token.literal ∧
        value.toInt = magnitude token.literal ∧ magnitude token.literal < 0x8000000000000000) ∧
    (∀ source literal place, ⟨.outOfRange literal, place⟩ ∈ (parse source).2 →
      ∃ t ∈ tokenize source, t.kind = .integer ∧ t.literal = literal ∧ t.location = place ∧
        IsNumeral literal ∧ 0x8000000000000000 ≤ magnitude literal) ∧
    ∀ name signs numeral, (∀ s ∈ signs, s.1 ∈ Kind.signs) → IsNumeral numeral →
      let source := Source.ofText name (spaced signs ++ numeral)
      let t : Token :=
        ⟨.integer, numeral, ⟨1, 1 + UInt32.ofNat (Utf8.encode (spaced signs)).length⟩⟩
      ∃ ts : List Token,
        ts.map (fun t => (t.kind, t.literal)) = signs.map (fun s => (s.1, s.1.text)) ∧
        (tokenize source).dropLast = ts ++ [t] ∧
        (magnitude numeral < 0x8000000000000000 →
          parse source = (⟨[.expression (ts.headD t)
            (ts.foldr .ofSign (.integer t (.ofNat (magnitude numeral))))]⟩, [])) ∧
        (0x8000000000000000 ≤ magnitude numeral →
          parse source = (⟨[]⟩, [⟨.outOfRange numeral, t.location⟩])) := by
  rw [show 0x8000000000000000 = Numeral.limit from rfl]
  refine ⟨?_, ?_, ?_⟩
  · intro source token value h
    exact isNumeral_of_mem_expressions h
  · intro source literal place h
    exact exists_numeral_of_outOfRange h
  · intro name signs numeral hsigns hnumeral
    exact exists_parse_signed name hsigns hnumeral

/-- The greatest number that fits, with digits that it does not need, and the next one behind a minus
and a bang. -/
theorem numerals_go_by_value_of_limit :
    let greatest := "0009223372036854775807"
    let next := "9223372036854775808"
    IsNumeral greatest ∧ (9223372036854775807 : Int64).toInt = magnitude greatest ∧
      magnitude greatest < 0x8000000000000000 ∧
      (∃ t ∈ tokenize (.ofText "" ("let x = " ++ next ++ ";")), t.kind = .integer ∧ t.literal = next ∧
        t.location = ⟨1, 9⟩ ∧ IsNumeral next ∧ 0x8000000000000000 ≤ magnitude next) ∧
      (parse (.ofText "" (spaced [(.minus, 0)] ++ greatest))).2 = [] ∧
      parse (.ofText "" (spaced [(.minus, 0), (.bang, 2)] ++ next)) =
        (⟨[]⟩, [⟨.outOfRange next, ⟨1, 7⟩⟩]) := by
  intro greatest next
  obtain ⟨hexpressions, hreports, hsigned⟩ := numerals_go_by_value
  obtain ⟨_, hgreatest, hvalue, hlimit⟩ := hexpressions (.ofText "" ("let x = " ++ greatest ++ ";"))
    ⟨.integer, greatest, ⟨1, 9⟩⟩ 9223372036854775807 (by decide +kernel)
  have hnext := hreports (.ofText "" ("let x = " ++ next ++ ";")) next ⟨1, 9⟩ (by decide +kernel)
  obtain ⟨_, _, _, htaken, _⟩ := hsigned "" [(.minus, 0)] greatest (by decide +kernel) hgreatest
  obtain ⟨_, _, _, _, hreported⟩ :=
    hsigned "" [(.minus, 0), (.bang, 2)] next (by decide +kernel) (by decide +kernel)
  have hwidth : (Utf8.encode (spaced [(.minus, 0), (.bang, 2)])).length = 6 := by decide +kernel
  rw [hwidth] at hreported
  refine ⟨hgreatest, hvalue, hlimit, hnext, ?_, ?_⟩
  · rw [htaken hlimit]
  · exact hreported (by decide +kernel)

end LetLang
