import LetLang.Proofs.Outcome.Basic
import Mathlib.Logic.ExistsUnique

/-! How reading an expression ends, from any state of a parser. There are three ways, and in two of
them the latest report tells which token is to blame, be it a new report or an older one. -/
namespace LetLang

open Grammar (Quiet)

/-- How the reading of an expression ends: without one, in front of a parenthesis that blocks it,
or in front of a token that is no part of it. -/
inductive Ending where
  | failed
  | blocked
  | finished
deriving DecidableEq, Repr

namespace Ending

variable {bound : Precedence} {p p' : Parser} {e? : Option Expr}

/-- What an ending comes to if `e?` is read on the way from `p` to `p'`. -/
def Holds (bound : Precedence) (p : Parser) (e? : Option Expr) (p' : Parser) : Ending → Prop
  | failed => e? = none ∧ p'.latestPlace? = some p'.current.location
  | blocked =>
    e?.isSome = true ∧ p'.upcoming.kind = .leftParen ∧
      p'.latestPlace? = some p'.upcoming.location
  | finished =>
    e?.isSome = true ∧ p'.diagnostics = p.diagnostics ∧ p'.upcoming.kind ≠ .leftParen ∧
      (p'.upcoming.kind = .semicolon ∨ p'.upcoming.kind.precedence ≤ bound)

theorem Holds.unique {ending ending' : Ending} (h : ending.Holds bound p e? p')
    (h' : ending'.Holds bound p e? p') : ending = ending' := by
  cases ending <;> cases ending' <;> simp_all [Holds]

end Ending

namespace Parser

section
variable {p : Parser} {bound : Precedence}

/-- The reading of an expression with a parser, as a derivation. -/
theorem derivation_of_value? {e? : Option Expr}
    (h : (Grammar.expression bound p.finish p.ahead).value? = e?) :
    Grammar.Derivation p.finish .start bound p.ahead
      ⟨e?, (Grammar.expression bound p.finish p.ahead).rest,
        (Grammar.expression bound p.finish p.ahead).trail⟩ := by
  rw [← h]
  exact Grammar.derivation_expression _ _ _

theorem exists_ending (p : Parser) (hbound : bound < .call) :
    ∃ ending : Ending, ending.Holds bound p (p.run (Grammar.expression bound)).1
      (p.run (Grammar.expression bound)).2 := by
  cases hvalue : (Grammar.expression bound p.finish p.ahead).value? with
  | none =>
    have hd := derivation_of_value? hvalue
    refine ⟨.failed, hvalue, ?_⟩
    rw [current_run]
    exact latestPlace?_run_of_blames (hd.blames hbound) (hd.not_quiet_of_none hbound)
  | some e =>
    have hd := derivation_of_value? hvalue
    have hsome : (p.run (Grammar.expression bound)).1.isSome = true := by
      change (Grammar.expression bound p.finish p.ahead).value?.isSome = true
      rw [hvalue, Option.isSome_some]
    have hquiet := (hd.concludes hbound).quiet_iff hbound
    have hupcoming := (hd.concludes hbound).upcoming
    rw [← upcoming_run] at hupcoming hquiet
    by_cases hparen : (p.run (Grammar.expression bound)).2.upcoming.kind = .leftParen
    · refine ⟨.blocked, hsome, hparen, ?_⟩
      have hfault : ¬ Quiet (Grammar.expression bound p.finish p.ahead).trail := fun h =>
        (hquiet.1 h).2 (by rw [hparen]; exact hbound)
      rw [upcoming_run]
      exact latestPlace?_run_of_blames (hd.blames hbound) hfault
    · have hstop := hupcoming.resolve_right hparen
      refine ⟨.finished, hsome, ?_, hparen, .inr (Nat.le_of_not_lt hstop)⟩
      exact diagnostics_run_of_quiet (hquiet.2 ⟨rfl, hstop⟩)

theorem spanTo_expression {e : Expr}
    (h : (Grammar.expression bound p.finish p.ahead).value? = some e) :
    p.spanTo (p.run (Grammar.expression bound)).2 = e.tokens := by
  obtain ⟨after, hahead, hrest⟩ := (derivation_of_value? h).exists_append_eq
  exact spanTo_run_eq (Grammar.paced_expression bound) hahead hrest

end

/-- Reading an expression in any state makes one report at most and ends in exactly one way. What
is read has the tokens from the current one to the new current one, and if an operator joins it
together, that binds tighter than the bound. -/
theorem expression_ends_in_one_way (p : Parser) {bound : Precedence} (hbound : bound ≤ .unary) :
    let (e?, p') := p.run (Grammar.expression bound)
    p.ReportsAtMostOne p' ∧ (∃! ending : Ending, ending.Holds bound p e? p') ∧
      ∀ e, e? = some e → e.tokens = p.spanTo p' ∧ ∀ precedence ∈ e.joint?, bound < precedence := by
  have hcall : bound < .call := Nat.lt_of_le_of_lt hbound (by decide)
  have hd := Grammar.derivation_expression p.finish bound p.ahead
  refine ⟨reportsAtMostOne_run_of_blames (hd.blames hcall), ?_, fun e he => ⟨?_, ?_⟩⟩
  · obtain ⟨ending, h⟩ := p.exists_ending hcall
    exact ⟨ending, h, fun ending' h' => h'.unique h⟩
  · exact (spanTo_expression he).symm
  · exact (hd.fits trivial e he).bound_lt

/-- In `-a(b` the parenthesis blocks the sign and its operand, and is reported once. -/
theorem expression_ends_in_one_way_of_blocked :
    let p := Parser.ofSource (.ofText "call" "-a(b")
    let (e?, p') := p.run (Grammar.expression .sum)
    Precedence.sum ≤ .unary ∧ p'.diagnostics = [⟨.cannotContinue .leftParen, ⟨1, 3⟩⟩] ∧
      Ending.blocked.Holds .sum p e? p' ∧
      ∃! ending : Ending, ending.Holds .sum p e? p' :=
  have hbound : Precedence.sum ≤ .unary := by decide
  ⟨hbound, by decide +kernel, by unfold Ending.Holds; decide +kernel,
    (expression_ends_in_one_way (.ofSource (.ofText "call" "-a(b")) hbound).2.1⟩

end Parser

end LetLang
