import LetLang.Proofs.Outcome.Basic
import LetLang.Proofs.Slices

/-! What a statement leaves of a parser, from any state of it. A statement that fails, or loses the
value it was to return, has found fault with a token at which it looked, and one that keeps its
value has found none, unless a parenthesis stands behind it. -/
namespace LetLang

open Grammar (Quiet)

namespace Grammar

variable {finish : Location} {ahead : List Token}

/-- What comes of a statement: nothing, or a binding that is complete, or a return whose value is
left out or lost, or an expression that may be blocked where it ends. -/
inductive Settled (finish : Location) (ahead : List Token) : Reading Statement → Prop
  | failed {rest : List Token} {trail : List Action} (hfault : ¬ Quiet trail) :
      Settled finish ahead ⟨none, rest, trail⟩
  | binding {word assign semicolon : Token} {name : Identifier} {value : Expr}
      {rest : List Token} {trail : List Action} (hquiet : Quiet trail)
      (hspans : (Statement.binding word name (some value)).Spans
        (word :: name.token :: assign :: (value.tokens ++ [semicolon])))
      (hsemicolon : semicolon.kind = .semicolon)
      (hahead : ahead = word :: name.token :: assign :: (value.tokens ++ [semicolon]) ++ rest) :
      Settled finish ahead ⟨some (.binding word name (some value)), semicolon :: rest, trail⟩
  | returningNothing {word : Token} {rest : List Token} {trail : List Action}
      (hnext : (upcomingToken finish ahead).kind ∈ [.semicolon, .endOfInput]) :
      Settled finish ahead ⟨some (.returning word none), rest, trail⟩
  | valueLost {word : Token} {rest : List Token} {trail : List Action} (hfault : ¬ Quiet trail) :
      Settled finish ahead ⟨some (.returning word none), rest, trail⟩
  | returning {word : Token} {value : Expr} {rest : List Token} {trail : List Action}
      (hend : Quiet trail ∨ (upcomingToken finish rest).kind = .leftParen) :
      Settled finish ahead ⟨some (.returning word (some value)), rest, trail⟩
  | expression {token : Token} {expr : Expr} {rest : List Token} {trail : List Action}
      (hend : Quiet trail ∨ (upcomingToken finish rest).kind = .leftParen) :
      Settled finish ahead ⟨some (.expression token expr), rest, trail⟩

/-- An expression with a semicolon behind it, or none, is read without a fault or blocked. -/
theorem Derivation.quiet_or_blocked {e : Expr} {rest rest' : List Token}
    {trail skipped : List Action}
    (h : Derivation finish .start .lowest ahead ⟨some e, rest, trail⟩)
    (hskip : SemicolonSkip finish rest rest' skipped) :
    Quiet (trail ++ skipped) ∨ (upcomingToken finish rest').kind = .leftParen := by
  have hlowest : Precedence.lowest < .call := by decide
  rcases (h.concludes hlowest).upcoming with hstop | hparen
  · have hquiet := ((h.concludes hlowest).quiet_iff hlowest).2 ⟨rfl, hstop⟩
    exact .inl (quiet_append.2 ⟨hquiet, hskip.quiet⟩)
  · cases hskip with
    | taken hsemicolon =>
      rw [upcomingToken_cons_cons, hsemicolon] at hparen
      cases hparen
    | absent _ => exact .inr hparen

theorem StatementDerivation.settled {r : Reading Statement}
    (h : StatementDerivation finish ahead r) : Settled finish ahead r := by
  have hlowest : Precedence.lowest < .call := by decide
  cases h with
  | nameMissing _ _ => exact .failed (by simp)
  | assignMissing _ _ _ => exact .failed (by simp)
  | valueFailed _ _ _ hvalue _ =>
    exact .failed (by simp [hvalue.not_quiet_of_none hlowest])
  | semicolonMissing _ _ _ _ _ => exact .failed (by simp)
  | @binding word name assign last semicolon _ rest trail value hword hname hassign hvalue
      hsemicolon =>
    obtain ⟨after, rfl, hrest⟩ := hvalue.exists_append_eq
    obtain ⟨_, rfl⟩ := List.cons.inj hrest
    have hquiet : Quiet trail := by
      refine ((hvalue.concludes hlowest).quiet_iff hlowest).2 ⟨rfl, ?_⟩
      rw [upcomingToken_cons_cons, hsemicolon]
      exact Precedence.not_lt_lowest _
    have hname : (Identifier.ofToken name).token.kind = .identifier := hname
    refine .binding (by simpa using hquiet) (.binding hword hname hassign hsemicolon) hsemicolon ?_
    simp [Identifier.ofToken]
  | @returningNothing word ahead _ _ _ hnext _ =>
    exact .returningNothing (by simpa [upcomingToken_cons] using hnext)
  | @returning _ _ _ _ _ _ value? _ _ hvalue hskip =>
    cases value? with
    | none => exact .valueLost (by simp [hvalue.not_quiet_of_none hlowest])
    | some value => exact .returning (by simpa using hvalue.quiet_or_blocked hskip)
  | @bare _ _ _ _ _ expr? _ _ hexpr hskip =>
    cases expr? with
    | none => exact .failed (by simp [hexpr.not_quiet_of_none hlowest])
    | some expr => exact .expression (hexpr.quiet_or_blocked hskip)

variable {r : Reading Statement}

/-- Where nothing is read, or nothing of a value that was to come, there is a fault. -/
theorem Settled.not_quiet (h : Settled finish ahead r)
    (hvalue : r.value? = none ∨ ((∃ word, r.value? = some (.returning word none)) ∧
      (upcomingToken finish ahead).kind ∉ [.semicolon, .endOfInput])) : ¬ Quiet r.trail := by
  cases h with
  | failed hfault => exact hfault
  | valueLost hfault => exact hfault
  | returningNothing hnext =>
    rcases hvalue with hnone | ⟨_, hnot⟩
    · cases hnone
    · exact absurd hnext hnot
  | binding _ _ _ _ => simp at hvalue
  | returning _ => simp at hvalue
  | expression _ => simp at hvalue

theorem Settled.of_binding {word : Token} {name : Identifier} {value? : Option Expr}
    (h : Settled finish ahead r) (hvalue : r.value? = some (.binding word name value?)) :
    Quiet r.trail ∧ value?.isSome = true ∧ ∃ semicolon after slice,
      r.rest = semicolon :: after ∧ semicolon.kind = .semicolon ∧ ahead = slice ++ after ∧
        (Statement.binding word name value?).Spans slice := by
  cases h with
  | binding hquiet hspans hsemicolon hahead =>
    cases hvalue
    exact ⟨hquiet, rfl, _, _, _, rfl, hsemicolon, hahead, hspans⟩
  | failed _ => cases hvalue
  | returningNothing _ => cases hvalue
  | valueLost _ => cases hvalue
  | returning _ => cases hvalue
  | expression _ => cases hvalue

theorem Settled.quiet_or_blocked (h : Settled finish ahead r)
    (hvalue : (∃ word value, r.value? = some (.returning word (some value))) ∨
      ∃ token expr, r.value? = some (.expression token expr)) :
    Quiet r.trail ∨ (upcomingToken finish r.rest).kind = .leftParen := by
  cases h with
  | returning hend => exact hend
  | expression hend => exact hend
  | failed _ => simp at hvalue
  | binding _ _ _ _ => simp at hvalue
  | returningNothing _ => simp at hvalue
  | valueLost _ => simp at hvalue

end Grammar

namespace Parser

variable {p : Parser}

/-- A statement that finds any fault leaves the place of one of its tokens, or of the next one,
as that of the latest report. -/
theorem exists_blamed (hfault : ¬ Quiet (Grammar.statement p.finish p.ahead).trail) :
    ∃ t ∈ p.spanTo (p.run Grammar.statement).2 ++ [(p.run Grammar.statement).2.upcoming],
      (p.run Grammar.statement).2.latestPlace? = some t.location := by
  obtain ⟨untaken, hsuffix, hrest, hblames⟩ :=
    (Grammar.statement_derivation p.finish p.ahead).singled
  exact ⟨_, currentToken_mem_spanTo_run Grammar.paced_statement hsuffix hrest,
    latestPlace?_run_of_blames hblames hfault⟩

/-- A binding is read without a report and takes the tokens to its semicolon. -/
theorem run_statement_of_binding {word : Token} {name : Identifier} {value? : Option Expr}
    (h : (p.run Grammar.statement).1 = some (.binding word name value?)) :
    (p.run Grammar.statement).2.diagnostics = p.diagnostics ∧ value?.isSome = true ∧
      (p.run Grammar.statement).2.current.kind = .semicolon ∧
      (Statement.binding word name value?).Spans (p.spanTo (p.run Grammar.statement).2) := by
  obtain ⟨hquiet, hsome, semicolon, after, slice, hrest, hsemicolon, hahead, hspans⟩ :=
    (Grammar.statement_derivation p.finish p.ahead).settled.of_binding h
  refine ⟨diagnostics_run_of_quiet hquiet, hsome, ?_, ?_⟩
  · rw [current_run, hrest, Grammar.currentToken_cons, hsemicolon]
  · rwa [spanTo_run_eq Grammar.paced_statement hahead hrest]

/-- A statement that keeps its value is read without a report or blocked by a parenthesis. -/
theorem upcoming_run_statement_of_ne
    (hvalue : (∃ word value, (p.run Grammar.statement).1 = some (.returning word (some value))) ∨
      ∃ token expr, (p.run Grammar.statement).1 = some (.expression token expr))
    (hreport : (p.run Grammar.statement).2.diagnostics ≠ p.diagnostics) :
    (p.run Grammar.statement).2.upcoming.kind = .leftParen := by
  rcases (Grammar.statement_derivation p.finish p.ahead).settled.quiet_or_blocked hvalue with
    hquiet | hparen
  · exact absurd (diagnostics_run_of_quiet hquiet) hreport
  · rwa [upcoming_run]

/-- Reading a statement in any state makes one report at most. No statement, or a return that loses
its value, leaves the latest report at a token that was gone over or comes next. A binding is read
without a report, to its semicolon. Behind a value that is kept, a report takes a parenthesis. -/
theorem statement_reports_at_most_one (p : Parser) :
    let (s?, p') := p.run Grammar.statement
    p.ReportsAtMostOne p' ∧
      (s? = none ∨ ((∃ word, s? = some (.returning word none)) ∧
          p.upcoming.kind ∉ [.semicolon, .endOfInput]) →
        ∃ t ∈ p.spanTo p' ++ [p'.upcoming], p'.latestPlace? = some t.location) ∧
      (∀ word name value?, s? = some (.binding word name value?) →
        p'.diagnostics = p.diagnostics ∧ value?.isSome = true ∧ p'.current.kind = .semicolon ∧
          (Statement.binding word name value?).Spans (p.spanTo p')) ∧
      ((∃ word value, s? = some (.returning word (some value))) ∨
          (∃ token expr, s? = some (.expression token expr)) →
        p'.diagnostics ≠ p.diagnostics → p'.upcoming.kind = .leftParen) := by
  have hd := Grammar.statement_derivation p.finish p.ahead
  obtain ⟨untaken, _, _, hblames⟩ := hd.singled
  refine ⟨reportsAtMostOne_run_of_blames hblames, fun hvalue => ?_, ?_, fun hvalue hreport => ?_⟩
  · exact exists_blamed (hd.settled.not_quiet hvalue)
  · intro word name value? hvalue
    exact run_statement_of_binding hvalue
  · exact upcoming_run_statement_of_ne hvalue hreport

/-- The value of the return fails at the parenthesis, and the parser has stepped on to the semicolon
behind that. -/
theorem statement_reports_at_most_one_of_lost :
    let p := Parser.ofSource (.ofText "lost" "return 1 + );")
    let (s?, p') := p.run Grammar.statement
    s? = some (.returning ⟨.returnWord, "return", ⟨1, 1⟩⟩ none) ∧
      p.upcoming.kind ∉ [.semicolon, .endOfInput] ∧ p'.current.kind = .semicolon ∧
      p'.diagnostics = [⟨.cannotStart .rightParen, ⟨1, 12⟩⟩] ∧
      ∃ t ∈ p.spanTo p' ++ [p'.upcoming], p'.latestPlace? = some t.location := by
  intro p
  have hvalue : (p.run Grammar.statement).1 =
      some (.returning ⟨.returnWord, "return", ⟨1, 1⟩⟩ none) := by decide +kernel
  have hnext : p.upcoming.kind ∉ [.semicolon, .endOfInput] := by decide +kernel
  exact ⟨hvalue, hnext, by decide +kernel, by decide +kernel,
    (statement_reports_at_most_one p).2.1 (.inr ⟨⟨_, hvalue⟩, hnext⟩)⟩

end Parser

end LetLang
