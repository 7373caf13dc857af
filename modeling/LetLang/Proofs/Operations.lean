import LetLang.Proofs.Grammar.Pace
import LetLang.Proofs.Parser
import LetLang.Proofs.Scanner.Tokens
import Mathlib.Data.List.Chain

/-! Free use of a parser. Its operations may come in any order and with any arguments, also where
no statement would use them, and it still sees two tokens in a row and reports no place twice in
a row. -/
namespace LetLang

open Grammar (Action Rule pulls)

namespace Grammar.Action

theorem suffix_record (reported : List Diagnostic) (a : Action) :
    reported <:+ a.record reported := by
  cases a with
  | pull => exact List.suffix_refl _
  | fault d =>
    rw [record]
    split
    · exact List.suffix_refl _
    · exact List.suffix_cons _ _

theorem suffix_foldl_record (trail : List Action) (reported : List Diagnostic) :
    reported <:+ trail.foldl record reported := by
  induction trail generalizing reported with
  | nil => exact List.suffix_refl _
  | cons a trail ih => exact (suffix_record reported a).trans (ih _)

end Grammar.Action

/-- Two reports in a row are for two places. -/
def Apart (reported : List Diagnostic) : Prop :=
  reported.IsChain fun d d' => d.location ≠ d'.location

theorem Apart.record {reported : List Diagnostic} (h : Apart reported) (a : Action) :
    Apart (Action.record reported a) := by
  cases a with
  | pull => exact h
  | fault d =>
    rw [Action.record]
    split
    · exact h
    · next hne =>
      refine List.IsChain.cons h fun latest hlatest hsame => hne ?_
      rw [Option.mem_def.1 hlatest, Option.map_some, hsame]

theorem Apart.foldl_record {reported : List Diagnostic} (h : Apart reported)
    (trail : List Action) : Apart (trail.foldl Action.record reported) := by
  induction trail generalizing reported with
  | nil => exact h
  | cons a trail ih => exact ih (h.record a)

theorem Apart.reverse {reported : List Diagnostic} (h : Apart reported) :
    Apart reported.reverse :=
  List.isChain_reverse.2 (h.imp fun _ _ hne => hne.symm)

namespace Parser

/-- How many tokens the parser has left behind. The last two that it took are those it sees. -/
def position (p : Parser) : Nat := p.history.count .pull - 2

/-- What can be done with a parser from outside. -/
inductive Operation where
  | advance
  | expect (kind : Kind)
  | report (d : Diagnostic)
  | program
  | statement
  | binding
  | returning
  | bare
  | expression (bound : Precedence)
  | name
  | numeral
  | signed
  | joined (left : Expr)
deriving DecidableEq, Repr

def perform (p : Parser) : Operation → Parser
  | .advance => p.advance
  | .expect kind => (p.expect kind).2
  | .report d => p.report d
  | .program => p.program.2
  | .statement => (p.run Grammar.statement).2
  | .binding => (p.run Grammar.binding).2
  | .returning => (p.run Grammar.returning).2
  | .bare => (p.run Grammar.bare).2
  | .expression bound => (p.run (Grammar.expression bound)).2
  | .name => (p.run Grammar.name).2
  | .numeral => (p.run Grammar.numeral).2
  | .signed => (p.run Grammar.signed).2
  | .joined left => (p.run (Grammar.joined left)).2

/-- A parser of a source on which the operations have been performed, one after the other. -/
def after (source : Source) (operations : List Operation) : Parser :=
  operations.foldl perform (ofSource source)

theorem report_eq_run (p : Parser) (d : Diagnostic) :
    p.report d = (p.run (Grammar.report d.fault d.location)).2 := by
  change p.report d = { p.report d with ahead := p.ahead }
  unfold report
  split <;> rfl

/-- Every operation lets the parser run some rule, and all these rules keep the pace. -/
theorem exists_perform_eq (operation : Operation) :
    ∃ (α : Type) (rule : Rule α), rule.Paced 1 ∧ ∀ p, perform p operation = (p.run rule).2 := by
  cases operation with
  | advance => exact ⟨_, _, Grammar.paced_advance, fun p => rfl⟩
  | expect kind => exact ⟨_, _, Grammar.paced_expect kind, fun p => rfl⟩
  | report d =>
    have hpaced : (Grammar.report d.fault d.location).Paced 0 :=
      fun _ ahead => Grammar.paced_fault ahead d
    exact ⟨_, _, hpaced.mono, fun p => p.report_eq_run d⟩
  | program => exact ⟨_, _, Grammar.paced_program, fun p => rfl⟩
  | statement => exact ⟨_, _, Grammar.paced_statement.mono, fun p => rfl⟩
  | binding => exact ⟨_, _, Grammar.paced_binding.mono, fun p => rfl⟩
  | returning => exact ⟨_, _, Grammar.paced_returning.mono, fun p => rfl⟩
  | bare => exact ⟨_, _, Grammar.paced_bare.mono, fun p => rfl⟩
  | expression bound => exact ⟨_, _, (Grammar.paced_expression bound).mono, fun p => rfl⟩
  | name => exact ⟨_, _, Grammar.paced_name.mono, fun p => rfl⟩
  | numeral => exact ⟨_, _, Grammar.paced_numeral.mono, fun p => rfl⟩
  | signed => exact ⟨_, _, Grammar.paced_signed, fun p => rfl⟩
  | joined left => exact ⟨_, _, Grammar.paced_joined left, fun p => rfl⟩

theorem source_note (p : Parser) (a : Action) : (p.note a).source = p.source := by
  cases a with
  | pull => rfl
  | fault d =>
    rw [note, report]
    split <;> rfl

theorem finish_note (p : Parser) (a : Action) : (p.note a).finish = p.finish := by
  cases a with
  | pull => rfl
  | fault d =>
    rw [note, report]
    split <;> rfl

theorem source_foldl_note (p : Parser) (trail : List Action) :
    (trail.foldl note p).source = p.source := by
  induction trail generalizing p with
  | nil => rfl
  | cons a trail ih => rw [List.foldl_cons, ih, source_note]

theorem finish_foldl_note (p : Parser) (trail : List Action) :
    (trail.foldl note p).finish = p.finish := by
  induction trail generalizing p with
  | nil => rfl
  | cons a trail ih => rw [List.foldl_cons, ih, finish_note]

theorem count_history_foldl_note (p : Parser) (trail : List Action) :
    (trail.foldl note p).history.count .pull = p.history.count .pull + pulls trail := by
  induction trail generalizing p with
  | nil => rfl
  | cons a trail ih =>
    rw [List.foldl_cons, ih]
    cases a with
    | pull =>
      rw [note, List.count_cons_self, Grammar.pulls_pull_cons]
      omega
    | fault d =>
      rw [note, report, Grammar.pulls_fault_cons]
      split
      · rw [List.count_cons_of_ne (by simp)]
      · rw [List.count_cons_of_ne (by simp)]

/-- The parser stands in the text of its source as far down as its position says. -/
structure Sound (source : Source) (p : Parser) : Prop where
  finish_eq : p.finish = (Scanner.ofSource source).finish
  ahead_eq : p.ahead = (Scanner.ofSource source).tokens.drop p.position
  two_le : 2 ≤ p.history.count .pull
  apart : Apart p.reported

theorem sound_ofSource (source : Source) : (ofSource source).Sound source :=
  ⟨rfl, rfl, Nat.le_refl 2, List.IsChain.nil⟩

/-- What an operation does to a parser: it moves on, by one token if that takes it behind the
end of the text, and reports go behind those that are there. -/
structure Proceeds (source : Source) (p p' : Parser) : Prop where
  position_le : p.position ≤ p'.position
  position_le_max : p'.position ≤ max (p.position + 1) (tokenize source).length
  diagnostics_isPrefix : p.diagnostics <+: p'.diagnostics

section
variable {source : Source} {p : Parser}

theorem Sound.current_eq (h : p.Sound source) : p.current = tokenAt source p.position := by
  rw [current, h.ahead_eq, h.finish_eq, headD_drop_tokens]

theorem Sound.upcoming_eq (h : p.Sound source) :
    p.upcoming = tokenAt source (p.position + 1) := by
  rw [upcoming, h.ahead_eq, h.finish_eq, List.tail_drop, headD_drop_tokens]

theorem Sound.position_run {α : Type} (h : p.Sound source) (rule : Rule α) :
    (p.run rule).2.position = p.position + pulls (rule p.finish p.ahead).trail := by
  have hcount := count_history_foldl_note p (rule p.finish p.ahead).trail
  have htwo := h.two_le
  change ((rule p.finish p.ahead).trail.foldl note p).history.count .pull - 2 = _
  rw [hcount, position]
  omega

theorem reported_run {α : Type} (p : Parser) (rule : Rule α) :
    (p.run rule).2.reported = (rule p.finish p.ahead).trail.foldl Action.record p.reported :=
  p.reported_foldl_note _

theorem Sound.run {α : Type} {rule : Rule α} (h : p.Sound source) (hrule : rule.Paced 1) :
    (p.run rule).2.Sound source where
  finish_eq := (p.finish_foldl_note _).trans h.finish_eq
  ahead_eq := by
    have hrest := (hrule p.finish p.ahead).rest_eq
    rw [h.position_run, ← List.drop_drop, ← h.ahead_eq]
    exact hrest
  two_le := by
    have hcount := count_history_foldl_note p (rule p.finish p.ahead).trail
    have htwo := h.two_le
    change 2 ≤ ((rule p.finish p.ahead).trail.foldl note p).history.count .pull
    omega
  apart := by
    rw [reported_run]
    exact h.apart.foldl_record _

theorem Sound.proceeds_run {α : Type} {rule : Rule α} (h : p.Sound source)
    (hrule : rule.Paced 1) : p.Proceeds source (p.run rule).2 where
  position_le := by
    rw [h.position_run]
    exact Nat.le_add_right _ _
  position_le_max := by
    have hpulls := (hrule p.finish p.ahead).pulls_le
    have hlength := congrArg List.length h.ahead_eq
    have htokens := length_tokenize source
    rw [List.length_drop] at hlength
    rw [h.position_run]
    omega
  diagnostics_isPrefix := by
    rw [diagnostics, diagnostics, reported_run]
    exact List.reverse_prefix.2 (Action.suffix_foldl_record _ _)

theorem Sound.perform (h : p.Sound source) (operation : Operation) :
    (p.perform operation).Sound source ∧ p.Proceeds source (p.perform operation) := by
  obtain ⟨α, rule, hrule, hperform⟩ := exists_perform_eq operation
  rw [hperform]
  exact ⟨h.run hrule, h.proceeds_run hrule⟩

theorem sound_after (source : Source) (operations : List Operation) :
    (after source operations).Sound source := by
  induction operations using List.reverseRecOn with
  | nil => exact sound_ofSource source
  | append_singleton operations operation ih =>
    rw [after, List.foldl_append]
    exact (ih.perform operation).1

/-- Expecting a token is a step to it, or a report about another one. -/
theorem expect_cases (p : Parser) (kind : Kind) :
    p.expect kind = (true, p.advance) ∨
      p.expect kind =
        (false, p.report ⟨.unexpected kind p.upcoming.kind, p.upcoming.location⟩) := by
  by_cases h : p.upcoming.kind = kind
  · have hr : Grammar.expect kind p.finish p.ahead = ⟨some p.upcoming, p.ahead.tail, [.pull]⟩ :=
      (Grammar.expect_apply kind p.finish p.ahead).trans (if_pos h)
    left
    rw [expect, Parser.run, hr]
    rfl
  · have hr : Grammar.expect kind p.finish p.ahead = ⟨none, p.ahead,
        [.fault ⟨.unexpected kind p.upcoming.kind, p.upcoming.location⟩]⟩ :=
      (Grammar.expect_apply kind p.finish p.ahead).trans (if_neg h)
    right
    rw [report_eq_run, expect, Parser.run, hr]
    rfl

theorem Sound.position_advance (h : p.Sound source) : p.advance.position = p.position + 1 :=
  h.position_run Grammar.advance

theorem Sound.position_report (h : p.Sound source) (d : Diagnostic) :
    (p.report d).position = p.position := by
  rw [report_eq_run, h.position_run]
  rfl

end

/-- However a parser is used, it sees a token of its source and the next one. An operation moves it
no way but down, and behind the end by one token at most; it keeps the reports, no two of which
in a row are for one place. Expecting a kind is a step of one token without a report, or none. -/
theorem operations_keep_step (source : Source) (operations : List Operation) :
    let p := after source operations
    p.current = tokenAt source p.position ∧ p.upcoming = tokenAt source (p.position + 1) ∧
      p.diagnostics.IsChain (fun d d' => d.location ≠ d'.location) ∧
      (∀ operation, p.Proceeds source (p.perform operation)) ∧
      ∀ kind,
        ((p.expect kind).1 = false → (p.expect kind).2.position = p.position) ∧
        ((p.expect kind).1 = true → (p.expect kind).2.position = p.position + 1 ∧
          (p.expect kind).2.diagnostics = p.diagnostics) := by
  intro p
  have h : p.Sound source := sound_after source operations
  refine ⟨h.current_eq, h.upcoming_eq, h.apart.reverse, fun operation => (h.perform operation).2,
    fun kind => ?_⟩
  rcases p.expect_cases kind with hexpect | hexpect
  · rw [hexpect]
    exact ⟨nofun, fun _ => ⟨h.position_advance, rfl⟩⟩
  · rw [hexpect]
    exact ⟨fun _ => h.position_report _, nofun⟩

/-- A name is taken for a sign, and a report is made up for the place of the latest one. -/
theorem operations_keep_step_of_misuse :
    let p := after (.ofText "" "a + b")
      [.signed, .expect .assign, .report ⟨.cannotStart .bang, ⟨1, 6⟩⟩]
    p.diagnostics = [⟨.unexpected .assign .endOfInput, ⟨1, 6⟩⟩] ∧
      ((p.expect .semicolon).1 = false ∧ (p.expect .semicolon).2.position = p.position) ∧
      (p.expect .endOfInput).1 = true ∧ (p.expect .endOfInput).2.position = p.position + 1 := by
  intro p
  obtain ⟨_, _, _, _, hexpect⟩ := operations_keep_step (.ofText "" "a + b")
    [.signed, .expect .assign, .report ⟨.cannotStart .bang, ⟨1, 6⟩⟩]
  have hfalse : (p.expect .semicolon).1 = false := by decide +kernel
  have htrue : (p.expect .endOfInput).1 = true := by decide +kernel
  exact ⟨by decide +kernel, ⟨hfalse, (hexpect .semicolon).1 hfalse⟩, htrue,
    ((hexpect .endOfInput).2 htrue).1⟩

end Parser

end LetLang
