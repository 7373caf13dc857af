import LetLang.Proofs.Parser
import LetLang.Proofs.Scanner.Tokens
import Mathlib.Data.List.Forall2

/-! Slices of the tokens. Every statement of a program takes up a slice of the text, one behind
the other, and from a text with nothing wrong in it no token is left over. -/
namespace LetLang

/-- What may close a statement: one semicolon, or nothing. -/
inductive Closing : List Token → Prop
  | absent : Closing []
  | semicolon {semicolon : Token} (h : semicolon.kind = .semicolon) : Closing [semicolon]

namespace Statement

/-- The tokens are those that the statement was made of, from the first to the last. -/
inductive Spans : Statement → List Token → Prop
  | binding {word assign semicolon : Token} {name : Identifier} {value : Expr}
      (hword : word.kind = .letWord) (hname : name.token.kind = .identifier)
      (hassign : assign.kind = .assign) (hsemicolon : semicolon.kind = .semicolon) :
      Spans (.binding word name (some value))
        (word :: name.token :: assign :: (value.tokens ++ [semicolon]))
  | returning {word : Token} {value? : Option Expr} {closing : List Token}
      (hword : word.kind = .returnWord) (hclosing : Closing closing) :
      Spans (.returning word value?) (word :: (value?.elim [] Expr.tokens ++ closing))
  | expression {token : Token} {expr : Expr} {closing : List Token} (hclosing : Closing closing) :
      Spans (.expression token expr) (expr.tokens ++ closing)

end Statement

/-- The statements take up the slices, which stand in the text one behind the other. Any tokens may
be lost before, between and behind them. -/
inductive Sliced : List Statement → List (List Token) → List Token → Prop
  | nil (lost : List Token) : Sliced [] [] lost
  | cons {s : Statement} {slice : List Token} {all : List Statement}
      {slices : List (List Token)} {rest : List Token} (lost : List Token) (hspans : s.Spans slice)
      (hrest : Sliced all slices rest) : Sliced (s :: all) (slice :: slices) (lost ++ slice ++ rest)

namespace Sliced

variable {all front : List Statement} {slices slices' : List (List Token)} {text : List Token}

theorem lost_append (h : Sliced all slices text) (lost : List Token) :
    Sliced all slices (lost ++ text) := by
  cases h with
  | nil _ => exact .nil _
  | cons lost' hspans hrest =>
    have h := Sliced.cons (lost ++ lost') hspans hrest
    rwa [List.append_assoc lost lost', List.append_assoc lost] at h

theorem append (hfront : List.Forall₂ Statement.Spans front slices)
    (h : Sliced all slices' text) :
    Sliced (front ++ all) (slices ++ slices') (slices.flatten ++ text) := by
  induction hfront with
  | nil => exact h
  | cons hspans _ ih =>
    rw [List.flatten_cons, List.append_assoc]
    exact .cons [] hspans ih

end Sliced

namespace Grammar

variable {finish : Location} {ahead rest : List Token}

theorem SemicolonSkip.exists_closing {last : Token} {after : List Token} {skipped : List Action}
    (h : SemicolonSkip finish (last :: after) rest skipped) :
    ∃ closing, Closing closing ∧ after = closing ++ rest.tail := by
  cases h with
  | taken hsemicolon => exact ⟨_, .semicolon hsemicolon, rfl⟩
  | absent _ => exact ⟨[], .absent, rfl⟩

/-- The tokens in front of the rest are those of the statement, if there is one, and then lost
ones. Without a fault on the trail there are no lost ones. -/
def Takes (ahead rest : List Token) (value? : Option Statement) (trail : List Action) : Prop :=
  ∃ slices lost, ahead = slices.flatten ++ (lost ++ rest) ∧
    List.Forall₂ Statement.Spans value?.toList slices ∧ (Quiet trail → lost = [])

theorem takes_nothing {trail : List Action} (hrest : rest <:+ ahead) (htrail : ¬ Quiet trail) :
    Takes ahead rest none trail := by
  obtain ⟨lost, hahead⟩ := hrest
  exact ⟨[], lost, hahead.symm, .nil, fun hquiet => absurd hquiet htrail⟩

theorem takes_all {slice : List Token} {s : Statement} {trail : List Action}
    (hspans : s.Spans slice) (hahead : ahead = slice ++ rest) : Takes ahead rest (some s) trail :=
  ⟨[slice], [], by simpa using hahead, .cons hspans .nil, fun _ => rfl⟩

theorem StatementDerivation.takes {r : Reading Statement}
    (h : StatementDerivation finish ahead r) : Takes ahead r.rest.tail r.value? r.trail := by
  have hsuffix := (List.tail_suffix r.rest).trans h.rest_isSuffix
  cases h with
  | nameMissing _ _ => exact takes_nothing hsuffix (by simp)
  | assignMissing _ _ _ => exact takes_nothing hsuffix (by simp)
  | valueFailed _ _ _ hvalue _ =>
    exact takes_nothing hsuffix (by simp [hvalue.not_quiet_of_none (by decide)])
  | semicolonMissing _ _ _ _ _ => exact takes_nothing hsuffix (by simp)
  | @binding word name _ _ _ _ _ _ _ hword hname hassign hvalue hsemicolon =>
    obtain ⟨after, rfl, hrest⟩ := hvalue.exists_append_eq
    obtain ⟨_, rfl⟩ := List.cons.inj hrest
    have hname : (Identifier.ofToken name).token.kind = .identifier := hname
    exact takes_all (.binding hword hname hassign hsemicolon) (by simp [Identifier.ofToken])
  | returningNothing hword _ hskip =>
    obtain ⟨closing, hclosing, rfl⟩ := hskip.exists_closing
    exact takes_all (.returning hword hclosing) rfl
  | @returning word _ _ _ trail skipped value? hword _ hvalue hskip =>
    cases value? with
    | none =>
      -- The word alone is left of the statement, and what was read for its value is lost.
      obtain ⟨lost, rfl⟩ := (List.tail_suffix _).trans
        (hskip.rest_isSuffix.trans (hvalue.rest_isSuffix (by decide)))
      refine ⟨[[word]], lost, rfl, .cons (.returning hword .absent) .nil, fun hquiet => ?_⟩
      exact absurd (quiet_append.1 (quiet_pull_cons.1 hquiet)).1
        (hvalue.not_quiet_of_none (by decide))
    | some value =>
      obtain ⟨after, rfl, rfl⟩ := hvalue.exists_append_eq
      obtain ⟨closing, hclosing, rfl⟩ := hskip.exists_closing
      exact takes_all (.returning hword hclosing) (by simp)
  | @bare _ _ _ _ _ expr? _ _ hexpr hskip =>
    cases expr? with
    | none => exact takes_nothing hsuffix (by simp [hexpr.not_quiet_of_none (by decide)])
    | some expr =>
      obtain ⟨after, rfl, rfl⟩ := hexpr.exists_append_eq
      obtain ⟨closing, hclosing, rfl⟩ := hskip.exists_closing
      exact takes_all (.expression hclosing) (by simp)

/-- The statements of a text take up slices of it, and all of it if nothing is wrong in it. -/
theorem exists_sliced_statements (finish : Location) (ahead : List Token) :
    ∃ slices, Sliced (statements finish ahead).1 slices ahead ∧
      (Quiet (statements finish ahead).2 → slices.flatten = ahead) := by
  fun_induction statements finish ahead with
  | case1 => exact ⟨[], .nil [], fun _ => rfl⟩
  | case2 t ahead r others ih =>
    obtain ⟨slices, lost, hahead, hspans, hlost⟩ := (statement_derivation finish (t :: ahead)).takes
    obtain ⟨slices', hsliced, hall⟩ := ih
    refine ⟨slices ++ slices', ?_, fun hquiet => ?_⟩
    · rw [hahead]
      exact (hsliced.lost_append lost).append hspans
    · obtain ⟨hquiet, hothers⟩ := quiet_append.1 hquiet
      have hlost := hlost hquiet
      have hall := hall (quiet_pull_cons.1 hothers)
      subst hlost
      rw [hahead, List.flatten_append, hall, List.nil_append]

end Grammar

/-- The statements of a program take up slices of the tokens of its text, in their order. If
nothing is reported, the slices are the whole text. -/
theorem exists_sliced (source : Source) :
    ∃ slices, Sliced (parse source).1.statements slices (tokenize source).dropLast ∧
      ((parse source).2 = [] → slices.flatten = (tokenize source).dropLast) := by
  obtain ⟨slices, hsliced, hall⟩ := Grammar.exists_sliced_statements
    (Scanner.ofSource source).finish (Scanner.ofSource source).tokens
  rw [dropLast_tokenize, parse_fst, diagnostics_eq_nil_iff_quiet]
  exact ⟨slices, hsliced, hall⟩

end LetLang
