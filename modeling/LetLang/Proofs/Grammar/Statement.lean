import LetLang.Grammar.Statement
import LetLang.Proofs.Grammar.Derivation

/-! Readings of statements as derivations. There is no recursion here; the constructors are the
ways in which a statement succeeds, or fails and leaves the rules at some token. -/
namespace LetLang.Grammar

variable {finish : Location} {ahead : List Token}

theorem expect_of_eq {kind : Kind} {next : Token} (last : Token) (ahead : List Token)
    (h : next.kind = kind) :
    expect kind finish (last :: next :: ahead) = ⟨some next, next :: ahead, [.pull]⟩ := by
  rw [expect, upcoming_bind, upcomingToken_cons_cons, if_pos h]
  rfl

theorem expect_of_ne {kind : Kind} (h : (upcomingToken finish ahead).kind ≠ kind) :
    expect kind finish ahead =
      ⟨none, ahead, [.fault ⟨.unexpected kind (upcomingToken finish ahead).kind,
        (upcomingToken finish ahead).location⟩]⟩ := by
  rw [expect, upcoming_bind, if_neg h]
  rfl

/-- What an optional semicolon behind the current token comes to. -/
inductive SemicolonSkip (finish : Location) : List Token → List Token → List Action → Prop
  | taken {last semicolon : Token} {ahead : List Token}
      (hsemicolon : semicolon.kind = .semicolon) :
      SemicolonSkip finish (last :: semicolon :: ahead) (semicolon :: ahead) [.pull]
  | absent {ahead : List Token}
      (hsemicolon : (upcomingToken finish ahead).kind ≠ .semicolon) :
      SemicolonSkip finish ahead ahead []

theorem SemicolonSkip.run_eq {rest : List Token} {skipped : List Action}
    (h : SemicolonSkip finish ahead rest skipped) :
    skipSemicolon finish ahead = ⟨some (), rest, skipped⟩ := by
  cases h with
  | taken hsemicolon =>
    rw [skipSemicolon, upcoming_bind, upcomingToken_cons_cons, if_pos hsemicolon]
    rfl
  | absent hsemicolon =>
    rw [skipSemicolon, upcoming_bind, if_neg hsemicolon]
    rfl

theorem exists_semicolonSkip (finish : Location) (ahead : List Token) :
    ∃ rest skipped, SemicolonSkip finish ahead rest skipped := by
  by_cases h : (upcomingToken finish ahead).kind = .semicolon
  · match ahead with
    | [] | [_] => exact absurd h (by simp [upcomingToken, Token.finish])
    | last :: semicolon :: ahead => exact ⟨_, _, .taken h⟩
  · exact ⟨_, _, .absent h⟩

inductive StatementDerivation (finish : Location) : List Token → Reading Statement → Prop
  | nameMissing {word : Token} {ahead : List Token} (hword : word.kind = .letWord)
      (hname : (currentToken finish ahead).kind ≠ .identifier) :
      StatementDerivation finish (word :: ahead)
        ⟨none, word :: ahead, [.fault ⟨.unexpected .identifier (currentToken finish ahead).kind,
          (currentToken finish ahead).location⟩]⟩
  | assignMissing {word name : Token} {ahead : List Token} (hword : word.kind = .letWord)
      (hname : name.kind = .identifier) (hassign : (currentToken finish ahead).kind ≠ .assign) :
      StatementDerivation finish (word :: name :: ahead)
        ⟨none, name :: ahead, [.pull, .fault ⟨.unexpected .assign (currentToken finish ahead).kind,
          (currentToken finish ahead).location⟩]⟩
  | valueFailed {word name assign : Token} {ahead rest rest' : List Token}
      {trail skipped : List Action} (hword : word.kind = .letWord)
      (hname : name.kind = .identifier) (hassign : assign.kind = .assign)
      (hvalue : Derivation finish .start .lowest ahead ⟨none, rest, trail⟩)
      (hskip : SemicolonSkip finish rest rest' skipped) :
      StatementDerivation finish (word :: name :: assign :: ahead)
        ⟨none, rest', .pull :: .pull :: .pull :: (trail ++ skipped)⟩
  | semicolonMissing {word name assign : Token} {ahead rest : List Token} {trail : List Action}
      {value : Expr} (hword : word.kind = .letWord) (hname : name.kind = .identifier)
      (hassign : assign.kind = .assign)
      (hvalue : Derivation finish .start .lowest ahead ⟨some value, rest, trail⟩)
      (hsemicolon : (upcomingToken finish rest).kind ≠ .semicolon) :
      StatementDerivation finish (word :: name :: assign :: ahead)
        ⟨none, rest, .pull :: .pull :: .pull ::
          (trail ++ [.fault ⟨.unexpected .semicolon (upcomingToken finish rest).kind,
            (upcomingToken finish rest).location⟩])⟩
  | binding {word name assign last semicolon : Token} {ahead rest : List Token}
      {trail : List Action} {value : Expr} (hword : word.kind = .letWord)
      (hname : name.kind = .identifier) (hassign : assign.kind = .assign)
      (hvalue : Derivation finish .start .lowest ahead
        ⟨some value, last :: semicolon :: rest, trail⟩)
      (hsemicolon : semicolon.kind = .semicolon) :
      StatementDerivation finish (word :: name :: assign :: ahead)
        ⟨some (.binding word (.ofToken name) (some value)), semicolon :: rest,
          .pull :: .pull :: .pull :: (trail ++ [.pull])⟩
  | returningNothing {word : Token} {ahead rest : List Token} {skipped : List Action}
      (hword : word.kind = .returnWord)
      (hnext : (currentToken finish ahead).kind = .semicolon ∨
        (currentToken finish ahead).kind = .endOfInput)
      (hskip : SemicolonSkip finish (word :: ahead) rest skipped) :
      StatementDerivation finish (word :: ahead) ⟨some (.returning word none), rest, skipped⟩
  | returning {word : Token} {ahead rest rest' : List Token} {trail skipped : List Action}
      {value? : Option Expr} (hword : word.kind = .returnWord)
      (hnext : ¬ ((currentToken finish ahead).kind = .semicolon ∨
        (currentToken finish ahead).kind = .endOfInput))
      (hvalue : Derivation finish .start .lowest ahead ⟨value?, rest, trail⟩)
      (hskip : SemicolonSkip finish rest rest' skipped) :
      StatementDerivation finish (word :: ahead)
        ⟨some (.returning word value?), rest', .pull :: (trail ++ skipped)⟩
  | bare {ahead rest rest' : List Token} {trail skipped : List Action} {expr? : Option Expr}
      (hlet : (currentToken finish ahead).kind ≠ .letWord)
      (hreturn : (currentToken finish ahead).kind ≠ .returnWord)
      (hexpr : Derivation finish .start .lowest ahead ⟨expr?, rest, trail⟩)
      (hskip : SemicolonSkip finish rest rest' skipped) :
      StatementDerivation finish ahead
        ⟨expr?.map (.expression (currentToken finish ahead)), rest', trail ++ skipped⟩

theorem optional_bind_of_eq {α β : Type} {rule : Rule α} {k : Option α → Rule β}
    {ahead rest : List Token} {value? : Option α} {trail : List Action}
    (h : rule finish ahead = ⟨value?, rest, trail⟩) :
    (optional rule >>= k) finish ahead =
      ⟨(k value? finish rest).value?, (k value? finish rest).rest,
        trail ++ (k value? finish rest).trail⟩ := by
  rw [bind_of_some (by rw [optional, h])]

theorem statement_of_letWord {word : Token} (ahead : List Token) (h : word.kind = .letWord) :
    statement finish (word :: ahead) = binding finish (word :: ahead) := by
  rw [statement, current_bind, currentToken_cons, h]

theorem statement_of_returnWord {word : Token} (ahead : List Token) (h : word.kind = .returnWord) :
    statement finish (word :: ahead) = returning finish (word :: ahead) := by
  rw [statement, current_bind, currentToken_cons, h]

theorem statement_of_ne (hlet : (currentToken finish ahead).kind ≠ .letWord)
    (hreturn : (currentToken finish ahead).kind ≠ .returnWord) :
    statement finish ahead = bare finish ahead := by
  rw [statement, current_bind]
  refine congrFun (congrFun ?_ finish) ahead
  split
  · contradiction
  · contradiction
  · rfl

/-- A binding is like its value, once its name and the sign behind that are there. -/
theorem binding_apply {word name assign : Token} (ahead : List Token)
    (hname : name.kind = .identifier) (hassign : assign.kind = .assign) :
    binding finish (word :: name :: assign :: ahead) =
      let r := (optional (expression .lowest) >>= fun value? => match value? with
        | none => skipSemicolon >>= fun _ => abandon
        | some value => expect .semicolon >>= fun _ =>
          pure (.binding word (.ofToken name) (some value))) finish ahead
      ⟨r.value?, r.rest, .pull :: .pull :: .pull :: r.trail⟩ := by
  rw [binding, current_bind, bind_of_some (expect_of_eq _ _ hname),
    bind_of_some (expect_of_eq _ _ hassign), advance_bind]
  rfl

/-- A derivation says what the rule computes. -/
theorem StatementDerivation.run_eq {r : Reading Statement}
    (h : StatementDerivation finish ahead r) : statement finish ahead = r := by
  cases h with
  | nameMissing hword hname =>
    rw [statement_of_letWord _ hword, Grammar.binding, current_bind]
    exact bind_of_none (expect_of_ne hname)
  | @assignMissing word name ahead hword hname hassign =>
    have hassign : (upcomingToken finish (name :: ahead)).kind ≠ .assign := hassign
    rw [statement_of_letWord _ hword, Grammar.binding, current_bind,
      bind_of_some (expect_of_eq _ _ hname), bind_of_none (expect_of_ne hassign)]
    rfl
  | valueFailed hword hname hassign hvalue hskip =>
    rw [statement_of_letWord _ hword, binding_apply _ hname hassign,
      optional_bind_of_eq hvalue.run_eq]
    simp only [bind_of_some hskip.run_eq, abandon, List.append_nil]
  | semicolonMissing hword hname hassign hvalue hsemicolon =>
    rw [statement_of_letWord _ hword, binding_apply _ hname hassign,
      optional_bind_of_eq hvalue.run_eq]
    simp only [bind_of_none (expect_of_ne hsemicolon)]
  | binding hword hname hassign hvalue hsemicolon =>
    rw [statement_of_letWord _ hword, binding_apply _ hname hassign,
      optional_bind_of_eq hvalue.run_eq]
    simp only [bind_of_some (expect_of_eq _ _ hsemicolon), Rule.pure_apply, List.append_nil]
  | returningNothing hword hnext hskip =>
    rw [statement_of_returnWord _ hword, Grammar.returning, current_bind, upcoming_bind,
      upcomingToken_cons, if_pos hnext, bind_of_some hskip.run_eq, Rule.pure_apply]
    simp
  | returning hword hnext hvalue hskip =>
    rw [statement_of_returnWord _ hword, Grammar.returning, current_bind, upcoming_bind,
      upcomingToken_cons, if_neg hnext, advance_bind, List.tail_cons,
      optional_bind_of_eq hvalue.run_eq, bind_of_some hskip.run_eq]
    simp [Rule.pure_apply]
  | @bare ahead rest rest' trail skipped expr? hlet hreturn hexpr hskip =>
    rw [statement_of_ne hlet hreturn, Grammar.bare, current_bind,
      optional_bind_of_eq hexpr.run_eq, bind_of_some hskip.run_eq]
    cases expr? <;> simp [Rule.pure_apply, abandon]

theorem eq_cons_of_kind {kind : Kind} (h : (currentToken finish ahead).kind = kind)
    (hkind : kind ≠ .endOfInput) : ∃ t after, ahead = t :: after := by
  cases ahead with
  | nil => exact absurd h.symm hkind
  | cons t after => exact ⟨t, after, rfl⟩

theorem exists_binding_derivation {word : Token} (finish : Location) (ahead : List Token)
    (hword : word.kind = .letWord) : ∃ r, StatementDerivation finish (word :: ahead) r := by
  by_cases hname : (currentToken finish ahead).kind = .identifier
  case neg => exact ⟨_, .nameMissing hword hname⟩
  obtain ⟨name, ahead, rfl⟩ := eq_cons_of_kind hname (by decide)
  by_cases hassign : (currentToken finish ahead).kind = .assign
  case neg => exact ⟨_, .assignMissing hword hname hassign⟩
  obtain ⟨assign, ahead, rfl⟩ := eq_cons_of_kind hassign (by decide)
  have hvalue := derivation_expression finish .lowest ahead
  rcases h : expression .lowest finish ahead with ⟨_ | value, rest, trail⟩ <;> rw [h] at hvalue
  · obtain ⟨_, _, hskip⟩ := exists_semicolonSkip finish rest
    exact ⟨_, .valueFailed hword hname hassign hvalue hskip⟩
  · by_cases hsemicolon : (upcomingToken finish rest).kind = .semicolon
    · match rest with
      | [] | [_] => exact absurd hsemicolon (by simp [upcomingToken, Token.finish])
      | last :: semicolon :: rest =>
        exact ⟨_, .binding hword hname hassign hvalue hsemicolon⟩
    · exact ⟨_, .semicolonMissing hword hname hassign hvalue hsemicolon⟩

theorem exists_returning_derivation {word : Token} (finish : Location) (ahead : List Token)
    (hword : word.kind = .returnWord) : ∃ r, StatementDerivation finish (word :: ahead) r := by
  by_cases hnext : (currentToken finish ahead).kind = .semicolon ∨
      (currentToken finish ahead).kind = .endOfInput
  · obtain ⟨_, _, hskip⟩ := exists_semicolonSkip finish (word :: ahead)
    exact ⟨_, .returningNothing hword hnext hskip⟩
  · obtain ⟨_, _, hskip⟩ := exists_semicolonSkip finish (expression .lowest finish ahead).rest
    exact ⟨_, .returning hword hnext (derivation_expression finish .lowest ahead) hskip⟩

theorem exists_statementDerivation (finish : Location) (ahead : List Token) :
    ∃ r, StatementDerivation finish ahead r := by
  by_cases hlet : (currentToken finish ahead).kind = .letWord
  · obtain ⟨word, ahead, rfl⟩ := eq_cons_of_kind hlet (by decide)
    exact exists_binding_derivation finish ahead hlet
  by_cases hreturn : (currentToken finish ahead).kind = .returnWord
  · obtain ⟨word, ahead, rfl⟩ := eq_cons_of_kind hreturn (by decide)
    exact exists_returning_derivation finish ahead hreturn
  obtain ⟨_, _, hskip⟩ := exists_semicolonSkip finish (expression .lowest finish ahead).rest
  exact ⟨_, .bare hlet hreturn (derivation_expression finish .lowest ahead) hskip⟩

/-- What the rule computes has a derivation. -/
theorem statement_derivation (finish : Location) (ahead : List Token) :
    StatementDerivation finish ahead (statement finish ahead) := by
  obtain ⟨r, h⟩ := exists_statementDerivation finish ahead
  rw [h.run_eq]
  exact h

end LetLang.Grammar
