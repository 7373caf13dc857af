import LetLang.Proofs.Grammar.Program
import LetLang.Proofs.Grammar.Relocation

/-! Reading what was written. The tokens of well-formed statements, each with a semicolon behind
it, are read as these statements, and nothing is found wrong. -/
namespace LetLang.Grammar

variable {finish : Location}

theorem not_lt_precedence_semicolonSign (finish : Location) (after : List Token) :
    ¬ .lowest < (currentToken finish (.semicolonSign :: after)).kind.precedence := by
  rw [currentToken_cons]
  decide

theorem kind_semicolonSign : Token.semicolonSign.kind = .semicolon := rfl

theorem exists_derivation_binding {word : Token} {name : Identifier} {value : Expr}
    (hword : word.kind = .letWord) (hname : (Expr.name name).Genuine) (hvalue : value.WellFormed)
    (after : List Token) :
    ∃ n, StatementDerivation finish
      (word :: name.token :: .assignSign :: (value.tokens ++ .semicolonSign :: after))
      ⟨some (.binding word name (some value)), .semicolonSign :: after,
        List.replicate n .pull⟩ := by
  have hassign : Token.assignSign.kind = .assign := rfl
  have hidentifier : name = .ofToken name.token := by
    rw [Identifier.ofToken, ← hname.2]
  obtain ⟨n, hd⟩ := expression_tokens (.semicolonSign :: after) hvalue
    (not_lt_precedence_semicolonSign finish after)
  have h := StatementDerivation.binding hword hname.1 hassign hd kind_semicolonSign
  rw [← hidentifier] at h
  refine ⟨n + 1 + 3, ?_⟩
  rwa [List.replicate_succ, List.replicate_succ, List.replicate_succ, List.replicate_succ']

theorem exists_derivation_returning {word : Token} {value : Expr}
    (hword : word.kind = .returnWord) (hvalue : value.WellFormed) (after : List Token) :
    ∃ n, StatementDerivation finish (word :: (value.tokens ++ .semicolonSign :: after))
      ⟨some (.returning word (some value)), .semicolonSign :: after,
        List.replicate n .pull⟩ := by
  obtain ⟨n, hd⟩ := expression_tokens (.semicolonSign :: after) hvalue
    (not_lt_precedence_semicolonSign finish after)
  obtain ⟨t, ts, htokens, hlead⟩ := hvalue.exists_tokens_eq_cons
  have hcurrent : currentToken finish (value.tokens ++ .semicolonSign :: after) = t := by
    rw [htokens, List.cons_append, currentToken_cons]
  have hnext : ¬ (t.kind = .semicolon ∨ t.kind = .endOfInput) := by
    intro hends
    cases hends with
    | inl hkind => exact Kind.ne_of_lead? hlead rfl hkind
    | inr hkind => exact Kind.ne_of_lead? hlead rfl hkind
  rw [← hcurrent] at hnext
  have h := StatementDerivation.returning hword hnext hd (.taken kind_semicolonSign)
  refine ⟨n + 1 + 1, ?_⟩
  rwa [List.replicate_succ, List.replicate_succ']

theorem exists_derivation_expression {token : Token} {expr : Expr}
    (htoken : expr.tokens.head? = some token) (hexpr : expr.WellFormed) (after : List Token) :
    ∃ n, StatementDerivation finish (expr.tokens ++ .semicolonSign :: after)
      ⟨some (.expression token expr), .semicolonSign :: after, List.replicate n .pull⟩ := by
  obtain ⟨n, hd⟩ := expression_tokens (.semicolonSign :: after) hexpr
    (not_lt_precedence_semicolonSign finish after)
  obtain ⟨t, ts, htokens, hlead⟩ := hexpr.exists_tokens_eq_cons
  have hcurrent : currentToken finish (expr.tokens ++ .semicolonSign :: after) = t := by
    rw [htokens, List.cons_append, currentToken_cons]
  have hfirst : t = token := by
    rw [htokens] at htoken
    exact Option.some.inj htoken
  have hlet : t.kind ≠ .letWord := Kind.ne_of_lead? hlead rfl
  have hreturn : t.kind ≠ .returnWord := Kind.ne_of_lead? hlead rfl
  rw [← hcurrent] at hlet hreturn
  have h := StatementDerivation.bare hlet hreturn hd (.taken kind_semicolonSign)
  rw [hcurrent, hfirst] at h
  refine ⟨n + 1, ?_⟩
  rwa [List.replicate_succ']

/-- The tokens of a statement are read as that statement, up to its semicolon. -/
theorem exists_derivation_written {s : Statement} (h : s.WellFormed) (after : List Token) :
    ∃ n, StatementDerivation finish (s.written ++ .semicolonSign :: after)
      ⟨some s, .semicolonSign :: after, List.replicate n .pull⟩ := by
  cases s with
  | binding token name value? =>
    obtain ⟨htoken, hname, value, rfl, hvalue⟩ := h
    exact exists_derivation_binding htoken hname hvalue after
  | returning token value? =>
    cases value? with
    | none =>
      have hskip : SemicolonSkip finish (token :: .semicolonSign :: after) _ _ :=
        .taken kind_semicolonSign
      exact ⟨1, .returningNothing h.1 (.inl kind_semicolonSign) hskip⟩
    | some value => exact exists_derivation_returning h.1 (h.2 value rfl) after
  | expression token expr => exact exists_derivation_expression h.1 h.2 after

theorem statements_written (finish : Location) {all : List Statement}
    (h : ∀ s ∈ all, s.WellFormed) :
    (statements finish (all.flatMap fun s => s.written ++ [Token.semicolonSign])).1 = all ∧
      Quiet (statements finish (all.flatMap fun s => s.written ++ [Token.semicolonSign])).2 := by
  induction all with
  | nil =>
    rw [List.flatMap_nil, statements]
    exact ⟨rfl, quiet_nil⟩
  | cons s all ih =>
    obtain ⟨hall, hquiet⟩ := ih fun s' hs => h s' (List.mem_cons_of_mem s hs)
    rw [List.flatMap_cons, List.append_assoc, List.singleton_append]
    obtain ⟨n, hd⟩ := exists_derivation_written (h s List.mem_cons_self)
      (all.flatMap fun s => s.written ++ [Token.semicolonSign])
    rw [statements_of_derivation hd (by simp)]
    refine ⟨?_, ?_⟩
    · rw [List.tail_cons, hall]
      rfl
    · rw [List.tail_cons, quiet_append, quiet_pull_cons]
      exact ⟨quiet_replicate_pull n, hquiet⟩

theorem quiet_map_relocate {f : Location → Location} {trail : List Action} :
    Quiet (trail.map (Action.relocate f)) ↔ Quiet trail := by
  induction trail with
  | nil => simp
  | cons a trail ih => cases a <;> simp [ih]

end LetLang.Grammar
