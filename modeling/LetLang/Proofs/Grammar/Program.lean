import LetLang.Proofs.Grammar.Phase
import LetLang.Proofs.Grammar.Statement

/-! Reading the statements of a program. Each statement is read from a back part of the tokens,
so what holds of all derivations of statements holds of every statement of a program. -/
namespace LetLang.Grammar

variable {finish : Location} {ahead : List Token}

theorem Derivation.rest_isSuffix {bound : Precedence} {stage : Stage} {r : Reading Expr}
    (h : Derivation finish stage bound ahead r) (hbound : bound < .call) : r.rest <:+ ahead := by
  obtain ⟨n, _, _, hrest, _⟩ := h.concludes hbound
  rw [hrest]
  exact List.drop_suffix n ahead

theorem SemicolonSkip.quiet {rest : List Token} {skipped : List Action}
    (h : SemicolonSkip finish ahead rest skipped) : Quiet skipped := by
  cases h <;> simp

theorem SemicolonSkip.rest_isSuffix {rest : List Token} {skipped : List Action}
    (h : SemicolonSkip finish ahead rest skipped) : rest <:+ ahead := by
  cases h with
  | taken _ => exact List.suffix_cons _ _
  | absent _ => exact List.suffix_refl _

theorem StatementDerivation.rest_isSuffix {r : Reading Statement}
    (h : StatementDerivation finish ahead r) : r.rest <:+ ahead := by
  have hlowest : Precedence.lowest < .call := by decide
  cases h with
  | nameMissing _ _ => exact List.suffix_refl _
  | assignMissing _ _ _ => exact List.suffix_cons _ _
  | valueFailed _ _ _ hvalue hskip =>
    exact (hskip.rest_isSuffix.trans (hvalue.rest_isSuffix hlowest)).trans
      (List.suffix_append [_, _, _] _)
  | semicolonMissing _ _ _ hvalue _ =>
    exact (hvalue.rest_isSuffix hlowest).trans (List.suffix_append [_, _, _] _)
  | binding _ _ _ hvalue _ =>
    exact ((List.suffix_cons _ _).trans (hvalue.rest_isSuffix hlowest)).trans
      (List.suffix_append [_, _, _] _)
  | returningNothing _ _ hskip => exact hskip.rest_isSuffix
  | returning _ _ hvalue hskip =>
    exact (hskip.rest_isSuffix.trans (hvalue.rest_isSuffix hlowest)).trans (List.suffix_cons _ _)
  | bare _ _ hexpr hskip => exact hskip.rest_isSuffix.trans (hexpr.rest_isSuffix hlowest)

theorem Derivation.exists_append_eq {bound : Precedence} {e : Expr} {rest : List Token}
    {trail : List Action} (h : Derivation finish .start bound ahead ⟨some e, rest, trail⟩) :
    ∃ after, ahead = e.tokens ++ after ∧ rest = e.lastToken :: after := by
  have hsplit := h.split trivial
  cases hsplit with
  | read htext _ => exact ⟨_, htext, rfl⟩

theorem Derivation.wellFormed {bound : Precedence} {e : Expr} {rest : List Token}
    {trail : List Action} (h : Derivation finish .start bound ahead ⟨some e, rest, trail⟩) :
    e.WellFormed :=
  (h.fits trivial e rfl).wellFormed

/-- Every statement that is read is well formed, whatever was found wrong with it. -/
theorem StatementDerivation.wellFormed {r : Reading Statement}
    (h : StatementDerivation finish ahead r) : ∀ s ∈ r.value?, s.WellFormed := by
  cases h with
  | nameMissing _ _ => simp
  | assignMissing _ _ _ => simp
  | valueFailed _ _ _ _ _ => simp
  | semicolonMissing _ _ _ _ _ => simp
  | binding hword hname _ hvalue _ =>
    intro s hs
    cases hs
    exact ⟨hword, ⟨hname, rfl⟩, _, rfl, hvalue.wellFormed⟩
  | returningNothing hword _ _ =>
    intro s hs
    cases hs
    exact ⟨hword, by simp⟩
  | returning hword _ hvalue _ =>
    intro s hs
    cases hs
    refine ⟨hword, ?_⟩
    rintro value rfl
    exact hvalue.wellFormed
  | @bare _ _ _ _ _ expr? _ _ hexpr _ =>
    cases expr? with
    | none => simp
    | some expr =>
      intro s hs
      cases hs
      obtain ⟨after, rfl, _⟩ := hexpr.exists_append_eq
      refine ⟨?_, hexpr.wellFormed⟩
      cases htokens : expr.tokens with
      | nil => exact absurd htokens expr.tokens_ne_nil
      | cons t ts => rfl

/-- A statement keeps no tokens but those it was read from. -/
theorem StatementDerivation.tokens_subset {r : Reading Statement}
    (h : StatementDerivation finish ahead r) : ∀ s ∈ r.value?, s.tokens ⊆ ahead := by
  cases h with
  | nameMissing _ _ => simp
  | assignMissing _ _ _ => simp
  | valueFailed _ _ _ _ _ => simp
  | semicolonMissing _ _ _ _ _ => simp
  | binding _ _ _ hvalue _ =>
    intro s hs
    cases hs
    obtain ⟨after, rfl, _⟩ := hvalue.exists_append_eq
    intro t ht
    simp only [Statement.tokens, Identifier.ofToken, Option.elim_some, List.mem_cons] at ht
    simp only [List.mem_cons, List.mem_append]
    rcases ht with h | h | h
    · exact .inl h
    · exact .inr (.inl h)
    · exact .inr (.inr (.inr (.inl h)))
  | returningNothing _ _ _ =>
    intro s hs
    cases hs
    simp [Statement.tokens]
  | @returning _ _ _ _ _ _ value? _ _ hvalue _ =>
    intro s hs
    cases hs
    cases value? with
    | none => simp [Statement.tokens]
    | some value =>
      obtain ⟨after, rfl, _⟩ := hvalue.exists_append_eq
      exact List.cons_subset_cons _ (List.subset_append_left _ _)
  | @bare _ _ _ _ _ expr? _ _ hexpr _ =>
    cases expr? with
    | none => simp
    | some expr =>
      intro s hs
      cases hs
      obtain ⟨after, rfl, _⟩ := hexpr.exists_append_eq
      exact List.subset_append_left _ _

theorem tail_rest_statement_isSuffix (finish : Location) (ahead : List Token) :
    (statement finish ahead).rest.tail <:+ ahead :=
  (List.tail_suffix _).trans (statement_derivation finish ahead).rest_isSuffix

/-- A statement of a program was read somewhere in its tokens. -/
theorem exists_derivation_of_mem {s : Statement} (h : s ∈ (statements finish ahead).1) :
    ∃ front back r, ahead = front ++ back ∧ StatementDerivation finish back r ∧
      r.value? = some s := by
  fun_induction statements finish ahead with
  | case1 => cases h
  | case2 t ahead r others ih =>
    rcases List.mem_append.1 h with h | h
    · refine ⟨[], t :: ahead, r, rfl, statement_derivation finish _, ?_⟩
      exact Option.mem_toList.1 h
    · obtain ⟨front, hfront⟩ := tail_rest_statement_isSuffix finish (t :: ahead)
      obtain ⟨front', back, r', hback, hr'⟩ := ih h
      exact ⟨front ++ front', back, r', by rw [List.append_assoc, ← hback, hfront], hr'⟩

theorem wellFormed_of_mem_statements {s : Statement} (h : s ∈ (statements finish ahead).1) :
    s.WellFormed := by
  obtain ⟨_, _, r, _, hd, hs⟩ := exists_derivation_of_mem h
  exact hd.wellFormed s hs

theorem tokens_subset_of_mem_statements {s : Statement} (h : s ∈ (statements finish ahead).1) :
    s.tokens ⊆ ahead := by
  obtain ⟨front, back, r, rfl, hd, hs⟩ := exists_derivation_of_mem h
  exact List.Subset.trans (hd.tokens_subset s hs) (List.subset_append_right _ _)

theorem statements_of_derivation {r : Reading Statement} (h : StatementDerivation finish ahead r)
    (hne : ahead ≠ []) :
    statements finish ahead = (r.value?.toList ++ (statements finish r.rest.tail).1,
      r.trail ++ .pull :: (statements finish r.rest.tail).2) := by
  cases ahead with
  | nil => exact absurd rfl hne
  | cons t ahead => rw [statements, h.run_eq]

end LetLang.Grammar
