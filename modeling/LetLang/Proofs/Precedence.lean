import LetLang.Proofs.Grammar.Program
import LetLang.Proofs.Parser

/-! Precedence and the trees of a program. A program has no brackets, so a tree is the right one
just when the precedences allow it, and they allow one tree for each row of tokens. -/
namespace LetLang

theorem wellFormed_of_mem_statements {source : Source} {s : Statement}
    (h : s ∈ (parse source).1.statements) : s.WellFormed := by
  rw [parse_eq] at h
  exact Grammar.wellFormed_of_mem_statements h

theorem wellFormed_of_mem_expressions {source : Source} {e : Expr}
    (h : e ∈ (parse source).1.expressions) : e.WellFormed := by
  unfold Program.expressions at h
  obtain ⟨s, hs, he⟩ := List.mem_flatMap.1 h
  exact (wellFormed_of_mem_statements hs).of_mem_expressions he

/-- All expressions of a program are well formed, also of one with faults, and no two well-formed
expressions have the same tokens. -/
theorem precedence_determines_expressions :
    (∀ source, ∀ e ∈ (parse source).1.expressions, e.WellFormed) ∧
      ∀ e e' : Expr, e.WellFormed → e'.WellFormed → e.tokens = e'.tokens → e = e' := by
  constructor
  · intro source e he
    exact wellFormed_of_mem_expressions he
  · intro e e' h h' htokens
    exact h.eq_of_tokens_eq h' htokens

/-- In `-a+b` the sign belongs to `a`, and not to the sum. -/
theorem precedence_determines_signed_sum :
    Expr.WellFormed (.ofOperator ⟨.plus, "+", ⟨1, 3⟩⟩
        (.ofSign ⟨.minus, "-", ⟨1, 1⟩⟩ (.name (.ofToken ⟨.identifier, "a", ⟨1, 2⟩⟩)))
        (.name (.ofToken ⟨.identifier, "b", ⟨1, 4⟩⟩))) ∧
      ¬ Expr.WellFormed (.ofSign ⟨.minus, "-", ⟨1, 1⟩⟩ (.ofOperator ⟨.plus, "+", ⟨1, 3⟩⟩
        (.name (.ofToken ⟨.identifier, "a", ⟨1, 2⟩⟩))
        (.name (.ofToken ⟨.identifier, "b", ⟨1, 4⟩⟩)))) := by
  constructor
  · exact precedence_determines_expressions.1 (.ofText "sum" "-a+b") _ (by decide +kernel)
  · intro hsign
    have hsum := precedence_determines_expressions.2 _ _ hsign
      (precedence_determines_expressions.1 (.ofText "sum" "-a+b")
        (.ofOperator ⟨.plus, "+", ⟨1, 3⟩⟩
          (.ofSign ⟨.minus, "-", ⟨1, 1⟩⟩ (.name (.ofToken ⟨.identifier, "a", ⟨1, 2⟩⟩)))
          (.name (.ofToken ⟨.identifier, "b", ⟨1, 4⟩⟩))) (by decide +kernel)) rfl
    cases hsum

end LetLang
