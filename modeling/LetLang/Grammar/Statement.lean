import LetLang.Grammar.Expression
import LetLang.Tree.Program

/-! Reading statements and programs. A statement rule stops on the last token it takes, so
the program rule steps over one more token after each statement, read or failed. -/
namespace LetLang.Grammar

def skipSemicolon : Rule Unit := do
  if (← upcoming).kind = .semicolon then advance

/-- A binding, whose semicolon cannot be left out. -/
def binding : Rule Statement := do
  let word ← current
  let name ← expect .identifier
  let _ ← expect .assign
  advance
  match ← optional (expression .lowest) with
  | none =>
    skipSemicolon
    abandon
  | some value =>
    let _ ← expect .semicolon
    return .binding word (.ofToken name) (some value)

/-- A return. A value that cannot be read counts as no value. -/
def returning : Rule Statement := do
  let word ← current
  let next ← upcoming
  if next.kind = .semicolon ∨ next.kind = .endOfInput then
    skipSemicolon
    return .returning word none
  else
    advance
    let value? ← optional (expression .lowest)
    skipSemicolon
    return .returning word value?

def bare : Rule Statement := do
  let first ← current
  let expr? ← optional (expression .lowest)
  skipSemicolon
  match expr? with
  | none => abandon
  | some expr => return .expression first expr

def statement : Rule Statement := do
  match (← current).kind with
  | .letWord => binding
  | .returnWord => returning
  | _ => bare

theorem shrinking_skipSemicolon : skipSemicolon.Shrinking := by
  refine shrinking_upcoming.bind fun t => ?_
  split
  · exact shrinking_advance
  · exact Rule.shrinking_pure ()

theorem shrinking_binding : binding.Shrinking := by
  refine shrinking_current.bind fun _ => (shrinking_expect _).bind fun _ =>
    (shrinking_expect _).bind fun _ => shrinking_advance.bind fun _ =>
    (shrinking_optional (shrinking_expression _)).bind fun value? => ?_
  split
  · exact shrinking_skipSemicolon.bind fun _ => shrinking_abandon
  · exact (shrinking_expect _).bind fun _ => Rule.shrinking_pure _

theorem shrinking_returning : returning.Shrinking := by
  refine shrinking_current.bind fun _ => shrinking_upcoming.bind fun next => ?_
  split
  · exact shrinking_skipSemicolon.bind fun _ => Rule.shrinking_pure _
  · exact shrinking_advance.bind fun _ =>
      (shrinking_optional (shrinking_expression _)).bind fun _ =>
      shrinking_skipSemicolon.bind fun _ => Rule.shrinking_pure _

theorem shrinking_bare : bare.Shrinking := by
  refine shrinking_current.bind fun _ =>
    (shrinking_optional (shrinking_expression _)).bind fun expr? =>
    shrinking_skipSemicolon.bind fun _ => ?_
  split
  · exact shrinking_abandon
  · exact Rule.shrinking_pure _

theorem shrinking_statement : statement.Shrinking := by
  refine shrinking_current.bind fun t => ?_
  split
  · exact shrinking_binding
  · exact shrinking_returning
  · exact shrinking_bare

/-- The statements to the end of the text without the failed ones, and all that was done. -/
def statements (finish : Location) (ahead : List Token) : List Statement × List Action :=
  match ahead with
  | [] => ([], [])
  | t :: ahead =>
    let r := statement finish (t :: ahead)
    let others := statements finish r.rest.tail
    (r.value?.toList ++ others.1, r.trail ++ .pull :: others.2)
termination_by ahead.length
decreasing_by
  have h := shrinking_statement finish (t :: ahead)
  simp only [List.length_tail, List.length_cons] at h ⊢
  omega

/-- A program, which never fails and stops at the end of the text. -/
def program : Rule Program := fun finish ahead =>
  let (all, trail) := statements finish ahead
  ⟨some ⟨all⟩, [], trail⟩

end LetLang.Grammar
