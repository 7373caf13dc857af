import LetLang.Grammar.Reading
import LetLang.Numeral
import LetLang.Precedence
import LetLang.Tree.Expr

/-! Reading expressions by precedence. An expression is a head (a name, a numeral, or a sign
with its operand), then operators with right operands as long as they bind tighter than a
bound. Among equals the left one wins, since an equal operator does not bind tighter. -/
namespace LetLang.Grammar

/-- A reading that leaves no more tokens than `ahead`. -/
abbrev Within (ahead : List Token) (α : Type) :=
  { r : Reading α // r.rest.length ≤ ahead.length }

mutual

/-- The recursion behind `expression`, on the number of tokens ahead. -/
def expressionWithin (finish : Location) (bound : Precedence) :
    (ahead : List Token) → Within ahead Expr
  | [] => ⟨⟨none, [], [.fault ⟨.cannotStart .endOfInput, finish⟩]⟩, Nat.le_refl _⟩
  | t :: ahead =>
    match t.kind.lead? with
    | none => ⟨⟨none, t :: ahead, [.fault ⟨.cannotStart t.kind, t.location⟩]⟩, Nat.le_refl _⟩
    | some .name => climbWithin finish bound (.name (.ofToken t)) (t :: ahead)
    | some .numeral =>
      match Numeral.int64? t.literal with
      | none => ⟨⟨none, t :: ahead, [.fault ⟨.outOfRange t.literal, t.location⟩]⟩, Nat.le_refl _⟩
      | some value => climbWithin finish bound (.integer t value) (t :: ahead)
    | some .sign =>
      match expressionWithin finish .unary ahead with
      | ⟨⟨none, rest, trail⟩, h⟩ => ⟨⟨none, rest, .pull :: trail⟩, Nat.le_succ_of_le h⟩
      | ⟨⟨some operand, rest, trail⟩, h⟩ =>
        have h : rest.length ≤ ahead.length := h
        let ⟨r, h'⟩ := climbWithin finish bound (.ofSign t operand) rest
        ⟨⟨r.value?, r.rest, .pull :: trail ++ r.trail⟩, Nat.le_succ_of_le (Nat.le_trans h' h)⟩
termination_by ahead => 2 * ahead.length + 1

/-- The recursion behind `climb`, on the number of tokens ahead. -/
def climbWithin (finish : Location) (bound : Precedence) (left : Expr) :
    (ahead : List Token) → Within ahead Expr
  | [] => ⟨⟨some left, [], []⟩, Nat.le_refl _⟩
  | [last] => ⟨⟨some left, [last], []⟩, Nat.le_refl _⟩
  | last :: op :: ahead =>
    if bound < op.kind.precedence then
      if op.kind.isBinary then
        match expressionWithin finish op.kind.precedence ahead with
        | ⟨⟨none, rest, trail⟩, h⟩ =>
          ⟨⟨none, rest, .pull :: .pull :: trail⟩, Nat.le_succ_of_le (Nat.le_succ_of_le h)⟩
        | ⟨⟨some right, rest, trail⟩, h⟩ =>
          have h : rest.length ≤ ahead.length := h
          let ⟨r, h'⟩ := climbWithin finish bound (.ofOperator op left right) rest
          ⟨⟨r.value?, r.rest, .pull :: .pull :: trail ++ r.trail⟩,
            Nat.le_succ_of_le (Nat.le_succ_of_le (Nat.le_trans h' h))⟩
      else
        ⟨⟨some left, last :: op :: ahead, [.fault ⟨.cannotContinue op.kind, op.location⟩]⟩,
          Nat.le_refl _⟩
    else ⟨⟨some left, last :: op :: ahead, []⟩, Nat.le_refl _⟩
termination_by ahead => 2 * ahead.length

end

/-- Reads an expression whose outermost operators bind tighter than `bound`. -/
def expression (bound : Precedence) : Rule Expr := fun finish ahead =>
  (expressionWithin finish bound ahead).val

/-- Goes on with an expression read so far, as long as operators bind tighter than `bound`. -/
def climb (bound : Precedence) (left : Expr) : Rule Expr := fun finish ahead =>
  (climbWithin finish bound left ahead).val

def name : Rule Expr := do
  return .name (.ofToken (← current))

def numeral : Rule Expr := do
  let t ← current
  match Numeral.int64? t.literal with
  | some value => return .integer t value
  | none => reject (.outOfRange t.literal) t.location

/-- Takes the current token for a sign, and reads its operand behind it. -/
def signed : Rule Expr := do
  let op ← current
  advance
  return .ofSign op (← expression .unary)

/-- Takes the current token for an operator, and reads its right operand behind it. -/
def joined (left : Expr) : Rule Expr := do
  let op ← current
  advance
  return .ofOperator op left (← expression op.kind.precedence)

def head : Rule Expr := do
  let t ← current
  match t.kind.lead? with
  | none => reject (.cannotStart t.kind) t.location
  | some .name => name
  | some .numeral => numeral
  | some .sign => signed

/-- An expression is its head with whatever can be climbed from there. -/
theorem expression_eq (bound : Precedence) : expression bound = head >>= climb bound := by
  funext finish ahead
  rw [Rule.bind_apply]
  cases ahead with
  | nil =>
    rw [expression, expressionWithin]
    rfl
  | cons t ahead =>
    rw [expression, expressionWithin]
    cases hlead : t.kind.lead? with
    | none => simp [head, hlead, Rule.bind_apply, current, reject, report, abandon]
    | some lead =>
      cases lead with
      | name => simp [head, hlead, Rule.bind_apply, Rule.pure_apply, current, name, climb]
      | numeral =>
        cases hvalue : Numeral.int64? t.literal <;>
          simp [head, hlead, Rule.bind_apply, Rule.pure_apply, current, numeral, hvalue, climb,
            reject, report, abandon]
      | sign =>
        simp only [head, Rule.bind_apply, current, List.headD_cons, hlead, signed, advance,
          expression, List.tail_cons]
        rcases expressionWithin finish .unary ahead with ⟨⟨_ | operand, rest, trail⟩, h⟩ <;>
          simp [Rule.pure_apply, climb]

/-- Climbing takes one operator with its right operand and goes on, or ends. -/
theorem climb_eq (bound : Precedence) (left : Expr) :
    climb bound left = (do
      let op ← upcoming
      if bound < op.kind.precedence then
        if op.kind.isBinary then
          advance
          let whole ← joined left
          climb bound whole
        else
          report (.cannotContinue op.kind) op.location
          return left
      else
        return left) := by
  funext finish ahead
  rw [Rule.bind_apply]
  have hfinish : ¬ bound < (Token.finish finish).kind.precedence := Precedence.not_lt_lowest bound
  match ahead with
  | [] =>
    rw [climb, climbWithin]
    simp [upcoming, hfinish, Rule.pure_apply]
  | [last] =>
    rw [climb, climbWithin]
    simp [upcoming, hfinish, Rule.pure_apply]
  | last :: op :: ahead =>
    rw [climb, climbWithin]
    by_cases hbinds : bound < op.kind.precedence
    · by_cases hbinary : op.kind.isBinary
      · simp only [upcoming, List.tail_cons, List.headD_cons, hbinds, hbinary, if_true,
          Rule.bind_apply, advance, joined, current, expression]
        rcases expressionWithin finish op.kind.precedence ahead with
          ⟨⟨_ | right, rest, trail⟩, h⟩ <;> simp [Rule.pure_apply, climb]
      · simp [upcoming, hbinds, hbinary, Rule.bind_apply, Rule.pure_apply, report]
    · simp [upcoming, hbinds, Rule.pure_apply]

theorem shrinking_expression (bound : Precedence) : (expression bound).Shrinking :=
  fun finish ahead => (expressionWithin finish bound ahead).property

theorem shrinking_climb (bound : Precedence) (left : Expr) : (climb bound left).Shrinking :=
  fun finish ahead => (climbWithin finish bound left ahead).property

end LetLang.Grammar
