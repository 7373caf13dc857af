import LetLang.Grammar.Expression

/-! Readings of expressions as derivations. Each way a reading can go is one constructor, so what
holds of every reading is an induction with one case for each way, and that a second text is
read alike is shown by deriving its reading from the first. -/
namespace LetLang.Grammar

/-- The token a rule stands on. -/
def currentToken (finish : Location) (ahead : List Token) : Token :=
  ahead.headD (.finish finish)

/-- The token behind the one a rule stands on. -/
def upcomingToken (finish : Location) (ahead : List Token) : Token :=
  ahead.tail.headD (.finish finish)

@[simp] theorem currentToken_cons (finish : Location) (t : Token) (ahead : List Token) :
    currentToken finish (t :: ahead) = t := rfl

@[simp] theorem currentToken_nil (finish : Location) : currentToken finish [] = .finish finish := rfl

@[simp] theorem upcomingToken_cons_cons (finish : Location) (t next : Token)
    (ahead : List Token) : upcomingToken finish (t :: next :: ahead) = next := rfl

theorem upcomingToken_cons (finish : Location) (t : Token) (ahead : List Token) :
    upcomingToken finish (t :: ahead) = currentToken finish ahead := rfl

theorem not_lt_precedence_finish (bound : Precedence) (finish : Location) :
    ¬ bound < (Token.finish finish).kind.precedence :=
  Precedence.not_lt_lowest bound

theorem current_bind {α : Type} (k : Token → Rule α) (finish : Location) (ahead : List Token) :
    (current >>= k) finish ahead = k (currentToken finish ahead) finish ahead := rfl

theorem upcoming_bind {α : Type} (k : Token → Rule α) (finish : Location) (ahead : List Token) :
    (upcoming >>= k) finish ahead = k (upcomingToken finish ahead) finish ahead := rfl

theorem advance_bind {α : Type} (k : Unit → Rule α) (finish : Location) (ahead : List Token) :
    (advance >>= k) finish ahead =
      ⟨(k () finish ahead.tail).value?, (k () finish ahead.tail).rest,
        .pull :: (k () finish ahead.tail).trail⟩ := rfl

theorem bind_of_none {α β : Type} {first : Rule α} {second : α → Rule β} {finish : Location}
    {ahead rest : List Token} {trail : List Action} (h : first finish ahead = ⟨none, rest, trail⟩) :
    (first >>= second) finish ahead = ⟨none, rest, trail⟩ := by
  rw [Rule.bind_apply, h]

theorem bind_of_some {α β : Type} {first : Rule α} {second : α → Rule β} {finish : Location}
    {ahead rest : List Token} {trail : List Action} {a : α}
    (h : first finish ahead = ⟨some a, rest, trail⟩) :
    (first >>= second) finish ahead =
      ⟨(second a finish rest).value?, (second a finish rest).rest,
        trail ++ (second a finish rest).trail⟩ := by
  rw [Rule.bind_apply, h]

/-- What a token makes of itself at the start of an expression. -/
inductive Opening where
  | leaf (e : Expr)
  | sign
  | obstacle (fault : Fault)
deriving DecidableEq, Repr

def opening (t : Token) : Opening :=
  match t.kind.lead? with
  | none => .obstacle (.cannotStart t.kind)
  | some .name => .leaf (.name (.ofToken t))
  | some .sign => .sign
  | some .numeral =>
    match Numeral.int64? t.literal with
    | none => .obstacle (.outOfRange t.literal)
    | some value => .leaf (.integer t value)

/-- An expression is read from its start, or with its left part at hand. -/
inductive Stage where
  | start
  | onward (left : Expr)
deriving DecidableEq, Repr

def Stage.run (finish : Location) (bound : Precedence) : Stage → List Token → Reading Expr
  | start, ahead => expression bound finish ahead
  | onward left, ahead => climb bound left finish ahead

inductive Derivation (finish : Location) :
    Stage → Precedence → List Token → Reading Expr → Prop
  | obstacle {bound : Precedence} {ahead : List Token} {fault : Fault}
      (hopening : opening (currentToken finish ahead) = .obstacle fault) :
      Derivation finish .start bound ahead
        ⟨none, ahead, [.fault ⟨fault, (currentToken finish ahead).location⟩]⟩
  | leaf {bound : Precedence} {t : Token} {ahead : List Token} {e : Expr} {r : Reading Expr}
      (hopening : opening t = .leaf e) (h : Derivation finish (.onward e) bound (t :: ahead) r) :
      Derivation finish .start bound (t :: ahead) r
  | signFailed {bound : Precedence} {t : Token} {ahead rest : List Token} {trail : List Action}
      (hopening : opening t = .sign)
      (h : Derivation finish .start .unary ahead ⟨none, rest, trail⟩) :
      Derivation finish .start bound (t :: ahead) ⟨none, rest, .pull :: trail⟩
  | sign {bound : Precedence} {t : Token} {ahead rest : List Token} {trail : List Action}
      {operand : Expr} {r : Reading Expr} (hopening : opening t = .sign)
      (hoperand : Derivation finish .start .unary ahead ⟨some operand, rest, trail⟩)
      (h : Derivation finish (.onward (.ofSign t operand)) bound rest r) :
      Derivation finish .start bound (t :: ahead) ⟨r.value?, r.rest, .pull :: trail ++ r.trail⟩
  | done {bound : Precedence} {left : Expr} {ahead : List Token}
      (hbound : ¬ bound < (upcomingToken finish ahead).kind.precedence) :
      Derivation finish (.onward left) bound ahead ⟨some left, ahead, []⟩
  | blocked {bound : Precedence} {left : Expr} {last op : Token} {ahead : List Token}
      (hbound : bound < op.kind.precedence) (hbinary : op.kind.isBinary = false) :
      Derivation finish (.onward left) bound (last :: op :: ahead)
        ⟨some left, last :: op :: ahead, [.fault ⟨.cannotContinue op.kind, op.location⟩]⟩
  | rightFailed {bound : Precedence} {left : Expr} {last op : Token} {ahead rest : List Token}
      {trail : List Action} (hbound : bound < op.kind.precedence) (hbinary : op.kind.isBinary = true)
      (h : Derivation finish .start op.kind.precedence ahead ⟨none, rest, trail⟩) :
      Derivation finish (.onward left) bound (last :: op :: ahead)
        ⟨none, rest, .pull :: .pull :: trail⟩
  | joined {bound : Precedence} {left right : Expr} {last op : Token} {ahead rest : List Token}
      {trail : List Action} {r : Reading Expr} (hbound : bound < op.kind.precedence)
      (hbinary : op.kind.isBinary = true)
      (hright : Derivation finish .start op.kind.precedence ahead ⟨some right, rest, trail⟩)
      (h : Derivation finish (.onward (.ofOperator op left right)) bound rest r) :
      Derivation finish (.onward left) bound (last :: op :: ahead)
        ⟨r.value?, r.rest, .pull :: .pull :: trail ++ r.trail⟩

section
variable {finish : Location} {bound : Precedence} {stage : Stage} {ahead : List Token}
  {r : Reading Expr}

theorem head_eq (finish : Location) (ahead : List Token) :
    head finish ahead =
      match opening (currentToken finish ahead) with
      | .leaf e => ⟨some e, ahead, []⟩
      | .sign => signed finish ahead
      | .obstacle fault =>
        ⟨none, ahead, [.fault ⟨fault, (currentToken finish ahead).location⟩]⟩ := by
  rw [head, current_bind, opening]
  cases (currentToken finish ahead).kind.lead? with
  | none => rfl
  | some lead =>
    cases lead with
    | name => rfl
    | sign => rfl
    | numeral =>
      change numeral finish ahead = _
      rw [numeral, current_bind]
      cases Numeral.int64? (currentToken finish ahead).literal <;> rfl

theorem expression_apply (bound : Precedence) (finish : Location) (ahead : List Token) :
    expression bound finish ahead =
      match opening (currentToken finish ahead) with
      | .leaf e => climb bound e finish ahead
      | .sign => (signed >>= climb bound) finish ahead
      | .obstacle fault =>
        ⟨none, ahead, [.fault ⟨fault, (currentToken finish ahead).location⟩]⟩ := by
  rw [expression_eq, Rule.bind_apply, head_eq]
  cases opening (currentToken finish ahead) <;> rfl

theorem signed_apply (finish : Location) (t : Token) (ahead : List Token) :
    signed finish (t :: ahead) =
      ⟨(expression .unary finish ahead).value?.map (.ofSign t), (expression .unary finish ahead).rest,
        .pull :: (expression .unary finish ahead).trail⟩ := by
  rw [signed, current_bind, advance_bind, currentToken_cons, List.tail_cons]
  rcases h : expression .unary finish ahead with ⟨_ | operand, rest, trail⟩
  · simp [bind_of_none h]
  · simp [bind_of_some h, Rule.pure_apply]

theorem joined_apply (left : Expr) (finish : Location) (op : Token) (ahead : List Token) :
    joined left finish (op :: ahead) =
      ⟨(expression op.kind.precedence finish ahead).value?.map (.ofOperator op left),
        (expression op.kind.precedence finish ahead).rest,
        .pull :: (expression op.kind.precedence finish ahead).trail⟩ := by
  rw [joined, current_bind, advance_bind, currentToken_cons, List.tail_cons]
  rcases h : expression op.kind.precedence finish ahead with ⟨_ | operand, rest, trail⟩
  · simp [bind_of_none h]
  · simp [bind_of_some h, Rule.pure_apply]

theorem climb_of_not_lt {left : Expr}
    (hbound : ¬ bound < (upcomingToken finish ahead).kind.precedence) :
    climb bound left finish ahead = ⟨some left, ahead, []⟩ := by
  rw [climb_eq, upcoming_bind, if_neg hbound]
  rfl

theorem climb_of_isBinary {left : Expr} {last op : Token} (hbound : bound < op.kind.precedence)
    (hbinary : op.kind.isBinary = true) :
    climb bound left finish (last :: op :: ahead) =
      (advance >>= fun _ => joined left >>= climb bound) finish (last :: op :: ahead) := by
  rw [climb_eq, upcoming_bind, upcomingToken_cons_cons, if_pos hbound, if_pos hbinary]

theorem climb_of_not_isBinary {left : Expr} {last op : Token} (hbound : bound < op.kind.precedence)
    (hbinary : op.kind.isBinary = false) :
    climb bound left finish (last :: op :: ahead) =
      ⟨some left, last :: op :: ahead, [.fault ⟨.cannotContinue op.kind, op.location⟩]⟩ := by
  rw [climb_eq, upcoming_bind, upcomingToken_cons_cons, if_pos hbound, hbinary]
  rfl

/-- A derivation says what the rules compute. -/
theorem Derivation.run_eq (h : Derivation finish stage bound ahead r) :
    stage.run finish bound ahead = r := by
  induction h with
  | obstacle hopening => simp only [Stage.run, expression_apply, hopening]
  | leaf hopening _ ih =>
    rw [← ih, Stage.run, expression_apply, currentToken_cons, hopening]
    rfl
  | signFailed hopening _ ih =>
    rw [Stage.run] at ih
    rw [Stage.run, expression_apply, currentToken_cons, hopening]
    exact bind_of_none (by rw [signed_apply, ih]; rfl)
  | sign hopening _ _ ihoperand ih =>
    simp only [Stage.run] at ih ihoperand
    rw [Stage.run, expression_apply, currentToken_cons, hopening]
    exact (bind_of_some (by rw [signed_apply, ihoperand]; rfl)).trans (by rw [ih])
  | done hbound => exact climb_of_not_lt hbound
  | blocked hbound hbinary => exact climb_of_not_isBinary hbound hbinary
  | rightFailed hbound hbinary _ ih =>
    rw [Stage.run] at ih
    rw [Stage.run, climb_of_isBinary hbound hbinary, advance_bind, List.tail_cons,
      bind_of_none (by rw [joined_apply, ih]; rfl)]
  | joined hbound hbinary _ _ ihright ih =>
    simp only [Stage.run] at ih ihright
    rw [Stage.run, climb_of_isBinary hbound hbinary, advance_bind, List.tail_cons,
      bind_of_some (by rw [joined_apply, ihright]; rfl), ih]
    rfl

theorem eq_cons_of_opening {o : Opening} (h : opening (currentToken finish ahead) = o)
    (ho : o ≠ .obstacle (.cannotStart .endOfInput)) : ∃ t after, ahead = t :: after := by
  cases ahead with
  | nil => exact absurd h.symm ho
  | cons t after => exact ⟨t, after, rfl⟩

theorem eq_cons_cons_of_lt {bound : Precedence}
    (hbound : bound < (upcomingToken finish ahead).kind.precedence) :
    ∃ last op after, ahead = last :: op :: after := by
  match ahead with
  | [] | [_] => exact absurd hbound (not_lt_precedence_finish bound finish)
  | last :: op :: after => exact ⟨last, op, after, rfl⟩

mutual

/-- What the rules compute has a derivation. -/
theorem derivation_expression (finish : Location) (bound : Precedence) (ahead : List Token) :
    Derivation finish .start bound ahead (expression bound finish ahead) := by
  cases hopening : opening (currentToken finish ahead) with
  | obstacle fault =>
    rw [expression_apply, hopening]
    exact .obstacle hopening
  | leaf e =>
    obtain ⟨t, after, rfl⟩ := eq_cons_of_opening hopening (by simp)
    rw [expression_apply, hopening]
    exact .leaf hopening (derivation_climb finish bound e (t :: after))
  | sign =>
    obtain ⟨t, after, rfl⟩ := eq_cons_of_opening hopening (by simp)
    have hoperand := derivation_expression finish .unary after
    have hrest := shrinking_expression .unary finish after
    rw [expression_apply, hopening]
    rcases h : expression .unary finish after with ⟨_ | operand, rest, trail⟩
    · rw [h] at hoperand
      rw [bind_of_none (by rw [signed_apply, h]; rfl)]
      exact .signFailed hopening hoperand
    · rw [h] at hoperand hrest
      rw [bind_of_some (by rw [signed_apply, h]; rfl)]
      exact .sign hopening hoperand (derivation_climb finish bound (.ofSign t operand) rest)
termination_by 2 * ahead.length + 1
decreasing_by all_goals simp_all <;> omega

theorem derivation_climb (finish : Location) (bound : Precedence) (left : Expr)
    (ahead : List Token) :
    Derivation finish (.onward left) bound ahead (climb bound left finish ahead) := by
  by_cases hbound : bound < (upcomingToken finish ahead).kind.precedence
  · obtain ⟨last, op, after, rfl⟩ := eq_cons_cons_of_lt hbound
    rw [upcomingToken_cons_cons] at hbound
    cases hbinary : op.kind.isBinary with
    | false =>
      rw [climb_of_not_isBinary hbound hbinary]
      exact .blocked hbound hbinary
    | true =>
      have hright := derivation_expression finish op.kind.precedence after
      have hrest := shrinking_expression op.kind.precedence finish after
      rw [climb_of_isBinary hbound hbinary, advance_bind, List.tail_cons]
      rcases h : expression op.kind.precedence finish after with ⟨_ | right, rest, trail⟩
      · rw [h] at hright
        rw [bind_of_none (by rw [joined_apply, h]; rfl)]
        exact .rightFailed hbound hbinary hright
      · rw [h] at hright hrest
        rw [bind_of_some (by rw [joined_apply, h]; rfl)]
        exact .joined hbound hbinary hright
          (derivation_climb finish bound (.ofOperator op left right) rest)
  · rw [climb_of_not_lt hbound]
    exact .done hbound
termination_by 2 * ahead.length
decreasing_by all_goals simp_all <;> omega

end

theorem derivation_iff :
    Derivation finish stage bound ahead r ↔ stage.run finish bound ahead = r := by
  refine ⟨Derivation.run_eq, ?_⟩
  rintro rfl
  cases stage with
  | start => exact derivation_expression finish bound ahead
  | onward left => exact derivation_climb finish bound left ahead

end

end LetLang.Grammar
