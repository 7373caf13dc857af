import LetLang.Proofs.Grammar.Statement

/-! Pace. Rules step over tokens one at a time and never back, so where a rule stops is told by how
often it pulled, and what it pulls behind the end of the text is one token at most. -/
namespace LetLang.Grammar

/-- How many tokens are taken off the text. -/
def pulls (trail : List Action) : Nat := trail.count .pull

@[simp] theorem pulls_nil : pulls [] = 0 := rfl

@[simp] theorem pulls_pull_cons (trail : List Action) :
    pulls (.pull :: trail) = pulls trail + 1 :=
  List.count_cons_self

@[simp] theorem pulls_fault_cons (d : Diagnostic) (trail : List Action) :
    pulls (.fault d :: trail) = pulls trail :=
  List.count_cons_of_ne (by simp)

@[simp] theorem pulls_append (front back : List Action) :
    pulls (front ++ back) = pulls front + pulls back :=
  List.count_append

/-- A trail from the tokens ahead to the rest: a token was left behind for every pull, except for
those pulls, as many as the bound at most, that found no token any more. -/
structure Paced (bound : Nat) (ahead rest : List Token) (trail : List Action) : Prop where
  rest_eq : rest = ahead.drop (pulls trail)
  pulls_le : pulls trail ≤ ahead.length + bound

section
variable {bound : Nat} {ahead rest rest' : List Token} {front back trail : List Action}

theorem paced_nil (ahead : List Token) : Paced 0 ahead ahead [] := ⟨rfl, Nat.zero_le _⟩

theorem paced_fault (ahead : List Token) (d : Diagnostic) :
    Paced 0 ahead ahead [.fault d] := ⟨rfl, Nat.zero_le _⟩

theorem Paced.mono (h : Paced 0 ahead rest trail) : Paced bound ahead rest trail :=
  ⟨h.rest_eq, Nat.le_trans h.pulls_le (Nat.add_le_add_left (Nat.zero_le bound) _)⟩

theorem Paced.rest_isSuffix (h : Paced bound ahead rest trail) : rest <:+ ahead := by
  rw [h.rest_eq]
  exact List.drop_suffix _ _

theorem Paced.append (h : Paced 0 ahead rest front) (h' : Paced bound rest rest' back) :
    Paced bound ahead rest' (front ++ back) := by
  obtain ⟨rfl, hfront⟩ := h
  obtain ⟨rfl, hback⟩ := h'
  rw [List.length_drop] at hback
  constructor
  · rw [List.drop_drop, pulls_append]
  · rw [pulls_append]
    omega

theorem Paced.pull (t : Token) (h : Paced bound ahead rest trail) :
    Paced bound (t :: ahead) rest (.pull :: trail) := by
  obtain ⟨rfl, hpulls⟩ := h
  constructor
  · rw [pulls_pull_cons, List.drop_succ_cons]
  · rw [pulls_pull_cons, List.length_cons]
    omega

/-- The first pull may be the one that finds no token. -/
theorem Paced.pull_tail (h : Paced 0 ahead.tail rest trail) :
    Paced 1 ahead rest (.pull :: trail) := by
  cases ahead with
  | cons t ahead => exact (h.pull t).mono
  | nil =>
    obtain ⟨rfl, hpulls⟩ := h
    exact ⟨by simp, by simpa using hpulls⟩

/-- Behind the end of the text nothing is done any more. -/
theorem Paced.pull_rest (h : Paced 1 ahead.tail rest trail) (hnil : ahead = [] → trail = []) :
    Paced 1 ahead rest (.pull :: trail) := by
  cases ahead with
  | cons t ahead => exact h.pull t
  | nil =>
    rw [hnil rfl] at h ⊢
    exact Paced.pull_tail ⟨h.rest_eq, Nat.zero_le _⟩

theorem SemicolonSkip.paced {finish : Location} (h : SemicolonSkip finish ahead rest trail) :
    Paced 0 ahead rest trail := by
  cases h with
  | taken _ => exact (paced_nil _).pull _
  | absent _ => exact paced_nil _

theorem Derivation.paced {finish : Location} {precedence : Precedence} {stage : Stage}
    {r : Reading Expr} (h : Derivation finish stage precedence ahead r) :
    Paced 0 ahead r.rest r.trail := by
  induction h with
  | obstacle _ => exact paced_fault _ _
  | leaf _ _ ih => exact ih
  | signFailed _ _ ih => exact ih.pull _
  | sign _ _ _ ihoperand ih => exact (ihoperand.append ih).pull _
  | done _ => exact paced_nil _
  | blocked _ _ => exact paced_fault _ _
  | rightFailed _ _ _ ih => exact (ih.pull _).pull _
  | joined _ _ _ _ ihright ih => exact ((ihright.append ih).pull _).pull _

end

/-- A rule that keeps the pace, whatever it is given to read. -/
def Rule.Paced {α : Type} (bound : Nat) (rule : Rule α) : Prop :=
  ∀ finish ahead, Grammar.Paced bound ahead (rule finish ahead).rest (rule finish ahead).trail

section
variable {α β : Type} {bound : Nat}

theorem Rule.Paced.mono {rule : Rule α} (h : rule.Paced 0) : rule.Paced bound :=
  fun finish ahead => (h finish ahead).mono

theorem paced_pure (a : α) : (pure a : Rule α).Paced 0 := fun _ ahead => paced_nil ahead

theorem paced_abandon : (abandon : Rule α).Paced 0 := fun _ ahead => paced_nil ahead

theorem paced_advance : advance.Paced 1 := fun _ ahead => (paced_nil ahead.tail).pull_tail

theorem Rule.Paced.bind {first : Rule α} {second : α → Rule β} (h : first.Paced 0)
    (h' : ∀ a, (second a).Paced bound) : (first >>= second).Paced bound := by
  intro finish ahead
  have hfirst := h finish ahead
  rw [Rule.bind_apply]
  split
  · next hr =>
    rw [hr] at hfirst
    exact hfirst.mono
  · next a rest trail hr =>
    rw [hr] at hfirst
    exact hfirst.append (h' a finish rest)

theorem paced_current : current.Paced 0 := fun _ ahead => paced_nil ahead

theorem paced_reject (fault : Fault) (place : Location) :
    (reject fault place : Rule α).Paced 0 := fun _ ahead => paced_fault ahead ⟨fault, place⟩

theorem Rule.Paced.optional {rule : Rule α} (h : rule.Paced 0) :
    (Grammar.optional rule).Paced 0 := fun finish ahead => h finish ahead

/-- A step in front of a rule may be the one behind the end. -/
theorem paced_advance_bind {k : Unit → Rule α} (h : (k ()).Paced 0) :
    (advance >>= k).Paced 1 := by
  intro finish ahead
  rw [advance_bind]
  exact (h finish ahead.tail).pull_tail

/-- A step from a token that is there is none behind the end. -/
theorem paced_advance_bind_cons {k : Unit → Rule α} (h : (k ()).Paced 0) (finish : Location)
    (t : Token) (ahead : List Token) :
    Paced 0 (t :: ahead) ((advance >>= k) finish (t :: ahead)).rest
      ((advance >>= k) finish (t :: ahead)).trail := by
  rw [advance_bind]
  exact (h finish ahead).pull t

theorem expect_apply (kind : Kind) (finish : Location) (ahead : List Token) :
    expect kind finish ahead =
      if (upcomingToken finish ahead).kind = kind then
        ⟨some (upcomingToken finish ahead), ahead.tail, [.pull]⟩
      else
        ⟨none, ahead, [.fault ⟨.unexpected kind (upcomingToken finish ahead).kind,
          (upcomingToken finish ahead).location⟩]⟩ := by
  split
  · next h =>
    rw [expect, upcoming_bind, if_pos h]
    rfl
  · next h => exact expect_of_ne h

theorem paced_expect (kind : Kind) : (expect kind).Paced 1 := by
  intro finish ahead
  rw [expect_apply]
  split
  · exact (paced_nil ahead.tail).pull_tail
  · exact (paced_fault ahead _).mono

/-- What follows a token that was expected starts from that token, which is there. -/
theorem paced_expect_bind {kind : Kind} (hkind : kind ≠ .endOfInput) {k : Token → Rule α}
    (h : ∀ finish t ahead, Paced 0 (t :: ahead) (k t finish (t :: ahead)).rest
      (k t finish (t :: ahead)).trail) : (expect kind >>= k).Paced 0 := by
  intro finish ahead
  by_cases heq : (upcomingToken finish ahead).kind = kind
  · obtain ⟨last, next, after, rfl⟩ : ∃ last next after, ahead = last :: next :: after := by
      match ahead with
      | [] | [_] => exact absurd heq.symm hkind
      | last :: next :: after => exact ⟨last, next, after, rfl⟩
    have heq : next.kind = kind := heq
    rw [bind_of_some (expect_of_eq last after heq)]
    exact (h finish next after).pull last
  · rw [bind_of_none (expect_of_ne heq)]
    exact paced_fault ahead _

end

theorem paced_skipSemicolon : skipSemicolon.Paced 0 := by
  intro finish ahead
  obtain ⟨rest, skipped, hskip⟩ := exists_semicolonSkip finish ahead
  rw [hskip.run_eq]
  exact hskip.paced

theorem paced_expression (precedence : Precedence) : (expression precedence).Paced 0 :=
  fun finish ahead => (derivation_expression finish precedence ahead).paced

theorem paced_name : name.Paced 0 := paced_current.bind fun _ => paced_pure _

theorem paced_numeral : numeral.Paced 0 := by
  refine paced_current.bind fun t => ?_
  split
  · exact paced_pure _
  · exact paced_reject _ _

theorem paced_signed : signed.Paced 1 :=
  paced_current.bind fun _ => paced_advance_bind <|
    (paced_expression .unary).bind fun _ => paced_pure _

theorem paced_joined (left : Expr) : (joined left).Paced 1 :=
  paced_current.bind fun op => paced_advance_bind <|
    (paced_expression op.kind.precedence).bind fun _ => paced_pure _

theorem paced_binding : binding.Paced 0 := by
  refine paced_current.bind fun word => paced_expect_bind (by decide) fun finish name ahead => ?_
  refine paced_expect_bind (by decide) (fun finish assign ahead => ?_) finish (name :: ahead)
  refine paced_advance_bind_cons ?_ finish assign ahead
  refine (paced_expression .lowest).optional.bind fun value? => ?_
  split
  · exact paced_skipSemicolon.bind fun _ => paced_abandon
  · exact paced_expect_bind (by decide) fun finish t ahead => paced_pure _ finish (t :: ahead)

theorem paced_returning : returning.Paced 0 := by
  refine paced_current.bind fun word finish ahead => ?_
  rw [upcoming_bind]
  split
  · exact (paced_skipSemicolon.bind fun _ => paced_pure _) finish ahead
  · next hnext =>
    cases ahead with
    | nil => exact absurd (.inr rfl) hnext
    | cons t ahead =>
      refine paced_advance_bind_cons ?_ finish t ahead
      exact (paced_expression .lowest).optional.bind fun _ =>
        paced_skipSemicolon.bind fun _ => paced_pure _

theorem paced_bare : bare.Paced 0 := by
  refine paced_current.bind fun first => (paced_expression .lowest).optional.bind fun expr? =>
    paced_skipSemicolon.bind fun _ => ?_
  split
  · exact paced_abandon
  · exact paced_pure _

theorem paced_statement : statement.Paced 0 := by
  refine paced_current.bind fun t => ?_
  split
  · exact paced_binding
  · exact paced_returning
  · exact paced_bare

/-- Statements are read to the end of the text, and at most one token behind it is pulled. -/
theorem paced_statements (finish : Location) (ahead : List Token) :
    Paced 1 ahead [] (statements finish ahead).2 := by
  fun_induction statements finish ahead with
  | case1 => exact (paced_nil []).mono
  | case2 t ahead r others ih =>
    have hstatement : Paced 0 (t :: ahead) r.rest r.trail := paced_statement finish (t :: ahead)
    refine hstatement.append (Paced.pull_rest ih fun hrest => ?_)
    change (statements finish r.rest.tail).2 = []
    rw [hrest, List.tail_nil, statements]

theorem paced_program : program.Paced 1 := fun finish ahead => paced_statements finish ahead

end LetLang.Grammar
