import LetLang.Proofs.Grammar.Blame
import LetLang.Proofs.Operations

/-! What a rule leaves of a parser. Faults that are all found at one place come to one report at
most, and behind them the latest report is for that place, whoever made it. -/
namespace LetLang

open Grammar (Action Rule Quiet Blames pulls)

section
variable {trail : List Action} {reported : List Diagnostic} {t : Token}

/-- Nothing more is reported about a place that was just reported. -/
theorem foldl_record_of_latest (h : Blames t trail)
    (hlatest : reported.head?.map (·.location) = some t.location) :
    trail.foldl Action.record reported = reported := by
  induction trail with
  | nil => rfl
  | cons a trail ih =>
    cases a with
    | pull => exact ih h.of_cons
    | fault d =>
      have hplace : d.location = t.location := (h d List.mem_cons_self).1
      rw [List.foldl_cons, Action.record, if_pos (by rw [hlatest, hplace])]
      exact ih h.of_cons

/-- The first fault is reported unless its place was the latest one, and then no other is. -/
theorem foldl_record_of_blames (h : Blames t trail) (hfault : ¬ Quiet trail) :
    (trail.foldl Action.record reported).head?.map (·.location) = some t.location ∧
      (trail.foldl Action.record reported = reported ∨
        ∃ d, trail.foldl Action.record reported = d :: reported) := by
  induction trail with
  | nil => exact absurd Grammar.quiet_nil hfault
  | cons a trail ih =>
    cases a with
    | pull => exact ih h.of_cons fun hquiet => hfault (Grammar.quiet_pull_cons.2 hquiet)
    | fault d =>
      have hplace : d.location = t.location := (h d List.mem_cons_self).1
      rw [List.foldl_cons, Action.record]
      split
      · next hlatest =>
        rw [hplace] at hlatest
        rw [foldl_record_of_latest h.of_cons hlatest]
        exact ⟨hlatest, .inl rfl⟩
      · have hlatest : (d :: reported).head?.map (·.location) = some t.location :=
          congrArg some hplace
        rw [foldl_record_of_latest h.of_cons hlatest]
        exact ⟨hlatest, .inr ⟨d, rfl⟩⟩

end

namespace Parser

/-- The place of the latest report, if there is one. -/
def latestPlace? (p : Parser) : Option Location := p.reported.head?.map (·.location)

/-- Of what is reported on the way from `p` to `p'` there is one diagnostic at most. -/
def ReportsAtMostOne (p p' : Parser) : Prop :=
  p'.diagnostics = p.diagnostics ∨ ∃ d, p'.diagnostics = p.diagnostics ++ [d]

/-- The tokens from the current one of `p` to the current one of `p'`, both included, for a `p'`
that was reached from `p`. The end of the text counts as a token. -/
def spanTo (p p' : Parser) : List Token :=
  (p.ahead ++ [Token.finish p.finish]).take
    (p'.history.count .pull - p.history.count .pull + 1)

section
variable {α : Type} {rule : Rule α} {p : Parser}

theorem finish_run (p : Parser) (rule : Rule α) : (p.run rule).2.finish = p.finish :=
  p.finish_foldl_note _

theorem current_run (p : Parser) (rule : Rule α) :
    (p.run rule).2.current = Grammar.currentToken p.finish (rule p.finish p.ahead).rest := by
  rw [current, finish_run]
  rfl

theorem upcoming_run (p : Parser) (rule : Rule α) :
    (p.run rule).2.upcoming = Grammar.upcomingToken p.finish (rule p.finish p.ahead).rest := by
  rw [upcoming, finish_run]
  rfl

theorem diagnostics_run_of_quiet (h : Quiet (rule p.finish p.ahead).trail) :
    (p.run rule).2.diagnostics = p.diagnostics := by
  rw [diagnostics, reported_run, foldl_record_of_quiet h, diagnostics]

theorem latestPlace?_run_of_blames {t : Token} (h : Blames t (rule p.finish p.ahead).trail)
    (hfault : ¬ Quiet (rule p.finish p.ahead).trail) :
    (p.run rule).2.latestPlace? = some t.location := by
  rw [latestPlace?, reported_run]
  exact (foldl_record_of_blames h hfault).1

theorem reportsAtMostOne_run_of_blames {t : Token}
    (h : Blames t (rule p.finish p.ahead).trail) : p.ReportsAtMostOne (p.run rule).2 := by
  by_cases hquiet : Quiet (rule p.finish p.ahead).trail
  · exact .inl (diagnostics_run_of_quiet hquiet)
  · rw [ReportsAtMostOne, diagnostics, reported_run, diagnostics]
    rcases (foldl_record_of_blames h hquiet).2 with hsame | ⟨d, hmore⟩
    · exact .inl (congrArg List.reverse hsame)
    · exact .inr ⟨d, by rw [hmore, List.reverse_cons]⟩

theorem spanTo_run (p : Parser) (rule : Rule α) :
    p.spanTo (p.run rule).2 = (p.ahead ++ [Token.finish p.finish]).take
      (pulls (rule p.finish p.ahead).trail + 1) := by
  have hcount := count_history_foldl_note p (rule p.finish p.ahead).trail
  have hmore : (p.run rule).2.history.count .pull - p.history.count .pull =
      pulls (rule p.finish p.ahead).trail := by
    change ((rule p.finish p.ahead).trail.foldl note p).history.count .pull - _ = _
    rw [hcount, Nat.add_sub_cancel_left]
  rw [spanTo, hmore]

/-- A rule goes over the tokens in front of those that it leaves, and stops on the first of
these. -/
theorem spanTo_run_eq_concat {front : List Token} (hrule : rule.Paced 0)
    (hahead : p.ahead = front ++ (rule p.finish p.ahead).rest) :
    p.spanTo (p.run rule).2 = front ++ [(p.run rule).2.current] := by
  obtain ⟨hrest, hpulls⟩ := hrule p.finish p.ahead
  rw [spanTo_run, current_run]
  generalize (rule p.finish p.ahead).rest = rest at hrest hahead ⊢
  generalize pulls (rule p.finish p.ahead).trail = n at hrest hpulls ⊢
  have hfront : n = front.length := by
    have hlength := congrArg List.length hrest
    rw [hahead, List.length_drop] at hlength
    rw [hahead] at hpulls
    rw [List.length_append] at hlength hpulls
    omega
  have hcurrent : (rest ++ [Token.finish p.finish]).take 1 =
      [Grammar.currentToken p.finish rest] := by
    cases rest <;> rfl
  rw [hahead, hfront, List.append_assoc, List.take_length_add_append, hcurrent]

/-- What stands in front of the tokens behind the current one is what the rule went over. -/
theorem spanTo_run_eq {ts after : List Token} {last : Token} (hrule : rule.Paced 0)
    (hahead : p.ahead = ts ++ after) (hrest : (rule p.finish p.ahead).rest = last :: after) :
    p.spanTo (p.run rule).2 = ts := by
  obtain ⟨front, hfront⟩ := (hrule p.finish p.ahead).rest_isSuffix
  rw [spanTo_run_eq_concat hrule hfront.symm, current_run, hrest, Grammar.currentToken_cons]
  have hall : (front ++ [last]) ++ after = ts ++ after := by
    rw [List.append_assoc, List.singleton_append, ← hrest, hfront, hahead]
  exact List.append_cancel_right hall

/-- A token that was not taken, and that all tokens behind the current one come behind, is one of
those that the rule went over, or the upcoming one. -/
theorem currentToken_mem_spanTo_run {untaken : List Token} (hrule : rule.Paced 0)
    (hsuffix : untaken <:+ p.ahead) (hrest : (rule p.finish p.ahead).rest.tail <:+ untaken) :
    Grammar.currentToken p.finish untaken ∈
      p.spanTo (p.run rule).2 ++ [(p.run rule).2.upcoming] := by
  have hahead := (hrule p.finish p.ahead).rest_isSuffix
  by_cases hle : (rule p.finish p.ahead).rest.length ≤ untaken.length
  · obtain ⟨mid, rfl⟩ := List.suffix_of_suffix_length_le hahead hsuffix hle
    obtain ⟨front, hfront⟩ := hsuffix
    rw [← List.append_assoc] at hfront
    rw [spanTo_run_eq_concat hrule hfront.symm, current_run]
    cases mid <;> simp
  · have huntaken : untaken = (rule p.finish p.ahead).rest.tail := by
      refine (hrest.eq_of_length_le ?_).symm
      rw [List.length_tail]
      omega
    rw [upcoming_run, huntaken]
    exact List.mem_append_right _ (List.mem_singleton_self _)

end

end Parser

end LetLang
