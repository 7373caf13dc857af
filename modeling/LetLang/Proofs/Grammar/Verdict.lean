import LetLang.Proofs.Grammar.Derivation
import LetLang.Proofs.Tree.Shape

/-! How the reading of an expression ends. It takes tokens one by one and finds nothing wrong on
the way; then it fails at the current token, or ends before a token that does not bind, or is
blocked by an opening parenthesis, which every level of it reports. -/
namespace LetLang.Grammar

variable {finish : Location} {bound : Precedence} {stage : Stage} {ahead : List Token}
  {r : Reading Expr}

/-- A trail without faults. -/
def Quiet (trail : List Action) : Prop := ∀ a ∈ trail, a = .pull

@[simp] theorem quiet_nil : Quiet [] := by simp [Quiet]

@[simp] theorem quiet_pull_cons {trail : List Action} : Quiet (.pull :: trail) ↔ Quiet trail := by
  simp [Quiet]

@[simp] theorem not_quiet_fault_cons {d : Diagnostic} {trail : List Action} :
    ¬ Quiet (.fault d :: trail) := by
  simp [Quiet]

@[simp] theorem quiet_append {front back : List Action} :
    Quiet (front ++ back) ↔ Quiet front ∧ Quiet back := by
  simp [Quiet, or_imp, forall_and]

@[simp] theorem quiet_replicate_pull (n : Nat) : Quiet (List.replicate n .pull) := by
  simp [Quiet]

/-- What a reading that stopped at `rest` comes to, and what it found there. -/
inductive Verdict (finish : Location) (bound : Precedence) (rest : List Token) :
    Option Expr → List Diagnostic → Prop
  | failed {fault : Fault} (h : opening (currentToken finish rest) = .obstacle fault) :
      Verdict finish bound rest none [⟨fault, (currentToken finish rest).location⟩]
  | ended {e : Expr} (h : ¬ bound < (upcomingToken finish rest).kind.precedence) :
      Verdict finish bound rest (some e) []
  | blocked {e : Expr} (n : Nat) (h : (upcomingToken finish rest).kind = .leftParen) :
      Verdict finish bound rest (some e) (List.replicate (n + 1)
        ⟨.cannotContinue .leftParen, (upcomingToken finish rest).location⟩)

/-- At an opening parenthesis a level that has its left part reports it and ends. -/
theorem Derivation.eq_of_leftParen {left : Expr} (hbound : bound < .call)
    (hparen : (upcomingToken finish ahead).kind = .leftParen)
    (h : Derivation finish (.onward left) bound ahead r) :
    r = ⟨some left, ahead,
      [.fault ⟨.cannotContinue .leftParen, (upcomingToken finish ahead).location⟩]⟩ := by
  cases h with
  | done hnot => exact absurd (by rw [hparen]; exact hbound) hnot
  | blocked _ _ =>
    rw [upcomingToken_cons_cons] at hparen
    rw [hparen, upcomingToken_cons_cons]
  | rightFailed _ hbinary _ =>
    rw [upcomingToken_cons_cons] at hparen
    simp [hparen, Kind.isBinary] at hbinary
  | joined _ hbinary _ _ =>
    rw [upcomingToken_cons_cons] at hparen
    simp [hparen, Kind.isBinary] at hbinary

/-- The tokens taken, and what was found behind them. -/
def Concludes (finish : Location) (bound : Precedence) (ahead : List Token)
    (r : Reading Expr) : Prop :=
  ∃ n ds, n ≤ ahead.length ∧ r.rest = ahead.drop n ∧
    r.trail = List.replicate n .pull ++ ds.map .fault ∧ Verdict finish bound r.rest r.value? ds

theorem Concludes.pull (t : Token) (h : Concludes finish bound ahead r) :
    Concludes finish bound (t :: ahead) ⟨r.value?, r.rest, .pull :: r.trail⟩ := by
  obtain ⟨n, ds, hn, hrest, htrail, hverdict⟩ := h
  exact ⟨n + 1, ds, Nat.succ_le_succ hn, hrest, by rw [htrail]; rfl, hverdict⟩

/-- A failure is a failure whatever the bound. -/
theorem Concludes.of_none {inner : Precedence} {rest : List Token} {trail : List Action}
    (h : Concludes finish inner ahead ⟨none, rest, trail⟩) :
    Concludes finish bound ahead ⟨none, rest, trail⟩ := by
  obtain ⟨n, ds, hn, hrest, htrail, hverdict⟩ := h
  cases hverdict with
  | failed hopening => exact ⟨n, _, hn, hrest, htrail, .failed hopening⟩

/-- An operand that ended is followed by what comes of the level it belongs to. One that was
blocked blocks that level too. -/
theorem Concludes.onward {inner : Precedence} {operand whole : Expr} {rest : List Token}
    {trail : List Action} (hbound : bound < .call)
    (hoperand : Concludes finish inner ahead ⟨some operand, rest, trail⟩)
    (h : Derivation finish (.onward whole) bound rest r)
    (hr : Concludes finish bound rest r) :
    Concludes finish bound ahead ⟨r.value?, r.rest, trail ++ r.trail⟩ := by
  obtain ⟨n, ds, hn, hrest, htrail, hverdict⟩ := hoperand
  dsimp only at hrest htrail hverdict
  subst hrest
  cases hverdict with
  | ended _ =>
    obtain ⟨m, ds, hm, hrest, htrail', hverdict⟩ := hr
    refine ⟨n + m, ds, ?_, ?_, ?_, hverdict⟩
    · rw [List.length_drop] at hm
      omega
    · rw [hrest, List.drop_drop]
    · simp [htrail, htrail', ← List.replicate_append_replicate]
  | blocked m hparen =>
    obtain rfl := h.eq_of_leftParen hbound hparen
    refine ⟨n, _, hn, rfl, ?_, .blocked (m + 1) hparen⟩
    rw [List.replicate_succ', htrail]
    simp

theorem Derivation.concludes (h : Derivation finish stage bound ahead r) (hbound : bound < .call) :
    Concludes finish bound ahead r := by
  induction h with
  | obstacle hopening => exact ⟨0, _, Nat.zero_le _, rfl, rfl, .failed hopening⟩
  | leaf _ _ ih => exact ih hbound
  | signFailed _ _ ih => exact (ih (by decide)).of_none.pull _
  | sign _ _ h ihoperand ih =>
    exact ((ihoperand (by decide)).onward hbound h (ih hbound)).pull _
  | done hnot => exact ⟨0, [], Nat.zero_le _, rfl, rfl, .ended hnot⟩
  | blocked hlt hbinary =>
    have hparen := Kind.eq_leftParen_of_lt hlt hbinary
    refine ⟨0, _, Nat.zero_le _, rfl, ?_, .blocked 0 hparen⟩
    rw [hparen]
    rfl
  | rightFailed _ hbinary _ ih =>
    have hlt := Kind.precedence_lt_call_of_isBinary hbinary
    exact ((ih hlt).of_none.pull _).pull _
  | joined _ hbinary _ h ihright ih =>
    have hlt := Kind.precedence_lt_call_of_isBinary hbinary
    exact (((ihright hlt).onward hbound h (ih hbound)).pull _).pull _

/-- A reading that finds nothing wrong is one that ended. -/
theorem Concludes.quiet_iff (h : Concludes finish bound ahead r) (hbound : bound < .call) :
    Quiet r.trail ↔ r.value?.isSome = true ∧
      ¬ bound < (upcomingToken finish r.rest).kind.precedence := by
  obtain ⟨n, ds, _, _, htrail, hverdict⟩ := h
  rw [htrail, quiet_append]
  generalize r.value? = value? at hverdict ⊢
  cases hverdict with
  | failed _ => simp
  | ended hnot => simpa using hnot
  | blocked m hparen =>
    have hlt : bound < (upcomingToken finish r.rest).kind.precedence := by rwa [hparen]
    simp [List.replicate_succ, hlt]

/-- A reading that fails finds something wrong. -/
theorem Derivation.not_quiet_of_none {rest : List Token} {trail : List Action}
    (h : Derivation finish stage bound ahead ⟨none, rest, trail⟩) (hbound : bound < .call) :
    ¬ Quiet trail := by
  intro hquiet
  have hsome := (((h.concludes hbound).quiet_iff hbound).1 hquiet).1
  cases hsome

end LetLang.Grammar
