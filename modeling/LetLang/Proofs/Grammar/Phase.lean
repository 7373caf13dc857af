import LetLang.Proofs.Grammar.Climbing

/-! Reading an expression token by token. Between tokens either an operand or an operator is due,
which settles what the next token may be; a reading takes tokens as long as these phases let it. -/
namespace LetLang.Grammar

inductive Phase where
  | operand
  | operator
deriving DecidableEq, Repr

namespace Phase

def step : Phase → Token → Option Phase
  | operand, t =>
    match opening t with
    | .leaf _ => some operator
    | .sign => some operand
    | .obstacle _ => none
  | operator, t => if t.kind.isBinary then some operand else none

def run (phase : Phase) (ts : List Token) : Option Phase := ts.foldlM step phase

@[simp] theorem run_nil (phase : Phase) : phase.run [] = some phase := rfl

theorem run_cons (phase : Phase) (t : Token) (ts : List Token) :
    phase.run (t :: ts) = (phase.step t).bind fun next => next.run ts := rfl

theorem run_append (phase : Phase) (front back : List Token) :
    phase.run (front ++ back) = (phase.run front).bind fun next => next.run back :=
  List.foldlM_append

theorem run_append_of_eq {phase next : Phase} {front : List Token}
    (h : phase.run front = some next) (back : List Token) :
    phase.run (front ++ back) = next.run back := by
  rw [run_append, h]
  rfl

theorem run_sign {t : Token} (h : opening t = .sign) (ts : List Token) :
    operand.run (t :: ts) = operand.run ts := by
  simp [run_cons, step, h]

theorem run_leaf {t : Token} {e : Expr} (h : opening t = .leaf e) (ts : List Token) :
    operand.run (t :: ts) = operator.run ts := by
  simp [run_cons, step, h]

theorem run_operator {t : Token} (h : t.kind.isBinary = true) (ts : List Token) :
    operator.run (t :: ts) = operand.run ts := by
  simp [run_cons, step, h]

theorem run_obstacle {t : Token} {fault : Fault} (h : opening t = .obstacle fault)
    (ts : List Token) : operand.run (t :: ts) = none := by
  simp [run_cons, step, h]

theorem run_operator_of_not {t : Token} (h : t.kind.isBinary = false) (ts : List Token) :
    operator.run (t :: ts) = none := by
  simp [run_cons, step, h]

end Phase

variable {finish : Location} {bound : Precedence} {stage : Stage} {ahead : List Token}
  {r : Reading Expr}

/-- The tokens from the start of the expression that a stage belongs to. -/
def Stage.text (ahead : List Token) : Stage → List Token
  | start => ahead
  | onward left => left.tokens ++ ahead.tail

/-- Reading goes on behind the last token of the left part, where an operator is due. -/
def Stage.Ready (ahead : List Token) : Stage → Prop
  | start => True
  | onward left => Phase.operand.run left.tokens = some .operator ∧
      ∃ after, ahead = left.lastToken :: after

/-- How a reading splits the text of an expression: an expression takes its own tokens and stays
on the last of them; a failure stays where an operand is due and cannot start. -/
inductive Split (finish : Location) (text : List Token) : Option Expr → List Token → Prop
  | read {e : Expr} {after : List Token} (htext : text = e.tokens ++ after)
      (hphase : Phase.operand.run e.tokens = some .operator) :
      Split finish text (some e) (e.lastToken :: after)
  | failed {front rest : List Token} {fault : Fault} (htext : text = front ++ rest)
      (hphase : Phase.operand.run front = some .operand)
      (hopening : opening (currentToken finish rest) = .obstacle fault) :
      Split finish text none rest

theorem Split.append {front text rest : List Token}
    (hfront : Phase.operand.run front = some .operand) (h : Split finish text none rest) :
    Split finish (front ++ text) none rest := by
  cases h with
  | failed htext hphase hopening =>
    refine .failed (by rw [htext, List.append_assoc]) ?_ hopening
    rw [Phase.run_append_of_eq hfront, hphase]

theorem Split.ready {text rest : List Token} {operand whole : Expr} {front : List Token}
    (h : Split finish text (some operand) rest) (hwhole : whole.tokens = front ++ operand.tokens)
    (hlast : whole.lastToken = operand.lastToken)
    (hfront : Phase.operand.run front = some .operand) :
    (Stage.onward whole).Ready rest ∧ (Stage.onward whole).text rest = front ++ text := by
  cases h with
  | read htext hphase =>
    refine ⟨⟨?_, _, by rw [hlast]⟩, ?_⟩
    · rw [hwhole, Phase.run_append_of_eq hfront, hphase]
    · rw [Stage.text, List.tail_cons, hwhole, htext, List.append_assoc]

/-- What is read is a stretch of the text, and the phases let it be read. -/
theorem Derivation.split (h : Derivation finish stage bound ahead r)
    (hstage : stage.Ready ahead) : Split finish (stage.text ahead) r.value? r.rest := by
  induction h with
  | @obstacle _ ahead _ hopening => exact .failed (List.nil_append ahead).symm rfl hopening
  | @leaf _ t ahead e _ hopening _ ih =>
    have htokens := tokens_of_leaf hopening
    have hready : (Stage.onward e).Ready (t :: ahead) :=
      ⟨by rw [htokens, Phase.run_leaf hopening, Phase.run_nil],
        ahead, by rw [lastToken_of_leaf hopening]⟩
    have h := ih hready
    rwa [Stage.text, htokens] at h
  | @signFailed _ t _ _ _ hopening _ ih =>
    have hfront : Phase.operand.run [t] = some .operand := Phase.run_sign hopening []
    exact (ih trivial).append hfront
  | @sign _ t _ _ _ operand _ hopening _ _ ihoperand ih =>
    have hfront : Phase.operand.run [t] = some .operand := Phase.run_sign hopening []
    obtain ⟨hready, htext⟩ := (ihoperand trivial).ready (Expr.tokens_ofSign t operand)
      (Expr.lastToken_ofSign t operand) hfront
    have h := ih hready
    rwa [htext] at h
  | done _ =>
    obtain ⟨hphase, after, rfl⟩ := hstage
    exact .read rfl hphase
  | blocked _ _ =>
    obtain ⟨hphase, after, hahead⟩ := hstage
    obtain ⟨rfl, rfl⟩ := List.cons.inj hahead
    exact .read rfl hphase
  | @rightFailed _ left _ op ahead _ _ _ hbinary _ ih =>
    have hfront : Phase.operand.run (left.tokens ++ [op]) = some .operand := by
      rw [Phase.run_append_of_eq hstage.1, Phase.run_operator hbinary, Phase.run_nil]
    have h := (ih trivial).append hfront
    rwa [List.append_assoc] at h
  | @joined _ left right _ op ahead _ _ _ _ hbinary _ _ ihright ih =>
    have hfront : Phase.operand.run (left.tokens ++ [op]) = some .operand := by
      rw [Phase.run_append_of_eq hstage.1, Phase.run_operator hbinary, Phase.run_nil]
    have htokens : (Expr.ofOperator op left right).tokens = (left.tokens ++ [op]) ++ right.tokens :=
      by rw [Expr.tokens_ofOperator, List.append_assoc, List.singleton_append]
    obtain ⟨hready, htext⟩ := (ihright trivial).ready htokens
      (Expr.lastToken_ofOperator op left right) hfront
    have h := ih hready
    rwa [htext, List.append_assoc] at h

end LetLang.Grammar
