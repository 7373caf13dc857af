import LetLang.Proofs.Grammar.Statement
import LetLang.Proofs.Tree.Relocation

/-! Reading does not depend on places. The same tokens at other places are read to the same trees
and the same faults, moved along with them. -/
namespace LetLang.Grammar

variable (f : Location → Location)

def Action.relocate : Action → Action
  | pull => pull
  | fault d => fault (d.relocate f)

def Reading.relocate {α : Type} (g : α → α) (r : Reading α) : Reading α :=
  ⟨r.value?.map g, r.rest.map (Token.relocate f), r.trail.map (Action.relocate f)⟩

@[simp] theorem Action.relocate_pull : pull.relocate f = pull := rfl

@[simp] theorem Action.relocate_fault (d : Diagnostic) :
    (fault d).relocate f = fault (d.relocate f) := rfl

section
variable {α : Type} (g : α → α) (r : Reading α)

@[simp] theorem Reading.value?_relocate : (r.relocate f g).value? = r.value?.map g := rfl

@[simp] theorem Reading.rest_relocate :
    (r.relocate f g).rest = r.rest.map (Token.relocate f) := rfl

@[simp] theorem Reading.trail_relocate :
    (r.relocate f g).trail = r.trail.map (Action.relocate f) := rfl

@[simp] theorem Reading.relocate_mk (value? : Option α) (rest : List Token)
    (trail : List Action) : (Reading.mk value? rest trail).relocate f g =
      ⟨value?.map g, rest.map (Token.relocate f), trail.map (Action.relocate f)⟩ := rfl

end

def Opening.relocate : Opening → Opening
  | leaf e => leaf (e.relocate f)
  | sign => sign
  | obstacle fault => obstacle fault

@[simp] def Stage.relocate : Stage → Stage
  | start => start
  | onward left => onward (left.relocate f)

theorem currentToken_relocate (finish : Location) (ahead : List Token) :
    currentToken (f finish) (ahead.map (Token.relocate f)) =
      (currentToken finish ahead).relocate f := by
  cases ahead <;> rfl

theorem upcomingToken_relocate (finish : Location) (ahead : List Token) :
    upcomingToken (f finish) (ahead.map (Token.relocate f)) =
      (upcomingToken finish ahead).relocate f := by
  cases ahead with
  | nil => rfl
  | cons t ahead => exact currentToken_relocate f finish ahead

theorem opening_relocate (t : Token) : opening (t.relocate f) = (opening t).relocate f := by
  unfold opening
  rw [Token.kind_relocate, Token.literal_relocate]
  cases t.kind.lead? with
  | none => rfl
  | some lead =>
    cases lead with
    | name => rfl
    | sign => rfl
    | numeral => cases Numeral.int64? t.literal <;> rfl

theorem opening_relocate_of_eq {t : Token} {o : Opening} (h : opening t = o) :
    opening (t.relocate f) = o.relocate f := by
  rw [opening_relocate, h]

variable {finish : Location} {ahead : List Token}

theorem Derivation.relocate {bound : Precedence} {stage : Stage} {r : Reading Expr}
    (h : Derivation finish stage bound ahead r) :
    Derivation (f finish) (stage.relocate f) bound (ahead.map (Token.relocate f))
      (r.relocate f (Expr.relocate f)) := by
  induction h with
  | @obstacle bound ahead fault hopening =>
    have hmoved := opening_relocate_of_eq f hopening
    rw [← currentToken_relocate] at hmoved
    have h : Derivation (f finish) .start bound _ _ := .obstacle hmoved
    rwa [currentToken_relocate] at h
  | leaf hopening _ ih => exact .leaf (opening_relocate_of_eq f hopening) ih
  | signFailed hopening _ ih => exact .signFailed (opening_relocate_of_eq f hopening) ih
  | sign hopening _ _ ihoperand ih =>
    have h := Derivation.sign (opening_relocate_of_eq f hopening) ihoperand ih
    simpa using h
  | done hbound =>
    apply Derivation.done
    rwa [upcomingToken_relocate]
  | blocked hbound hbinary => exact .blocked hbound hbinary
  | rightFailed hbound hbinary _ ih => exact .rightFailed hbound hbinary ih
  | @joined bound left _ last op ahead _ _ _ hbound hbinary _ _ ihright ih =>
    have hbound : bound < (op.relocate f).kind.precedence := hbound
    have h : Derivation (f finish) (.onward (left.relocate f)) bound
        (last.relocate f :: op.relocate f :: ahead.map (Token.relocate f)) _ :=
      .joined hbound hbinary ihright ih
    simpa using h

theorem SemicolonSkip.relocate {rest : List Token} {skipped : List Action}
    (h : SemicolonSkip finish ahead rest skipped) :
    SemicolonSkip (f finish) (ahead.map (Token.relocate f)) (rest.map (Token.relocate f))
      (skipped.map (Action.relocate f)) := by
  cases h with
  | taken hsemicolon => exact .taken hsemicolon
  | absent hsemicolon =>
    apply SemicolonSkip.absent
    rwa [upcomingToken_relocate]

theorem StatementDerivation.relocate {r : Reading Statement}
    (h : StatementDerivation finish ahead r) :
    StatementDerivation (f finish) (ahead.map (Token.relocate f))
      (r.relocate f (Statement.relocate f)) := by
  cases h with
  | @nameMissing word ahead hword hname =>
    have h : StatementDerivation (f finish) (word.relocate f :: ahead.map (Token.relocate f)) _ :=
      .nameMissing hword (by rwa [currentToken_relocate])
    rwa [currentToken_relocate] at h
  | @assignMissing word name ahead hword hname hassign =>
    have h : StatementDerivation (f finish)
        (word.relocate f :: name.relocate f :: ahead.map (Token.relocate f)) _ :=
      .assignMissing hword hname (by rwa [currentToken_relocate])
    rwa [currentToken_relocate] at h
  | @valueFailed word name assign _ _ _ _ _ hword hname hassign hvalue hskip =>
    have hword : (word.relocate f).kind = .letWord := hword
    have hname : (name.relocate f).kind = .identifier := hname
    have hassign : (assign.relocate f).kind = .assign := hassign
    have h := StatementDerivation.valueFailed hword hname hassign (hvalue.relocate f)
      (hskip.relocate f)
    simpa using h
  | @semicolonMissing word name assign _ _ _ _ hword hname hassign hvalue hsemicolon =>
    have hword : (word.relocate f).kind = .letWord := hword
    have hname : (name.relocate f).kind = .identifier := hname
    have hassign : (assign.relocate f).kind = .assign := hassign
    have h := StatementDerivation.semicolonMissing hword hname hassign (hvalue.relocate f)
      (by rwa [upcomingToken_relocate])
    rw [upcomingToken_relocate] at h
    simpa [Diagnostic.relocate] using h
  | @binding word name assign _ _ _ _ _ _ hword hname hassign hvalue hsemicolon =>
    have hword : (word.relocate f).kind = .letWord := hword
    have hname : (name.relocate f).kind = .identifier := hname
    have hassign : (assign.relocate f).kind = .assign := hassign
    have h := StatementDerivation.binding hword hname hassign (hvalue.relocate f) hsemicolon
    simpa [Statement.relocate] using h
  | @returningNothing word _ _ _ hword hnext hskip =>
    have hword : (word.relocate f).kind = .returnWord := hword
    exact .returningNothing hword (by rwa [currentToken_relocate]) (hskip.relocate f)
  | @returning word _ _ _ _ _ _ hword hnext hvalue hskip =>
    have hword : (word.relocate f).kind = .returnWord := hword
    have h := StatementDerivation.returning hword (by rwa [currentToken_relocate])
      (hvalue.relocate f) (hskip.relocate f)
    simpa [Statement.relocate] using h
  | bare hlet hreturn hexpr hskip =>
    have h := StatementDerivation.bare (by rwa [currentToken_relocate])
      (by rwa [currentToken_relocate]) (hexpr.relocate f) (hskip.relocate f)
    rw [currentToken_relocate] at h
    simpa [Statement.relocate, Function.comp_def] using h

theorem statement_relocate (finish : Location) (ahead : List Token) :
    statement (f finish) (ahead.map (Token.relocate f)) =
      (statement finish ahead).relocate f (Statement.relocate f) :=
  ((statement_derivation finish ahead).relocate f).run_eq

theorem statements_relocate (finish : Location) (ahead : List Token) :
    statements (f finish) (ahead.map (Token.relocate f)) =
      ((statements finish ahead).1.map (Statement.relocate f),
        (statements finish ahead).2.map (Action.relocate f)) := by
  fun_induction statements finish ahead with
  | case1 =>
    rw [List.map_nil, statements]
    rfl
  | case2 t ahead r others ih =>
    rw [List.map_cons, statements, ← List.map_cons, statement_relocate, Reading.rest_relocate,
      ← List.map_tail, ih]
    cases h : r.value? <;> simp [r, others, h]

end LetLang.Grammar
