import LetLang.Proofs.Grammar.Program

/-! Recovery at semicolons. A rule that has not yet reached the last semicolon ahead does not see
what is behind it, and no rule steps over it, so all that follows is read from its own start. -/
namespace LetLang.Grammar

/-- The tokens ahead end in a semicolon. -/
def Closed (ahead : List Token) : Prop :=
  ∃ front semicolon, ahead = front ++ [semicolon] ∧ semicolon.kind = .semicolon

section
variable {t : Token} {ahead : List Token}

theorem Closed.ne_nil (h : Closed ahead) : ahead ≠ [] := by
  obtain ⟨front, semicolon, rfl, _⟩ := h
  simp

theorem Closed.cons (t : Token) (h : Closed ahead) : Closed (t :: ahead) := by
  obtain ⟨front, semicolon, rfl, hkind⟩ := h
  exact ⟨t :: front, semicolon, rfl, hkind⟩

theorem Closed.of_tail (h : Closed ahead.tail) : Closed ahead := by
  cases ahead with
  | nil => exact h
  | cons t ahead => exact h.cons t

theorem Closed.tail_of_ne_nil (h : Closed (t :: ahead)) (hne : ahead ≠ []) : Closed ahead := by
  obtain ⟨front, semicolon, heq, hkind⟩ := h
  cases front with
  | nil =>
    obtain ⟨_, rfl⟩ := List.cons.inj heq
    exact absurd rfl hne
  | cons u front =>
    obtain ⟨_, rfl⟩ := List.cons.inj heq
    exact ⟨front, semicolon, rfl, hkind⟩

theorem Closed.tail (h : Closed (t :: ahead)) (ht : t.kind ≠ .semicolon) : Closed ahead := by
  apply h.tail_of_ne_nil
  rintro rfl
  obtain ⟨front, semicolon, heq, hkind⟩ := h
  cases front with
  | nil =>
    obtain ⟨rfl, _⟩ := List.cons.inj heq
    exact ht hkind
  | cons u front => simp at heq

end

theorem currentToken_append (finish finish' : Location) {ahead : List Token} (h : ahead ≠ [])
    (more : List Token) : currentToken finish' (ahead ++ more) = currentToken finish ahead := by
  cases ahead with
  | nil => exact absurd rfl h
  | cons t ahead => rfl

theorem upcomingToken_append (finish finish' : Location) {ahead : List Token}
    (h : ahead.tail ≠ []) (more : List Token) :
    upcomingToken finish' (ahead ++ more) = upcomingToken finish ahead := by
  cases ahead with
  | nil => exact absurd rfl h
  | cons t ahead => exact currentToken_append finish finish' h more

/-- A semicolon does not start an expression. -/
theorem ne_semicolon_of_opening {t : Token} {o : Opening} (h : opening t = o)
    (ho : ∀ fault, o ≠ .obstacle fault) : t.kind ≠ .semicolon := by
  intro hkind
  rw [opening, hkind] at h
  exact ho _ h.symm

theorem ne_semicolon_of_isBinary {k : Kind} (h : k.isBinary = true) : k ≠ .semicolon := by
  rintro rfl
  cases h

/-- Reading goes on in front of the semicolon. -/
def Stage.Closed (ahead : List Token) : Stage → Prop
  | start => Grammar.Closed ahead
  | onward _ => Grammar.Closed ahead.tail

/-- A failure may stay on the semicolon; an expression ends in front of it. -/
def Reading.Closed (r : Reading Expr) : Prop :=
  match r.value? with
  | none => Grammar.Closed r.rest
  | some _ => Grammar.Closed r.rest.tail

theorem Reading.Closed.rest {r : Reading Expr} (h : r.Closed) : Grammar.Closed r.rest := by
  obtain ⟨value?, rest, trail⟩ := r
  cases value? with
  | none => exact h
  | some e => exact Grammar.Closed.of_tail h

section
variable {finish : Location} {bound : Precedence} {stage : Stage} {ahead : List Token}
  {r : Reading Expr}

theorem Derivation.closed (h : Derivation finish stage bound ahead r)
    (hclosed : stage.Closed ahead) : r.Closed := by
  induction h with
  | obstacle _ => exact hclosed
  | leaf hopening _ ih =>
    apply ih
    exact Closed.tail hclosed (ne_semicolon_of_opening hopening (by simp))
  | signFailed hopening _ ih =>
    apply ih
    exact Closed.tail hclosed (ne_semicolon_of_opening hopening (by simp))
  | sign hopening _ _ ihoperand ih =>
    apply ih
    apply ihoperand
    exact Closed.tail hclosed (ne_semicolon_of_opening hopening (by simp))
  | done _ => exact hclosed
  | blocked _ _ => exact hclosed
  | rightFailed _ hbinary _ ih =>
    apply ih
    exact Closed.tail hclosed (ne_semicolon_of_isBinary hbinary)
  | joined _ hbinary _ _ ihright ih =>
    apply ih
    apply ihright
    exact Closed.tail hclosed (ne_semicolon_of_isBinary hbinary)

/-- What is behind the semicolon does not change how an expression in front of it is read. -/
theorem Derivation.append (h : Derivation finish stage bound ahead r)
    (hclosed : stage.Closed ahead) (finish' : Location) (more : List Token) :
    Derivation finish' stage bound (ahead ++ more) ⟨r.value?, r.rest ++ more, r.trail⟩ := by
  induction h with
  | @obstacle bound ahead fault hopening =>
    have hcurrent := currentToken_append finish finish' (Closed.ne_nil hclosed) more
    rw [← hcurrent] at hopening ⊢
    exact .obstacle hopening
  | leaf hopening _ ih =>
    have hahead := Closed.tail hclosed (ne_semicolon_of_opening hopening (by simp))
    exact .leaf hopening (ih hahead)
  | signFailed hopening _ ih =>
    have hahead := Closed.tail hclosed (ne_semicolon_of_opening hopening (by simp))
    exact .signFailed hopening (ih hahead)
  | sign hopening hoperand _ ihoperand ih =>
    have hahead := Closed.tail hclosed (ne_semicolon_of_opening hopening (by simp))
    exact .sign hopening (ihoperand hahead) (ih (hoperand.closed hahead))
  | done hbound =>
    apply Derivation.done
    rwa [upcomingToken_append finish finish' (Closed.ne_nil hclosed)]
  | blocked hbound hbinary => exact .blocked hbound hbinary
  | rightFailed hbound hbinary _ ih =>
    have hahead := Closed.tail hclosed (ne_semicolon_of_isBinary hbinary)
    exact .rightFailed hbound hbinary (ih hahead)
  | joined hbound hbinary hright _ ihright ih =>
    have hahead := Closed.tail hclosed (ne_semicolon_of_isBinary hbinary)
    exact .joined hbound hbinary (ihright hahead) (ih (hright.closed hahead))

end

section
variable {finish finish' : Location} {ahead more : List Token}

theorem SemicolonSkip.closed {rest : List Token} {skipped : List Action}
    (h : SemicolonSkip finish ahead rest skipped) (hclosed : Closed ahead) : Closed rest := by
  cases h with
  | taken _ => exact hclosed.tail_of_ne_nil (List.cons_ne_nil _ _)
  | absent _ => exact hclosed

/-- Only from the last semicolon can the first token behind it be seen, and it is not taken
unless it is another semicolon. -/
theorem SemicolonSkip.append {rest : List Token} {skipped : List Action}
    (h : SemicolonSkip finish ahead rest skipped) (hclosed : Closed ahead)
    (hmore : (currentToken finish' more).kind ≠ .semicolon) :
    SemicolonSkip finish' (ahead ++ more) (rest ++ more) skipped := by
  cases h with
  | taken hsemicolon => exact .taken hsemicolon
  | absent hsemicolon =>
    apply SemicolonSkip.absent
    match ahead with
    | [] => exact absurd rfl hclosed.ne_nil
    | [last] => exact hmore
    | last :: next :: ahead => exact hsemicolon

/-- Behind the word of a binding, its name and its sign the text is still closed. -/
theorem Closed.of_binding {word name assign : Token} (h : Closed (word :: name :: assign :: ahead))
    (hword : word.kind = .letWord) (hname : name.kind = .identifier)
    (hassign : assign.kind = .assign) : Closed ahead := by
  have hword : word.kind ≠ .semicolon := by simp [hword]
  have hname : name.kind ≠ .semicolon := by simp [hname]
  have hassign : assign.kind ≠ .semicolon := by simp [hassign]
  exact ((h.tail hword).tail hname).tail hassign

theorem Closed.of_returnWord {word : Token} (h : Closed (word :: ahead))
    (hword : word.kind = .returnWord) : Closed ahead :=
  h.tail (by simp [hword])

theorem Closed.of_letWord {word : Token} (h : Closed (word :: ahead))
    (hword : word.kind = .letWord) : Closed ahead :=
  h.tail (by simp [hword])

/-- No statement ends behind the last semicolon. -/
theorem StatementDerivation.closed {r : Reading Statement}
    (h : StatementDerivation finish ahead r) (hclosed : Closed ahead) : Closed r.rest := by
  cases h with
  | nameMissing _ _ => exact hclosed
  | assignMissing hword _ _ => exact hclosed.of_letWord hword
  | valueFailed hword hname hassign hvalue hskip =>
    exact hskip.closed (hvalue.closed (hclosed.of_binding hword hname hassign))
  | semicolonMissing hword hname hassign hvalue _ =>
    exact (hvalue.closed (hclosed.of_binding hword hname hassign)).rest
  | binding hword hname hassign hvalue _ =>
    exact hvalue.closed (hclosed.of_binding hword hname hassign)
  | returningNothing _ _ hskip => exact hskip.closed hclosed
  | returning hword _ hvalue hskip =>
    exact hskip.closed (hvalue.closed (hclosed.of_returnWord hword)).rest
  | bare _ _ hexpr hskip => exact hskip.closed (hexpr.closed hclosed).rest

/-- What is behind the last semicolon does not change how a statement in front of it is read,
whatever is wrong with that statement. -/
theorem StatementDerivation.append {r : Reading Statement}
    (h : StatementDerivation finish ahead r) (hclosed : Closed ahead)
    (hmore : (currentToken finish' more).kind ≠ .semicolon) :
    StatementDerivation finish' (ahead ++ more) ⟨r.value?, r.rest ++ more, r.trail⟩ := by
  cases h with
  | nameMissing hword hname =>
    have hcurrent := currentToken_append finish finish' (hclosed.of_letWord hword).ne_nil more
    rw [← hcurrent] at hname ⊢
    exact .nameMissing hword hname
  | assignMissing hword hname hassign =>
    have hahead := (hclosed.of_letWord hword).tail (by simp [hname])
    have hcurrent := currentToken_append finish finish' hahead.ne_nil more
    rw [← hcurrent] at hassign ⊢
    exact .assignMissing hword hname hassign
  | valueFailed hword hname hassign hvalue hskip =>
    have hahead := hclosed.of_binding hword hname hassign
    exact .valueFailed hword hname hassign (hvalue.append hahead finish' more)
      (hskip.append (hvalue.closed hahead) hmore)
  | @semicolonMissing _ _ _ _ rest _ _ hword hname hassign hvalue hsemicolon =>
    have hahead := hclosed.of_binding hword hname hassign
    have hrest : Closed rest.tail := hvalue.closed hahead
    have hupcoming := upcomingToken_append finish finish' hrest.ne_nil more
    rw [← hupcoming] at hsemicolon ⊢
    exact .semicolonMissing hword hname hassign (hvalue.append hahead finish' more) hsemicolon
  | binding hword hname hassign hvalue hsemicolon =>
    have hahead := hclosed.of_binding hword hname hassign
    exact .binding hword hname hassign (hvalue.append hahead finish' more) hsemicolon
  | returningNothing hword hnext hskip =>
    have hcurrent := currentToken_append finish finish' (hclosed.of_returnWord hword).ne_nil more
    rw [← hcurrent] at hnext
    exact .returningNothing hword hnext (hskip.append hclosed hmore)
  | returning hword hnext hvalue hskip =>
    have hahead := hclosed.of_returnWord hword
    have hcurrent := currentToken_append finish finish' hahead.ne_nil more
    rw [← hcurrent] at hnext
    exact .returning hword hnext (hvalue.append hahead finish' more)
      (hskip.append (hvalue.closed hahead).rest hmore)
  | bare hlet hreturn hexpr hskip =>
    have hcurrent := currentToken_append finish finish' hclosed.ne_nil more
    rw [← hcurrent] at hlet hreturn ⊢
    exact .bare hlet hreturn (hexpr.append hclosed finish' more)
      (hskip.append (hexpr.closed hclosed).rest hmore)

/-- Statements that end in a semicolon and the statements behind it are read on their own. -/
theorem statements_append (hclosed : ahead = [] ∨ Closed ahead)
    (hmore : (currentToken finish' more).kind ≠ .semicolon) :
    statements finish' (ahead ++ more) =
      ((statements finish ahead).1 ++ (statements finish' more).1,
        (statements finish ahead).2 ++ (statements finish' more).2) := by
  fun_induction statements finish ahead with
  | case1 => rfl
  | case2 t ahead r others ih =>
    have hclosed : Closed (t :: ahead) := by simpa using hclosed
    have hd := statement_derivation finish (t :: ahead)
    have hrest : Closed r.rest := hd.closed hclosed
    have htail : r.rest.tail = [] ∨ Closed r.rest.tail := by
      cases h : r.rest with
      | nil => exact .inl rfl
      | cons u rest =>
        rw [h] at hrest
        by_cases hnil : rest = []
        · exact .inl hnil
        · exact .inr (hrest.tail_of_ne_nil hnil)
    rw [statements_of_derivation (hd.append hclosed hmore) (by simp),
      List.tail_append_of_ne_nil hrest.ne_nil, ih htail]
    simp [r, others]

end

end LetLang.Grammar
