import LetLang.Proofs.Grammar.Verdict

/-! Climbing builds the trees that the precedences allow, and each such tree can be climbed
again: its tokens, with nothing behind them that binds tighter, are read back as the tree. -/
namespace LetLang

theorem Numeral.int64?_eq_some_iff_toInt {text : String} {v : Int64} :
    int64? text = some v ↔ ∃ n : Nat, value? text = some n ∧ v.toInt = n := by
  rw [int64?_eq_some_iff]
  constructor
  · rintro ⟨n, hn, hlimit, rfl⟩
    exact ⟨n, hn, toInt_ofNat hlimit⟩
  · rintro ⟨n, hn, hv⟩
    have hlimit : n < limit := by
      have := v.toInt_lt
      unfold limit
      omega
    exact ⟨n, hn, hlimit, Int64.toInt_inj.1 ((toInt_ofNat hlimit).trans hv.symm)⟩

namespace Grammar

variable {finish : Location} {bound : Precedence} {stage : Stage} {ahead : List Token}
  {r : Reading Expr}

theorem opening_eq_sign_iff {t : Token} : opening t = .sign ↔ t.kind ∈ Kind.signs := by
  rw [Kind.mem_signs_iff, opening]
  cases t.kind.lead? with
  | none => simp
  | some lead =>
    cases lead with
    | name => simp
    | sign => simp
    | numeral => cases Numeral.int64? t.literal <;> simp

theorem opening_of_name {identifier : Identifier} (h : (Expr.name identifier).Genuine) :
    opening identifier.token = .leaf (.name identifier) := by
  obtain ⟨token, name⟩ := identifier
  obtain ⟨hkind, hname⟩ := h
  obtain rfl : name = token.literal := hname
  have hkind : token.kind = .identifier := hkind
  simp [opening, hkind, Kind.lead?, Identifier.ofToken]

theorem opening_of_integer {t : Token} {value : Int64} (h : (Expr.integer t value).Genuine) :
    opening t = .leaf (.integer t value) := by
  simp [opening, h.1, Kind.lead?, Numeral.int64?_eq_some_iff_toInt.2 h.2]

theorem leaf_cases {t : Token} {e : Expr} (h : opening t = .leaf e) :
    (e = .name (.ofToken t) ∧ t.kind = .identifier) ∨
      ∃ value, e = .integer t value ∧ t.kind = .integer ∧
        Numeral.int64? t.literal = some value := by
  rw [opening] at h
  split at h
  · cases h
  · next hlead =>
    cases h
    exact .inl ⟨rfl, Kind.lead?_eq_name_iff.1 hlead⟩
  · cases h
  · next hlead =>
    split at h
    · cases h
    · next value hvalue =>
      cases h
      exact .inr ⟨value, rfl, Kind.lead?_eq_numeral_iff.1 hlead, hvalue⟩

theorem tokens_of_leaf {t : Token} {e : Expr} (h : opening t = .leaf e) : e.tokens = [t] := by
  rcases leaf_cases h with ⟨rfl, _⟩ | ⟨value, rfl, _⟩ <;> rfl

theorem lastToken_of_leaf {t : Token} {e : Expr} (h : opening t = .leaf e) : e.lastToken = t := by
  rcases leaf_cases h with ⟨rfl, _⟩ | ⟨value, rfl, _⟩ <;> rfl

theorem joint?_of_leaf {t : Token} {e : Expr} (h : opening t = .leaf e) : e.joint? = none := by
  rcases leaf_cases h with ⟨rfl, _⟩ | ⟨value, rfl, _⟩ <;> rfl

theorem wellFormed_of_leaf {t : Token} {e : Expr} (h : opening t = .leaf e) : e.WellFormed := by
  rcases leaf_cases h with ⟨rfl, hkind⟩ | ⟨value, rfl, hkind, hvalue⟩
  · exact Expr.wellFormed_name.2 ⟨hkind, rfl⟩
  · exact Expr.wellFormed_integer.2 ⟨hkind, Numeral.int64?_eq_some_iff_toInt.1 hvalue⟩

/-- An expression that can stand where it was read: it is well formed, joined tighter than the
bound, and not weaker than what follows, unless an opening parenthesis blocks that. -/
structure Fits (finish : Location) (bound : Precedence) (rest : List Token) (e : Expr) :
    Prop where
  wellFormed : e.WellFormed
  bound_lt : ∀ p ∈ e.joint?, bound < p
  upcoming_le : ∀ p ∈ e.joint?, (upcomingToken finish rest).kind.precedence ≤ p ∨
    (upcomingToken finish rest).kind = .leftParen

/-- A sign binds tighter than all operators, so its operand is not joined. -/
theorem Fits.joint?_eq_none {rest : List Token} {e : Expr} (h : Fits finish .unary rest e) :
    e.joint? = none := by
  cases e with
  | binary token operator left right =>
    have hbinary := Kind.mem_operators_iff.1 h.wellFormed.genuine.1
    have hlt : .unary < token.kind.precedence := h.bound_lt _ rfl
    exact absurd hlt (Nat.lt_asymm (Kind.precedence_lt_unary_of_isBinary hbinary))
  | name _ => rfl
  | integer _ _ => rfl
  | unary _ _ _ => rfl

theorem Fits.of_joint?_eq_none {rest : List Token} {e : Expr} (hwell : e.WellFormed)
    (h : e.joint? = none) : Fits finish bound rest e :=
  ⟨hwell, by simp [h], by simp [h]⟩

theorem Fits.ofSign {rest : List Token} {t : Token} {operand : Expr}
    (hsign : t.kind ∈ Kind.signs) (h : Fits finish .unary rest operand) :
    Fits finish bound rest (.ofSign t operand) :=
  .of_joint?_eq_none (Expr.wellFormed_unary.2 ⟨⟨h.joint?_eq_none, hsign, rfl⟩, h.wellFormed⟩) rfl

theorem Fits.ofOperator {last op : Token} {ahead rest : List Token} {left right : Expr}
    (hbound : bound < op.kind.precedence) (hbinary : op.kind.isBinary = true)
    (hleft : Fits finish bound (last :: op :: ahead) left)
    (hright : Fits finish op.kind.precedence rest right)
    (hrest : ¬ op.kind.precedence < (upcomingToken finish rest).kind.precedence ∨
      (upcomingToken finish rest).kind = .leftParen) :
    Fits finish bound rest (.ofOperator op left right) where
  wellFormed := by
    have hparen : op.kind ≠ .leftParen := by
      intro h
      simp [h, Kind.isBinary] at hbinary
    refine Expr.wellFormed_binary.2 ⟨⟨⟨fun p hp => ?_, hright.bound_lt⟩, ?_, rfl⟩,
      hleft.wellFormed, hright.wellFormed⟩
    · exact (hleft.upcoming_le p hp).resolve_right hparen
    · exact Kind.mem_operators_iff.2 hbinary
  bound_lt := by
    intro p hp
    cases hp
    exact hbound
  upcoming_le := by
    intro p hp
    cases hp
    exact hrest.imp_left Nat.le_of_not_lt

/-- What is at hand when reading goes on from an expression. -/
def Stage.Fits (finish : Location) (bound : Precedence) (ahead : List Token) : Stage → Prop
  | start => True
  | onward left => Grammar.Fits finish bound ahead left

theorem Concludes.upcoming {e : Expr} {rest : List Token} {trail : List Action}
    (h : Concludes finish bound ahead ⟨some e, rest, trail⟩) :
    ¬ bound < (upcomingToken finish rest).kind.precedence ∨
      (upcomingToken finish rest).kind = .leftParen := by
  obtain ⟨_, ds, _, _, _, hverdict⟩ := h
  cases hverdict with
  | ended h => exact .inl h
  | blocked _ h => exact .inr h

/-- Every expression that is read fits its place. -/
theorem Derivation.fits (h : Derivation finish stage bound ahead r)
    (hstage : stage.Fits finish bound ahead) : ∀ e ∈ r.value?, Fits finish bound r.rest e := by
  induction h with
  | obstacle _ => simp
  | leaf hopening _ ih =>
    exact ih (.of_joint?_eq_none (wellFormed_of_leaf hopening) (joint?_of_leaf hopening))
  | signFailed _ _ _ => simp
  | sign hopening _ _ ihoperand ih =>
    exact ih (.ofSign (opening_eq_sign_iff.1 hopening) (ihoperand trivial _ rfl))
  | done _ =>
    intro e he
    cases he
    exact hstage
  | blocked _ _ =>
    intro e he
    cases he
    exact hstage
  | rightFailed _ _ _ _ => simp
  | joined hbound hbinary hright _ ihright ih =>
    refine ih (.ofOperator hbound hbinary hstage (ihright trivial _ rfl) ?_)
    exact (hright.concludes (Kind.precedence_lt_call_of_isBinary hbinary)).upcoming

theorem Fits.operand {rest after : List Token} {t : Token} {operator : String} {operand : Expr}
    (h : Fits finish bound rest (.unary t operator operand)) :
    Fits finish .unary after operand :=
  have hwell := Expr.wellFormed_unary.1 h.wellFormed
  .of_joint?_eq_none hwell.2 hwell.1.1

theorem Fits.left {last t : Token} {rest after : List Token} {operator : String}
    {left right : Expr} (h : Fits finish bound rest (.binary t operator left right)) :
    Fits finish bound (last :: t :: after) left := by
  have hwell := Expr.wellFormed_binary.1 h.wellFormed
  have hbound := h.bound_lt _ rfl
  exact ⟨hwell.2.1, fun p hp => Nat.lt_of_lt_of_le hbound (hwell.1.1.1 p hp),
    fun p hp => .inl (hwell.1.1.1 p hp)⟩

theorem Fits.right {last : Token} {rest after : List Token} {t : Token} {operator : String}
    {left right : Expr} (h : Fits finish bound rest (.binary t operator left right))
    (hnext : (currentToken finish after).kind.precedence ≤ t.kind.precedence) :
    Fits finish t.kind.precedence (last :: after) right := by
  have hwell := Expr.wellFormed_binary.1 h.wellFormed
  refine ⟨hwell.2.2, hwell.1.1.2, fun p hp => .inl ?_⟩
  exact Nat.le_trans hnext (Nat.le_of_lt (hwell.1.1.2 p hp))

/-- Reading the tokens of an expression that fits comes to reading on from the expression. -/
theorem Derivation.ofTokens {e : Expr} {after : List Token}
    (hfits : Fits finish bound (e.lastToken :: after) e)
    (hparen : (currentToken finish after).kind ≠ .leftParen)
    (h : Derivation finish (.onward e) bound (e.lastToken :: after) r) :
    ∃ n, Derivation finish .start bound (e.tokens ++ after)
      ⟨r.value?, r.rest, List.replicate n .pull ++ r.trail⟩ := by
  induction e generalizing bound after r with
  | name identifier => exact ⟨0, .leaf (opening_of_name hfits.wellFormed.genuine) h⟩
  | integer token value => exact ⟨0, .leaf (opening_of_integer hfits.wellFormed.genuine) h⟩
  | unary token operator operand ih =>
    obtain ⟨hsign, rfl⟩ := hfits.wellFormed.genuine
    have hstop : ¬ .unary < (currentToken finish after).kind.precedence := fun hlt =>
      hparen (Kind.unary_lt_precedence_iff.1 hlt)
    obtain ⟨n, hoperand⟩ := ih hfits.operand hparen (.done hstop)
    exact ⟨n + 1, by
      simpa [Expr.tokens, List.replicate_succ] using
        Derivation.sign (opening_eq_sign_iff.2 hsign) hoperand h⟩
  | binary token operator left right ihleft ihright =>
    obtain ⟨hoperator, rfl⟩ := hfits.wellFormed.genuine
    have hbinary := Kind.mem_operators_iff.1 hoperator
    have hnext : (currentToken finish after).kind.precedence ≤ token.kind.precedence :=
      (hfits.upcoming_le _ rfl).resolve_right hparen
    obtain ⟨m, hright⟩ := ihright (hfits.right hnext) hparen (.done (Nat.not_lt.2 hnext))
    have hparen : token.kind ≠ .leftParen := by
      intro h
      simp [h, Kind.isBinary] at hbinary
    obtain ⟨n, h⟩ := ihleft hfits.left hparen (.joined (hfits.bound_lt _ rfl) hbinary hright h)
    exact ⟨n + (m + 2), by
      simpa [Expr.tokens, List.replicate_succ, ← List.replicate_append_replicate] using h⟩

theorem Fits.lowest {e : Expr} {rest : List Token} (h : e.WellFormed)
    (hnext : ¬ .lowest < (upcomingToken finish rest).kind.precedence) :
    Fits finish .lowest rest e := by
  refine ⟨h, fun p hp => ?_, fun p hp => .inl ?_⟩
  · cases e with
    | binary token operator left right =>
      cases hp
      exact Kind.lowest_lt_precedence_of_isBinary (Kind.mem_operators_iff.1 h.genuine.1)
    | name _ => cases hp
    | integer _ _ => cases hp
    | unary _ _ _ => cases hp
  · exact Nat.le_trans (Nat.not_lt.1 hnext) (Nat.zero_le _)

/-- The tokens of a well-formed expression are read as that expression. -/
theorem expression_tokens {e : Expr} (after : List Token) (h : e.WellFormed)
    (hnext : ¬ .lowest < (currentToken finish after).kind.precedence) :
    ∃ n, Derivation finish .start .lowest (e.tokens ++ after)
      ⟨some e, e.lastToken :: after, List.replicate n .pull⟩ := by
  have hparen : (currentToken finish after).kind ≠ .leftParen := fun hkind =>
    hnext (by rw [hkind]; decide)
  obtain ⟨n, hd⟩ := Derivation.ofTokens (.lowest h hnext) hparen (.done hnext)
  exact ⟨n, by simpa using hd⟩

end Grammar

/-- The precedences leave no choice: the tokens determine the tree. -/
theorem Expr.WellFormed.eq_of_tokens_eq {e e' : Expr} (h : e.WellFormed) (h' : e'.WellFormed)
    (htokens : e.tokens = e'.tokens) : e = e' := by
  have hnext := Grammar.not_lt_precedence_finish .lowest .start
  obtain ⟨n, hd⟩ := Grammar.expression_tokens [] h hnext
  obtain ⟨m, hd'⟩ := Grammar.expression_tokens [] h' hnext
  rw [htokens] at hd
  have hvalue := congrArg Grammar.Reading.value? (hd.run_eq.symm.trans hd'.run_eq)
  exact Option.some.inj hvalue

end LetLang
