import LetLang.Proofs.Grammar.Program

/-! What faults say. A fault describes the token it was found at, and a statement finds fault with
one token at most: the first one that could not be taken. -/
namespace LetLang

/-- What a fault says is so of the token. -/
def Fault.Describes (t : Token) : Fault → Prop
  | unexpected expected found =>
    found = t.kind ∧ expected ≠ t.kind ∧ expected ∈ [.identifier, .assign, .semicolon]
  | cannotStart kind => kind = t.kind ∧ t.kind.lead? = none
  | cannotContinue kind => kind = t.kind ∧ t.kind = .leftParen
  | outOfRange literal =>
    t.kind = .integer ∧ literal = t.literal ∧ Numeral.int64? literal = none

namespace Grammar

variable {finish : Location} {ahead : List Token} {t : Token}

/-- All faults on a trail are found at the token and describe it. -/
def Blames (t : Token) (trail : List Action) : Prop :=
  ∀ d, .fault d ∈ trail → d.location = t.location ∧ d.fault.Describes t

@[simp] theorem blames_pull_cons {trail : List Action} :
    Blames t (.pull :: trail) ↔ Blames t trail := by
  simp [Blames]

theorem Blames.of_cons {a : Action} {trail : List Action} (h : Blames t (a :: trail)) :
    Blames t trail :=
  fun d hd => h d (List.mem_cons_of_mem a hd)

@[simp] theorem blames_append {front back : List Action} :
    Blames t (front ++ back) ↔ Blames t front ∧ Blames t back := by
  simp only [Blames, List.mem_append, or_imp]
  exact forall_and

theorem blames_fault {fault : Fault} (h : fault.Describes t) :
    Blames t [.fault ⟨fault, t.location⟩] := by
  intro d hd
  simp only [List.mem_singleton, Action.fault.injEq] at hd
  subst hd
  exact ⟨rfl, h⟩

theorem Quiet.blames {trail : List Action} (h : Quiet trail) : Blames t trail := by
  intro d hd
  cases h _ hd

theorem blames_unexpected {kind : Kind} (hkind : kind ∈ [.identifier, .assign, .semicolon])
    (hne : t.kind ≠ kind) : Blames t [.fault ⟨.unexpected kind t.kind, t.location⟩] :=
  blames_fault ⟨rfl, hne.symm, hkind⟩

theorem describes_of_obstacle {fault : Fault} (h : opening t = .obstacle fault) :
    fault.Describes t := by
  rw [opening] at h
  split at h
  · next hlead =>
    cases h
    exact ⟨rfl, hlead⟩
  · cases h
  · cases h
  · next hlead =>
    split at h
    · next hvalue =>
      cases h
      exact ⟨Kind.lead?_eq_numeral_iff.1 hlead, rfl, hvalue⟩
    · cases h

/-- The tokens that a reading has not taken. A failure has not taken the one it stays on. -/
def Reading.untaken (r : Reading Expr) : List Token :=
  match r.value? with
  | none => r.rest
  | some _ => r.rest.tail

theorem Reading.tail_rest_isSuffix_untaken (r : Reading Expr) : r.rest.tail <:+ r.untaken := by
  obtain ⟨value?, rest, trail⟩ := r
  cases value? with
  | none => exact List.tail_suffix rest
  | some e => exact List.suffix_refl _

theorem Reading.untaken_isSuffix_rest (r : Reading Expr) : r.untaken <:+ r.rest := by
  obtain ⟨value?, rest, trail⟩ := r
  cases value? with
  | none => exact List.suffix_refl _
  | some e => exact List.tail_suffix rest

/-- A reading finds fault with nothing but the first token it has not taken. -/
theorem Derivation.blames {bound : Precedence} {stage : Stage} {r : Reading Expr}
    (h : Derivation finish stage bound ahead r) (hbound : bound < .call) :
    Blames (currentToken finish r.untaken) r.trail := by
  obtain ⟨n, ds, _, _, htrail, hverdict⟩ := h.concludes hbound
  obtain ⟨value?, rest, trail⟩ := r
  rw [htrail, blames_append]
  refine ⟨(quiet_replicate_pull n).blames, ?_⟩
  cases hverdict with
  | failed hopening => exact blames_fault (describes_of_obstacle hopening)
  | ended _ => exact quiet_nil.blames
  | blocked m hparen =>
    intro d hd
    simp only [List.map_replicate, List.mem_replicate, Action.fault.injEq] at hd
    obtain ⟨_, rfl⟩ := hd
    exact ⟨rfl, hparen.symm, hparen⟩

theorem SemicolonSkip.tail_isSuffix_tail {rest : List Token} {skipped : List Action}
    (h : SemicolonSkip finish ahead rest skipped) : rest.tail <:+ ahead.tail := by
  cases h with
  | taken _ => exact List.suffix_cons _ _
  | absent _ => exact List.suffix_refl _

/-- What is wrong with the tokens ahead is wrong with one of them, and none of the rest comes
before that one. -/
def Singled (finish : Location) (ahead rest : List Token) (trail : List Action) : Prop :=
  ∃ untaken, untaken <:+ ahead ∧ rest <:+ untaken ∧ Blames (currentToken finish untaken) trail

theorem Singled.mono {ahead' rest : List Token} {trail : List Action}
    (h : Singled finish ahead rest trail) (hahead : ahead <:+ ahead') :
    Singled finish ahead' rest trail := by
  obtain ⟨untaken, hsuffix, hrest, hblames⟩ := h
  exact ⟨untaken, hsuffix.trans hahead, hrest, hblames⟩

@[simp] theorem singled_pull_cons {rest : List Token} {trail : List Action} :
    Singled finish ahead rest (.pull :: trail) ↔ Singled finish ahead rest trail := by
  simp [Singled]

theorem Quiet.singled {rest : List Token} {trail : List Action} (h : Quiet trail)
    (hrest : rest <:+ ahead) : Singled finish ahead rest trail :=
  ⟨rest, hrest, List.suffix_refl _, h.blames⟩

theorem Derivation.singled {value? : Option Expr} {rest rest' : List Token}
    {trail skipped : List Action}
    (h : Derivation finish .start .lowest ahead ⟨value?, rest, trail⟩)
    (hskip : SemicolonSkip finish rest rest' skipped) :
    Singled finish ahead rest'.tail (trail ++ skipped) := by
  have hlowest : Precedence.lowest < .call := by decide
  let r : Reading Expr := ⟨value?, rest, trail⟩
  refine ⟨r.untaken, r.untaken_isSuffix_rest.trans (h.rest_isSuffix hlowest), ?_, ?_⟩
  · exact hskip.tail_isSuffix_tail.trans r.tail_rest_isSuffix_untaken
  · exact blames_append.2 ⟨h.blames hlowest, hskip.quiet.blames⟩

/-- A statement finds fault with one token at most, and no token behind the statement comes before
that one. -/
theorem StatementDerivation.singled {r : Reading Statement}
    (h : StatementDerivation finish ahead r) : Singled finish ahead r.rest.tail r.trail := by
  have hlowest : Precedence.lowest < .call := by decide
  cases h with
  | @nameMissing _ ahead _ hname =>
    exact ⟨ahead, List.suffix_cons _ _, List.suffix_refl _, blames_unexpected (by simp) hname⟩
  | @assignMissing _ _ ahead _ _ hassign =>
    refine singled_pull_cons.2 ⟨ahead, List.suffix_append [_, _] _, List.suffix_refl _, ?_⟩
    exact blames_unexpected (by simp) hassign
  | valueFailed _ _ _ hvalue hskip =>
    simp only [singled_pull_cons]
    exact (hvalue.singled hskip).mono (List.suffix_append [_, _, _] _)
  | @semicolonMissing _ _ _ _ rest _ _ _ _ _ hvalue hsemicolon =>
    simp only [singled_pull_cons]
    have hsuffix := (List.tail_suffix rest).trans (hvalue.rest_isSuffix hlowest)
    have hfault := blames_unexpected (by simp) hsemicolon
    exact Singled.mono ⟨rest.tail, hsuffix, List.suffix_refl _,
      blames_append.2 ⟨hvalue.blames hlowest, hfault⟩⟩ (List.suffix_append [_, _, _] _)
  | @binding _ _ _ last semicolon _ rest _ _ _ _ _ hvalue _ =>
    simp only [singled_pull_cons]
    have hsuffix := (List.suffix_cons last _).trans (hvalue.rest_isSuffix hlowest)
    exact Singled.mono ⟨semicolon :: rest, hsuffix, List.suffix_cons _ _,
      blames_append.2 ⟨hvalue.blames hlowest, by simp [Blames]⟩⟩ (List.suffix_append [_, _, _] _)
  | returningNothing _ _ hskip =>
    exact hskip.quiet.singled ((List.tail_suffix _).trans hskip.rest_isSuffix)
  | returning _ _ hvalue hskip =>
    exact singled_pull_cons.2 ((hvalue.singled hskip).mono (List.suffix_cons _ _))
  | bare _ _ hexpr hskip => exact hexpr.singled hskip

theorem currentToken_mem_of_isSuffix {rest : List Token} (h : rest <:+ ahead) :
    currentToken finish rest ∈ ahead ++ [.finish finish] := by
  cases rest with
  | nil => exact List.mem_append_right _ (List.mem_singleton_self _)
  | cons t rest => exact List.mem_append_left _ (h.subset List.mem_cons_self)

/-- Every fault found in a text describes one of its tokens, or its end. -/
theorem exists_described_of_fault {d : Diagnostic} (h : .fault d ∈ (statements finish ahead).2) :
    ∃ t ∈ ahead ++ [.finish finish], t.location = d.location ∧ d.fault.Describes t := by
  fun_induction statements finish ahead with
  | case1 => cases h
  | case2 t ahead r others ih =>
    rcases List.mem_append.1 h with h | h
    · obtain ⟨untaken, hsuffix, _, hblames⟩ := (statement_derivation finish (t :: ahead)).singled
      obtain ⟨hplace, hdescribes⟩ := hblames d h
      exact ⟨_, currentToken_mem_of_isSuffix hsuffix, hplace.symm, hdescribes⟩
    · obtain ⟨u, hu, hfault⟩ := ih (List.mem_of_ne_of_mem (by simp) h)
      have hsubset := (tail_rest_statement_isSuffix finish (t :: ahead)).subset
      exact ⟨u, List.append_subset.2 ⟨List.subset_append_of_subset_left _ hsubset,
        List.subset_append_right _ _⟩ hu, hfault⟩

end Grammar

end LetLang
