import LetLang.Proofs.Grammar.Program
import LetLang.Proofs.Language.Basic
import LetLang.Proofs.Parser
import LetLang.Proofs.Scanner.Tokens

/-! Which texts are accepted: those in the language, for whatever way there is to split them. The
rules always take the longest expression, and a text that is in the language for some split still
is for that one. -/
namespace LetLang

namespace Grammar

open Language

variable {finish : Location} {ahead : List Token}

/-- An expression that is read without complaint is a chain, as long as can be. -/
theorem Derivation.chain_of_quiet {r : Reading Expr}
    (h : Derivation finish .start .lowest ahead r) (hquiet : Quiet r.trail) :
    ∃ e after, r.value? = some e ∧ r.rest = e.lastToken :: after ∧ ahead = e.tokens ++ after ∧
      Chain e.tokens := by
  have hsome := (((h.concludes (by decide)).quiet_iff (by decide)).1 hquiet).1
  have hsplit := h.split trivial
  obtain ⟨value?, rest, trail⟩ := r
  cases hsplit with
  | read htext hphase => exact ⟨_, _, rfl, rfl, htext, chain_iff_run.2 hphase⟩
  | failed _ _ _ => cases hsome

theorem not_binds_of_isBinary {k : Kind} (h : k.isBinary = true) :
    ¬ (¬ Precedence.lowest < k.precedence ∨ k = .leftParen) := by
  intro hor
  cases hor with
  | inl hnot => exact hnot (Kind.lowest_lt_precedence_of_isBinary h)
  | inr hparen => simp [hparen, Kind.isBinary] at h

/-- A chain that cannot go on is the expression read, wherever the text is split. -/
theorem Split.of_chain {value? : Option Expr} {ts rest after : List Token}
    (h : Split finish (ts ++ rest) value? after) (hts : Chain ts)
    (hrest : ¬ .lowest < (currentToken finish rest).kind.precedence)
    (hafter : ∀ e ∈ value?, ¬ .lowest < (upcomingToken finish after).kind.precedence ∨
      (upcomingToken finish after).kind = .leftParen) :
    ∃ e, value? = some e ∧ after = e.lastToken :: rest := by
  have hrun := chain_iff_run.1 hts
  cases h with
  | @failed front after fault htext hphase hopening =>
    exfalso
    rcases List.append_eq_append_iff.1 htext with ⟨more, rfl, rfl⟩ | ⟨more, rfl, rfl⟩
    · rw [Phase.run_append_of_eq hrun] at hphase
      cases more with
      | nil => cases hphase
      | cons t more =>
        exact hrest (Kind.lowest_lt_precedence_of_isBinary (Phase.isBinary_of_run_operator hphase))
    · rw [Phase.run_append_of_eq hphase] at hrun
      cases more with
      | nil => cases hrun
      | cons t more =>
        have hopening : opening t = .obstacle fault := hopening
        rw [Phase.run_obstacle hopening] at hrun
        cases hrun
  | @read e after htext hphase =>
    refine ⟨e, rfl, ?_⟩
    rcases List.append_eq_append_iff.1 htext with ⟨more, hmore, rfl⟩ | ⟨more, rfl, rfl⟩
    · rw [hmore, Phase.run_append_of_eq hrun] at hphase
      cases more with
      | nil => rfl
      | cons t more =>
        exact absurd (Kind.lowest_lt_precedence_of_isBinary
          (Phase.isBinary_of_run_operator hphase)) hrest
    · rw [Phase.run_append_of_eq hphase] at hrun
      cases more with
      | nil => rfl
      | cons t more =>
        exact absurd (hafter e rfl) (not_binds_of_isBinary (Phase.isBinary_of_run_operator hrun))

theorem Derivation.munch {r : Reading Expr} {ts rest : List Token}
    (h : Derivation finish .start .lowest (ts ++ rest) r) (hts : Chain ts)
    (hrest : ¬ .lowest < (currentToken finish rest).kind.precedence) :
    Quiet r.trail ∧ ∃ e, r.value? = some e ∧ r.rest = e.lastToken :: rest := by
  have hconcludes := h.concludes (by decide)
  have hsplit := (h.split trivial).of_chain hts hrest (by
    obtain ⟨value?, after, trail⟩ := r
    intro e he
    cases he
    exact hconcludes.upcoming)
  obtain ⟨e, hvalue, hafter⟩ := hsplit
  refine ⟨(hconcludes.quiet_iff (by decide)).2 ⟨?_, ?_⟩, e, hvalue, hafter⟩
  · rw [hvalue]
    rfl
  · rwa [hafter, upcomingToken_cons]

/-- Where a phrase may end: at a semicolon, or at once. -/
theorem SemicolonSkip.text_append {phrase after rest : List Token} {last : Token}
    {skipped : List Action} (h : SemicolonSkip finish (last :: after) rest skipped)
    (hopen : Phrase phrase)
    (hclosed : ∀ semicolon : Token, semicolon.kind = .semicolon → Phrase (phrase ++ [semicolon]))
    (hrest : Text rest.tail) : Text (phrase ++ after) := by
  cases h with
  | absent _ => exact .cons hopen hrest
  | @taken _ semicolon after hsemicolon =>
    have h := Text.cons (hclosed semicolon hsemicolon) hrest
    rwa [List.append_assoc] at h

/-- A statement that is read without complaint is a phrase, in front of the text behind it. -/
theorem StatementDerivation.text {r : Reading Statement} (h : StatementDerivation finish ahead r)
    (hquiet : Quiet r.trail) (hahead : ∀ t ∈ ahead, t.kind ≠ .endOfInput)
    (hrest : Text r.rest.tail) : Text ahead := by
  cases h with
  | nameMissing _ _ => simp at hquiet
  | assignMissing _ _ _ => simp at hquiet
  | valueFailed _ _ _ hvalue _ =>
    simp only [quiet_pull_cons, quiet_append] at hquiet
    obtain ⟨e, after, hsome, _⟩ := hvalue.chain_of_quiet hquiet.1
    cases hsome
  | semicolonMissing _ _ _ _ _ => simp at hquiet
  | binding hword hname hassign hvalue hsemicolon =>
    simp only [quiet_pull_cons, quiet_append] at hquiet
    obtain ⟨e, after, _, hlast, rfl, hchain⟩ := hvalue.chain_of_quiet hquiet.1
    obtain ⟨rfl, rfl⟩ := List.cons.inj hlast
    have h := Text.cons (.binding hword hname hassign hchain hsemicolon) hrest
    simpa using h
  | @returningNothing word ahead _ _ hword hnext hskip =>
    cases ahead with
    | nil => exact .returning hword
    | cons t ahead =>
      cases hskip with
      | taken hsemicolon => exact .cons (.returningNothing hword hsemicolon) hrest
      | absent hsemicolon => exact absurd (hnext.resolve_left hsemicolon) (hahead t (by simp))
  | returning hword _ hvalue hskip =>
    simp only [quiet_pull_cons, quiet_append] at hquiet
    obtain ⟨e, after, rfl, rfl, rfl, hchain⟩ := hvalue.chain_of_quiet hquiet.1
    exact hskip.text_append (.returning hword hchain)
      (fun _ h => .returningClosed hword hchain h) hrest
  | bare _ _ hexpr hskip =>
    simp only [quiet_append] at hquiet
    obtain ⟨e, after, rfl, rfl, rfl, hchain⟩ := hexpr.chain_of_quiet hquiet.1
    exact hskip.text_append (.bare hchain) (fun _ h => .bareClosed hchain h) hrest

theorem exists_semicolonSkip_of_behind (finish : Location) {after : List Token} (last : Token)
    (h : Behind after) :
    ∃ rest skipped, SemicolonSkip finish (last :: after) rest skipped ∧ Text rest.tail := by
  cases h with
  | «open» h => exact ⟨_, _, .absent (h.currentToken_kind_ne finish), h⟩
  | closed hsemicolon h => exact ⟨_, _, .taken hsemicolon, h⟩

-- The expression may be longer than `ts`, but what is left behind it is a text again.
theorem exists_derivation_of_chain (finish : Location) {ts rest : List Token} (hts : Chain ts)
    (hrest : Behind rest) :
    ∃ e after trail rest' skipped,
      Derivation finish .start .lowest (ts ++ rest) ⟨some e, after, trail⟩ ∧ Quiet trail ∧
        SemicolonSkip finish after rest' skipped ∧ Text rest'.tail := by
  obtain ⟨us, after, hsplit, hus, hafter, hnot⟩ := hrest.exists_longest finish hts
  have h := derivation_expression finish .lowest (us ++ after)
  obtain ⟨hquiet, e, hvalue, hplace⟩ := h.munch hus hnot
  obtain ⟨rest', skipped, hskip, htext⟩ :=
    exists_semicolonSkip_of_behind finish e.lastToken hafter
  refine ⟨e, _, _, rest', skipped, ?_, hquiet, hskip, htext⟩
  rw [hsplit, ← hvalue, ← hplace]
  exact h

theorem exists_derivation_of_returning {word : Token} {ts rest : List Token}
    (hword : word.kind = .returnWord) (hts : Chain ts) (hrest : Behind rest) :
    ∃ r, StatementDerivation finish (word :: (ts ++ rest)) r ∧ Quiet r.trail ∧
      Text r.rest.tail := by
  obtain ⟨e, after, trail, rest', skipped, h, hquiet, hskip, htext⟩ :=
    exists_derivation_of_chain finish hts hrest
  obtain ⟨t, us, rfl, hlead⟩ := hts.exists_cons
  refine ⟨_, .returning hword ?_ h hskip, ?_, htext⟩
  · intro hnext
    cases hnext with
    | inl hkind => exact Kind.ne_of_lead? hlead rfl hkind
    | inr hkind => exact Kind.ne_of_lead? hlead rfl hkind
  · simp [hquiet, hskip.quiet]

theorem exists_derivation_of_bare {ts rest : List Token} (hts : Chain ts) (hrest : Behind rest) :
    ∃ r, StatementDerivation finish (ts ++ rest) r ∧ Quiet r.trail ∧ Text r.rest.tail := by
  obtain ⟨e, after, trail, rest', skipped, h, hquiet, hskip, htext⟩ :=
    exists_derivation_of_chain finish hts hrest
  obtain ⟨t, us, rfl, hlead⟩ := hts.exists_cons
  refine ⟨_, .bare ?_ ?_ h hskip, ?_, htext⟩
  · exact Kind.ne_of_lead? hlead rfl
  · exact Kind.ne_of_lead? hlead rfl
  · simp [hquiet, hskip.quiet]

theorem exists_derivation_of_binding {word name assign semicolon : Token} {ts rest : List Token}
    (hword : word.kind = .letWord) (hname : name.kind = .identifier)
    (hassign : assign.kind = .assign) (hts : Chain ts) (hsemicolon : semicolon.kind = .semicolon)
    (hrest : Text rest) :
    ∃ r, StatementDerivation finish (word :: name :: assign :: (ts ++ semicolon :: rest)) r ∧
      Quiet r.trail ∧ Text r.rest.tail := by
  have h := derivation_expression finish .lowest (ts ++ semicolon :: rest)
  obtain ⟨hquiet, e, hvalue, hplace⟩ := h.munch hts (not_lt_of_kind hsemicolon)
  rcases hr : expression .lowest finish (ts ++ semicolon :: rest) with ⟨value?, after, trail⟩
  rw [hr] at h hquiet hvalue hplace
  obtain rfl : value? = some e := hvalue
  obtain rfl : after = e.lastToken :: semicolon :: rest := hplace
  refine ⟨_, .binding hword hname hassign h hsemicolon, ?_, hrest⟩
  simpa using hquiet

theorem exists_derivation_of_text (finish : Location) (h : Text ahead) (hne : ahead ≠ []) :
    ∃ r, StatementDerivation finish ahead r ∧ Quiet r.trail ∧ Text r.rest.tail := by
  cases h with
  | nil => exact absurd rfl hne
  | returning hword =>
    exact ⟨_, .returningNothing hword (.inr rfl) (.absent nofun), quiet_nil, .nil⟩
  | @cons phrase rest hphrase hrest =>
    cases hphrase with
    | binding hword hname hassign hts hsemicolon =>
      simpa using exists_derivation_of_binding hword hname hassign hts hsemicolon hrest
    | returning hword hts => exact exists_derivation_of_returning hword hts (.open hrest)
    | returningClosed hword hts hsemicolon =>
      simpa using exists_derivation_of_returning hword hts (.closed hsemicolon hrest)
    | returningNothing hword hsemicolon =>
      exact ⟨_, .returningNothing hword (.inl hsemicolon) (.taken hsemicolon), by simp, hrest⟩
    | bare hts => exact exists_derivation_of_bare hts (.open hrest)
    | bareClosed hts hsemicolon =>
      rw [List.append_assoc]
      exact exists_derivation_of_bare hts (.closed hsemicolon hrest)

/-- A whole run is quiet just when its tokens form a text. -/
theorem quiet_statements_iff (hahead : ∀ t ∈ ahead, t.kind ≠ .endOfInput) :
    Quiet (statements finish ahead).2 ↔ Text ahead := by
  fun_induction statements finish ahead with
  | case1 => simp [Text.nil]
  | case2 t ahead r others ih =>
    have hsuffix := tail_rest_statement_isSuffix finish (t :: ahead)
    have ih := ih fun u hu => hahead u (hsuffix.subset hu)
    simp only [quiet_append, quiet_pull_cons]
    constructor
    · rintro ⟨hquiet, hothers⟩
      exact (statement_derivation finish _).text hquiet hahead (ih.1 hothers)
    · intro htext
      obtain ⟨r', h, hquiet, hrest⟩ := exists_derivation_of_text finish htext (List.cons_ne_nil _ _)
      obtain rfl : r = r' := h.run_eq
      exact ⟨hquiet, ih.2 hrest⟩

end Grammar

/-- Nothing is reported about a source just when its tokens are in the language. -/
theorem diagnostics_eq_nil_iff (source : Source) :
    (parse source).2 = [] ↔ Language.Text (tokenize source).dropLast := by
  rw [diagnostics_eq_nil_iff_quiet, dropLast_tokenize, readings]
  exact Grammar.quiet_statements_iff fun t => Scanner.kind_ne_endOfInput_of_mem

end LetLang
