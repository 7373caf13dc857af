import LetLang.Proofs.Grammar.Pace
import LetLang.Proofs.Grammar.Places

/-! Texts that end too soon. A text may end where an expression is due. Then this is the last fault
that is found, and one token is pulled behind the end; in all other cases there is neither. -/
namespace LetLang.Grammar

/-- The fault of a text that ends where an expression is due. -/
def shortage (finish : Location) : Diagnostic := ⟨.cannotStart .endOfInput, finish⟩

/-- No expression was due at the end of the text. -/
def Supplied (trail : List Action) : Prop :=
  ∀ d, .fault d ∈ trail → d.fault ≠ .cannotStart .endOfInput

section
variable {finish : Location} {front back trail : List Action} {t : Token}

@[simp] theorem supplied_pull_cons : Supplied (.pull :: trail) ↔ Supplied trail := by
  simp [Supplied]

@[simp] theorem supplied_append : Supplied (front ++ back) ↔ Supplied front ∧ Supplied back := by
  simp only [Supplied, List.mem_append, or_imp]
  exact forall_and

theorem supplied_unexpected (kind found : Kind) (place : Location) :
    Supplied [.fault ⟨.unexpected kind found, place⟩] := by
  simp [Supplied]

theorem Quiet.supplied (h : Quiet trail) : Supplied trail := by
  intro d hd
  cases h _ hd

/-- A token is no end of the text, so what is wrong with it is no shortage. -/
theorem Blames.supplied (h : Blames t trail) (ht : t.kind ≠ .endOfInput) : Supplied trail := by
  intro d hd hfault
  have hdescribes := (h d hd).2
  rw [hfault] at hdescribes
  exact ht hdescribes.1.symm

end

/-- How a reading halts: it has run out of text and found just that, or it has not. -/
inductive Halt (finish : Location) (rest : List Token) (trail : List Action) : Prop
  | starved {front back : List Action} (hrest : rest = [])
      (htrail : trail = front ++ .fault (shortage finish) :: back) (hfront : Quiet front)
      (hback : Quiet back)
  | supplied (hrest : rest ≠ []) (htrail : Supplied trail)

section
variable {finish : Location} {ahead rest rest' : List Token} {trail skipped : List Action}

theorem Halt.pull (h : Halt finish rest trail) : Halt finish rest (.pull :: trail) := by
  cases h with
  | @starved front back hrest htrail hfront hback =>
    have htrail : .pull :: trail = (.pull :: front) ++ .fault (shortage finish) :: back :=
      congrArg (List.cons .pull) htrail
    exact .starved hrest htrail (quiet_pull_cons.2 hfront) hback
  | supplied hrest htrail => exact .supplied hrest (supplied_pull_cons.2 htrail)

theorem SemicolonSkip.ne_nil (h : SemicolonSkip finish rest rest' skipped) (hrest : rest ≠ []) :
    rest' ≠ [] := by
  cases h with
  | taken _ => exact List.cons_ne_nil _ _
  | absent _ => exact hrest

theorem Halt.skip (h : Halt finish rest trail) (hskip : SemicolonSkip finish rest rest' skipped) :
    Halt finish rest' (trail ++ skipped) := by
  cases h with
  | starved hrest htrail hfront hback =>
    subst hrest
    cases hskip with
    | absent _ => exact .starved rfl (by rw [htrail, List.append_nil]) hfront hback
  | supplied hrest htrail =>
    exact .supplied (hskip.ne_nil hrest) (supplied_append.2 ⟨htrail, hskip.quiet.supplied⟩)

theorem Derivation.ne_nil {bound : Precedence} {e : Expr}
    (h : Derivation finish .start bound ahead ⟨some e, rest, trail⟩) : rest ≠ [] := by
  obtain ⟨after, _, hrest⟩ := h.exists_append_eq
  rw [hrest]
  exact List.cons_ne_nil _ _

theorem Derivation.supplied {bound : Precedence} {e : Expr}
    (h : Derivation finish .start bound ahead ⟨some e, rest, trail⟩) (hbound : bound < .call) :
    Supplied trail := by
  rcases (h.concludes hbound).upcoming with hstop | hparen
  · exact (((h.concludes hbound).quiet_iff hbound).2 ⟨rfl, hstop⟩).supplied
  · have hblames : Blames (upcomingToken finish rest) trail := h.blames hbound
    exact hblames.supplied (by rw [hparen]; decide)

theorem Derivation.halt {bound : Precedence} {value? : Option Expr}
    (h : Derivation finish .start bound ahead ⟨value?, rest, trail⟩) (hbound : bound < .call)
    (hahead : ∀ t ∈ ahead, t.kind ≠ .endOfInput) : Halt finish rest trail := by
  cases value? with
  | some e => exact .supplied h.ne_nil (h.supplied hbound)
  | none =>
    cases rest with
    | nil =>
      obtain ⟨n, ds, _, _, htrail, hverdict⟩ := h.concludes hbound
      cases hverdict with
      | failed hopening =>
        cases hopening
        exact .starved rfl htrail (quiet_replicate_pull n) quiet_nil
    | cons t rest =>
      have ht : t ∈ ahead := (h.rest_isSuffix hbound).subset List.mem_cons_self
      have hblames : Blames t trail := h.blames hbound
      exact .supplied (List.cons_ne_nil _ _) (hblames.supplied (hahead t ht))

theorem StatementDerivation.halt {r : Reading Statement} (h : StatementDerivation finish ahead r)
    (hahead : ∀ t ∈ ahead, t.kind ≠ .endOfInput) : Halt finish r.rest r.trail := by
  have hlowest : Precedence.lowest < .call := by decide
  cases h with
  | nameMissing _ _ => exact .supplied (List.cons_ne_nil _ _) (supplied_unexpected _ _ _)
  | assignMissing _ _ _ =>
    exact .supplied (List.cons_ne_nil _ _) (supplied_pull_cons.2 (supplied_unexpected _ _ _))
  | @valueFailed word name assign _ _ _ _ _ _ _ _ hvalue hskip =>
    have hvalue := hvalue.halt hlowest fun t ht =>
      hahead t (List.mem_append_right [word, name, assign] ht)
    exact (hvalue.skip hskip).pull.pull.pull
  | semicolonMissing _ _ _ hvalue _ =>
    refine .supplied hvalue.ne_nil ?_
    simp only [supplied_pull_cons]
    exact supplied_append.2 ⟨hvalue.supplied hlowest, supplied_unexpected _ _ _⟩
  | binding _ _ _ hvalue _ =>
    refine .supplied (List.cons_ne_nil _ _) ?_
    simp only [supplied_pull_cons]
    exact supplied_append.2 ⟨hvalue.supplied hlowest, Quiet.supplied (by simp)⟩
  | returningNothing _ _ hskip =>
    exact .supplied (hskip.ne_nil (List.cons_ne_nil _ _)) hskip.quiet.supplied
  | @returning word _ _ _ _ _ _ _ _ hvalue hskip =>
    have hvalue := hvalue.halt hlowest fun t ht => hahead t (List.mem_cons_of_mem word ht)
    exact (hvalue.skip hskip).pull
  | bare _ _ hexpr hskip => exact (hexpr.halt hlowest hahead).skip hskip

/-- What is done on the way to the end of a text with the tokens ahead: each of them is pulled, or
the text is short, and then one more is pulled, and the shortage is found last. -/
inductive Exhausts (finish : Location) (ahead : List Token) (trail : List Action) : Prop
  | even (hpulls : pulls trail = ahead.length) (htrail : Supplied trail)
  | short {front back : List Action} (hpulls : pulls trail = ahead.length + 1)
      (htrail : trail = front ++ .fault (shortage finish) :: back)
      (hfront : ∀ d, .fault d ∈ front → d.location ∈ ahead.map Token.location)
      (hback : Quiet back)

/-- A statement behind which there is more text finds fault with its tokens or the next one only. -/
theorem StatementDerivation.location_mem {r : Reading Statement} {d : Diagnostic}
    (h : StatementDerivation finish ahead r) (hrest : r.rest.tail ≠ []) (hd : .fault d ∈ r.trail) :
    d.location ∈ ahead.map Token.location := by
  obtain ⟨untaken, hsuffix, hbehind, hblames⟩ := h.singled
  cases untaken with
  | nil => exact absurd (List.suffix_nil.1 hbehind) hrest
  | cons t untaken =>
    rw [(hblames d hd).1]
    exact List.mem_map_of_mem (hsuffix.subset List.mem_cons_self)

theorem Exhausts.of_starved {front back : List Action} (hpulls : pulls trail = ahead.length)
    (htrail : trail = front ++ .fault (shortage finish) :: back) (hfront : Quiet front)
    (hback : Quiet back) : Exhausts finish ahead (trail ++ [.pull]) := by
  have hmore : trail ++ [.pull] = front ++ .fault (shortage finish) :: (back ++ [.pull]) := by
    rw [htrail, List.append_assoc, List.cons_append]
  refine .short ?_ hmore (fun d hd => ?_) (quiet_append.2 ⟨hback, by simp⟩)
  · rw [pulls_append, hpulls, pulls_pull_cons, pulls_nil]
  · cases hfront _ hd

/-- A statement in front of a text does not change how the text is exhausted. -/
theorem Exhausts.append_pull {behind : List Token} {first : List Action}
    (h : Exhausts finish behind trail) (hbehind : behind <:+ ahead)
    (hpulls : pulls first + 1 + behind.length = ahead.length) (hfirst : Supplied first)
    (hplaces : trail ≠ [] → ∀ d, .fault d ∈ first → d.location ∈ ahead.map Token.location) :
    Exhausts finish ahead (first ++ .pull :: trail) := by
  cases h with
  | even hmore hsupplied =>
    refine .even ?_ (supplied_append.2 ⟨hfirst, supplied_pull_cons.2 hsupplied⟩)
    rw [pulls_append, pulls_pull_cons, hmore]
    omega
  | @short front back hmore htrail hfront hback =>
    have hall : first ++ .pull :: trail =
        (first ++ .pull :: front) ++ .fault (shortage finish) :: back := by
      rw [htrail, List.append_assoc, List.cons_append]
    refine .short ?_ hall (fun d hd => ?_) hback
    · rw [pulls_append, pulls_pull_cons, hmore]
      omega
    · rcases List.mem_append.1 hd with hd | hd
      · exact hplaces (by simp [htrail]) d hd
      · have hplace := hfront d (List.mem_of_ne_of_mem (by simp) hd)
        exact (hbehind.map Token.location).subset hplace

theorem exhausts_statements (finish : Location) (ahead : List Token)
    (hahead : ∀ t ∈ ahead, t.kind ≠ .endOfInput) :
    Exhausts finish ahead (statements finish ahead).2 := by
  fun_induction statements finish ahead with
  | case1 => exact .even rfl quiet_nil.supplied
  | case2 t ahead r others ih =>
    have hd := statement_derivation finish (t :: ahead)
    have hothers (hnil : r.rest.tail = []) : others.2 = [] := by
      change (statements finish r.rest.tail).2 = []
      rw [hnil, statements]
    obtain ⟨hdrop, hpulls⟩ := paced_statement finish (t :: ahead)
    have hpulls : pulls r.trail ≤ (t :: ahead).length := hpulls
    have hlength : r.rest.length = (t :: ahead).length - pulls r.trail := by
      rw [← List.length_drop, ← hdrop]
    cases hd.halt hahead with
    | starved hrest htrail hfront hback =>
      have hrest : r.rest = [] := hrest
      rw [hothers (by rw [hrest, List.tail_nil])]
      refine .of_starved ?_ htrail hfront hback
      rw [hrest, List.length_nil] at hlength
      omega
    | supplied hrest htrail =>
      have hpos : 0 < r.rest.length := List.length_pos_iff.2 hrest
      have hbehind : r.rest.tail <:+ t :: ahead := tail_rest_statement_isSuffix finish (t :: ahead)
      have hmore := ih fun u hu => hahead u (hbehind.subset hu)
      refine hmore.append_pull hbehind ?_ htrail fun hne d hfault => ?_
      · rw [List.length_tail]
        omega
      · exact hd.location_mem (fun hnil => hne (hothers hnil)) hfault

end

end LetLang.Grammar
