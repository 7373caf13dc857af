import LetLang.Proofs.Grammar.Phase

/-! The language as a grammar over tokens. The grammar is ambiguous where a statement has no
semicolon: a sign may start the next statement or join two operands. -/
namespace LetLang

namespace Kind

/-- What starts an expression and binds is both a sign and an operator. -/
theorem ambiguous {k : Kind} (hlead : k.lead? ≠ none) (h : .lowest < k.precedence) :
    k ∈ signs ∧ k ∈ operators := by
  cases k <;> revert hlead h <;> decide

end Kind

namespace Language

/-- A name, or a numeral with a value in the language. -/
def IsAtom (t : Token) : Prop :=
  t.kind = .identifier ∨
    t.kind = .integer ∧ ∃ n, Numeral.value? t.literal = some n ∧ n ≤ 0x7FFFFFFFFFFFFFFF

/-- Signs, then an atom. -/
inductive Operand : List Token → Prop
  | atom {t : Token} (h : IsAtom t) : Operand [t]
  | sign {t : Token} {ts : List Token} (h : t.kind ∈ Kind.signs) (hts : Operand ts) :
      Operand (t :: ts)

/-- Operands with operators between them. -/
inductive Chain : List Token → Prop
  | operand {ts : List Token} (h : Operand ts) : Chain ts
  | join {ts us : List Token} {op : Token} (hts : Chain ts) (hop : op.kind ∈ Kind.operators)
      (hus : Operand us) : Chain (ts ++ op :: us)

inductive Phrase : List Token → Prop
  | binding {word name assign semicolon : Token} {ts : List Token} (hword : word.kind = .letWord)
      (hname : name.kind = .identifier) (hassign : assign.kind = .assign) (hts : Chain ts)
      (hsemicolon : semicolon.kind = .semicolon) :
      Phrase (word :: name :: assign :: (ts ++ [semicolon]))
  | returning {word : Token} {ts : List Token} (hword : word.kind = .returnWord)
      (hts : Chain ts) : Phrase (word :: ts)
  | returningClosed {word semicolon : Token} {ts : List Token} (hword : word.kind = .returnWord)
      (hts : Chain ts) (hsemicolon : semicolon.kind = .semicolon) :
      Phrase (word :: (ts ++ [semicolon]))
  | returningNothing {word semicolon : Token} (hword : word.kind = .returnWord)
      (hsemicolon : semicolon.kind = .semicolon) : Phrase [word, semicolon]
  | bare {ts : List Token} (hts : Chain ts) : Phrase ts
  | bareClosed {semicolon : Token} {ts : List Token} (hts : Chain ts)
      (hsemicolon : semicolon.kind = .semicolon) : Phrase (ts ++ [semicolon])

/-- Phrases one after the other; a `return` with nothing behind it can only be the last. -/
inductive Text : List Token → Prop
  | nil : Text []
  | returning {word : Token} (hword : word.kind = .returnWord) : Text [word]
  | cons {phrase rest : List Token} (hphrase : Phrase phrase) (hrest : Text rest) :
      Text (phrase ++ rest)

end Language

namespace Grammar

open Language

theorem isAtom_iff {t : Token} : IsAtom t ↔ ∃ e, opening t = .leaf e := by
  constructor
  · rintro (hkind | ⟨hkind, n, hn, hlimit⟩)
    · have hgenuine : (Expr.name (.ofToken t)).Genuine := ⟨hkind, rfl⟩
      exact ⟨_, opening_of_name hgenuine⟩
    · have hgenuine : (Expr.integer t (.ofNat n)).Genuine :=
        ⟨hkind, n, hn, Numeral.toInt_ofNat (Nat.lt_of_le_of_lt hlimit (by decide))⟩
      exact ⟨_, opening_of_integer hgenuine⟩
  · rintro ⟨e, h⟩
    rcases leaf_cases h with ⟨_, hkind⟩ | ⟨value, _, hkind, hvalue⟩
    · exact .inl hkind
    · obtain ⟨n, hn, hlimit, _⟩ := Numeral.int64?_eq_some_iff.1 hvalue
      exact .inr ⟨hkind, n, hn, Nat.le_sub_one_of_lt hlimit⟩

namespace Phase

theorem run_operand {ts : List Token} (h : Operand ts) : operand.run ts = some operator := by
  induction h with
  | atom h =>
    obtain ⟨e, h⟩ := isAtom_iff.1 h
    exact run_leaf h []
  | sign h _ ih => rw [run_sign (opening_eq_sign_iff.2 h), ih]

theorem run_chain {ts : List Token} (h : Chain ts) : operand.run ts = some operator := by
  induction h with
  | operand h => exact run_operand h
  | join _ hop hus ih =>
    rw [run_append_of_eq ih, run_operator (Kind.mem_operators_iff.1 hop), run_operand hus]

theorem isBinary_of_run_operator {phase : Phase} {t : Token} {ts : List Token}
    (h : operator.run (t :: ts) = some phase) : t.kind.isBinary = true := by
  cases hbinary : t.kind.isBinary with
  | true => rfl
  | false =>
    rw [run_operator_of_not hbinary] at h
    cases h

end Phase

theorem chain_sign {t : Token} {ts : List Token} (h : t.kind ∈ Kind.signs) (hts : Chain ts) :
    Chain (t :: ts) := by
  induction hts with
  | operand hts => exact .operand (.sign h hts)
  | join _ hop hus ih => exact .join ih hop hus

theorem chain_append {ts us : List Token} {op : Token} (hts : Chain ts)
    (hop : op.kind ∈ Kind.operators) (hus : Chain us) : Chain (ts ++ op :: us) := by
  induction hus with
  | operand hus => exact .join hts hop hus
  | join _ hop hus ih =>
    have h := Chain.join ih hop hus
    rwa [List.append_assoc, List.cons_append] at h

/-- What the phases let through is a chain, or behind an operand the rest of one. -/
theorem chain_of_run (ts : List Token) :
    (Phase.operand.run ts = some .operator → Chain ts) ∧
      (Phase.operator.run ts = some .operator →
        ts = [] ∨ ∃ op us, ts = op :: us ∧ op.kind ∈ Kind.operators ∧ Chain us) := by
  induction ts with
  | nil => exact ⟨nofun, fun _ => .inl rfl⟩
  | cons t ts ih =>
    constructor
    · intro h
      cases hopening : opening t with
      | obstacle fault =>
        rw [Phase.run_obstacle hopening] at h
        cases h
      | sign =>
        rw [Phase.run_sign hopening] at h
        exact chain_sign (opening_eq_sign_iff.1 hopening) (ih.1 h)
      | leaf e =>
        rw [Phase.run_leaf hopening] at h
        have hatom := Chain.operand (.atom (isAtom_iff.2 ⟨e, hopening⟩))
        rcases ih.2 h with rfl | ⟨op, us, rfl, hop, hus⟩
        · exact hatom
        · exact chain_append hatom hop hus
    · intro h
      cases hbinary : t.kind.isBinary with
      | false =>
        rw [Phase.run_operator_of_not hbinary] at h
        cases h
      | true =>
        rw [Phase.run_operator hbinary] at h
        exact .inr ⟨t, ts, rfl, Kind.mem_operators_iff.2 hbinary, ih.1 h⟩

theorem chain_iff_run {ts : List Token} : Chain ts ↔ Phase.operand.run ts = some .operator :=
  ⟨Phase.run_chain, (chain_of_run ts).1⟩

end Grammar

namespace Language

open Grammar

theorem Chain.exists_cons {ts : List Token} (h : Chain ts) :
    ∃ t us, ts = t :: us ∧ t.kind.lead? ≠ none := by
  have hrun := chain_iff_run.1 h
  cases ts with
  | nil => cases hrun
  | cons t us =>
    refine ⟨t, us, rfl, fun hlead => ?_⟩
    have hopening : opening t = .obstacle (.cannotStart t.kind) := by rw [opening, hlead]
    rw [Phase.run_obstacle hopening] at hrun
    cases hrun

/-- A chain that starts with a token that binds can also go on from another chain. -/
theorem Chain.append_of_lt {ts us : List Token} {t : Token} (hts : Chain ts)
    (hus : Chain (t :: us)) (ht : .lowest < t.kind.precedence) : Chain (ts ++ t :: us) := by
  obtain ⟨_, _, hcons, hlead⟩ := hus.exists_cons
  obtain ⟨rfl, rfl⟩ := List.cons.inj hcons
  obtain ⟨hsign, hoperator⟩ := Kind.ambiguous hlead ht
  have hrun := chain_iff_run.1 hus
  rw [Phase.run_sign (opening_eq_sign_iff.2 hsign)] at hrun
  exact chain_append hts hoperator (chain_iff_run.2 hrun)

/-- What may stand behind a chain. -/
inductive Behind : List Token → Prop
  | open {rest : List Token} (h : Text rest) : Behind rest
  | closed {semicolon : Token} {rest : List Token} (hsemicolon : semicolon.kind = .semicolon)
      (h : Text rest) : Behind (semicolon :: rest)

theorem not_lt_of_kind {finish : Location} {after : List Token} {kind : Kind}
    (h : (currentToken finish after).kind = kind)
    (hkind : ¬ .lowest < kind.precedence := by decide) :
    ¬ .lowest < (currentToken finish after).kind.precedence := by
  rwa [h]

theorem Text.exists_longest (finish : Location) {ts rest : List Token} (hts : Chain ts)
    (hrest : Text rest) :
    ∃ us after, ts ++ rest = us ++ after ∧ Chain us ∧ Behind after ∧
      ¬ .lowest < (currentToken finish after).kind.precedence := by
  induction hrest generalizing ts with
  | nil => exact ⟨ts, [], rfl, hts, .open .nil, not_lt_precedence_finish _ _⟩
  | returning hword => exact ⟨ts, _, rfl, hts, .open (.returning hword), not_lt_of_kind hword⟩
  | @cons phrase rest hphrase hrest ih =>
    by_cases hlt : .lowest < (currentToken finish (phrase ++ rest)).kind.precedence
    case neg => exact ⟨ts, _, rfl, hts, .open (.cons hphrase hrest), hlt⟩
    cases hphrase with
    | binding hword _ _ _ _ => exact absurd hlt (not_lt_of_kind hword)
    | returning hword _ => exact absurd hlt (not_lt_of_kind hword)
    | returningClosed hword _ _ => exact absurd hlt (not_lt_of_kind hword)
    | returningNothing hword _ => exact absurd hlt (not_lt_of_kind hword)
    | bare hus =>
      obtain ⟨t, us, rfl, _⟩ := hus.exists_cons
      obtain ⟨vs, after, hsplit, h⟩ := ih (hts.append_of_lt hus hlt)
      exact ⟨vs, after, by rw [← hsplit, List.append_assoc], h⟩
    | bareClosed hus hsemicolon =>
      obtain ⟨t, us, rfl, _⟩ := hus.exists_cons
      refine ⟨_, _, ?_, hts.append_of_lt hus hlt, .closed hsemicolon hrest, not_lt_of_kind hsemicolon⟩
      simp

/-- The border behind a chain can be moved to where no operator follows. -/
theorem Behind.exists_longest (finish : Location) {ts rest : List Token} (hts : Chain ts)
    (hrest : Behind rest) :
    ∃ us after, ts ++ rest = us ++ after ∧ Chain us ∧ Behind after ∧
      ¬ .lowest < (currentToken finish after).kind.precedence := by
  cases hrest with
  | «open» h => exact h.exists_longest finish hts
  | closed hsemicolon h =>
    exact ⟨ts, _, rfl, hts, .closed hsemicolon h, not_lt_of_kind hsemicolon⟩

theorem Text.currentToken_kind_ne (finish : Location) {ahead : List Token} (h : Text ahead) :
    (currentToken finish ahead).kind ≠ .semicolon := by
  have of_chain {us rest : List Token} (hus : Chain us) :
      (currentToken finish (us ++ rest)).kind ≠ .semicolon := by
    obtain ⟨t, us, rfl, hlead⟩ := hus.exists_cons
    rw [List.cons_append, currentToken_cons]
    exact Kind.ne_of_lead? hlead rfl
  cases h with
  | nil => simp [Token.finish]
  | returning hword => simp [hword]
  | cons hphrase hrest =>
    cases hphrase with
    | binding hword _ _ _ _ => simp [hword]
    | returning hword _ => simp [hword]
    | returningClosed hword _ _ => simp [hword]
    | returningNothing hword _ => simp [hword]
    | bare hus => exact of_chain hus
    | bareClosed hus _ =>
      rw [List.append_assoc]
      exact of_chain hus

end Language

end LetLang
