import LetLang.Proofs.Grammar.Written
import LetLang.Proofs.Precedence
import LetLang.Proofs.Source
import LetLang.Proofs.Tree.Rendering

/-! Rendering can be undone. What is rendered without its brackets is a text of the language
again, and reading it brings the program back, apart from the places. -/
namespace LetLang

theorem legible_of_mem_statements {source : Source} {s : Statement}
    (h : s ∈ (parse source).1.statements) : ∀ t ∈ s.tokens, t.Legible := by
  intro t ht
  have hkind := (wellFormed_of_mem_statements h).kind_of_mem_tokens t ht
  rw [parse_eq] at h
  have hmem := Grammar.tokens_subset_of_mem_statements h ht
  refine Scanner.legible_of_mem_tokens hmem ?_ ?_ ?_
  all_goals
    intro hbad
    rw [hbad] at hkind
    revert hkind
    decide

/-- A text is read as the statements whose tokens it has. -/
theorem readings_of_scanned {all : List Statement} {text : String}
    (hwell : ∀ s ∈ all, s.WellFormed) (hzero : 0 ∉ Utf8.encode text)
    (hscanned : scanned (Utf8.encode text) =
      (all.flatMap fun s => s.written ++ [Token.semicolonSign]).map (Token.relocate .forget))
    (name : String) :
    (readings (.ofText name text)).1.map (Statement.relocate .forget) =
        all.map (Statement.relocate .forget) ∧
      Grammar.Quiet (readings (.ofText name text)).2 := by
  have htokens := map_forget_tokens (Scanner.ofSource (.ofText name text))
  have hrest : (Scanner.ofSource (.ofText name text)).rest = Utf8.encode text :=
    Source.visible_ofBytes_of_zero_not_mem hzero name
  rw [hrest, hscanned] at htokens
  unfold readings
  generalize Scanner.ofSource (.ofText name text) = scanner at htokens ⊢
  obtain ⟨hall, hquiet⟩ := Grammar.statements_written scanner.finish hwell
  have hread := Grammar.statements_relocate .forget scanner.finish scanner.tokens
  rw [htokens, Grammar.statements_relocate, hall] at hread
  obtain ⟨hstatements, htrail⟩ := Prod.mk.inj hread
  refine ⟨hstatements.symm, ?_⟩
  rw [← Grammar.quiet_map_relocate, ← htrail, Grammar.quiet_map_relocate]
  exact hquiet

section
variable {all : List Statement} (hwell : ∀ s ∈ all, s.WellFormed)
  (hlegible : ∀ s ∈ all, ∀ t ∈ s.tokens, t.Legible)
include hwell hlegible

theorem scanned_join_plainText :
    scanned (Utf8.encode (String.join (all.map Statement.plainText))) =
      (all.flatMap fun s => s.written ++ [Token.semicolonSign]).map (Token.relocate .forget) := by
  induction all with
  | nil => exact scanned_nil
  | cons s all ih =>
    rw [List.map_cons, String.join_cons, Utf8.encode_append, Statement.scanned_plainText
      (hwell s List.mem_cons_self) (hlegible s List.mem_cons_self),
      ih (fun s' hs => hwell s' (List.mem_cons_of_mem s hs))
        (fun s' hs => hlegible s' (List.mem_cons_of_mem s hs)),
      ← List.map_append, List.flatMap_cons]

theorem zero_not_mem_join_plainText :
    0 ∉ Utf8.encode (String.join (all.map Statement.plainText)) := by
  induction all with
  | nil => decide
  | cons s all ih =>
    rw [List.map_cons, String.join_cons, Utf8.encode_append, List.mem_append]
    intro h
    cases h with
    | inl h =>
      exact Statement.zero_not_mem_plainText (hwell s List.mem_cons_self)
        (hlegible s List.mem_cons_self) h
    | inr h =>
      exact ih (fun s' hs => hwell s' (List.mem_cons_of_mem s hs))
        (fun s' hs => hlegible s' (List.mem_cons_of_mem s hs)) h

end

theorem parse_plainText (source : Source) (name : String) :
    (parse (.ofText name (parse source).1.plainText)).2 = [] ∧
      (parse (.ofText name (parse source).1.plainText)).1.relocate .forget =
        (parse source).1.relocate .forget := by
  have hwell : ∀ s ∈ (parse source).1.statements, s.WellFormed := fun _ hs =>
    wellFormed_of_mem_statements hs
  have hlegible : ∀ s ∈ (parse source).1.statements, ∀ t ∈ s.tokens, t.Legible := fun _ hs =>
    legible_of_mem_statements hs
  obtain ⟨hstatements, hquiet⟩ := readings_of_scanned hwell
    (zero_not_mem_join_plainText hwell hlegible) (scanned_join_plainText hwell hlegible) name
  constructor
  · rw [diagnostics_eq_nil_iff_quiet]
    exact hquiet
  · exact congrArg Program.mk hstatements

namespace Statement

/-- A text that ends in a semicolon is not that of an expression. -/
theorem render_ne_of_closing {s : Statement} {e : Expr} (hs : s.WellFormed)
    (hs_legible : ∀ t ∈ s.tokens, t.Legible) (he : e.WellFormed)
    (he_legible : ∀ t ∈ e.tokens, t.Legible) (hclosing : s.closing = "") :
    s.render ≠ e.render := by
  intro hrender
  have hplain : s.plainText = e.plainText := by
    rw [plainText, hclosing, String.append_empty, hrender, Expr.plainText]
  have hscanned := scanned_plainText hs hs_legible []
  rw [hplain, (Expr.spells_plainText he he_legible).scanned_append Lexeme.severed_nil,
    List.append_left_inj] at hscanned
  have hmem : Token.semicolonSign.relocate .forget ∈ e.tokens.map (Token.relocate .forget) := by
    rw [hscanned]
    exact List.mem_map_of_mem (by simp)
  obtain ⟨t, ht, heq⟩ := List.mem_map.1 hmem
  have hkind : t.kind = .semicolon := congrArg Token.kind heq
  have hnot := he.kind_of_mem_tokens t ht
  rw [hkind] at hnot
  revert hnot
  decide

theorem closing_eq_of_render_eq {s s' : Statement} (hs : s.WellFormed) (hs' : s'.WellFormed)
    (hlegible : ∀ t ∈ s.tokens, t.Legible) (hlegible' : ∀ t ∈ s'.tokens, t.Legible)
    (hrender : s.render = s'.render) : s.closing = s'.closing := by
  cases s with
  | expression token e =>
    cases s' with
    | expression token' e' => rfl
    | binding | returning =>
      exact absurd hrender.symm (render_ne_of_closing hs' hlegible' hs.2 hlegible rfl)
  | binding | returning =>
    cases s' with
    | expression token' e' =>
      exact absurd hrender (render_ne_of_closing hs hlegible hs'.2 hlegible' rfl)
    | binding | returning => rfl

/-- A statement is determined by how it is rendered. -/
theorem relocate_eq_of_render_eq {s s' : Statement} (hs : s.WellFormed) (hs' : s'.WellFormed)
    (hlegible : ∀ t ∈ s.tokens, t.Legible) (hlegible' : ∀ t ∈ s'.tokens, t.Legible)
    (hrender : s.render = s'.render) : s.relocate .forget = s'.relocate .forget := by
  have hplain : s.plainText = s'.plainText := by
    rw [plainText, plainText, hrender, closing_eq_of_render_eq hs hs' hlegible hlegible' hrender]
  have hread {u : Statement} (hu : u.WellFormed) (hu_legible : ∀ t ∈ u.tokens, t.Legible) :
      (readings (.ofText "" (String.join ([u].map plainText)))).1.map (relocate .forget) =
        [u].map (relocate .forget) := by
    have hwell : ∀ v ∈ [u], v.WellFormed := by simpa using hu
    have hlegible : ∀ v ∈ [u], ∀ t ∈ v.tokens, t.Legible := by simpa using hu_legible
    exact (readings_of_scanned hwell (zero_not_mem_join_plainText hwell hlegible)
      (scanned_join_plainText hwell hlegible) "").1
  have heq := hread hs hlegible
  rw [List.map_singleton, hplain] at heq
  exact (List.singleton_inj.1 (heq.symm.trans (hread hs' hlegible')))

end Statement

/-- What is rendered without its brackets is read back, whatever was wrong with the source, and how
a statement is rendered determines it. -/
theorem rendering_can_be_undone :
    (∀ source name,
      (parse (.ofText name (parse source).1.plainText)).2 = [] ∧
        (parse (.ofText name (parse source).1.plainText)).1.relocate .forget =
          (parse source).1.relocate .forget) ∧
      ∀ source source' s s', s ∈ (parse source).1.statements → s' ∈ (parse source').1.statements →
        s.render = s'.render → s.relocate .forget = s'.relocate .forget := by
  constructor
  · intro source name
    exact parse_plainText source name
  · intro source source' s s' hs hs' hrender
    exact Statement.relocate_eq_of_render_eq (wellFormed_of_mem_statements hs)
      (wellFormed_of_mem_statements hs') (legible_of_mem_statements hs)
      (legible_of_mem_statements hs') hrender

/-- Two statements are left of this source, and one name may stand at two places. -/
theorem rendering_can_be_undone_of_faulty :
    ((parse (.ofText "faulty" "let = 1; -a - b(;")).1.plainText = "1;  -a  - b ;" ∧
      (parse (.ofText "plain" (parse (.ofText "faulty" "let = 1; -a - b(;")).1.plainText)).2 = []) ∧
      Statement.relocate .forget (.expression ⟨.identifier, "a", ⟨1, 1⟩⟩
          (.name (.ofToken ⟨.identifier, "a", ⟨1, 1⟩⟩))) =
        Statement.relocate .forget (.expression ⟨.identifier, "a", ⟨1, 3⟩⟩
          (.name (.ofToken ⟨.identifier, "a", ⟨1, 3⟩⟩))) := by
  constructor
  · exact ⟨by decide +kernel, (rendering_can_be_undone.1 _ _).1⟩
  · exact rendering_can_be_undone.2 (.ofText "left" "a") (.ofText "right" "  a;") _ _
      (by decide +kernel) (by decide +kernel) rfl

end LetLang
