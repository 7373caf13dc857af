import LetLang.Parser
import LetLang.Proofs.Grammar.Places
import LetLang.Proofs.Grammar.Relocation
import Mathlib.Data.Set.Function

/-! What parsing comes to: the statements that were read, and of the faults on their trail those
that were reported. -/
namespace LetLang

open Grammar (Action Quiet)

/-- The reported diagnostics, latest first, after one more action. -/
def Grammar.Action.record (reported : List Diagnostic) : Action → List Diagnostic
  | .pull => reported
  | .fault d =>
    if reported.head?.map (·.location) = some d.location then reported else d :: reported

theorem Parser.reported_note (p : Parser) (a : Action) :
    (p.note a).reported = Action.record p.reported a := by
  cases a with
  | pull => rfl
  | fault d =>
    rw [note, report, Action.record]
    split <;> rfl

theorem Parser.reported_foldl_note (p : Parser) (trail : List Action) :
    (trail.foldl note p).reported = trail.foldl Action.record p.reported := by
  induction trail generalizing p with
  | nil => rfl
  | cons a trail ih => rw [List.foldl_cons, List.foldl_cons, ih, reported_note]

/-- The statements of a source, and everything done to read them. -/
def readings (source : Source) : List Statement × List Action :=
  Grammar.statements (Scanner.ofSource source).finish (Scanner.ofSource source).tokens

theorem parse_eq (source : Source) :
    parse source = (⟨(readings source).1⟩, ((readings source).2.foldl Action.record []).reverse) := by
  have h := Parser.reported_foldl_note (Parser.ofSource source) (readings source).2
  exact congrArg (Prod.mk (⟨(readings source).1⟩ : Program)) (congrArg List.reverse h)

theorem parse_fst (source : Source) : (parse source).1 = ⟨(readings source).1⟩ := rfl

/-- Nothing but the visible bytes of a source matters. -/
theorem parse_congr {source source' : Source} (h : source.visible = source'.visible) :
    parse source = parse source' := by
  rw [parse_eq, parse_eq, readings, readings, Scanner.ofSource, Scanner.ofSource, h]

/-- A fault is found at a token, or where the text ends. -/
theorem exists_token_of_fault {source : Source} {d : Diagnostic}
    (h : .fault d ∈ (readings source).2) : ∃ t ∈ tokenize source, t.location = d.location := by
  obtain ⟨t, ht, hplace, _⟩ := Grammar.exists_described_of_fault h
  exact ⟨t, ht, hplace⟩

theorem foldl_record_eq_nil_iff {trail : List Action} {reported : List Diagnostic} :
    trail.foldl Action.record reported = [] ↔ reported = [] ∧ Quiet trail := by
  induction trail generalizing reported with
  | nil => simp
  | cons a trail ih =>
    rw [List.foldl_cons, ih]
    cases a with
    | pull => simp [Action.record]
    | fault d =>
      rw [Action.record]
      split
      · next h =>
        have hne : reported ≠ [] := by
          rintro rfl
          cases h
        simp [hne]
      · simp

theorem foldl_record_of_quiet {trail : List Action} {reported : List Diagnostic} (h : Quiet trail) :
    trail.foldl Action.record reported = reported := by
  induction trail with
  | nil => rfl
  | cons a trail ih =>
    cases a with
    | pull => exact ih (Grammar.quiet_pull_cons.1 h)
    | fault d => exact absurd h Grammar.not_quiet_fault_cons

theorem Grammar.Action.of_mem_record {reported : List Diagnostic} {a : Action} {d : Diagnostic}
    (h : d ∈ a.record reported) : d ∈ reported ∨ a = .fault d := by
  cases a with
  | pull => exact .inl h
  | fault d' =>
    rw [record] at h
    split at h
    · exact .inl h
    · rcases List.mem_cons.1 h with rfl | h
      · exact .inr rfl
      · exact .inl h

theorem mem_of_mem_foldl_record {trail : List Action} {reported : List Diagnostic}
    {d : Diagnostic} (h : d ∈ trail.foldl Action.record reported) :
    d ∈ reported ∨ .fault d ∈ trail := by
  induction trail generalizing reported with
  | nil => exact .inl h
  | cons a trail ih =>
    rcases ih h with h | h
    · rcases Action.of_mem_record h with h | rfl
      · exact .inl h
      · exact .inr List.mem_cons_self
    · exact .inr (List.mem_cons_of_mem a h)

/-- What was reported at other places before does not matter for what is reported now. -/
theorem foldl_record_append {trail : List Action} {earlier : List Diagnostic}
    (h : ∀ d, .fault d ∈ trail → earlier.head?.map (·.location) ≠ some d.location)
    (reported : List Diagnostic) :
    trail.foldl Action.record (reported ++ earlier) =
      trail.foldl Action.record reported ++ earlier := by
  induction trail generalizing reported with
  | nil => rfl
  | cons a trail ih =>
    have ih := ih fun d hd => h d (List.mem_cons_of_mem a hd)
    rw [List.foldl_cons, List.foldl_cons, ← ih]
    congr 1
    cases a with
    | pull => rfl
    | fault d =>
      rw [Action.record, Action.record]
      cases reported with
      | nil => exact if_neg (h d List.mem_cons_self)
      | cons latest reported =>
        rw [List.cons_append, List.head?_cons, List.head?_cons]
        split <;> rfl

/-- Reporting goes by which places are the same, not by where they are. -/
theorem foldl_record_relocate_of_injOn {f : Location → Location} {places : Set Location}
    (hf : places.InjOn f) {trail : List Action} {reported : List Diagnostic}
    (htrail : ∀ d, .fault d ∈ trail → d.location ∈ places)
    (hreported : ∀ d ∈ reported, d.location ∈ places) :
    (trail.map (Action.relocate f)).foldl Action.record (reported.map (Diagnostic.relocate f)) =
      (trail.foldl Action.record reported).map (Diagnostic.relocate f) := by
  induction trail generalizing reported with
  | nil => rfl
  | cons a trail ih =>
    have hrecorded : ∀ d ∈ a.record reported, d.location ∈ places := by
      intro d hd
      rcases Action.of_mem_record hd with hd | rfl
      · exact hreported d hd
      · exact htrail d List.mem_cons_self
    have ih := ih (fun d hd => htrail d (List.mem_cons_of_mem a hd)) hrecorded
    rw [List.map_cons, List.foldl_cons, List.foldl_cons, ← ih]
    congr 1
    cases a with
    | pull => rfl
    | fault d =>
      unfold Action.record Action.relocate
      cases reported with
      | nil => rfl
      | cons latest reported =>
        have hiff : f latest.location = f d.location ↔ latest.location = d.location :=
          hf.eq_iff (hreported latest List.mem_cons_self) (htrail d List.mem_cons_self)
        by_cases hplace : latest.location = d.location
        · simp [Diagnostic.relocate, hplace]
        · simp [Diagnostic.relocate, hplace, hiff]

theorem foldl_record_relocate {f : Location → Location} (hf : Function.Injective f)
    (trail : List Action) (reported : List Diagnostic) :
    (trail.map (Action.relocate f)).foldl Action.record (reported.map (Diagnostic.relocate f)) =
      (trail.foldl Action.record reported).map (Diagnostic.relocate f) :=
  foldl_record_relocate_of_injOn hf.injOn (fun d _ => Set.mem_univ d.location)
    fun d _ => Set.mem_univ d.location

/-- Nothing is reported just when nothing was found wrong. -/
theorem diagnostics_eq_nil_iff_quiet (source : Source) :
    (parse source).2 = [] ↔ Quiet (readings source).2 := by
  rw [parse_eq, List.reverse_eq_nil_iff, foldl_record_eq_nil_iff]
  simp

end LetLang
