import LetLang.Proofs.Language.Acceptance
import LetLang.Proofs.Scanner.Literals

/-! No sentence has an illegal token in it. Bytes that are not plain only occur in illegal tokens,
so a text that nothing is reported about is plain. -/
namespace LetLang

def Legal (ts : List Token) : Prop := ∀ t ∈ ts, t.kind ≠ .illegal

@[simp] theorem legal_nil : Legal [] := nofun

@[simp] theorem legal_cons {t : Token} {ts : List Token} :
    Legal (t :: ts) ↔ t.kind ≠ .illegal ∧ Legal ts :=
  List.forall_mem_cons

@[simp] theorem legal_append {ts us : List Token} : Legal (ts ++ us) ↔ Legal ts ∧ Legal us :=
  List.forall_mem_append

namespace Language

variable {t : Token} {ts : List Token}

theorem IsAtom.kind_ne_illegal (h : IsAtom t) : t.kind ≠ .illegal := by
  rcases h with hkind | ⟨hkind, _⟩
  · simp [hkind]
  · simp [hkind]

theorem kind_ne_illegal_of_mem {kinds : List Kind} (h : t.kind ∈ kinds)
    (hkinds : .illegal ∉ kinds := by decide) : t.kind ≠ .illegal :=
  ne_of_mem_of_not_mem h hkinds

theorem Operand.legal (h : Operand ts) : Legal ts := by
  induction h with
  | atom h => simp [h.kind_ne_illegal]
  | sign h _ ih => simp [kind_ne_illegal_of_mem h, ih]

theorem Chain.legal (h : Chain ts) : Legal ts := by
  induction h with
  | operand h => exact h.legal
  | join _ hop hus ih => simp [ih, kind_ne_illegal_of_mem hop, hus.legal]

theorem Phrase.legal (h : Phrase ts) : Legal ts := by
  cases h with
  | binding hword hname hassign hts hsemicolon =>
    simp [hword, hname, hassign, hts.legal, hsemicolon]
  | returning hword hts => simp [hword, hts.legal]
  | returningClosed hword hts hsemicolon => simp [hword, hts.legal, hsemicolon]
  | returningNothing hword hsemicolon => simp [hword, hsemicolon]
  | bare hts => exact hts.legal
  | bareClosed hts hsemicolon => simp [hts.legal, hsemicolon]

theorem Text.legal (h : Text ts) : Legal ts := by
  induction h with
  | nil => exact legal_nil
  | returning hword => simp [hword]
  | cons hphrase _ ih => exact legal_append.2 ⟨hphrase.legal, ih⟩

end Language

theorem Segmentation.isPlain {bytes : List UInt8} {pieces : List Piece}
    (h : Segmentation bytes pieces) {place : Location}
    (hlegal : Legal (Piece.tokens place pieces)) : Utf8.IsPlain bytes := by
  induction h generalizing place with
  | nil => exact nofun
  | blank hblank _ ih => exact List.forall_mem_cons.2 ⟨Lexeme.lt_of_isBlank hblank, ih hlegal⟩
  | lexeme hmunch _ ih =>
    obtain ⟨hkind, hlegal⟩ := legal_cons.1 hlegal
    refine List.forall_mem_append.2 ⟨hmunch.isPlain ?_, ih hlegal⟩
    rintro rfl
    exact hkind rfl

/-- A source is accepted only if all that is visible of it is plain. -/
theorem isPlain_of_diagnostics_eq_nil {source : Source} (h : (parse source).2 = []) :
    Utf8.IsPlain source.visible := by
  have hcut := Segmentation.cut source.visible
  rw [diagnostics_eq_nil_iff_quiet, readings,
    Grammar.quiet_statements_iff fun t => Scanner.kind_ne_endOfInput_of_mem, Scanner.ofSource,
    hcut.tokens_eq] at h
  exact hcut.isPlain h.legal

end LetLang
