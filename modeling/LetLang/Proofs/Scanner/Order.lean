import LetLang.Proofs.Grammar.Places
import LetLang.Proofs.Scanner.Tokens

/-! The order of tokens. As long as no counter wraps, each token of a text stands further down than
the ones before it, and the end of the text behind them all. -/
namespace LetLang

namespace Scanner

variable {s : Scanner}

theorem location_le_of_mem_places (h : s.location.HasRoom s.rest.length) {place : Location}
    (hplace : place ∈ Grammar.places s.finish s.tokens) : s.location ≤ place := by
  have hle {front back : List UInt8} (hrest : s.rest = front ++ back) :
      s.location ≤ s.location.afterAll front := by
    rw [hrest, List.length_append] at h
    exact Location.le_afterAll (h.mono (Nat.le_add_right _ _))
  rcases List.mem_append.1 hplace with hplace | hplace
  · obtain ⟨t, ht, rfl⟩ := List.mem_map.1 hplace
    obtain ⟨front, b, bytes, hrest, _, rfl⟩ := exists_of_mem_tokens ht
    exact hle hrest
  · obtain rfl := List.mem_singleton.1 hplace
    exact hle (List.append_nil _).symm

theorem hasRoom_next (h : s.location.HasRoom s.rest.length) :
    s.next.2.location.HasRoom s.next.2.rest.length := by
  obtain ⟨front, hrest, hplace⟩ := s.exists_next_eq
  rw [hrest, List.length_append] at h
  rw [hplace]
  exact h.afterAll

/-- A lexeme has at least one byte, so the scanner moves on behind the start of its token. -/
theorem location_lt_next (h : s.location.HasRoom s.rest.length) (hne : s.skipBlanks.rest ≠ []) :
    s.next.1.location < s.next.2.location := by
  cases hrest : s.skipBlanks.rest with
  | nil => exact absurd hrest hne
  | cons b bytes =>
    have hle := (Lexeme.tail_isPrefix b bytes).length_le
    rw [s.rest_eq, hrest, List.length_append, List.length_cons] at h
    have hroom : s.skipBlanks.location.HasRoom (bytes.length + 1) := h.afterAll
    rw [next_of_cons hrest]
    exact Location.lt_afterAll_cons (hroom.mono (Nat.succ_le_succ hle))

theorem ordered_tokens (h : s.location.HasRoom s.rest.length) :
    Grammar.Ordered s.finish s.tokens := by
  fun_induction tokens s with
  | case1 => exact List.pairwise_singleton _ _
  | case2 s hne ih =>
    have hnext := hasRoom_next h
    have hordered := ih hnext
    rw [finish_next] at hordered
    refine List.Pairwise.cons (fun place hplace => ?_) hordered
    rw [← finish_next] at hplace
    exact lt_of_lt_of_le (location_lt_next h hne) (location_le_of_mem_places hnext hplace)

end Scanner

theorem ordered_tokens_ofSource {source : Source} (h : source.visible.length < UInt32.size - 1) :
    Grammar.Ordered (Scanner.ofSource source).finish (Scanner.ofSource source).tokens :=
  Scanner.ordered_tokens (Location.hasRoom_start h)

theorem pairwise_location_tokenize {source : Source}
    (h : source.visible.length < UInt32.size - 1) :
    ((tokenize source).map (·.location)).Pairwise (· < ·) := by
  have hordered := ordered_tokens_ofSource h
  rw [Grammar.Ordered, Grammar.places_eq] at hordered
  exact hordered

end LetLang
