import LetLang.Proofs.Grammar.Blame
import LetLang.Proofs.Location

/-! Where faults are found: at a token ahead, or where the text ends, and none further up than
one that was found before. -/
namespace LetLang.Grammar

variable {finish : Location} {ahead rest : List Token}

def places (finish : Location) (ahead : List Token) : List Location :=
  ahead.map Token.location ++ [finish]

theorem places_eq (finish : Location) (ahead : List Token) :
    places finish ahead = (ahead ++ [Token.finish finish]).map Token.location := by
  rw [List.map_append]
  rfl

theorem places_sublist (finish : Location) (h : rest <:+ ahead) :
    (places finish rest).Sublist (places finish ahead) :=
  (h.sublist.map Token.location).append_right [finish]

/-- All faults on a trail are found at one of the places. -/
def Placed (finish : Location) (ahead : List Token) (trail : List Action) : Prop :=
  ∀ d, .fault d ∈ trail → d.location ∈ places finish ahead

theorem placed_statements (finish : Location) (ahead : List Token) :
    Placed finish ahead (statements finish ahead).2 := by
  intro d hd
  obtain ⟨t, ht, hplace, _⟩ := exists_described_of_fault hd
  rw [places_eq]
  exact List.mem_map.2 ⟨t, ht, hplace⟩

/-- The tokens stand in order, and in front of the end of the text. -/
def Ordered (finish : Location) (ahead : List Token) : Prop :=
  (places finish ahead).Pairwise (· < ·)

theorem Ordered.of_isSuffix (h : Ordered finish ahead) (hrest : rest <:+ ahead) :
    Ordered finish rest :=
  h.sublist (places_sublist finish hrest)

theorem Ordered.location_currentToken_le {place : Location} (h : Ordered finish ahead)
    (hplace : place ∈ places finish ahead) : (currentToken finish ahead).location ≤ place := by
  cases ahead with
  | nil =>
    obtain rfl := List.mem_singleton.1 hplace
    exact le_refl _
  | cons t ahead =>
    rcases List.mem_cons.1 hplace with rfl | hplace
    · exact le_refl _
    · exact le_of_lt (List.rel_of_pairwise_cons h hplace)

/-- The first action finds nothing further down than the second. -/
def Action.Before (a b : Action) : Prop :=
  ∀ d d', a = .fault d → b = .fault d' → d.location ≤ d'.location

theorem Action.pull_before (b : Action) : pull.Before b := by
  intro d d' hd
  cases hd

theorem Blames.pairwise_before {t : Token} {trail : List Action} (h : Blames t trail) :
    trail.Pairwise Action.Before := by
  refine List.pairwise_of_forall_mem_list fun a ha b hb d d' hd hd' => ?_
  rw [hd] at ha
  rw [hd'] at hb
  rw [(h d ha).1, (h d' hb).1]

/-- Faults are found from the top of the text to the bottom. -/
theorem pairwise_before_statements (h : Ordered finish ahead) :
    (statements finish ahead).2.Pairwise Action.Before := by
  fun_induction statements finish ahead with
  | case1 => exact .nil
  | case2 t ahead r others ih =>
    obtain ⟨untaken, hsuffix, hrest, hblames⟩ := (statement_derivation finish (t :: ahead)).singled
    have hordered := h.of_isSuffix hsuffix
    have hothers := ih (hordered.of_isSuffix hrest)
    rw [List.pairwise_append]
    refine ⟨hblames.pairwise_before, .cons (fun b _ => b.pull_before) hothers, ?_⟩
    rintro a ha b hb d d' rfl rfl
    have hb : .fault d' ∈ others.2 := List.mem_of_ne_of_mem (by simp) hb
    have hd' := placed_statements finish r.rest.tail d' hb
    rw [(hblames d ha).1]
    exact hordered.location_currentToken_le ((places_sublist finish hrest).subset hd')

end LetLang.Grammar
