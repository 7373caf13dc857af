import LetLang.Proofs.Slices

/-! Where nodes stand. A node stands where its first token does, however deep to the left that is,
so in a text whose tokens go down no token of a node is further up than the node. -/
namespace LetLang

/-- The first of the tokens stands at the place, and none of them further up. -/
def Location.Heads (place : Location) (ts : List Token) : Prop :=
  ts.head?.map Token.location = some place ∧ ∀ t ∈ ts, place ≤ t.location

/-- Each token stands further down than the ones before it. -/
def Ascending (ts : List Token) : Prop := (ts.map Token.location).Pairwise (· < ·)

theorem Ascending.sublist {ts ts' : List Token} (h : Ascending ts') (hsub : ts.Sublist ts') :
    Ascending ts :=
  List.Pairwise.sublist (hsub.map Token.location) h

theorem Ascending.heads {ts : List Token} {place : Location} (h : Ascending ts)
    (hplace : ts.head?.map Token.location = some place) : place.Heads ts := by
  refine ⟨hplace, fun t ht => ?_⟩
  cases ts with
  | nil => cases ht
  | cons first ts =>
    obtain rfl := Option.some.inj hplace
    rcases List.mem_cons.1 ht with rfl | ht
    · exact le_refl _
    · exact le_of_lt (List.rel_of_pairwise_cons h (List.mem_map_of_mem ht))

namespace Expr

theorem head?_tokens (e : Expr) : e.tokens.head?.map Token.location = some e.location := by
  induction e with
  | name identifier => rfl
  | integer token value => rfl
  | unary token operator operand _ => rfl
  | binary token operator left right ihleft _ =>
    rw [tokens, List.head?_append_of_ne_nil _ left.tokens_ne_nil, ihleft, location_binary]

/-- The tokens of a part are a stretch of the tokens of the whole. -/
theorem tokens_isInfix {e part : Expr} (h : part ∈ e.parts) : part.tokens <:+: e.tokens := by
  induction e with
  | name identifier =>
    obtain rfl := List.mem_singleton.1 h
    exact List.infix_refl _
  | integer token value =>
    obtain rfl := List.mem_singleton.1 h
    exact List.infix_refl _
  | unary token operator operand ih =>
    rcases List.mem_cons.1 h with rfl | h
    · exact List.infix_refl _
    · exact (ih h).trans (List.suffix_cons _ _).isInfix
  | binary token operator left right ihleft ihright =>
    rcases List.mem_cons.1 h with rfl | h
    · exact List.infix_refl _
    · rcases List.mem_append.1 h with h | h
      · exact (ihleft h).trans (List.prefix_append _ _).isInfix
      · have hright := List.suffix_append left.tokens (token :: right.tokens)
        exact (ihright h).trans ((List.suffix_cons token _).trans hright).isInfix

end Expr

namespace Statement

/-- A statement stands where the slice that it takes up does, which has all its tokens, and the
expressions in it take up stretches of the slice and stand where these do. -/
structure Rooted (s : Statement) (slice : List Token) : Prop where
  heads : s.location.Heads slice
  tokens_subset : s.token :: s.tokens ⊆ slice
  expressions : ∀ e ∈ s.expressions, e.tokens <:+: slice ∧ e.location.Heads e.tokens

variable {s : Statement} {slice : List Token}

theorem WellFormed.mem_tokens (h : s.WellFormed) : s.token ∈ s.tokens := by
  cases s with
  | binding token name value? => exact List.mem_cons_self
  | returning token value? => exact List.mem_cons_self
  | expression token expr => exact List.mem_of_mem_head? h.1

theorem Spans.tokens_sublist (h : s.Spans slice) : s.tokens.Sublist slice := by
  cases h with
  | binding _ _ _ _ =>
    exact (((List.sublist_append_left _ _).cons _).cons_cons _).cons_cons _
  | returning _ _ => exact (List.sublist_append_left _ _).cons_cons _
  | expression _ => exact List.sublist_append_left _ _

theorem Spans.head? (h : s.Spans slice) : slice.head?.map Token.location = some s.location := by
  cases h with
  | binding _ _ _ _ => rfl
  | returning _ _ => rfl
  | @expression token expr closing _ =>
    rw [List.head?_append_of_ne_nil _ expr.tokens_ne_nil, expr.head?_tokens]
    rfl

theorem Spans.tokens_isInfix (h : s.Spans slice) {e : Expr} (he : e ∈ s.expressions) :
    e.tokens <:+: slice := by
  cases h with
  | @binding word assign semicolon name value _ _ _ _ =>
    rcases List.mem_cons.1 he with rfl | he
    · exact ⟨[word], assign :: (value.tokens ++ [semicolon]), rfl⟩
    · exact (Expr.tokens_isInfix he).trans ⟨[word, name.token, assign], [semicolon], by simp⟩
  | @returning word value? closing _ _ =>
    cases value? with
    | none => cases he
    | some value => exact (Expr.tokens_isInfix he).trans ⟨[word], closing, by simp⟩
  | expression _ => exact (Expr.tokens_isInfix he).trans (List.prefix_append _ _).isInfix

theorem Spans.rooted (h : s.Spans slice) (hwell : s.WellFormed) (hslice : Ascending slice) :
    s.Rooted slice where
  heads := hslice.heads h.head?
  tokens_subset := List.cons_subset.2 ⟨h.tokens_sublist.subset hwell.mem_tokens,
    h.tokens_sublist.subset⟩
  expressions e he := ⟨h.tokens_isInfix he,
    (hslice.sublist (h.tokens_isInfix he).sublist).heads e.head?_tokens⟩

end Statement

namespace Sliced

variable {all : List Statement} {slices : List (List Token)} {text : List Token}

theorem rooted (h : Sliced all slices text) (hwell : ∀ s ∈ all, s.WellFormed)
    (htext : Ascending text) : List.Forall₂ Statement.Rooted all slices := by
  induction h with
  | nil _ => exact .nil
  | @cons s slice all slices rest lost hspans hrest ih =>
    have hslice : slice.Sublist (lost ++ slice ++ rest) :=
      (List.sublist_append_right lost slice).trans (List.sublist_append_left _ rest)
    refine .cons (hspans.rooted (hwell s List.mem_cons_self) (htext.sublist hslice)) ?_
    exact ih (fun s' hs => hwell s' (List.mem_cons_of_mem s hs))
      (htext.sublist (List.sublist_append_right _ rest))

theorem tokens_sublist (h : Sliced all slices text) :
    (all.flatMap Statement.tokens).Sublist text := by
  induction h with
  | nil lost => exact List.nil_sublist lost
  | cons lost hspans _ ih =>
    rw [List.flatMap_cons]
    exact (hspans.tokens_sublist.trans (List.sublist_append_right lost _)).append ih

theorem locations_sublist (h : Sliced all slices text) :
    (all.map Statement.location).Sublist (text.map Token.location) := by
  induction h with
  | nil lost => exact List.nil_sublist _
  | @cons s slice all slices rest lost hspans _ ih =>
    have hfirst : [s.location].Sublist (slice.map Token.location) := by
      rw [List.singleton_sublist]
      refine List.mem_of_mem_head? ?_
      rw [List.head?_map, hspans.head?]
      rfl
    rw [List.map_cons, List.map_append, List.map_append, ← List.singleton_append]
    exact (hfirst.trans (List.sublist_append_right _ _)).append ih

end Sliced

end LetLang
