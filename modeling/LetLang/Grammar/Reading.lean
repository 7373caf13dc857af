import LetLang.Diagnostic.Basic
import LetLang.Token.Basic

/-! Rules for reading tokens, and what comes of them. A rule stands on the first of the
tokens ahead and sees one more; behind the last token it stands on the end of the text.
A rule that fails stays where it failed, so nothing it has taken is given back. -/
namespace LetLang.Grammar

variable {α β : Type}

/-- What a rule does to the world outside: take a token off the text, or find a fault. -/
inductive Action where
  | pull
  | fault (d : Diagnostic)
deriving DecidableEq, Repr

structure Reading (α : Type) where
  value? : Option α
  /-- The tokens ahead of the place where the rule stopped. -/
  rest : List Token
  trail : List Action
deriving DecidableEq, Repr

/-- How to read something, given the place where the text ends and the tokens ahead. -/
def Rule (α : Type) := Location → List Token → Reading α

namespace Rule

def pure (a : α) : Rule α := fun _ ahead => ⟨some a, ahead, []⟩

/-- One rule after the other; a failure of the first is the failure of both. -/
def bind (first : Rule α) (second : α → Rule β) : Rule β := fun finish ahead =>
  match first finish ahead with
  | ⟨none, rest, trail⟩ => ⟨none, rest, trail⟩
  | ⟨some a, rest, trail⟩ =>
    let r := second a finish rest
    ⟨r.value?, r.rest, trail ++ r.trail⟩

instance : Monad Rule where
  pure := pure
  bind := bind

theorem pure_apply (a : α) (finish : Location) (ahead : List Token) :
    (Pure.pure a : Rule α) finish ahead = ⟨some a, ahead, []⟩ := rfl

theorem bind_apply (first : Rule α) (second : α → Rule β) (finish : Location)
    (ahead : List Token) :
    (first >>= second) finish ahead =
      match first finish ahead with
      | ⟨none, rest, trail⟩ => ⟨none, rest, trail⟩
      | ⟨some a, rest, trail⟩ =>
        ⟨(second a finish rest).value?, (second a finish rest).rest,
          trail ++ (second a finish rest).trail⟩ := rfl

/-- A rule that leaves no more tokens than it was given. -/
def Shrinking (rule : Rule α) : Prop :=
  ∀ finish ahead, (rule finish ahead).rest.length ≤ ahead.length

theorem shrinking_pure (a : α) : Shrinking (Pure.pure a : Rule α) :=
  fun _ _ => Nat.le_refl _

theorem Shrinking.bind {first : Rule α} {second : α → Rule β} (h : first.Shrinking)
    (h' : ∀ a, (second a).Shrinking) : (first >>= second).Shrinking := by
  intro finish ahead
  have hfirst := h finish ahead
  rw [bind_apply]
  split
  · next hr => rwa [hr] at hfirst
  · next a rest trail hr =>
    rw [hr] at hfirst
    exact Nat.le_trans (h' a finish rest) hfirst

end Rule

def current : Rule Token := fun finish ahead =>
  ⟨some (ahead.headD (.finish finish)), ahead, []⟩

/-- The token behind the one a rule stands on. -/
def upcoming : Rule Token := fun finish ahead =>
  ⟨some (ahead.tail.headD (.finish finish)), ahead, []⟩

/-- Steps to the next token. At the end of the text this changes nothing. -/
def advance : Rule Unit := fun _ ahead => ⟨some (), ahead.tail, [.pull]⟩

def report (fault : Fault) (place : Location) : Rule Unit := fun _ ahead =>
  ⟨some (), ahead, [.fault ⟨fault, place⟩]⟩

/-- Gives up without a word. -/
def abandon : Rule α := fun _ ahead => ⟨none, ahead, []⟩

def reject (fault : Fault) (place : Location) : Rule α := do
  report fault place
  abandon

/-- Turns a failure of the rule into an absent value. -/
def optional (rule : Rule α) : Rule (Option α) := fun finish ahead =>
  let r := rule finish ahead
  ⟨some r.value?, r.rest, r.trail⟩

/-- Steps to the next token if it is of the given kind, and rejects it otherwise. -/
def expect (kind : Kind) : Rule Token := do
  let t ← upcoming
  if t.kind = kind then
    advance
    return t
  else
    reject (.unexpected kind t.kind) t.location

theorem shrinking_current : current.Shrinking := fun _ _ => Nat.le_refl _

theorem shrinking_upcoming : upcoming.Shrinking := fun _ _ => Nat.le_refl _

theorem shrinking_advance : advance.Shrinking := fun _ ahead => by
  simp [advance]

theorem shrinking_report (fault : Fault) (place : Location) :
    (report fault place).Shrinking := fun _ _ => Nat.le_refl _

theorem shrinking_abandon : (abandon : Rule α).Shrinking := fun _ _ => Nat.le_refl _

theorem shrinking_reject (fault : Fault) (place : Location) :
    (reject fault place : Rule α).Shrinking :=
  (shrinking_report fault place).bind fun _ => shrinking_abandon

theorem shrinking_optional {rule : Rule α} (h : rule.Shrinking) : (optional rule).Shrinking :=
  fun finish ahead => h finish ahead

theorem shrinking_expect (kind : Kind) : (expect kind).Shrinking := by
  refine shrinking_upcoming.bind fun t => ?_
  split
  · exact shrinking_advance.bind fun _ => Rule.shrinking_pure t
  · exact shrinking_reject _ _

end LetLang.Grammar
