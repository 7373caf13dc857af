import LetLang.Proofs.Operations
import LetLang.Trace

/-! The records of the scanner. One is made for every token that a parser pulls: the tokens of the
source in their order, and behind the last one its end as often as the parser goes on pulling. -/
namespace LetLang

open Log (Event)

theorem Log.keep_trace (events : List Event) : keep (some .trace) events = events := by
  refine List.filter_eq_self.2 fun event _ => ?_
  cases event <;> rfl

/-- The record of a token of the source. -/
def Log.Event.ofToken (source : Source) (t : Token) : Event :=
  .scanned source.name t.location t.literal

/-- What the scanner has logged for a parser at the lowest level. -/
def Parser.records (p : Parser) : List Event :=
  (Log.keep (some .trace) p.log).filter (·.origin = .scanner)

section
variable {source : Source} (hfailure : source.failure? = none)
include hfailure

theorem Source.ending_of_failure? : source.ending = [] := by
  rw [ending, hfailure]

theorem Source.opening_of_failure? : source.opening = [] := by
  rw [opening, ending_of_failure? hfailure, ite_self]

theorem Scanner.events_of_failure? (s : Scanner) :
    s.events source = [.ofToken source s.next.1] := by
  rw [events, Source.ending_of_failure? hfailure]
  simp [Event.ofToken]

/-- A replay with as many pulls as there are tokens ahead records these, and then the end. -/
theorem Step.filter_replay {s : Scanner} {steps : List Step}
    (hlength : s.tokens.length ≤ steps.count .pull) :
    (replay source s steps).filter (·.origin = .scanner) =
      s.tokens.map (.ofToken source) ++ List.replicate (steps.count .pull - s.tokens.length)
        (.ofToken source (.finish s.finish)) := by
  induction steps generalizing s with
  | nil =>
    have hnil : s.tokens = [] := List.length_eq_zero_iff.1 (Nat.le_zero.1 hlength)
    rw [hnil]
    rfl
  | cons step steps ih =>
    cases step with
    | reported d =>
      rw [List.count_cons_of_ne (by simp)] at hlength ⊢
      exact ih hlength
    | repeated d =>
      rw [List.count_cons_of_ne (by simp)] at hlength ⊢
      exact ih hlength
    | pull =>
      have hscanner : (Event.ofToken source s.next.1).origin = .scanner := rfl
      rw [List.count_cons_self] at hlength ⊢
      rw [replay, Scanner.events_of_failure? hfailure, List.singleton_append,
        List.filter_cons_of_pos (by simp [hscanner])]
      cases htokens : s.tokens with
      | nil =>
        have hnext : s.next.2.tokens = [] := by rw [s.tokens_next, htokens, List.tail_nil]
        rw [ih (by simp [hnext]), hnext, s.next_fst, s.finish_next, htokens]
        simp [List.replicate_succ]
      | cons t ts =>
        have hnext : s.next.2.tokens = ts := by rw [s.tokens_next, htokens, List.tail_cons]
        rw [htokens, List.length_cons] at hlength
        rw [ih (by rw [hnext]; omega), hnext, s.next_fst, s.finish_next, htokens]
        simp

end

theorem Parser.records_eq {p : Parser} {source : Source} (hsource : p.source = source)
    (hfailure : source.failure? = none)
    (hlength : (Scanner.ofSource source).tokens.length ≤ p.history.count .pull) :
    p.records = (Scanner.ofSource source).tokens.map (.ofToken source) ++
      List.replicate (p.history.count .pull - (Scanner.ofSource source).tokens.length)
        (.ofToken source (.finish (Scanner.ofSource source).finish)) := by
  have hcount : p.history.reverse.count .pull = p.history.count .pull := List.count_reverse
  rw [records, Log.keep_trace, log, hsource, Source.opening_of_failure? hfailure, List.nil_append,
    Step.filter_replay hfailure (by rwa [hcount]), hcount]

end LetLang
