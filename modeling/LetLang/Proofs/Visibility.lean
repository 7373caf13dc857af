import LetLang.Proofs.Parser
import LetLang.Proofs.Scanner.Cursor
import LetLang.Proofs.Source
import LetLang.Trace

/-! What can be told of a source: its bytes up to a zero byte or a failed read. What comes behind
them changes no token, no statement and no report, and however a cursor is called, it does not
get there. -/
namespace LetLang

open Log (Event)

/-- A call of something that brings tokens: for the next one, or for the next one that does not
mark the end. -/
inductive Call where
  | token
  | item
deriving DecidableEq, Repr

namespace Call

def answer (call : Call) (t : Token) : Option Token :=
  match call with
  | .token => some t
  | .item => if t.kind = .endOfInput then none else some t

/-- The answers to a series of calls, and what they leave behind. -/
def run {σ : Type} (step : σ → Call → Option Token × σ) (state : σ) :
    List Call → List (Option Token) × σ
  | [] => ([], state)
  | call :: calls =>
    let r := run step (step state call).2 calls
    ((step state call).1 :: r.1, r.2)

end Call

namespace Scanner

def call (s : Scanner) : Call → Option Token × Scanner
  | .token => (some s.next.1, s.next.2)
  | .item => s.next?

theorem call_eq (s : Scanner) (c : Call) : s.call c = (c.answer s.next.1, s.next.2) := by
  cases c with
  | token => rfl
  | item =>
    change s.next? = _
    by_cases h : s.skipBlanks.rest = []
    · rw [next?, if_pos h, next_of_nil h]
      rfl
    · have hmem : s.next.1 ∈ s.tokens := by
        rw [tokens_of_ne_nil h]
        exact List.mem_cons_self
      rw [next?, if_neg h, Call.answer, if_neg (kind_ne_endOfInput_of_mem hmem)]

/-- Calls are answered from the tokens one after the other, and behind the last of them with the
end. -/
theorem run_call_fst (s : Scanner) (calls : List Call) :
    (Call.run call s calls).1 =
      calls.mapIdx fun k c => c.answer ((s.tokens.drop k).headD (.finish s.finish)) := by
  induction calls generalizing s with
  | nil => rfl
  | cons c calls ih =>
    rw [List.mapIdx_cons, Call.run, call_eq, ih, finish_next, tokens_next, next_fst]
    simp

theorem next_exhausted (s : Scanner) : s.exhausted.next = (.finish s.finish, s.exhausted) := rfl

theorem call_exhausted (s : Scanner) (c : Call) :
    s.exhausted.call c = (c.answer (.finish s.finish), s.exhausted) := by
  rw [call_eq, next_exhausted]

theorem exhausted_next (s : Scanner) : s.next.2.exhausted = s.exhausted := by
  rw [exhausted, finish_next, exhausted]

theorem eq_exhausted {s : Scanner} (h : s.rest = []) : s = s.exhausted := by
  obtain ⟨rest, place⟩ := s
  cases h
  rfl

/-- One call more than there are tokens gets to the end, and later ones stay there. -/
theorem run_call_snd {s : Scanner} {calls : List Call}
    (h : s.rest = [] ∨ s.tokens.length < calls.length) :
    (Call.run call s calls).2 = s.exhausted := by
  induction calls generalizing s with
  | nil => exact eq_exhausted (h.resolve_right (Nat.not_lt_zero _))
  | cons c calls ih =>
    rw [Call.run, call_eq, ← exhausted_next]
    apply ih
    rcases h with h | h
    · rw [eq_exhausted h]
      exact .inl rfl
    · by_cases hblanks : s.skipBlanks.rest = []
      -- There was no token left but maybe blanks, and this call has taken them.
      · rw [next_of_nil hblanks]
        exact .inl hblanks
      · rw [tokens_of_ne_nil hblanks, List.length_cons, List.length_cons] at h
        exact .inr (Nat.lt_of_succ_lt_succ h)

end Scanner

namespace Cursor

def call (c : Cursor) (call : Call) : Option Token × Cursor := (call.answer c.next.1, c.next.2)

theorem Stands.call_exhausted {source : Source} {s : Scanner} {c : Cursor}
    (h : Stands source s.exhausted c) (one : Call) :
    c.call one = (one.answer (.finish s.finish), c) := by
  have hplace : c.place = s.finish := h.place_eq
  rw [call, next_of_zero (h.byte_eq_zero rfl), hplace]

/-- A cursor answers calls like the scanner where it stands, and goes on standing there. -/
theorem Stands.run_call {source : Source} {s : Scanner} {c : Cursor} (h : Stands source s c)
    (calls : List Call) :
    (Call.run call c calls).1 = (Call.run Scanner.call s calls).1 ∧
      Stands source (Call.run Scanner.call s calls).2 (Call.run call c calls).2 := by
  induction calls generalizing s c with
  | nil => exact ⟨rfl, h⟩
  | cons one calls ih =>
    obtain ⟨htoken, hstands⟩ := h.next
    obtain ⟨hanswers, hstands⟩ := ih hstands
    rw [Call.run, Call.run, Scanner.call_eq, call, htoken, hanswers]
    exact ⟨rfl, hstands⟩

end Cursor

/-- The warnings that scanning on may still bring: one until the end is met. -/
def Scanner.warningsLeft (s : Scanner) : Nat := if s.rest = [] then 0 else 1

theorem Source.countP_ending_le (source : Source) (p : Event → Bool) :
    source.ending.countP p ≤ 1 := by
  refine List.countP_le_length.trans ?_
  rw [ending]
  split <;> simp

theorem Scanner.countP_events_le (source : Source) (s : Scanner) :
    (s.events source).countP (·.level = .warn) + s.next.2.warningsLeft ≤ s.warningsLeft := by
  have hscanned : ([.scanned source.name s.next.1.location s.next.1.literal] :
      List Event).countP (·.level = .warn) = 0 := rfl
  rw [events, List.countP_append, hscanned, warningsLeft, warningsLeft]
  by_cases hrest : s.rest = []
  · have hbehind : s.next.2.rest = [] := by rw [eq_exhausted hrest, next_exhausted]; rfl
    simp [hrest, hbehind]
  · by_cases hbehind : s.next.2.rest = []
    · simpa [hrest, hbehind] using source.countP_ending_le _
    · simp [hrest, hbehind]

theorem Step.countP_replay_le (source : Source) (s : Scanner) (steps : List Step) :
    (replay source s steps).countP (·.level = .warn) ≤ s.warningsLeft := by
  induction steps generalizing s with
  | nil => exact Nat.zero_le _
  | cons step steps ih =>
    cases step with
    | pull =>
      have hevents := s.countP_events_le source
      have hlater := ih s.next.2
      rw [replay, List.countP_append]
      omega
    | reported d => exact ih s
    | repeated d => exact ih s

/-- Whatever is done with a source, its log has one warning at most. -/
theorem countP_opening_append_le (source : Source) (steps : List Step) :
    (source.opening ++ Step.replay source (.ofSource source) steps).countP (·.level = .warn) ≤
      1 := by
  have hsteps := Step.countP_replay_le source (.ofSource source) steps
  rw [List.countP_append, Source.opening]
  split
  · next h =>
    have hleft : (Scanner.ofSource source).warningsLeft = 0 := if_pos h
    have hending := source.countP_ending_le (·.level = .warn)
    omega
  · next h =>
    have hleft : (Scanner.ofSource source).warningsLeft = 1 := if_neg h
    rw [List.countP_nil]
    omega

/-- Of a source no more can be told than from the bytes before its first zero byte or failed read.
It has the tokens and the parse of these bytes alone. Calls are answered with the tokens in order
and then with the end, where nothing moves and nothing is read, and one failed read at most is
logged. -/
theorem visible_bytes_decide (name : String) {bytes : List UInt8} {front back : List Delivery}
    (hzero : 0 ∉ bytes) (hfront : Delivery.readAll front = .ok bytes)
    (hback : Delivery.Ending back) :
    let source : Source := ⟨name, front ++ back⟩
    let plain : Source := .ofBytes name bytes
    tokenize source = tokenize plain ∧ parse source = parse plain ∧
      (∀ calls : List Call,
        let s := Call.run Scanner.call (.ofSource source) calls
        let c := Call.run Cursor.call (.ofSource source) calls
        s.1 = calls.mapIdx (fun k call => call.answer (tokenAt plain k)) ∧ c.1 = s.1 ∧
          c.2.reads ≤ bytes.length + 1 ∧ c.2.failures.length ≤ 1 ∧
          ((tokenize plain).length ≤ calls.length → ∀ call,
            let last := Token.finish (Scanner.ofSource plain).finish
            s.2.call call = (call.answer last, s.2) ∧ c.2.call call = (call.answer last, c.2))) ∧
      ∀ steps, (source.opening ++ Step.replay source (.ofSource source) steps).countP
        (·.level = .warn) ≤ 1 := by
  intro source plain
  have hvisible : source.visible = bytes :=
    Source.visible_append_of_ending hzero hfront hback name
  have hplain : plain.visible = bytes := Source.visible_ofBytes_of_zero_not_mem hzero name
  have hsame : Scanner.ofSource source = .ofSource plain := by
    rw [Scanner.ofSource, Scanner.ofSource, hvisible, hplain]
  refine ⟨?_, ?_, fun calls => ?_, countP_opening_append_le source⟩
  · rw [tokenize, tokenize, hsame]
  · exact parse_congr (hvisible.trans hplain.symm)
  · intro s c
    obtain ⟨hanswers, hstands⟩ := (Cursor.stands_ofSource source).run_call calls
    have hreads := hstands.reads_le
    rw [hvisible] at hreads
    refine ⟨?_, hanswers, hreads, hstands.length_failures_le, fun hlength call => ?_⟩
    · simp only [s, Scanner.run_call_fst, hsame, headD_drop_tokens]
    · rw [length_tokenize, ← hsame] at hlength
      have hend : s.2 = (Scanner.ofSource plain).exhausted := by
        rw [← hsame]
        exact Scanner.run_call_snd (.inr hlength)
      rw [hend] at hstands ⊢
      exact ⟨Scanner.call_exhausted _ call, hstands.call_exhausted call⟩

/-- The first read that fails is only an interruption. The second is not, and hides a name. -/
theorem visible_bytes_decide_of_broken :
    let front : List Delivery := [.byte 0x61, .failure ⟨.interrupted, ""⟩, .byte 0x2B]
    let back : List Delivery := [.failure ⟨.other, "gone"⟩, .byte 0x62]
    let source : Source := ⟨"", front ++ back⟩
    let c := Call.run Cursor.call (.ofSource source) [.item, .token, .item, .token]
    Delivery.readAll front = .ok [0x61, 0x2B] ∧ Delivery.Ending back ∧
      tokenize source = tokenize (.ofText "" "a+") ∧ parse source = parse (.ofText "" "a+") ∧
      c.1 =
        [some ⟨.identifier, "a", ⟨1, 1⟩⟩, some ⟨.plus, "+", ⟨1, 2⟩⟩, none, some (.finish ⟨1, 3⟩)] ∧
      c.2.reads ≤ 3 ∧ ∀ call, (c.2.call call).2 = c.2 := by
  intro front back source c
  have hfront : Delivery.readAll front = .ok [0x61, 0x2B] := rfl
  have hback : Delivery.Ending back := .failed rfl _
  obtain ⟨htokens, hparse, hcalls, _⟩ := visible_bytes_decide "" (by decide) hfront hback
  obtain ⟨hanswers, hsame, hreads, _, hstays⟩ := hcalls [.item, .token, .item, .token]
  refine ⟨hfront, hback, htokens, hparse, hsame.trans (hanswers.trans ?_), hreads, fun call => ?_⟩
  · decide +kernel
  · have hcall : c.2.call call = (_, c.2) := (hstays (by decide +kernel) call).2
    rw [hcall]

end LetLang
