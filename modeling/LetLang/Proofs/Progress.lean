import LetLang.Proofs.Diagnostics
import LetLang.Proofs.Grammar.Shortage
import LetLang.Proofs.Outcome.Basic
import LetLang.Proofs.Trace

/-! Progress through a source. Reading its program takes every token and stops on the end of the
text, stepping on from that once more if the text is short. Then there is nothing left to read. -/
namespace LetLang

open Grammar (Action Exhausts Ordered pulls shortage)

namespace Grammar

variable {finish : Location} {ahead : List Token} {trail : List Action}

/-- No token stands where the text ends, so a shortage is always reported, and reported last. -/
theorem Exhausts.pulls_eq_iff (h : Exhausts finish ahead trail) (hordered : Ordered finish ahead) :
    pulls trail = ahead.length + 1 ↔
      ∃ d ∈ (trail.foldl Action.record []).head?, d.fault = .cannotStart .endOfInput := by
  cases h with
  | even hpulls htrail =>
    refine ⟨fun hmore => by omega, ?_⟩
    rintro ⟨d, hd, hfault⟩
    have hd := mem_of_mem_foldl_record (List.mem_of_mem_head? hd)
    exact absurd hfault (htrail d (hd.resolve_left List.not_mem_nil))
  | @short front back hpulls htrail hfront hback =>
    refine ⟨fun _ => ⟨shortage finish, ?_, rfl⟩, fun _ => hpulls⟩
    have hplace : (front.foldl Action.record []).head?.map (·.location) ≠
        some (shortage finish).location := by
      intro hlatest
      obtain ⟨d, hd, hsame⟩ := Option.map_eq_some_iff.1 hlatest
      have hd := mem_of_mem_foldl_record (List.mem_of_mem_head? hd)
      have hmem := hfront d (hd.resolve_left List.not_mem_nil)
      have hlt := (List.pairwise_append.1 hordered).2.2 _ hmem _ (List.mem_singleton_self _)
      exact (ne_of_lt hlt) hsame
    rw [htrail, List.foldl_append, List.foldl_cons, Action.record, if_neg hplace,
      foldl_record_of_quiet hback]
    rfl

end Grammar

namespace Parser

/-- At the end of the text a program is empty, and reading it changes nothing. -/
theorem program_of_ahead_eq_nil {p : Parser} (h : p.ahead = []) : p.program = (⟨[]⟩, p) := by
  obtain ⟨source, ahead, finish, reported, history⟩ := p
  obtain rfl : ahead = [] := h
  rw [program, run, Grammar.program, Grammar.statements]
  rfl

section
variable (source : Source)

theorem current_program : (ofSource source).program.2.current =
    .finish (Scanner.ofSource source).finish :=
  congrArg Token.finish ((ofSource source).finish_foldl_note _)

theorem position_program :
    (ofSource source).program.2.position = pulls (readings source).2 :=
  ((sound_ofSource source).position_run Grammar.program).trans (Nat.zero_add _)

theorem count_history_program :
    (ofSource source).program.2.history.count .pull = 2 + pulls (readings source).2 :=
  (ofSource source).count_history_foldl_note _

theorem getLast?_diagnostics_program : (ofSource source).program.2.diagnostics.getLast? =
    ((readings source).2.foldl Action.record []).head? := by
  change (parse source).2.getLast? = _
  rw [parse_eq, List.getLast?_reverse]

theorem source_program : (ofSource source).program.2.source = source :=
  (ofSource source).source_foldl_note _

end

/-- Reading the program of a source steps over all its tokens to the end, and on once more just if
the last report is that the text is short. The scanner has then recorded each token once, and the
end twice or three times. To read a program again brings nothing. -/
theorem program_reaches_end (name : String) (bytes : List UInt8)
    (hlength : bytes.length < UInt32.size - 1) :
    let source := Source.ofBytes name bytes
    let tokens := (tokenize source).dropLast
    let finish := Token.finish (Scanner.ofSource source).finish
    let p := (ofSource source).program.2
    ∃ extra ≤ 1, p.current = finish ∧ p.position = tokens.length + extra ∧
      (extra = 1 ↔ ∃ d ∈ p.diagnostics.getLast?, d.fault = .cannotStart .endOfInput) ∧
      p.records = tokens.map (.ofToken source) ++
        List.replicate (2 + extra) (.ofToken source finish) ∧
      p.program = (⟨[]⟩, p) := by
  intro source tokens finish p
  have hvisible := (Source.visible_ofBytes_isPrefix name bytes).length_le
  have hordered := ordered_tokens_ofSource (Nat.lt_of_le_of_lt hvisible hlength)
  have hexhausts : Exhausts _ _ (readings source).2 :=
    Grammar.exhausts_statements _ _ fun t ht => Scanner.kind_ne_endOfInput_of_mem ht
  have htokens : tokens = (Scanner.ofSource source).tokens := dropLast_tokenize source
  obtain ⟨extra, hextra, hpulls⟩ :
      ∃ extra ≤ 1, pulls (readings source).2 = tokens.length + extra := by
    rw [htokens]
    cases hexhausts with
    | even hpulls _ => exact ⟨0, Nat.zero_le 1, hpulls⟩
    | short hpulls _ _ _ => exact ⟨1, Nat.le_refl 1, hpulls⟩
  have hcount : p.history.count .pull = tokens.length + (2 + extra) := by
    rw [count_history_program source, hpulls, Nat.add_left_comm]
  refine ⟨extra, hextra, current_program source, ?_, ?_, ?_, program_of_ahead_eq_nil rfl⟩
  · exact (position_program source).trans hpulls
  · rw [getLast?_diagnostics_program source, ← hexhausts.pulls_eq_iff hordered, hpulls, htokens,
      Nat.add_left_cancel_iff]
  · have hmore : (Scanner.ofSource source).tokens.length ≤ p.history.count .pull := by
      rw [hcount, htokens]
      exact Nat.le_add_right _ _
    rw [records_eq (source_program source) (Source.failure?_ofBytes name bytes) hmore, hcount,
      htokens, Nat.add_sub_cancel_left]

/-- The text ends behind a sign, where its operand is due. -/
theorem program_reaches_end_of_short :
    let source := Source.ofBytes "short" (Utf8.encode "a; -")
    let p := (ofSource source).program.2
    p.diagnostics = [⟨.cannotStart .endOfInput, ⟨1, 5⟩⟩] ∧ p.position = 4 ∧
      p.records = (tokenize source).dropLast.map (.ofToken source) ++
        List.replicate 3 (.scanned "short" ⟨1, 5⟩ "") ∧
      p.program = (⟨[]⟩, p) := by
  intro source p
  obtain ⟨extra, _, _, _, hextra, hrecords, hagain⟩ :=
    program_reaches_end "short" (Utf8.encode "a; -") (by decide +kernel)
  have hdiagnostics : p.diagnostics = [⟨.cannotStart .endOfInput, ⟨1, 5⟩⟩] := by decide +kernel
  obtain rfl : extra = 1 := hextra.2 ⟨_, by rw [hdiagnostics]; rfl, rfl⟩
  have hfinish : Log.Event.ofToken source (.finish (Scanner.ofSource source).finish) =
      .scanned "short" ⟨1, 5⟩ "" := by decide +kernel
  rw [hfinish] at hrecords
  exact ⟨hdiagnostics, by decide +kernel, hrecords, hagain⟩

end Parser

end LetLang
