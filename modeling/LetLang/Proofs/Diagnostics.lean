import LetLang.Proofs.Parser
import LetLang.Proofs.Scanner.Order
import LetLang.Proofs.Source

/-! The reports about a source. Faults are found on the way down the text, so what repeats a place
repeats the latest one, and looking back at that one report is enough to report no token twice. -/
namespace LetLang

open Grammar (Action)

/-- Reporting in order what was found in order leaves out all that repeats a place. -/
theorem pairwise_foldl_record {trail : List Action} {reported : List Diagnostic}
    (htrail : trail.Pairwise Action.Before)
    (hreported : reported.Pairwise fun d d' => d'.location < d.location)
    (hlatest : ∀ latest ∈ reported.head?, ∀ d, .fault d ∈ trail → latest.location ≤ d.location) :
    (trail.foldl Action.record reported).Pairwise fun d d' => d'.location < d.location := by
  induction trail generalizing reported with
  | nil => exact hreported
  | cons a trail ih =>
    have hbefore := (List.pairwise_cons.1 htrail).1
    have hlatest' : ∀ latest ∈ reported.head?, ∀ d, .fault d ∈ trail →
        latest.location ≤ d.location :=
      fun latest hmem d hd => hlatest latest hmem d (List.mem_cons_of_mem a hd)
    refine ih htrail.of_cons ?_ ?_
    · cases a with
      | pull => exact hreported
      | fault d =>
        rw [Action.record]
        split
        · exact hreported
        · next hplace =>
          refine List.Pairwise.cons (fun d' hd' => ?_) hreported
          cases reported with
          | nil => cases hd'
          | cons latest reported =>
            have hle := hlatest latest rfl d List.mem_cons_self
            have hlt : latest.location < d.location :=
              lt_of_le_of_ne hle fun hsame => hplace (congrArg some hsame)
            rcases List.mem_cons.1 hd' with rfl | hd'
            · exact hlt
            · exact Location.lt_trans (List.rel_of_pairwise_cons hreported hd') hlt
    · cases a with
      | pull => exact hlatest'
      | fault d =>
        rw [Action.record]
        split
        · exact hlatest'
        · rintro latest hmem d' hd'
          obtain rfl := Option.some.inj hmem
          exact hbefore _ hd' _ _ rfl rfl

theorem pairwise_location_diagnostics {source : Source}
    (h : source.visible.length < UInt32.size - 1) :
    ((parse source).2.map (·.location)).Pairwise (· < ·) := by
  have hbefore := Grammar.pairwise_before_statements (ordered_tokens_ofSource h)
  rw [parse_eq, List.pairwise_map, List.pairwise_reverse]
  exact pairwise_foldl_record hbefore .nil (by simp)

theorem exists_described_of_mem_diagnostics {source : Source} {d : Diagnostic}
    (h : d ∈ (parse source).2) :
    ∃ t ∈ tokenize source, t.location = d.location ∧ d.fault.Describes t := by
  rw [parse_eq] at h
  have hfault := (mem_of_mem_foldl_record (List.mem_reverse.1 h)).resolve_left List.not_mem_nil
  exact Grammar.exists_described_of_fault hfault

/-- Reports go down the text, none at the place of another, and each describes a token, or the end,
of the text at its place. -/
theorem diagnostics_descend (name : String) (bytes : List UInt8)
    (hlength : bytes.length < UInt32.size - 1) :
    ((parse (.ofBytes name bytes)).2.map (·.location)).Pairwise (· < ·) ∧
      ∀ d ∈ (parse (.ofBytes name bytes)).2,
        ∃ t ∈ tokenize (.ofBytes name bytes), t.location = d.location ∧ d.fault.Describes t := by
  have hvisible := (Source.visible_ofBytes_isPrefix name bytes).length_le
  constructor
  · exact pairwise_location_diagnostics (Nat.lt_of_le_of_lt hvisible hlength)
  · intro d hd
    exact exists_described_of_mem_diagnostics hd

/-- A binding without its sign, a numeral without a value, a stray parenthesis, one that blocks an
expression, and a sign in front of the end: one report for each. -/
theorem diagnostics_descend_of_faulty :
    (parse (.ofBytes "faulty" (Utf8.encode "let x 5; 9999999999999999999 ) y(-"))).2 =
        [⟨.unexpected .assign .integer, ⟨1, 7⟩⟩, ⟨.outOfRange "9999999999999999999", ⟨1, 10⟩⟩,
          ⟨.cannotStart .rightParen, ⟨1, 30⟩⟩, ⟨.cannotContinue .leftParen, ⟨1, 33⟩⟩,
          ⟨.cannotStart .endOfInput, ⟨1, 35⟩⟩] ∧
      ((parse (.ofBytes "faulty" (Utf8.encode "let x 5; 9999999999999999999 ) y(-"))).2.map
        (·.location)).Pairwise (· < ·) :=
  ⟨by decide +kernel, (diagnostics_descend "faulty" _ (by decide +kernel)).1⟩

end LetLang
