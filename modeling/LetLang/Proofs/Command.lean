import LetLang.Command.Run
import LetLang.Proofs.Language.Legal
import LetLang.Proofs.Source
import LetLang.Proofs.Text.Decoding

/-! What becomes of a file that is checked: its program is printed, or there are reports about it,
or else it cannot be shown because it is no text. -/
namespace LetLang

theorem parse_of_readAll {deliveries : List Delivery} {bytes : List UInt8}
    (h : Delivery.readAll deliveries = .ok bytes) (name : String) :
    parse ⟨name, deliveries⟩ = parse (.ofBytes name bytes) := by
  have hvisible : Source.visible ⟨name, deliveries⟩ = (Source.ofBytes name bytes).visible := by
    rw [Source.visible_of_readAll h, Source.visible_ofBytes]
  exact parse_congr hvisible

namespace Delivery

variable {deliveries : List Delivery} {bytes : List UInt8}

theorem readText_of_readAll (h : readAll deliveries = .ok bytes) :
    readText deliveries =
      match Utf8.decode? bytes with
      | some text => .ok text
      | none => .error .notText := by
  rw [readText, h]
  rfl

theorem readText_of_encode {text : String}
    (h : readAll deliveries = .ok (Utf8.encode text)) : readText deliveries = .ok text := by
  rw [readText_of_readAll h, Utf8.decode?_eq_some_iff.2 rfl]

theorem readText_of_not_encode (h : readAll deliveries = .ok bytes)
    (hbytes : ∀ text, bytes ≠ Utf8.encode text) : readText deliveries = .error .notText := by
  have hdecode : Utf8.decode? bytes = none :=
    Option.eq_none_iff_forall_ne_some.2 fun text => mt Utf8.decode?_eq_some_iff.1 (hbytes text)
  rw [readText_of_readAll h, hdecode]

end Delivery

namespace Command

open Log (Event)

section
variable {name : String} {deliveries : List Delivery} {bytes : List UInt8}

/-- All that is logged while a file is checked. -/
def checkLog (name : String) (deliveries : List Delivery) : List Event :=
  (Parser.ofSource ⟨name, deliveries⟩).program.2.log ++ [.parsed name]

theorem check_of_accepted (h : (parse ⟨name, deliveries⟩).2 = []) :
    check name (.ok deliveries) =
      ⟨0, Utf8.encode s!"{(parse ⟨name, deliveries⟩).1}\n", [], checkLog name deliveries, []⟩ :=
  if_pos h

theorem check_of_text {text : String} (h : (parse ⟨name, deliveries⟩).2 ≠ [])
    (htext : Delivery.readText deliveries = .ok text) :
    check name (.ok deliveries) =
      ⟨1, [], (parse ⟨name, deliveries⟩).2.map fun d => d.report text name,
        checkLog name deliveries, []⟩ := by
  refine (if_neg h).trans ?_
  rw [htext]
  rfl

theorem check_of_not_text {f : Failure} (h : (parse ⟨name, deliveries⟩).2 ≠ [])
    (htext : Delivery.readText deliveries = .error f) :
    check name (.ok deliveries) =
      ⟨1, [], [], checkLog name deliveries, [s!"failed to read {name}", f.message]⟩ := by
  refine (if_neg h).trans ?_
  rw [htext]
  rfl

theorem run_of_file {o : Options} {openFile : String → Except Failure (List Delivery)}
    (hfile : o.file? = some name) (user? : Option String) (input : List Delivery) :
    run o openFile user? input =
      { check name (openFile name) with
        log := Log.keep o.threshold (check name (openFile name)).log } := by
  rw [run, hfile]

/-- A file that can be opened and read comes to one of three ends. If nothing is wrong with it,
its program is printed. If something is and the file is text, all that is wrong is reported in
order, and if the file is no text, this is what is said of it. So success means that all bytes in
front of the first zero byte are plain, and malformed bytes there mean that the file is no text. -/
theorem checked_file_outcome (o : Options)
    {openFile : String → Except Failure (List Delivery)} (hfile : o.file? = some name)
    (hopen : openFile name = .ok deliveries) (hread : Delivery.readAll deliveries = .ok bytes)
    (user? : Option String) (input : List Delivery) :
    let r := run o openFile user? input
    let program := (parse (.ofBytes name bytes)).1
    let diagnostics := (parse (.ofBytes name bytes)).2
    let log := Log.keep o.threshold (checkLog name deliveries)
    let notText : Result := ⟨1, [], [], log,
      [s!"failed to read {name}", "stream did not contain valid UTF-8"]⟩
    (diagnostics = [] → r = ⟨0, Utf8.encode s!"{program}\n", [], log, []⟩) ∧
      (diagnostics ≠ [] →
        (∀ text, bytes = Utf8.encode text →
          r = ⟨1, [], diagnostics.map fun d => d.report text name, log, []⟩) ∧
        ((∀ text, bytes ≠ Utf8.encode text) → r = notText)) ∧
      (r.exitCode = 0 → ∀ b ∈ bytes.takeWhile (· ≠ 0), b < 0x80) ∧
      ((∀ text, bytes.takeWhile (· ≠ 0) ≠ Utf8.encode text) → r = notText) := by
  intro r program diagnostics log notText
  have hr : r = _ := run_of_file hfile user? input
  have hparse := parse_of_readAll hread name
  rw [hopen] at hr
  have haccepted : diagnostics = [] → r = ⟨0, Utf8.encode s!"{program}\n", [], log, []⟩ := by
    intro hnil
    rw [hr, check_of_accepted (hparse ▸ hnil), hparse]
  have htext : diagnostics ≠ [] → ∀ text, bytes = Utf8.encode text →
      r = ⟨1, [], diagnostics.map fun d => d.report text name, log, []⟩ := by
    rintro hne text rfl
    rw [hr, check_of_text (hparse ▸ hne) (Delivery.readText_of_encode hread), hparse]
  have hnotText : diagnostics ≠ [] → (∀ text, bytes ≠ Utf8.encode text) → r = notText := by
    intro hne hbytes
    rw [hr, check_of_not_text (hparse ▸ hne) (Delivery.readText_of_not_encode hread hbytes)]
    rfl
  have hplain : diagnostics = [] → Utf8.IsPlain (bytes.takeWhile (· ≠ 0)) := by
    intro hnil
    rw [← Source.visible_ofBytes name]
    exact isPlain_of_diagnostics_eq_nil hnil
  refine ⟨haccepted, fun hne => ⟨htext hne, hnotText hne⟩, fun hcode => hplain ?_, fun hfront => ?_⟩
  -- Both ends with something reported have the other exit code.
  · by_contra hne
    by_cases hbytes : ∃ text, bytes = Utf8.encode text
    · obtain ⟨text, hbytes⟩ := hbytes
      rw [htext hne text hbytes] at hcode
      cases hcode
    · rw [hnotText hne (not_exists.1 hbytes)] at hcode
      cases hcode
  · refine hnotText (fun hnil => hfront _ (Utf8.encode_lossy_of_isPlain (hplain hnil)).symm) ?_
    rintro text rfl
    exact hfront _ (Utf8.takeWhile_encode text)

end

/-- A sequence that breaks off is reported as no text, and behind a zero byte it does not matter. -/
theorem checked_file_outcome_of_malformed :
    let o : Options := ⟨some "a", .program, 0, 0⟩
    let broken : List Delivery := [.byte 0x31, .failure ⟨.interrupted, ""⟩, .byte 0xC3, .byte 0x28]
    let hidden : List Delivery := [.byte 0x31, .byte 0x00, .byte 0xC3, .byte 0x28]
    run o (fun _ => .ok broken) none [] =
        ⟨1, [], [], [], ["failed to read a", "stream did not contain valid UTF-8"]⟩ ∧
      run o (fun _ => .ok hidden) none [] = ⟨0, [0x31, 0x0A], [], [], []⟩ := by
  intro o broken hidden
  have hbroken : Delivery.readAll broken = .ok [0x31, 0xC3, 0x28] := rfl
  have hhidden : Delivery.readAll hidden = .ok [0x31, 0x00, 0xC3, 0x28] := rfl
  have hmalformed : ∀ text, [0x31, 0xC3, 0x28] ≠ Utf8.encode text := by
    intro text htext
    have hdecode : Utf8.decode? [0x31, 0xC3, 0x28] = none := by decide +kernel
    rw [Utf8.decode?_eq_some_iff.2 htext] at hdecode
    cases hdecode
  obtain ⟨_, _, _, hnotText⟩ :=
    @checked_file_outcome "a" broken _ o (fun _ => .ok broken) rfl rfl hbroken none []
  obtain ⟨haccepted, _⟩ :=
    @checked_file_outcome "a" hidden _ o (fun _ => .ok hidden) rfl rfl hhidden none []
  refine ⟨(hnotText hmalformed).trans ?_, (haccepted ?_).trans ?_⟩
  all_goals decide +kernel

end Command
end LetLang
