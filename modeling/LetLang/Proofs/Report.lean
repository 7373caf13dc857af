import LetLang.Diagnostic.Report
import LetLang.Proofs.Diagnostics
import LetLang.Proofs.Scanner.Placement

/-! Reports. Each has five lines, and its caret stands under the first character of the token that
it is about. -/
namespace LetLang

open Text (IsLine joined isLine_append isLine_ofList)

theorem Text.isLine_toString (n : Nat) : IsLine (toString n) := by
  rw [IsLine, Nat.toString_eq_repr, Nat.toList_repr]
  intro h
  have hdigit := Nat.isDigit_of_mem_toDigits (by decide) (by decide) h
  cases hdigit

instance (text : String) : Decidable (IsLine text) :=
  inferInstanceAs (Decidable ('\n' ∉ text.toList))

theorem Location.isLine_toString (a : Location) : IsLine (toString a) := by
  have hline : IsLine (toString a.line) := Text.isLine_toString a.line.toNat
  have hcolumn : IsLine (toString a.column) := Text.isLine_toString a.column.toNat
  change IsLine (toString a.line ++ ":" ++ toString a.column)
  simp only [isLine_append, hline, hcolumn]
  decide

theorem Kind.isLine_text (k : Kind) : IsLine k.text := by
  cases k <;> decide

namespace Fault

theorem isLine_name (f : Fault) : IsLine f.name := by
  unfold name
  cases f
  all_goals
    dsimp only
    decide

theorem isLine_hint {f : Fault} (hf : ∀ literal, f = outOfRange literal → IsLine literal) :
    ∀ hint ∈ f.hint?, IsLine hint := by
  intro hint hhint
  unfold hint? at hhint
  split at hhint
  · next expected found =>
    obtain rfl := Option.some.inj hhint
    change IsLine ("expected next token to be " ++ expected.text ++ ", got " ++ found.text ++
      " instead")
    simp only [isLine_append, Kind.isLine_text]
    decide
  · cases hhint
  · next kind _ =>
    obtain rfl := Option.some.inj hhint
    change IsLine ("`" ++ kind.text ++ "` cannot start an expression")
    simp only [isLine_append, Kind.isLine_text]
    decide
  · next kind =>
    obtain rfl := Option.some.inj hhint
    change IsLine ("`" ++ kind.text ++ "` cannot continue an expression")
    simp only [isLine_append, Kind.isLine_text]
    decide
  · next literal =>
    obtain rfl := Option.some.inj hhint
    change IsLine ("Invalid integer: `" ++ literal ++ "`, is it above the integer limit?")
    simp only [isLine_append, hf literal rfl]
    decide

end Fault

namespace Diagnostic

/-- The first line of a report. -/
def title (d : Diagnostic) : String :=
  match d.fault.hint? with
  | none => s!"Error: {d.fault.name}"
  | some hint => s!"Error: {d.fault.name} ({hint})"

theorem heading_eq (d : Diagnostic) (file : String) :
    d.heading file = d.title ++ "\n" ++ (s!"-> {file}:{d.location}" ++ "\n") := by
  have hbreak : "\n-> " = "\n" ++ "-> " := rfl
  have hbreak' : ")\n-> " = ")" ++ "\n" ++ "-> " := rfl
  unfold heading title
  cases d.fault.hint? with
  | none =>
    change "Error: " ++ d.fault.name ++ "\n-> " ++ file ++ ":" ++ toString d.location ++ "\n" =
      "Error: " ++ d.fault.name ++ "\n" ++ ("-> " ++ file ++ ":" ++ toString d.location ++ "\n")
    rw [hbreak]
    simp only [String.append_assoc]
  | some hint =>
    change "Error: " ++ d.fault.name ++ " (" ++ hint ++ ")\n-> " ++ file ++ ":" ++
        toString d.location ++ "\n" =
      "Error: " ++ d.fault.name ++ " (" ++ hint ++ ")" ++ "\n" ++
        ("-> " ++ file ++ ":" ++ toString d.location ++ "\n")
    rw [hbreak']
    simp only [String.append_assoc]

theorem isLine_title {d : Diagnostic}
    (hd : ∀ literal, d.fault = .outOfRange literal → IsLine literal) : IsLine d.title := by
  unfold title
  cases hhint : d.fault.hint? with
  | none =>
    change IsLine ("Error: " ++ d.fault.name)
    simp only [isLine_append, Fault.isLine_name]
    decide
  | some hint =>
    change IsLine ("Error: " ++ d.fault.name ++ " (" ++ hint ++ ")")
    simp only [isLine_append, Fault.isLine_name, Fault.isLine_hint hd hint hhint]
    decide

/-- The line of a report with the caret, behind so many dashes. -/
def pointer (number : String) (dashes : Nat) : String :=
  margin number ++ " " ++ String.ofList (List.replicate dashes '-') ++ "^"

theorem report_eq {d : Diagnostic} {text line : String}
    (h : Text.line? text d.location.line = some line) (file : String) :
    let number := toString d.location.line
    d.report text file =
      joined [d.title, s!"-> {file}:{d.location}", margin number,
        s!"{number} | {String.ofList (shown line.toList)}",
        pointer number (dashes line.toList d.location.column)] := by
  intro number
  unfold report
  rw [h]
  change d.heading file ++ margin number ++ "\n" ++ d.excerpt line = _
  rw [heading_eq]
  change d.title ++ "\n" ++ (s!"-> {file}:{d.location}" ++ "\n") ++ margin number ++ "\n" ++
    (number ++ " | " ++ String.ofList (shown line.toList) ++ "\n" ++ margin number ++ " " ++
      (String.ofList (List.replicate (dashes line.toList d.location.column) '-') ++ "^") ++
        "\n") = _
  simp only [Text.joined_cons, pointer, String.append_assoc]
  rfl

theorem length_margin (number : String) :
    (margin number ++ " ").length = (number ++ " | ").length := by
  have hbar : "|".length = 1 := rfl
  have hspace : " ".length = 1 := rfl
  have hwide : " | ".length = 3 := rfl
  simp [margin, hbar, hspace, hwide]

/-- The characters in front of a place on a line are as many as the bytes in front of it say. -/
theorem charsBefore_append (before rest : List Char) :
    charsBefore (before ++ rest) (Utf8.encode (String.ofList before)).length = before.length := by
  induction before with
  | nil => cases rest <;> rfl
  | cons c before ih =>
    have hbytes : (Utf8.encode (String.ofList (c :: before))).length =
        c.utf8Size + (Utf8.encode (String.ofList before)).length := by
      simp [Utf8.encode]
    have hpos := c.utf8Size_pos
    rw [hbytes, List.cons_append, charsBefore, if_neg (by omega), Nat.add_sub_cancel_left, ih,
      List.length_cons]

theorem exists_indent {rest : List Char} (hrest : ∀ c ∈ rest.head?, isIndent c = false)
    (before : List Char) :
    ∃ indent between, before = indent ++ between ∧
      (before ++ rest).takeWhile isIndent = indent ∧
      (before ++ rest).dropWhile isIndent = between ++ rest := by
  induction before with
  | nil =>
    refine ⟨[], [], rfl, ?_⟩
    cases rest with
    | nil => exact ⟨rfl, rfl⟩
    | cons c rest => simp [hrest c rfl]
  | cons c before ih =>
    obtain ⟨indent, between, hbefore, htake, hdrop⟩ := ih
    by_cases hc : isIndent c = true
    · refine ⟨c :: indent, between, by rw [hbefore, List.cons_append], ?_, ?_⟩
      · rw [List.cons_append, List.takeWhile_cons, if_pos hc, htake]
      · rw [List.cons_append, List.dropWhile_cons, if_pos hc, hdrop]
    · exact ⟨[], c :: before, rfl, by simp [hc], by simp [hc]⟩

/-- What stands behind `between` on a line is still shown there, unless it is trimmed as blank. -/
theorem getElem?_shown {line between rest : List Char}
    (hline : line.dropWhile isIndent = between ++ rest) :
    (shown line)[between.length]? = rest.head? ∨
      (shown line).length ≤ between.length ∧ ∀ c ∈ rest, Text.isBlank c = true := by
  rw [shown, hline]
  by_cases hrest : ∃ c ∈ rest, Text.isBlank c = false
  · left
    rw [Text.trimEnd_append_of_exists hrest, List.getElem?_append_right (Nat.le_refl _),
      Nat.sub_self, ← List.head?_eq_getElem?, Text.head?_trimEnd hrest]
  · right
    have hall : ∀ c ∈ rest, Text.isBlank c = true := by simpa using hrest
    rw [Text.trimEnd_append_of_forall hall]
    exact ⟨(Text.trimEnd_isPrefix _ between).length_le, hall⟩

theorem isLine_margin {number : String} : IsLine (margin number) := by
  rw [margin, isLine_append, isLine_ofList]
  exact ⟨by simp, by decide⟩

theorem isLine_shown {line : List Char} (h : '\n' ∉ line) :
    IsLine (String.ofList (shown line)) := by
  rw [isLine_ofList]
  intro hmem
  exact h ((List.dropWhile_suffix _).subset ((Text.trimEnd_isPrefix _ _).subset hmem))

theorem isLine_pointer (number : String) (k : Nat) : IsLine (pointer number k) := by
  have hdashes : IsLine (String.ofList (List.replicate k '-')) := by simp
  simp only [pointer, isLine_append, isLine_margin, hdashes]
  decide

theorem isLine_place {file : String} (h : IsLine file) (place : Location) :
    IsLine s!"-> {file}:{place}" := by
  change IsLine ("-> " ++ file ++ ":" ++ toString place)
  simp only [isLine_append, h, place.isLine_toString]
  decide

theorem isLine_numbered {line : List Char} (h : '\n' ∉ line) (place : Location) :
    IsLine (toString place.line ++ " | " ++ String.ofList (shown line)) := by
  have hnumber : IsLine (toString place.line) := Text.isLine_toString place.line.toNat
  simp only [isLine_append, hnumber, isLine_shown h]
  decide

end Diagnostic

/-- A fault names no literal with a line feed in it. -/
theorem isLine_title_of_mem {name text : String} {d : Diagnostic}
    (h : d ∈ (parse (.ofText name text)).2) : IsLine d.title := by
  apply Diagnostic.isLine_title
  intro literal hfault
  obtain ⟨t, ht, _, hdescribes⟩ := exists_described_of_mem_diagnostics h
  rw [hfault] at hdescribes
  obtain ⟨hkind, rfl, _⟩ := hdescribes
  obtain ⟨front, back, hbetween⟩ := exists_between ht (by simp [hkind])
  exact hbetween.isLine_literal

/-- No token begins with what an indentation is made of. -/
theorem Token.Between.isIndent_eq_false {t : Token} {front back : List Char} {text : String}
    (h : t.Between front back text) (behind : List Char) :
    ∀ c ∈ (t.literal.toList ++ behind).head?, Diagnostic.isIndent c = false := by
  rw [List.head?_append_of_ne_nil _ h.nonempty]
  intro c hc
  refine Bool.eq_false_iff.2 fun hindent => h.solid c (List.mem_of_mem_head? hc) ?_
  simp only [Diagnostic.isIndent, Bool.or_eq_true, decide_eq_true_eq] at hindent
  rcases hindent with rfl | rfl <;> decide

section
variable {t : Token} {text : String} {above : List String} {before behind : List Char}

theorem Token.OnLine.charsBefore_eq (h : t.OnLine text above before behind) :
    Diagnostic.charsBefore (before ++ t.literal.toList ++ behind)
      (t.location.column.toNat - 1) = before.length := by
  rw [h.column_eq, Nat.add_sub_cancel, List.append_assoc, Diagnostic.charsBefore_append]

/-- What is in front of a token on its line is an indentation and other characters. The dashes of a
report are as many as these. -/
theorem Token.OnLine.exists_indent (h : t.OnLine text above before behind) :
    let line := before ++ t.literal.toList ++ behind
    ∃ indent between, before = indent ++ between ∧
      line.takeWhile Diagnostic.isIndent = indent ∧
      line.dropWhile Diagnostic.isIndent = between ++ (t.literal.toList ++ behind) ∧
      Diagnostic.dashes line t.location.column = between.length := by
  intro line
  obtain ⟨back, _, hbetween⟩ := h.between
  have hchars := h.charsBefore_eq
  obtain ⟨indent, between, rfl, htake, hdrop⟩ :=
    Diagnostic.exists_indent (hbetween.isIndent_eq_false behind) before
  rw [← List.append_assoc] at htake hdrop
  refine ⟨indent, between, rfl, htake, hdrop, ?_⟩
  rw [Diagnostic.dashes, hchars, htake, List.length_append, Nat.add_sub_cancel_left]

end

/-- A report has five lines. The fourth shows the line of the text that the token stands on, and the
caret of the fifth stands under the first character of the token: the dashes are as many as the
characters between the indentation and the token, and none of them is clamped. A token that is not
shown is blank, like all that follows it on the line. -/
theorem caret_under_token {name text file : String} {d : Diagnostic} {t : Token}
    (hlength : (Utf8.encode text).length < UInt32.size - 1) (hfile : '\n' ∉ file.toList)
    (hd : d ∈ (parse (.ofText name text)).2) (ht : t ∈ tokenize (.ofText name text))
    (hkind : t.kind ≠ .endOfInput) (hplace : t.location = d.location) :
    ∃ above indent between behind,
      let line := indent ++ between ++ t.literal.toList ++ behind
      let number := toString d.location.line
      let gutter := Diagnostic.margin number ++ " "
      let shown := String.ofList (Diagnostic.shown line)
      let dashes := String.ofList (List.replicate between.length '-')
      let lines := [d.title, s!"-> {file}:{d.location}", Diagnostic.margin number,
        number ++ " | " ++ shown, gutter ++ dashes ++ "^"]
      t.OnLine text above (indent ++ between) behind ∧
      line.takeWhile Diagnostic.isIndent = indent ∧
      d.report text file = joined lines ∧ (∀ l ∈ lines, '\n' ∉ l.toList) ∧
      gutter.length = (number ++ " | ").length ∧
      Diagnostic.charsBefore line (d.location.column.toNat - 1) =
        indent.length + between.length ∧
      ((∃ c, t.literal.toList.head? = some c ∧ shown.toList[between.length]? = some c) ∨
        shown.toList.length ≤ between.length ∧
          ∀ c ∈ t.literal.toList ++ behind, Text.isBlank c = true) := by
  obtain ⟨front, back, hbetween⟩ := exists_between ht hkind
  obtain ⟨above, before, behind, honLine⟩ := hbetween.exists_onLine hlength
  have hchars := honLine.charsBefore_eq
  have hline := honLine.line?_eq
  obtain ⟨indent, between, rfl, htake, hdrop, hdashes⟩ := honLine.exists_indent
  rw [hplace] at hchars hline hdashes
  refine ⟨above, indent, between, behind, honLine, htake, ?_, ?_, Diagnostic.length_margin _,
    hchars.trans List.length_append, ?_⟩
  · rw [Diagnostic.report_eq hline, String.toList_ofList, hdashes]
    rfl
  · simp only [List.forall_mem_cons]
    exact ⟨isLine_title_of_mem hd, Diagnostic.isLine_place hfile d.location,
      Diagnostic.isLine_margin, Diagnostic.isLine_numbered honLine.isLine d.location,
      Diagnostic.isLine_pointer _ between.length, nofun⟩
  · obtain ⟨c, more, hliteral⟩ := List.exists_cons_of_ne_nil hbetween.nonempty
    rw [String.toList_ofList]
    refine (Diagnostic.getElem?_shown hdrop).imp (fun hshown => ⟨c, ?_, ?_⟩) id
    · rw [hliteral, List.head?_cons]
    · rw [hshown, hliteral]
      rfl

/-- The line is indented, ends in a blank and a carriage return, and has an accent on it. -/
theorem caret_under_token_of_accented :
    let text := "y\r\n\t é;let x 5;\u3000\r\n"
    let d : Diagnostic := ⟨.unexpected .assign .integer, ⟨2, 12⟩⟩
    d ∈ (parse (.ofText "" text)).2 ∧
      ⟨.integer, "5", ⟨2, 12⟩⟩ ∈ tokenize (.ofText "" text) ∧
      ∃ lines : List String, lines.length = 5 ∧ (∀ l ∈ lines, IsLine l) ∧
        joined lines =
          "Error: UnexpectedToken (expected next token to be =, got INT instead)\n-> a:2:12\n" ++
            "  |\n2 | é;let x 5;\n  | --------^\n" := by
  intro text d
  have hd : d ∈ (parse (.ofText "" text)).2 := by decide +kernel
  have ht : ⟨.integer, "5", ⟨2, 12⟩⟩ ∈ tokenize (.ofText "" text) := by decide +kernel
  have hfile : '\n' ∉ "a".toList := by decide
  obtain ⟨_, _, _, _, _, _, hreport, hlines, _⟩ :=
    caret_under_token (by decide +kernel) hfile hd ht (by decide) rfl
  refine ⟨hd, ht, _, rfl, hlines, hreport.symm.trans ?_⟩
  decide +kernel

end LetLang
