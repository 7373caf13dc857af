import LetLang.Proofs.Location
import LetLang.Proofs.Text.Encoding
import LetLang.Text.Lines
import Mathlib.Data.List.DropRight

/-! Lines of a text. A text is lines with a line feed behind each, and what comes after the last of
these. A line is found by its number, and trimming it takes nothing off in front of what is kept. -/
namespace LetLang.Text

open Location (lineFeeds lastLine)

def IsLine (text : String) : Prop := '\n' ∉ text.toList

@[simp] theorem isLine_append {s t : String} : IsLine (s ++ t) ↔ IsLine s ∧ IsLine t := by
  unfold IsLine
  rw [String.toList_append, List.mem_append, not_or]

@[simp] theorem isLine_ofList {cs : List Char} : IsLine (String.ofList cs) ↔ '\n' ∉ cs := by
  rw [IsLine, String.toList_ofList]

section
variable {p : Char → Bool} {front back : List Char}

theorem trimEnd_ne_nil (h : ∃ c ∈ back, p c = false) : trimEnd p back ≠ [] := by
  intro hnil
  obtain ⟨c, hc, hp⟩ := h
  have hall := List.rdropWhile_eq_nil_iff.1 hnil c hc
  rw [hp] at hall
  cases hall

theorem head?_trimEnd (h : ∃ c ∈ back, p c = false) : (trimEnd p back).head? = back.head? := by
  obtain ⟨trimmed, hback⟩ := trimEnd_isPrefix p back
  rw [← List.head?_append_of_ne_nil _ (trimEnd_ne_nil h), hback]

theorem trimEnd_append_of_exists (h : ∃ c ∈ back, p c = false) :
    trimEnd p (front ++ back) = front ++ trimEnd p back := by
  have hne : back.reverse.dropWhile p ≠ [] := by
    intro hnil
    apply trimEnd_ne_nil h
    rw [trimEnd, hnil, List.reverse_nil]
  rw [trimEnd, List.reverse_append, List.dropWhile_append,
    if_neg (mt List.isEmpty_iff.1 hne), List.reverse_append, List.reverse_reverse, trimEnd]

theorem trimEnd_append_of_forall (h : ∀ c ∈ back, p c = true) :
    trimEnd p (front ++ back) = trimEnd p front := by
  rw [trimEnd, List.reverse_append,
    List.dropWhile_append_of_pos fun c hc => h c (List.mem_reverse.1 hc), trimEnd]

/-- What ends in a character to keep is kept, with some of what stands behind it. -/
theorem exists_trimEnd_append (h : ∀ c ∈ front.getLast?, p c = false) (back : List Char) :
    ∃ kept, kept <+: back ∧ trimEnd p (front ++ back) = front ++ kept := by
  by_cases hback : ∃ c ∈ back, p c = false
  · exact ⟨_, trimEnd_isPrefix p back, trimEnd_append_of_exists hback⟩
  · refine ⟨[], List.nil_prefix, ?_⟩
    have hall : ∀ c ∈ back, p c = true := by simpa using hback
    rw [trimEnd_append_of_forall hall, List.append_nil]
    refine List.rdropWhile_eq_self_iff.2 fun hne => ?_
    rw [h _ (List.getLast?_eq_getLast_of_ne_nil hne)]
    exact Bool.false_ne_true

end

/-- Texts as lines, each with a line feed behind it. -/
def joined (texts : List String) : String := String.join (texts.map (· ++ "\n"))

theorem joined_cons (text : String) (texts : List String) :
    joined (text :: texts) = text ++ "\n" ++ joined texts := by
  rw [joined, List.map_cons, String.join_cons, joined]

theorem exists_lines (cs : List Char) :
    ∃ (above : List String) (line : List Char),
      cs = (joined above).toList ++ line ∧ (∀ text ∈ above, IsLine text) ∧ '\n' ∉ line := by
  induction cs with
  | nil => exact ⟨[], [], rfl, nofun, List.not_mem_nil⟩
  | cons c cs ih =>
    obtain ⟨above, line, rfl, habove, hline⟩ := ih
    by_cases hc : c = '\n'
    · refine ⟨"" :: above, line, ?_, List.forall_mem_cons.2 ⟨nofun, habove⟩, hline⟩
      simp [hc, joined_cons]
    -- The character belongs to the first line, or to what comes after the lines if there is none.
    · cases above with
      | nil =>
        exact ⟨[], c :: line, rfl, nofun,
          List.not_mem_cons_of_ne_of_not_mem (Ne.symm hc) hline⟩
      | cons text above =>
        obtain ⟨htext, habove⟩ := List.forall_mem_cons.1 habove
        refine ⟨(String.singleton c ++ text) :: above, line, ?_,
          List.forall_mem_cons.2 ⟨?_, habove⟩, hline⟩
        · simp [joined_cons]
        · rw [String.singleton_eq_ofList, isLine_append, isLine_ofList]
          exact ⟨List.not_mem_cons_of_ne_of_not_mem (Ne.symm hc) List.not_mem_nil, htext⟩

/-- A text that ends in a line feed is nothing but lines. -/
theorem exists_joined {cs : List Char} (h : ∀ c ∈ cs.getLast?, c = '\n') :
    ∃ texts : List String, cs = (joined texts).toList ∧ ∀ text ∈ texts, IsLine text := by
  obtain ⟨texts, line, rfl, htexts, hline⟩ := exists_lines cs
  rcases List.eq_nil_or_concat line with rfl | ⟨front, c, rfl⟩
  · exact ⟨texts, List.append_nil _, htexts⟩
  · have hc : c = '\n' := h c (by simp)
    simp [hc] at hline

section
variable {above : List String} (habove : ∀ text ∈ above, IsLine text)
include habove

theorem stretch?_joined (below : List Char) :
    stretch? above.length ((joined above).toList ++ below) =
      some (below.takeWhile (· ≠ '\n')) := by
  induction above with
  | nil => rfl
  | cons text above ih =>
    obtain ⟨htext, habove⟩ := List.forall_mem_cons.1 habove
    have hbody : (joined (text :: above)).toList ++ below =
        text.toList ++ '\n' :: ((joined above).toList ++ below) := by simp [joined_cons]
    have hskip : (text.toList ++ '\n' :: ((joined above).toList ++ below)).dropWhile (· ≠ '\n') =
        '\n' :: ((joined above).toList ++ below) := by
      rw [List.dropWhile_append_of_pos fun c hc => decide_eq_true (ne_of_mem_of_not_mem hc htext)]
      rfl
    rw [List.length_cons, hbody, stretch?, hskip]
    exact ih habove

theorem line?_joined {text : String} {number : UInt32} {below : List Char}
    (htext : text.toList = (joined above).toList ++ below)
    (hnumber : number.toNat = above.length + 1) :
    line? text number =
      some (String.ofList (trimEnd (· = '\r') (below.takeWhile (· ≠ '\n')))) := by
  have hne : number ≠ 0 := by
    rintro rfl
    cases hnumber
  rw [line?, if_neg hne, hnumber, Nat.add_sub_cancel, htext, stretch?_joined habove]
  rfl

/-- A line is found with all of it up to a character that is no carriage return. -/
theorem exists_line?_eq {text : String} {number : UInt32} {front back : List Char}
    (htext : text.toList = (joined above).toList ++ (front ++ back))
    (hnumber : number.toNat = above.length + 1) (hfront : '\n' ∉ front)
    (hlast : ∀ c ∈ front.getLast?, c ≠ '\r') :
    ∃ behind, behind <+: back ∧ '\n' ∉ behind ∧
      line? text number = some (String.ofList (front ++ behind)) := by
  have htake : (front ++ back).takeWhile (· ≠ '\n') = front ++ back.takeWhile (· ≠ '\n') :=
    List.takeWhile_append_of_pos fun c hc => decide_eq_true (ne_of_mem_of_not_mem hc hfront)
  obtain ⟨behind, hbehind, htrim⟩ := exists_trimEnd_append
    (fun c hc => decide_eq_false (hlast c hc)) (back.takeWhile (· ≠ '\n'))
  refine ⟨behind, hbehind.trans (List.takeWhile_prefix _), fun hmem => ?_, ?_⟩
  · have htaken := List.mem_takeWhile_imp (hbehind.subset hmem)
    simp at htaken
  · rw [line?_joined habove htext hnumber, htake, htrim]

theorem lineFeeds_joined : lineFeeds (Utf8.encode (joined above)) = above.length := by
  induction above with
  | nil => rfl
  | cons text above ih =>
    obtain ⟨htext, habove⟩ := List.forall_mem_cons.1 habove
    have hbytes : 0x0A ∉ Utf8.encode text := mt (Utf8.mem_encode_iff (by decide)).1 htext
    have hlineFeed : lineFeeds (Utf8.encode "\n") = 1 := rfl
    unfold lineFeeds at ih hlineFeed ⊢
    rw [joined_cons, Utf8.encode_append, Utf8.encode_append, List.count_append, List.count_append,
      List.count_eq_zero_of_not_mem hbytes, hlineFeed, ih habove, List.length_cons]
    omega

end

theorem lastLine_joined (above : List String) : lastLine (Utf8.encode (joined above)) = [] := by
  rcases List.eq_nil_or_concat above with rfl | ⟨front, text, rfl⟩
  · rfl
  · have hlineFeed : Utf8.encode "\n" = [0x0A] := rfl
    have hlast : joined (front.concat text) = joined front ++ text ++ "\n" := by
      simp [joined, String.append_assoc]
    rw [hlast, Utf8.encode_append, hlineFeed, Location.lastLine_append_lineFeed]

/-- Lines count for the line of a place, and bytes behind them for its column. -/
theorem toNat_afterAll_lines {above : List String} (habove : ∀ text ∈ above, IsLine text)
    {before : List Char} (hbefore : '\n' ∉ before)
    (hlength : (Utf8.encode (String.ofList ((joined above).toList ++ before))).length + 1 <
      UInt32.size) :
    let place := Location.start.afterAll
      (Utf8.encode (String.ofList ((joined above).toList ++ before)))
    place.line.toNat = above.length + 1 ∧
      place.column.toNat = (Utf8.encode (String.ofList before)).length + 1 := by
  have hfront : Utf8.encode (String.ofList ((joined above).toList ++ before)) =
      Utf8.encode (joined above) ++ Utf8.encode (String.ofList before) := by
    rw [String.ofList_append, String.ofList_toList, Utf8.encode_append]
  generalize Utf8.encode (String.ofList ((joined above).toList ++ before)) = front at *
  have hbytes : 0x0A ∉ Utf8.encode (String.ofList before) := by
    rw [Utf8.mem_encode_iff (by decide), String.toList_ofList]
    exact hbefore
  have hfeeds : lineFeeds front = above.length := by
    have hjoined := lineFeeds_joined habove
    unfold lineFeeds at hjoined ⊢
    rw [hfront, List.count_append, hjoined, List.count_eq_zero_of_not_mem hbytes, Nat.add_zero]
  have hle := Location.lineFeeds_le_length front
  constructor
  · rw [Location.toNat_line_start_afterAll (by omega), hfeeds]
  · rw [Location.toNat_column_start_afterAll hlength, hfront,
      Location.lastLine_append_of_not_mem hbytes, lastLine_joined, List.nil_append]

/-- Every place up to the end of a text names a line of it. -/
theorem exists_line?_afterAll {text : String} {front back : List Char}
    (htext : text.toList = front ++ back)
    (hlength : (Utf8.encode (String.ofList front)).length + 1 < UInt32.size) :
    ∃ line, line? text (Location.start.afterAll (Utf8.encode (String.ofList front))).line =
      some line := by
  obtain ⟨above, before, rfl, habove, hbefore⟩ := exists_lines front
  rw [List.append_assoc] at htext
  exact ⟨_, line?_joined habove htext (toNat_afterAll_lines habove hbefore hlength).1⟩

end LetLang.Text
