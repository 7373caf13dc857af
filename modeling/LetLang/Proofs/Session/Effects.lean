import LetLang.Session.Basic

/-! Performing effects. A writer with room for everything takes all that is written, in order. One
with less room takes as many bytes of that as it can, and nothing is done behind the write that it
cannot finish. Into how many writes a text is cut makes no difference. -/
namespace LetLang.Session

open Log (Event)

namespace Effect

def written : Effect → List UInt8
  | write text => Utf8.encode text
  | log _ => []

def logged : Effect → List Event
  | write _ => []
  | log event => [event]

end Effect

def written (effects : List Effect) : List UInt8 := effects.flatMap Effect.written

def logged (effects : List Effect) : List Event := effects.flatMap Effect.logged

@[simp] theorem written_nil : written [] = [] := rfl

@[simp] theorem written_write_cons (text : String) (effects : List Effect) :
    written (.write text :: effects) = Utf8.encode text ++ written effects := rfl

@[simp] theorem written_log_cons (event : Event) (effects : List Effect) :
    written (.log event :: effects) = written effects := rfl

@[simp] theorem written_append (front back : List Effect) :
    written (front ++ back) = written front ++ written back :=
  List.flatMap_append

@[simp] theorem logged_nil : logged [] = [] := rfl

@[simp] theorem logged_write_cons (text : String) (effects : List Effect) :
    logged (.write text :: effects) = logged effects := rfl

@[simp] theorem logged_log_cons (event : Event) (effects : List Effect) :
    logged (.log event :: effects) = event :: logged effects := rfl

@[simp] theorem logged_append (front back : List Effect) :
    logged (front ++ back) = logged front ++ logged back :=
  List.flatMap_append

section
variable {room : Nat} {failure? : Option Failure} {effects : List Effect}

theorem perform_none (failure? : Option Failure) (effects : List Effect) :
    perform none failure? effects = ⟨written effects, failure?, logged effects⟩ := by
  induction effects with
  | nil => rfl
  | cons effect effects ih =>
    cases effect with
    | write text => simp [perform, ih]
    | log event => simp [perform, ih]

/-- Room that is enough makes no difference. -/
theorem perform_some_of_le (h : (written effects).length ≤ room) :
    perform (some room) failure? effects = ⟨written effects, failure?, logged effects⟩ := by
  induction effects generalizing room with
  | nil => rfl
  | cons effect effects ih =>
    cases effect with
    | write text =>
      rw [written_write_cons, List.length_append] at h
      simp only [perform]
      rw [if_pos (by omega), ih (by omega)]
      rfl
    | log event => simp [perform, ih h]

/-- Room that is not enough is filled, and the first write to find none left is the last thing
that is done. -/
theorem perform_some_of_lt (h : room < (written effects).length) :
    ∃ events, events <+: logged effects ∧
      perform (some room) failure? effects =
        ⟨(written effects).take room, some .writerFull, events⟩ := by
  induction effects generalizing room with
  | nil => cases h
  | cons effect effects ih =>
    cases effect with
    | log event =>
      obtain ⟨events, hevents, hperform⟩ := ih h
      refine ⟨event :: events, (List.prefix_cons_inj event).2 hevents, ?_⟩
      rw [perform, hperform, written_log_cons]
    | write text =>
      rw [written_write_cons, List.length_append] at h
      rw [written_write_cons, List.take_append]
      by_cases hfits : (Utf8.encode text).length ≤ room
      · obtain ⟨events, hevents, hperform⟩ := @ih (room - (Utf8.encode text).length) (by omega)
        refine ⟨events, hevents, ?_⟩
        simp only [perform]
        rw [if_pos hfits, hperform, List.take_of_length_le hfits]
      · refine ⟨[], List.nil_prefix, ?_⟩
        have hnone : room - (Utf8.encode text).length = 0 := by omega
        simp only [perform]
        rw [if_neg hfits, hnone, List.take_zero, List.append_nil]

end

section
variable (room? : Option Nat) (failure? : Option Failure)

theorem perform_write_empty (effects : List Effect) :
    perform room? failure? (.write "" :: effects) = perform room? failure? effects := by
  have hempty : Utf8.encode "" = [] := rfl
  cases room? <;> simp [perform, hempty]

/-- Two writes in a row are one of both texts. -/
theorem perform_write_append (front back : String) (effects : List Effect) :
    perform room? failure? (.write (front ++ back) :: effects) =
      perform room? failure? (.write front :: .write back :: effects) := by
  cases room? with
  | none => simp [perform]
  | some room =>
    simp only [perform, Utf8.encode_append, List.length_append]
    by_cases hfront : (Utf8.encode front).length ≤ room
    · by_cases hback : (Utf8.encode back).length ≤ room - (Utf8.encode front).length
      · rw [if_pos (by omega), if_pos hfront, if_pos hback, List.append_assoc, Nat.sub_sub]
      · rw [if_neg (by omega), if_pos hfront, if_neg hback, List.take_append,
          List.take_of_length_le hfront]
    · rw [if_neg (by omega), if_neg hfront, List.take_append_of_le_length (by omega)]

theorem perform_writes (texts : List String) (effects : List Effect) :
    perform room? failure? (texts.map .write ++ effects) =
      perform room? failure? (.write (String.join texts) :: effects) := by
  induction texts generalizing room? with
  | nil =>
    rw [String.join_nil, perform_write_empty]
    rfl
  | cons text texts ih =>
    rw [String.join_cons, perform_write_append, List.map_cons, List.cons_append]
    -- What is left of the room behind the first text is the room for all that follows it.
    cases room? with
    | none => simp only [perform, ih]
    | some room => simp only [perform, ih]

end

/-- The same effects with texts cut into pieces, each of which is a write of its own. -/
inductive Pieces : List Effect → List Effect → Prop
  | nil : Pieces [] []
  | log {event : Event} {effects effects' : List Effect} (h : Pieces effects effects') :
      Pieces (.log event :: effects) (.log event :: effects')
  | write {texts : List String} {effects effects' : List Effect} (h : Pieces effects effects') :
      Pieces (.write (String.join texts) :: effects) (texts.map .write ++ effects')

/-- Where one write ends and the next begins cannot be told from what comes of them. -/
theorem Pieces.perform_eq {effects effects' : List Effect} (h : Pieces effects effects')
    (room? : Option Nat) (failure? : Option Failure) :
    perform room? failure? effects' = perform room? failure? effects := by
  induction h generalizing room? with
  | nil => rfl
  | log _ ih => simp only [perform, ih]
  | write _ ih =>
    rw [perform_writes]
    cases room? with
    | none => simp only [perform, ih]
    | some room => simp only [perform, ih]

/-- The effects of a session with one input, from the first on. -/
def effects (mode : Mode) (input : List Delivery) : List Effect :=
  .log (.started mode) :: (script mode (lines input)).1

theorem run_eq (mode : Mode) (room? : Option Nat) (input : List Delivery) :
    run mode room? input =
      perform room? (script mode (lines input)).2 (effects mode input) := rfl

/-- A session whose writer has room for so many bytes goes like one without a limit, if that many
are enough. If not, it fills the room and fails for want of more, whatever would have come later.
It does the same if what it writes is cut into pieces. -/
theorem limited_session_truncates (mode : Mode) (room : Nat) (input : List Delivery) :
    let whole := run mode none input
    let limited := run mode (some room) input
    (whole.output.length ≤ room → limited = whole) ∧
      (room < whole.output.length → limited.output = whole.output.take room ∧
        limited.failure? = some .writerFull ∧ limited.log <+: whole.log) ∧
      ∀ pieces, Pieces (effects mode input) pieces →
        perform (some room) (script mode (lines input)).2 pieces = limited := by
  intro whole limited
  have hwhole : whole = ⟨written (effects mode input), (script mode (lines input)).2,
      logged (effects mode input)⟩ := perform_none _ _
  rw [hwhole]
  refine ⟨fun hroom => ?_, fun hroom => ?_, fun pieces hpieces => hpieces.perform_eq _ _⟩
  · exact perform_some_of_le hroom
  · obtain ⟨events, hevents, hlimited⟩ :=
      @perform_some_of_lt room (script mode (lines input)).2 (effects mode input) hroom
    have hlimited : limited = _ := hlimited
    rw [hlimited]
    exact ⟨rfl, rfl, hevents⟩

/-- The room ends inside a character, and the read that would have failed later is not reached. -/
theorem limited_session_truncates_of_accented :
    let input : List Delivery :=
      [.byte 0xC3, .byte 0xA9, .byte 0x0A, .failure ⟨.other, "gone"⟩]
    run .tokens none input = ⟨Utf8.encode ">> ILLEGAL (é) at 1:1\n>> ", some ⟨.other, "gone"⟩,
        [.started .tokens, .scanned "REPL" ⟨1, 1⟩ "é", .scanned "REPL" ⟨1, 3⟩ ""]⟩ ∧
      (run .tokens (some 13) input).output = Utf8.encode ">> ILLEGAL (" ++ [0xC3] ∧
      (run .tokens (some 13) input).failure? = some .writerFull := by
  intro input
  obtain ⟨_, htruncated, _⟩ := limited_session_truncates .tokens 13 input
  obtain ⟨houtput, hfailure, _⟩ := htruncated (by decide +kernel)
  refine ⟨by decide +kernel, ?_, hfailure⟩
  rw [houtput]
  decide +kernel

end LetLang.Session
