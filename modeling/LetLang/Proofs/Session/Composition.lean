import LetLang.Proofs.Session.Effects
import LetLang.Proofs.Source
import LetLang.Proofs.Text.Decoding
import LetLang.Proofs.Text.Lines

/-! Sessions one after the other. Lines that are complete are answered as they would be in a session
of their own, each for itself, and what is typed behind them is answered as if it came first. -/
namespace LetLang.Session

open Log (Event)
open Text (IsLine joined joined_cons exists_joined)

/-- A line without the carriage return at its end, if it has one. -/
def chop (line : String) : String :=
  if line.toList.getLast? = some '\r' then String.ofList line.toList.dropLast else line

theorem decode_encode (text : String) : decode (Utf8.encode text) = .ok text := by
  rw [decode, Utf8.decode?_eq_some_iff.2 rfl]

/-- The carriage return is taken off the bytes of a line as it is off its characters. -/
theorem decode_chop {line : String} {bytes : List UInt8} (h : bytes.reverse = Utf8.encode line) :
    decode (if bytes.head? = some 0x0D then bytes.tail else bytes).reverse = .ok (chop line) := by
  have hlast : bytes.head? = some 0x0D ↔ line.toList.getLast? = some '\r' := by
    rw [← List.getLast?_reverse, h]
    exact Utf8.getLast?_encode_eq_some_iff (by decide)
  by_cases hreturn : line.toList.getLast? = some '\r'
  · obtain ⟨front, hfront⟩ := List.getLast?_eq_some_iff.1 hreturn
    have hline : line = String.ofList front ++ "\r" := by
      rw [← String.toList_inj, hfront, String.toList_append, String.toList_ofList]
      rfl
    have hbytes : bytes = 0x0D :: (Utf8.encode (String.ofList front)).reverse := by
      rw [← List.reverse_inj, h, hline, Utf8.encode_append, List.reverse_cons, List.reverse_reverse]
      rfl
    rw [chop, if_pos hreturn, if_pos (hlast.2 hreturn), hbytes, List.tail_cons,
      List.reverse_reverse, decode_encode, hfront, List.dropLast_concat]
  · rw [if_neg (mt hlast.1 hreturn), h, decode_encode, chop, if_neg hreturn]

/-- A read that is tried again leaves no trace in the lines. -/
theorem go_of_readAll {front : List Delivery} {bytes : List UInt8}
    (h : Delivery.readAll front = .ok bytes) (behind : List UInt8) (back : List Delivery) :
    lines.go behind (front ++ back) = lines.go behind (Delivery.ofBytes bytes ++ back) := by
  induction front generalizing bytes behind with
  | nil =>
    cases h
    rfl
  | cons d front ih =>
    cases d with
    | byte b =>
      obtain ⟨others, hothers, rfl⟩ := Delivery.readAll_byte_cons h
      have hbody : Delivery.ofBytes (b :: others) ++ back =
          .byte b :: (Delivery.ofBytes others ++ back) := rfl
      rw [List.cons_append, hbody, lines.go, lines.go, ih hothers, ih hothers]
    | failure f =>
      obtain ⟨hf, hrest⟩ := Delivery.readAll_failure_cons h
      rw [List.cons_append, lines.go, if_pos hf, ih hrest]

/-- Bytes without a line feed belong to the line that has begun. -/
theorem go_append_of_not_mem {bytes : List UInt8} (h : 0x0A ∉ bytes) (behind : List UInt8)
    (rest : List Delivery) :
    lines.go behind (Delivery.ofBytes bytes ++ rest) = lines.go (bytes.reverse ++ behind) rest := by
  induction bytes generalizing behind with
  | nil => rfl
  | cons b bytes ih =>
    obtain ⟨hb, hbytes⟩ := List.ne_and_not_mem_of_not_mem_cons h
    have hstep : lines.go behind (Delivery.ofBytes (b :: bytes) ++ rest) =
        lines.go (b :: behind) (Delivery.ofBytes bytes ++ rest) := by
      simp [Delivery.ofBytes, lines.go, Ne.symm hb]
    rw [hstep, ih hbytes, List.reverse_cons, List.append_assoc, List.singleton_append]

theorem lines_line {text : String} (h : IsLine text) (rest : List Delivery) :
    lines (Delivery.ofBytes (Utf8.encode (text ++ "\n")) ++ rest) =
      .ok (chop text) :: lines rest := by
  have hbytes : 0x0A ∉ Utf8.encode text := mt (Utf8.mem_encode_iff (by decide)).1 h
  have hlineFeed : Utf8.encode "\n" = [0x0A] := rfl
  have hbody : Delivery.ofBytes (Utf8.encode (text ++ "\n")) ++ rest =
      Delivery.ofBytes (Utf8.encode text) ++ .byte 0x0A :: rest := by
    rw [Utf8.encode_append, hlineFeed, Delivery.ofBytes, List.map_append, List.append_assoc]
    rfl
  rw [lines, hbody, go_append_of_not_mem hbytes, List.append_nil, lines.go, if_pos rfl]
  dsimp only
  rw [decode_chop (List.reverse_reverse _), lines]

theorem lines_joined {texts : List String} (h : ∀ text ∈ texts, IsLine text)
    (rest : List Delivery) :
    lines (Delivery.ofBytes (Utf8.encode (joined texts)) ++ rest) =
      texts.map (fun text => .ok (chop text)) ++ lines rest := by
  induction texts with
  | nil => rfl
  | cons text texts ih =>
    obtain ⟨htext, htexts⟩ := List.forall_mem_cons.1 h
    have hsplit : Delivery.ofBytes (Utf8.encode (joined (text :: texts))) ++ rest =
        Delivery.ofBytes (Utf8.encode (text ++ "\n")) ++
          (Delivery.ofBytes (Utf8.encode (joined texts)) ++ rest) := by
      rw [joined_cons, Utf8.encode_append, Delivery.ofBytes, List.map_append, List.append_assoc]
      rfl
    rw [hsplit, lines_line htext, ih htexts, List.map_cons, List.cons_append]

/-- The effects of prompts for lines and of what is answered to them, to each for itself. -/
def exchanges (mode : Mode) (texts : List String) : List Effect :=
  texts.flatMap fun text => .write prompt :: answer mode (chop text)

theorem exchanges_cons (mode : Mode) (text : String) (texts : List String) :
    exchanges mode (text :: texts) =
      .write prompt :: answer mode (chop text) ++ exchanges mode texts := rfl

theorem script_append (mode : Mode) (texts : List String) (rest : List (Except Failure String)) :
    script mode (texts.map (fun text => .ok (chop text)) ++ rest) =
      (exchanges mode texts ++ (script mode rest).1, (script mode rest).2) := by
  induction texts with
  | nil => rfl
  | cons text texts ih =>
    rw [List.map_cons, List.cons_append, script, ih, exchanges_cons, List.append_assoc]

section
variable {front : List Delivery} {texts : List String}

theorem lines_append (htexts : ∀ text ∈ texts, IsLine text)
    (hfront : Delivery.readAll front = .ok (Utf8.encode (joined texts)))
    (back : List Delivery) :
    lines (front ++ back) = texts.map (fun text => .ok (chop text)) ++ lines back := by
  rw [lines, go_of_readAll hfront, ← lines, lines_joined htexts]

theorem run_append (mode : Mode) (htexts : ∀ text ∈ texts, IsLine text)
    (hfront : Delivery.readAll front = .ok (Utf8.encode (joined texts)))
    (back : List Delivery) :
    run mode none (front ++ back) =
      ⟨written (exchanges mode texts) ++ (run mode none back).output,
        (run mode none back).failure?,
        .started mode :: (logged (exchanges mode texts) ++ (run mode none back).log.tail)⟩ := by
  rw [run_eq, run_eq, perform_none, perform_none, effects, effects,
    lines_append htexts hfront, script_append]
  simp

end

/-- A session with lines and more input behind them goes, after what is printed for each of the
lines, like a session with the other input alone. -/
theorem sessions_compose (mode : Mode) {front : List Delivery} {bytes : List UInt8}
    (back : List Delivery) (hfront : Delivery.readAll front = .ok bytes)
    (hbytes : bytes = [] ∨ (∃ text, bytes = Utf8.encode text) ∧ bytes.getLast? = some 0x0A) :
    ∃ texts : List String,
      bytes = Utf8.encode (joined texts) ∧ (∀ text ∈ texts, IsLine text) ∧
        run mode none front =
          ⟨written (exchanges mode texts) ++ Utf8.encode prompt, none,
            .started mode :: logged (exchanges mode texts)⟩ ∧
        run mode none (front ++ back) =
          ⟨written (exchanges mode texts) ++ (run mode none back).output,
            (run mode none back).failure?,
            .started mode :: logged (exchanges mode texts) ++ (run mode none back).log.tail⟩ := by
  obtain ⟨text, rfl, hlast⟩ : ∃ text : String, bytes = Utf8.encode text ∧
      ∀ c ∈ text.toList.getLast?, c = '\n' := by
    obtain rfl | ⟨⟨text, rfl⟩, hlast⟩ := hbytes
    · exact ⟨"", rfl, nofun⟩
    · refine ⟨text, rfl, fun c hc => ?_⟩
      rw [Utf8.getLast?_encode_eq_some_iff (by decide)] at hlast
      exact Option.some.inj (hc.symm.trans hlast)
  obtain ⟨texts, htext, htexts⟩ := exists_joined hlast
  rw [String.toList_inj.1 htext] at hfront ⊢
  refine ⟨texts, rfl, htexts, ?_, run_append mode htexts hfront back⟩
  have halone := run_append mode htexts hfront []
  rw [List.append_nil] at halone
  rw [halone]
  have hempty : run mode none [] = ⟨Utf8.encode prompt, none, [.started mode]⟩ := rfl
  rw [hempty, List.tail_cons, List.append_nil]

/-- A line with a carriage return, one with a zero byte in it and an interruption on the way; then
a line that is answered and a read that fails in the middle of the next. -/
theorem sessions_compose_of_zero_byte :
    let front : List Delivery :=
      .failure ⟨.interrupted, ""⟩ :: Delivery.ofBytes (Utf8.encode "1+é\r\n1\x00)\n")
    let back : List Delivery :=
      Delivery.ofBytes (Utf8.encode "x\n1") ++ [.failure ⟨.other, "gone"⟩]
    Delivery.readAll front = .ok (Utf8.encode "1+é\r\n1\x00)\n") ∧
      (run .tokens none (front ++ back)).failure? = some ⟨.other, "gone"⟩ ∧
      ∃ answers, (run .tokens none front).output = answers ++ Utf8.encode ">> " ∧
        (run .tokens none (front ++ back)).output =
          answers ++ Utf8.encode ">> IDENT (x) at 1:1\n>> " := by
  intro front back
  obtain ⟨texts, _, _, hfront, hboth⟩ := sessions_compose .tokens back
    (show Delivery.readAll front = .ok (Utf8.encode "1+é\r\n1\x00)\n") by decide +kernel)
    (.inr ⟨⟨_, rfl⟩, by decide +kernel⟩)
  have hback : (run .tokens none back).output = Utf8.encode ">> IDENT (x) at 1:1\n>> " ∧
      (run .tokens none back).failure? = some ⟨.other, "gone"⟩ := by decide +kernel
  refine ⟨by decide +kernel, ?_, written (exchanges .tokens texts), ?_, ?_⟩
  · rw [hboth, hback.2]
  · rw [hfront]
    rfl
  · rw [hboth, hback.1]

end LetLang.Session
