import LetLang.Proofs.Scanner.Literals

/-! The scanner byte by byte. A cursor holds one byte, reads on when that is taken, and stops at a
zero byte, which also stands for a failed read and for the end. It brings the tokens that the
scanner of the whole text brings, and reads no further than once behind what can be seen. -/
namespace LetLang

namespace Delivery

/-- What one read finds, and what it leaves. An interrupted read is tried again. -/
def fetch : List Delivery → Option (Except Failure UInt8) × List Delivery
  | [] => (none, [])
  | .byte b :: rest => (some (.ok b), rest)
  | .failure f :: rest => if f.isTransient then fetch rest else (some (.error f), rest)

theorem length_fetch_le {deliveries rest : List Delivery} {found : Option (Except Failure UInt8)}
    (h : fetch deliveries = (found, rest)) :
    rest.length + found.toList.length ≤ deliveries.length := by
  induction deliveries with
  | nil =>
    cases h
    exact Nat.le_refl 0
  | cons d deliveries ih =>
    cases d with
    | byte b =>
      cases h
      exact Nat.le_refl _
    | failure f =>
      rw [fetch] at h
      split at h
      · exact Nat.le_succ_of_le (ih h)
      · cases h
        exact Nat.le_refl _

/-- What can be seen is what reads find one after the other. -/
theorem visible_eq_fetch (deliveries : List Delivery) :
    (Source.visible.go deliveries, Source.failure?.go deliveries) =
      match fetch deliveries with
      | (some (.ok b), rest) =>
        if b = 0 then ([], none) else (b :: Source.visible.go rest, Source.failure?.go rest)
      | (some (.error f), _) => ([], some f)
      | (none, _) => ([], none) := by
  induction deliveries with
  | nil => rfl
  | cons d deliveries ih =>
    cases d with
    | byte b => by_cases hb : b = 0 <;> simp [Source.visible.go, Source.failure?.go, fetch, hb]
    | failure f =>
      by_cases hf : f.isTransient
      · simpa [Source.visible.go, Source.failure?.go, fetch, hf] using ih
      · simp [Source.visible.go, Source.failure?.go, fetch, hf]

end Delivery

/-- Bytes that a run of them may have. None has the zero byte, so every run ends. -/
structure Acceptor where
  accepts : UInt8 → Bool
  accepts_zero : accepts 0 = false := by decide

namespace Acceptor

def blanks : Acceptor where accepts := Lexeme.isBlank

def operators : Acceptor where accepts := Lexeme.isOperator

def letters : Acceptor where accepts := Lexeme.isLetter

def digits : Acceptor where accepts := Lexeme.isDigit

def continuations : Acceptor where accepts := Lexeme.isContinuation

/-- The longest run at the front, within the limit if there is one. -/
def front (a : Acceptor) (limit : Option Nat) (bytes : List UInt8) : List UInt8 :=
  (limit.elim bytes fun n => bytes.take n).takeWhile a.accepts

theorem front_nil (a : Acceptor) (limit : Option Nat) : a.front limit [] = [] := by
  cases limit <;> simp [front]

theorem front_cons (a : Acceptor) (limit : Option Nat) (b : UInt8) (bytes : List UInt8) :
    a.front limit (b :: bytes) =
      if a.accepts b ∧ limit ≠ some 0 then b :: a.front (limit.map (· - 1)) bytes else [] := by
  rcases limit with _ | _ | n
  · by_cases hb : a.accepts b <;> simp [front, hb]
  · simp [front]
  · by_cases hb : a.accepts b <;> simp [front, hb]

end Acceptor

structure Cursor where
  unread : List Delivery
  /-- How often the cursor has read. -/
  reads : Nat
  /-- The failed reads, latest first. -/
  failures : List Failure
  /-- The byte at the cursor, or zero where the text is over. -/
  byte : UInt8
  place : Location
  /-- The place behind the byte. -/
  behind : Location
deriving DecidableEq, Repr

namespace Cursor

def read (c : Cursor) : Cursor :=
  match Delivery.fetch c.unread with
  | (some (.ok b), unread) =>
    ⟨unread, c.reads + 1, c.failures, b, c.behind, if b = 0 then c.behind else c.behind.after b⟩
  | (some (.error f), unread) => ⟨unread, c.reads + 1, f :: c.failures, 0, c.behind, c.behind⟩
  | (none, unread) => ⟨unread, c.reads + 1, c.failures, 0, c.behind, c.behind⟩

/-- A cursor at the first byte of a source. -/
def ofSource (source : Source) : Cursor :=
  read ⟨source.deliveries, 0, [], 0, .start, .start⟩

/-- How many bytes there may still be, with the one at the cursor. -/
def size (c : Cursor) : Nat := c.unread.length + if c.byte = 0 then 0 else 1

theorem size_read_lt {c : Cursor} (h : c.byte ≠ 0) : c.read.size < c.size := by
  have hsize : c.size = c.unread.length + 1 := by rw [size, if_neg h]
  rw [hsize, read]
  split
  · next b rest hfetch =>
    have hlength : rest.length + 1 ≤ c.unread.length := Delivery.length_fetch_le hfetch
    dsimp only [size]
    split <;> omega
  · next f rest hfetch =>
    have hlength : rest.length + 1 ≤ c.unread.length := Delivery.length_fetch_le hfetch
    exact Nat.lt_succ_of_lt hlength
  · next rest hfetch =>
    have hlength : rest.length ≤ c.unread.length := Delivery.length_fetch_le hfetch
    exact Nat.lt_succ_of_le hlength

theorem byte_ne_zero_of_accepts {c : Cursor} {a : Acceptor} (h : a.accepts c.byte = true) :
    c.byte ≠ 0 := by
  intro hzero
  rw [hzero, a.accepts_zero] at h
  cases h

/-- Takes the bytes that are accepted, up to a limit if there is one. -/
def takeWhile (a : Acceptor) (limit : Option Nat) (c : Cursor) : List UInt8 × Cursor :=
  if a.accepts c.byte ∧ limit ≠ some 0 then
    let run := takeWhile a (limit.map (· - 1)) c.read
    (c.byte :: run.1, run.2)
  else ([], c)
termination_by c.size
decreasing_by exact size_read_lt (byte_ne_zero_of_accepts (And.left ‹_ ∧ limit ≠ some 0›))

/-- Bytes as one character each. -/
def spell (bytes : List UInt8) : String := .ofList (bytes.map Char.ofUInt8)

/-- The token of a run of plain bytes. -/
def lex (a : Acceptor) (limit : Option Nat) (kindOf : String → Kind) (c : Cursor) :
    Token × Cursor :=
  let run := c.takeWhile a limit
  (⟨kindOf (spell run.1), spell run.1, c.place⟩, run.2)

/-- The token of a byte that starts none else, with the bytes that complete a character. -/
def lexStray (c : Cursor) : Token × Cursor :=
  let run := c.read.takeWhile .continuations (some (Utf8.width c.byte - 1))
  (⟨.illegal, Utf8.lossy (c.byte :: run.1), c.place⟩, run.2)

def skipBlanks (c : Cursor) : Cursor := (c.takeWhile .blanks none).2

/-- The token of the byte at the cursor, which is no blank. -/
def lexeme (c : Cursor) : Token × Cursor :=
  match Kind.ofMark? c.byte with
  | some kind => (⟨kind, spell [c.byte], c.place⟩, c.read)
  | none =>
    if Lexeme.isOperator c.byte then c.lex .operators (some 2) .ofOperator
    else if Lexeme.isLetter c.byte then c.lex .letters none .ofWord
    else if Lexeme.isDigit c.byte then c.lex .digits none fun _ => .integer
    else if c.byte = 0 then (.finish c.place, c)
    else c.lexStray

def next (c : Cursor) : Token × Cursor := c.skipBlanks.lexeme

theorem spell_of_isPlain {bytes : List UInt8} (h : Utf8.IsPlain bytes) :
    spell bytes = Utf8.lossy bytes := by
  rw [← String.toList_inj, spell, String.toList_ofList, Utf8.toList_lossy_of_isPlain h]

theorem takeWhile_of_zero {c : Cursor} (h : c.byte = 0) (a : Acceptor) (limit : Option Nat) :
    c.takeWhile a limit = ([], c) := by
  rw [takeWhile, if_neg]
  rw [h, a.accepts_zero]
  simp

theorem lexeme_of_zero {c : Cursor} (h : c.byte = 0) : c.lexeme = (.finish c.place, c) := by
  rw [lexeme, h]
  rfl

/-- At the end nothing moves, and nothing is read. -/
theorem next_of_zero {c : Cursor} (h : c.byte = 0) : c.next = (.finish c.place, c) := by
  rw [next, skipBlanks, takeWhile_of_zero h, lexeme_of_zero h]

/-- The cursor is about to read the first byte that the scanner has left, and has read all
those in front of it. -/
structure Poised (source : Source) (s : Scanner) (c : Cursor) : Prop where
  visible_eq : Source.visible.go c.unread = s.rest
  failure_eq : Source.failure?.go c.unread = source.failure?
  failures_eq : c.failures = []
  behind_eq : c.behind = s.location
  reads_eq : c.reads + s.rest.length = source.visible.length

/-- The cursor holds the first byte that the scanner has left, or has met the end. -/
inductive Stands (source : Source) : Scanner → Cursor → Prop
  | read {s : Scanner} {c : Cursor} (h : Poised source s c) : Stands source s c.read

theorem poised_ofSource (source : Source) :
    Poised source (.ofSource source) ⟨source.deliveries, 0, [], 0, .start, .start⟩ :=
  ⟨rfl, rfl, rfl, rfl, Nat.zero_add _⟩

theorem stands_ofSource (source : Source) : Stands source (.ofSource source) (.ofSource source) :=
  .read (poised_ofSource source)

theorem place_read (c : Cursor) : c.read.place = c.behind := by
  rw [read]
  split <;> rfl

theorem reads_read (c : Cursor) : c.read.reads = c.reads + 1 := by
  rw [read]
  split <;> rfl

section
variable {source : Source} {s : Scanner} {c : Cursor}

/-- One read finds the next byte of the text, or its end with what ends it. -/
theorem Poised.read_cases (h : Poised source s c) :
    (s.rest = [] ∧ c.read.byte = 0 ∧ c.read.failures = source.failure?.toList) ∨
      ∃ b bytes, s.rest = b :: bytes ∧ c.read.byte = b ∧ b ≠ 0 ∧
        Poised source ⟨bytes, s.location.after b⟩ c.read := by
  have hseen := Delivery.visible_eq_fetch c.unread
  rw [h.visible_eq, h.failure_eq] at hseen
  rw [read]
  split
  · next b rest hfetch =>
    rw [hfetch] at hseen
    dsimp only at hseen
    split at hseen
    · next hb =>
      obtain ⟨hrest, hfailure⟩ := Prod.mk.inj hseen
      refine .inl ⟨hrest, hb, ?_⟩
      rw [hfailure]
      exact h.failures_eq
    · next hb =>
      obtain ⟨hrest, hfailure⟩ := Prod.mk.inj hseen
      refine .inr ⟨b, _, hrest, rfl, hb, rfl, hfailure.symm, h.failures_eq, ?_, ?_⟩
      · rw [if_neg hb, h.behind_eq]
      · have hreads := h.reads_eq
        rw [hrest, List.length_cons] at hreads
        dsimp only
        omega
  · next f rest hfetch =>
    rw [hfetch] at hseen
    obtain ⟨hrest, hfailure⟩ := Prod.mk.inj hseen
    refine .inl ⟨hrest, rfl, ?_⟩
    rw [hfailure, h.failures_eq]
    rfl
  · next rest hfetch =>
    rw [hfetch] at hseen
    obtain ⟨hrest, hfailure⟩ := Prod.mk.inj hseen
    refine .inl ⟨hrest, rfl, ?_⟩
    rw [hfailure]
    exact h.failures_eq

namespace Stands

theorem place_eq (h : Stands source s c) : c.place = s.location := by
  cases h with
  | read h => rw [place_read, h.behind_eq]

/-- A cursor reads no byte twice, and once behind the last one. -/
theorem reads_le (h : Stands source s c) : c.reads ≤ source.visible.length + 1 := by
  cases h with
  | read h =>
    rw [reads_read, ← h.reads_eq]
    omega

theorem length_failures_le (h : Stands source s c) : c.failures.length ≤ 1 := by
  cases h with
  | read h =>
    rcases h.read_cases with ⟨_, _, hfailures⟩ | ⟨b, bytes, _, _, _, hread⟩
    · rw [hfailures]
      cases source.failure? <;> simp
    · rw [hread.failures_eq]
      exact Nat.zero_le 1

theorem byte_eq_zero (h : Stands source s c) (hrest : s.rest = []) : c.byte = 0 := by
  cases h with
  | read h =>
    rcases h.read_cases with ⟨_, hbyte, _⟩ | ⟨b, bytes, hcons, _⟩
    · exact hbyte
    · rw [hrest] at hcons
      cases hcons

theorem read_of_cons {b : UInt8} {bytes : List UInt8} (h : Stands source s c)
    (hrest : s.rest = b :: bytes) :
    c.byte = b ∧ b ≠ 0 ∧ Stands source ⟨bytes, s.location.after b⟩ c.read := by
  cases h with
  | read h =>
    rcases h.read_cases with ⟨hnil, _⟩ | ⟨b', bytes', hcons, hbyte, hne, hread⟩
    · rw [hrest] at hnil
      cases hnil
    · rw [hrest] at hcons
      cases hcons
      exact ⟨hbyte, hne, .read hread⟩

/-- A run that the cursor takes is the one at the front of the text. -/
theorem takeWhile (h : Stands source s c) (a : Acceptor) (limit : Option Nat) :
    (c.takeWhile a limit).1 = a.front limit s.rest ∧
      Stands source ⟨s.rest.drop (a.front limit s.rest).length,
        s.location.afterAll (a.front limit s.rest)⟩ (c.takeWhile a limit).2 := by
  obtain ⟨rest, place⟩ := s
  -- The cursor and the limit go along with the text, which is what runs out.
  induction rest generalizing place c limit with
  | nil =>
    rw [takeWhile_of_zero (h.byte_eq_zero rfl), a.front_nil]
    exact ⟨rfl, h⟩
  | cons b bytes ih =>
    obtain ⟨rfl, _, hread⟩ := h.read_of_cons rfl
    rw [Cursor.takeWhile, a.front_cons]
    split
    · obtain ⟨htaken, hstands⟩ := ih (limit.map (· - 1)) _ hread
      exact ⟨congrArg (c.byte :: ·) htaken, hstands⟩
    · exact ⟨rfl, h⟩

/-- Blanks are skipped alike. -/
theorem skipBlanks (h : Stands source s c) : Stands source s.skipBlanks c.skipBlanks := by
  have hskip := (h.takeWhile .blanks none).2
  have hrest : s.rest.drop (s.rest.takeWhile Lexeme.isBlank).length = s.skipBlanks.rest :=
    (congrArg (List.drop _) s.rest_eq).trans List.drop_left
  change Stands source ⟨s.rest.drop (s.rest.takeWhile Lexeme.isBlank).length, _⟩ _ at hskip
  rw [hrest] at hskip
  exact hskip

/-- A run of plain bytes makes the token of the scanner, if it is accepted as the scanner's
lexeme is. -/
theorem lex {b : UInt8} {bytes : List UInt8} (h : Stands source s c) (hrest : s.rest = b :: bytes)
    {a : Acceptor} {limit : Option Nat} {kindOf : String → Kind} (hb : a.accepts b = true)
    (hlimit : limit ≠ some 0) (htail : Lexeme.tail b bytes = a.front (limit.map (· - 1)) bytes)
    (hplain : Utf8.IsPlain (b :: Lexeme.tail b bytes)) (hkind : ∀ l, Lexeme.kind b l = kindOf l) :
    (c.lex a limit kindOf).1 = Scanner.lexed s.location b bytes ∧
      Stands source ⟨bytes.drop (Lexeme.tail b bytes).length,
        s.location.afterAll (b :: Lexeme.tail b bytes)⟩ (c.lex a limit kindOf).2 := by
  have hfront : a.front limit s.rest = b :: Lexeme.tail b bytes := by
    rw [hrest, a.front_cons, if_pos ⟨hb, hlimit⟩, htail]
  obtain ⟨hbytes, hstands⟩ := h.takeWhile a limit
  rw [hfront] at hbytes hstands
  rw [hrest] at hstands
  refine ⟨?_, hstands⟩
  rw [Cursor.lex, hbytes, spell_of_isPlain hplain, h.place_eq, Scanner.lexed, hkind]

theorem lexStray {b : UInt8} {bytes : List UInt8} (h : Stands source s c)
    (hrest : s.rest = b :: bytes) (hclass : Lexeme.classOf b = .other) :
    c.lexStray.1 = Scanner.lexed s.location b bytes ∧
      Stands source ⟨bytes.drop (Lexeme.tail b bytes).length,
        s.location.afterAll (b :: Lexeme.tail b bytes)⟩ c.lexStray.2 := by
  obtain ⟨rfl, _, hread⟩ := h.read_of_cons hrest
  have htail : Acceptor.continuations.front (some (Utf8.width c.byte - 1)) bytes =
      Lexeme.tail c.byte bytes := by
    rw [Lexeme.tail, hclass]
    rfl
  obtain ⟨hbytes, hstands⟩ := hread.takeWhile .continuations (some (Utf8.width c.byte - 1))
  rw [htail] at hbytes hstands
  refine ⟨?_, hstands⟩
  rw [Cursor.lexStray, hbytes, h.place_eq, Scanner.lexed, Lexeme.kind, hclass]

/-- At a byte that is no blank, the cursor makes the token of the lexeme that it starts. -/
theorem lexeme {b : UInt8} {bytes : List UInt8} (h : Stands source s c)
    (hrest : s.rest = b :: bytes) (hblank : Lexeme.isBlank b = false) :
    c.lexeme.1 = Scanner.lexed s.location b bytes ∧
      Stands source ⟨bytes.drop (Lexeme.tail b bytes).length,
        s.location.afterAll (b :: Lexeme.tail b bytes)⟩ c.lexeme.2 := by
  obtain ⟨rfl, hne, hread⟩ := h.read_of_cons hrest
  have hplain := (Lexeme.munch_tail hblank bytes).isPlain
  rw [Cursor.lexeme]
  cases hmark : Kind.ofMark? c.byte with
  | some kind =>
    have hclass := Lexeme.classOf_eq_mark_iff.2 hmark
    have htail : Lexeme.tail c.byte bytes = [] := by rw [Lexeme.tail, hclass]
    have hplain := hplain (by simp [hclass])
    rw [htail] at hplain
    rw [Scanner.lexed, htail, h.place_eq, spell_of_isPlain hplain, Lexeme.kind, hclass]
    exact ⟨rfl, hread⟩
  | none =>
    dsimp only
    -- Each test that holds settles the class, and with it which bytes the lexeme may have.
    by_cases hoperator : Lexeme.isOperator c.byte = true
    · have hclass := Lexeme.classOf_of_isOperator hoperator
      rw [if_pos hoperator]
      exact h.lex hrest hoperator (by decide) (by rw [Lexeme.tail, hclass]; rfl)
        (hplain (by simp [hclass])) fun l => by rw [Lexeme.kind, hclass]
    rw [if_neg hoperator]
    by_cases hletter : Lexeme.isLetter c.byte = true
    · have hclass := Lexeme.classOf_of_isLetter hletter
      rw [if_pos hletter]
      exact h.lex hrest hletter (by decide) (by rw [Lexeme.tail, hclass]; rfl)
        (hplain (by simp [hclass])) fun l => by rw [Lexeme.kind, hclass]
    rw [if_neg hletter]
    by_cases hdigit : Lexeme.isDigit c.byte = true
    · have hclass := Lexeme.classOf_of_isDigit hdigit
      rw [if_pos hdigit]
      exact h.lex hrest hdigit (by decide) (by rw [Lexeme.tail, hclass]; rfl)
        (hplain (by simp [hclass])) fun l => by rw [Lexeme.kind, hclass]
    rw [if_neg hdigit, if_neg hne]
    exact h.lexStray hrest (Lexeme.classOf_of_isStray ⟨hblank, hmark,
      Bool.eq_false_iff.2 hoperator, Bool.eq_false_iff.2 hletter, Bool.eq_false_iff.2 hdigit⟩)

/-- One call brings the token of the scanner, and leaves the cursor where that stops. -/
theorem next (h : Stands source s c) : c.next.1 = s.next.1 ∧ Stands source s.next.2 c.next.2 := by
  have hskip := h.skipBlanks
  cases hrest : s.skipBlanks.rest with
  | nil =>
    have hbyte := hskip.byte_eq_zero hrest
    rw [Cursor.next, lexeme_of_zero hbyte, Scanner.next_of_nil hrest, hskip.place_eq]
    exact ⟨rfl, hskip⟩
  | cons b bytes =>
    have hblank := List.head?_dropWhile_not Lexeme.isBlank s.rest
    rw [← Scanner.skipBlanks_rest, hrest] at hblank
    rw [Scanner.next_of_cons hrest]
    exact hskip.lexeme hrest hblank

end Stands

end

end Cursor
end LetLang
