import LetLang.Log
import LetLang.Parser

/-! The log of scanning and parsing. A parser takes tokens off its text one at a time and
between them finds faults, so its log is its history played once more with a scanner. -/
namespace LetLang

open Log (Event)

/-- The event of the read that found nothing more, if it failed. -/
def Source.ending (source : Source) : List Event :=
  match source.failure? with
  | some f => [.unreadable source.name f.message]
  | none => []

/-- The events of looking at the first byte. -/
def Source.opening (source : Source) : List Event :=
  if source.visible = [] then source.ending else []

/-- The events of scanning one token. Each byte is looked at as soon as the one before it
is taken, so the end is met while the last token or the last blanks are scanned. -/
def Scanner.events (source : Source) (s : Scanner) : List Event :=
  let (t, behind) := s.next
  let ending := if s.rest ≠ [] ∧ behind.rest = [] then source.ending else []
  ending ++ [.scanned source.name t.location t.literal]

/-- The events of a series of steps, oldest first. -/
def Step.replay (source : Source) (s : Scanner) : List Step → List Event
  | [] => []
  | .pull :: steps => s.events source ++ replay source s.next.2 steps
  | .reported d :: steps => .reported source.name d :: replay source s steps
  | .repeated d :: steps => .repeated source.name d :: replay source s steps

/-- Everything logged since the parser was at the start of its source. -/
def Parser.log (p : Parser) : List Event :=
  p.source.opening ++ Step.replay p.source (.ofSource p.source) p.history.reverse

end LetLang
