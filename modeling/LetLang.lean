import LetLang.Command.FileTree
import LetLang.Main
import LetLang.Proofs.Language.Acceptance
import LetLang.Proofs.Grammar.Relocation
import LetLang.Proofs.Precedence
import LetLang.Proofs.Scanner.Border
import LetLang.Proofs.Scanner.Spelling
import LetLang.Proofs.Tree.Rendering
import LetLang.Proofs.Grammar.Written
import LetLang.Proofs.RoundTrip
import LetLang.Proofs.Grammar.Places
import LetLang.Proofs.Grammar.Recovery
import LetLang.Proofs.Location
import LetLang.Proofs.Resynchronization
import LetLang.Proofs.Diagnostics
import LetLang.Proofs.Grammar.Blame
import LetLang.Proofs.Scanner.Segmentation
import LetLang.Proofs.Slices
import LetLang.Proofs.Text.Cut
import LetLang.Proofs.Text.Encoding
import LetLang.Proofs.Scanner.Literals
import LetLang.Proofs.Layout
import LetLang.Proofs.Scanner.Offsets
import LetLang.Proofs.Grammar.Pace
import LetLang.Proofs.Operations
import LetLang.Proofs.Scanner.Cursor
import LetLang.Proofs.Visibility
import LetLang.Proofs.Text.Decoding
import LetLang.Proofs.Session.Effects
import LetLang.Proofs.Session.Composition
import LetLang.Proofs.Command
import LetLang.Proofs.Report
import LetLang.Proofs.Outcome.Expression
import LetLang.Proofs.Outcome.Statement
import LetLang.Proofs.Progress
import LetLang.Proofs.Nodes
import LetLang.Proofs.Scanner.Concatenation
import LetLang.Proofs.Scanner.Numeral
import LetLang.Proofs.Numeral
