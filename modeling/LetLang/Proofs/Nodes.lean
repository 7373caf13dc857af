import LetLang.Proofs.Precedence
import LetLang.Proofs.Scanner.Order
import LetLang.Proofs.Source
import LetLang.Proofs.Tree.Location

/-! The places of the nodes of a program. The statements take up slices of the tokens one behind
the other, also where tokens are lost between them, so the order of the tokens goes over to all
that a program keeps of them. -/
namespace LetLang

/-- An expression that is a statement leaves its first token with the statement. -/
theorem head?_tokens_of_mem_statements {source : Source} {token : Token} {expr : Expr}
    (h : .expression token expr ∈ (parse source).1.statements) :
    expr.tokens.head? = some token :=
  (wellFormed_of_mem_statements h).1

theorem exists_sliced_tokenize (source : Source) :
    ∃ slices, Sliced (parse source).1.statements slices (tokenize source).dropLast := by
  obtain ⟨slices, hsliced, _⟩ := Grammar.exists_sliced_statements
    (Scanner.ofSource source).finish (Scanner.ofSource source).tokens
  rw [dropLast_tokenize, parse_fst]
  exact ⟨slices, hsliced⟩

theorem ascending_dropLast_tokenize {source : Source}
    (h : source.visible.length < UInt32.size - 1) : Ascending (tokenize source).dropLast :=
  Ascending.sublist (pairwise_location_tokenize h) (List.dropLast_sublist _)

/-- Every statement stands where its slice of the text does and every expression where its first
token does, with no token of theirs further up. The tokens that a program keeps stand one behind
the other, and so do its statements. -/
theorem nodes_stand_at_first_tokens (name : String) (bytes : List UInt8)
    (hlength : bytes.length < UInt32.size - 1) :
    let source := Source.ofBytes name bytes
    let program := (parse source).1
    (∃ slices, Sliced program.statements slices (tokenize source).dropLast ∧
        List.Forall₂ Statement.Rooted program.statements slices) ∧
      Ascending (program.statements.flatMap Statement.tokens) ∧
      (∀ token expr, .expression token expr ∈ program.statements →
        expr.tokens.head? = some token ∧
          (Statement.expression token expr).location = token.location) ∧
      (program.statements.map Statement.location).Pairwise (· < ·) := by
  intro source program
  have hvisible := (Source.visible_ofBytes_isPrefix name bytes).length_le
  have htext : Ascending (tokenize source).dropLast :=
    ascending_dropLast_tokenize (Nat.lt_of_le_of_lt hvisible hlength)
  obtain ⟨slices, hsliced⟩ := exists_sliced_tokenize source
  refine ⟨⟨slices, hsliced, ?_⟩, htext.sublist hsliced.tokens_sublist, ?_, ?_⟩
  · exact hsliced.rooted (fun s hs => wellFormed_of_mem_statements hs) htext
  · intro token expr hmem
    have hhead := head?_tokens_of_mem_statements hmem
    have hplace := expr.head?_tokens
    rw [hhead] at hplace
    exact ⟨hhead, (Option.some.inj hplace).symm⟩
  · exact List.Pairwise.sublist hsliced.locations_sublist htext

/-- A binding without a name, a sum that stands where the sign of its first factor does, and a
return statement whose value is lost. -/
theorem nodes_stand_at_first_tokens_of_faulty :
    let source := Source.ofBytes "faulty" (Utf8.encode "let 5;\n-a * 2 + b(c;\nreturn )\n  d")
    let program := (parse source).1
    program.statements.map Statement.location =
        [⟨1, 5⟩, ⟨2, 1⟩, ⟨2, 12⟩, ⟨3, 1⟩, ⟨4, 3⟩] ∧
      (∃ slices, Sliced program.statements slices (tokenize source).dropLast ∧
        List.Forall₂ Statement.Rooted program.statements slices) ∧
      Ascending (program.statements.flatMap Statement.tokens) := by
  intro source program
  obtain ⟨hslices, htokens, _⟩ := nodes_stand_at_first_tokens "faulty"
    (Utf8.encode "let 5;\n-a * 2 + b(c;\nreturn )\n  d") (by decide +kernel)
  exact ⟨by decide +kernel, hslices, htokens⟩

end LetLang
