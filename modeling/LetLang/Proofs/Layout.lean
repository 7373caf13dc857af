import LetLang.Proofs.Parser
import LetLang.Proofs.Scanner.Order
import LetLang.Proofs.Source
import Mathlib.Data.List.GetD
import Mathlib.Data.List.Nodup

/-! Layout. Blanks and line breaks between tokens move the tokens about and do nothing else: texts
of the same kinds and literals are read alike, each place in one for the place in the other. -/
namespace LetLang

open Grammar (Action)

theorem exists_map_eq_of_nodup {ps qs : List Location} (hnodup : ps.Nodup)
    (hlength : ps.length = qs.length) : ∃ f : Location → Location, ps.map f = qs := by
  refine ⟨fun p => qs.getD (ps.idxOf p) p, ?_⟩
  apply List.ext_getElem
  · rw [List.length_map, hlength]
  · intro i hi hi'
    rw [List.length_map] at hi
    rw [List.getElem_map, hnodup.idxOf_getElem, List.getD_eq_getElem _ _ hi']

/-- Tokens that agree in all but their places become the same if these are moved. -/
theorem map_relocate_eq {f : Location → Location} {ts us : List Token}
    (hsame : ts.map (fun t => (t.kind, t.literal)) = us.map (fun t => (t.kind, t.literal)))
    (hplaces : ts.map (fun t => f t.location) = us.map (·.location)) :
    ts.map (Token.relocate f) = us := by
  induction ts generalizing us with
  | nil => exact (List.map_eq_nil_iff.1 hsame.symm).symm
  | cons t ts ih =>
    cases us with
    | nil => cases hsame
    | cons u us =>
      obtain ⟨hhead, htail⟩ := List.cons.inj hsame
      obtain ⟨hplace, hrest⟩ := List.cons.inj hplaces
      obtain ⟨hkind, hliteral⟩ := Prod.mk.inj hhead
      have hplace : f t.location = u.location := hplace
      have hu : t.relocate f = u := by
        rw [Token.relocate, hkind, hliteral, hplace]
      rw [List.map_cons, hu, ih htail hrest]

theorem nodup_location_tokenize {source : Source}
    (h : source.visible.length < UInt32.size - 1) :
    ((tokenize source).map (·.location)).Nodup :=
  (pairwise_location_tokenize h).imp ne_of_lt

section
variable {source source' : Source} {f : Location → Location}
  (htokens : (tokenize source).map (Token.relocate f) = tokenize source')
include htokens

theorem readings_relocate :
    readings source' = ((readings source).1.map (Statement.relocate f),
      (readings source).2.map (Action.relocate f)) := by
  unfold tokenize at htokens
  rw [List.map_append] at htokens
  obtain ⟨hahead, hlast⟩ := List.append_inj' htokens rfl
  have hfinish : f (Scanner.ofSource source).finish = (Scanner.ofSource source').finish :=
    congrArg Token.location (List.singleton_inj.1 hlast)
  rw [readings, ← hahead, ← hfinish, Grammar.statements_relocate]
  rfl

/-- If the places in the second text are apart, the reports go along with the tokens. -/
theorem parse_relocate (hlength : source'.visible.length < UInt32.size - 1) :
    parse source' =
      ((parse source).1.relocate f, (parse source).2.map (Diagnostic.relocate f)) := by
  have hnodup := nodup_location_tokenize hlength
  rw [← htokens, List.map_map] at hnodup
  let places : Set Location := {place | ∃ t ∈ tokenize source, t.location = place}
  have hf : places.InjOn f := by
    rintro _ ⟨t, ht, rfl⟩ _ ⟨u, hu, rfl⟩ heq
    exact congrArg Token.location (List.inj_on_of_nodup_map hnodup ht hu heq)
  have htrail : ∀ d, .fault d ∈ (readings source).2 → d.location ∈ places :=
    fun d hd => exists_token_of_fault hd
  have hreported := @foldl_record_relocate_of_injOn f places hf _ [] htrail (by simp)
  rw [List.map_nil] at hreported
  rw [parse_eq, parse_eq, readings_relocate htokens]
  dsimp only
  rw [hreported, ← List.map_reverse]
  rfl

end

/-- Texts with the same kinds and literals are parsed to the same program and the same reports, but
for the places, which any map follows that takes each token's place to that of its counterpart.
There is such a map. -/
theorem parse_follows_layout (name name' : String) (bytes bytes' : List UInt8)
    (hlength : bytes.length < UInt32.size - 1) (hlength' : bytes'.length < UInt32.size - 1)
    (hsame : (tokenize (.ofBytes name bytes)).map (fun t => (t.kind, t.literal)) =
      (tokenize (.ofBytes name' bytes')).map (fun t => (t.kind, t.literal))) :
    (∃ f : Location → Location, (tokenize (.ofBytes name bytes)).map (fun t => f t.location) =
      (tokenize (.ofBytes name' bytes')).map (·.location)) ∧
    ∀ f : Location → Location, (tokenize (.ofBytes name bytes)).map (fun t => f t.location) =
        (tokenize (.ofBytes name' bytes')).map (·.location) →
      parse (.ofBytes name' bytes') = ((parse (.ofBytes name bytes)).1.relocate f,
        (parse (.ofBytes name bytes)).2.map (Diagnostic.relocate f)) := by
  have hvisible := (Source.visible_ofBytes_isPrefix name bytes).length_le
  have hvisible' := (Source.visible_ofBytes_isPrefix name' bytes').length_le
  constructor
  · have hnodup := nodup_location_tokenize (Nat.lt_of_le_of_lt hvisible hlength)
    have hcount := congrArg List.length hsame
    rw [List.length_map, List.length_map] at hcount
    obtain ⟨f, hf⟩ := @exists_map_eq_of_nodup _ ((tokenize (.ofBytes name' bytes')).map
      (·.location)) hnodup (by rw [List.length_map, List.length_map, hcount])
    rw [List.map_map] at hf
    exact ⟨f, hf⟩
  · intro f hplaces
    exact parse_relocate (map_relocate_eq hsame hplaces) (Nat.lt_of_le_of_lt hvisible' hlength')

/-- A parenthesis blocks the name in front of it and starts nothing itself, which is one report in
either layout, since both times it is found at one place. -/
theorem parse_follows_layout_of_blocked :
    (tokenize (.ofText "" "f(1)")).map (fun t => (t.kind, t.literal)) =
        (tokenize (.ofText "" " f\n( 1\t)")).map (fun t => (t.kind, t.literal)) ∧
      (parse (.ofText "" " f\n( 1\t)")).2 =
        [⟨.cannotContinue .leftParen, ⟨2, 1⟩⟩, ⟨.cannotStart .rightParen, ⟨2, 5⟩⟩] ∧
      ∃ f : Location → Location, f ⟨1, 2⟩ = ⟨2, 1⟩ ∧ f ⟨1, 4⟩ = ⟨2, 5⟩ ∧
        parse (.ofText "" " f\n( 1\t)") = ((parse (.ofText "" "f(1)")).1.relocate f,
          (parse (.ofText "" "f(1)")).2.map (Diagnostic.relocate f)) := by
  have hsame : (tokenize (.ofText "" "f(1)")).map (fun t => (t.kind, t.literal)) =
      (tokenize (.ofText "" " f\n( 1\t)")).map (fun t => (t.kind, t.literal)) := by decide +kernel
  obtain ⟨_, hparse⟩ := parse_follows_layout "" "" (Utf8.encode "f(1)") (Utf8.encode " f\n( 1\t)")
    (by decide +kernel) (by decide +kernel) hsame
  let moves : List (Location × Location) := [(⟨1, 1⟩, ⟨1, 2⟩), (⟨1, 2⟩, ⟨2, 1⟩),
    (⟨1, 3⟩, ⟨2, 3⟩), (⟨1, 4⟩, ⟨2, 5⟩), (⟨1, 5⟩, ⟨2, 6⟩)]
  refine ⟨hsame, by decide +kernel, fun place => (moves.lookup place).getD place, rfl, rfl, ?_⟩
  exact hparse _ (by decide +kernel)

end LetLang
