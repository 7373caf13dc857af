import LetLang.Proofs.Scanner.Concatenation

/-! Texts below one another. A text that starts on a line of its own has the tokens it has on its
own, as many lines further down as there are above it. -/
namespace LetLang

open Location (lineFeeds)

namespace Scanner

theorem tokens_down (bytes : List UInt8) (place : Location) (n : Nat) :
    (Scanner.mk bytes (place.down n)).tokens =
      (Scanner.mk bytes place).tokens.map (Token.relocate (.down n)) := by
  have hplaces : ∀ front, Location.down n (place.afterAll front) =
      id ((place.down n).afterAll front) :=
    fun front => (Location.afterAll_down n place front).symm
  have h := map_relocate_tokens ⟨bytes, place⟩ (place.down n) hplaces
  rw [h]
  exact (List.map_id _).symm

theorem after_lineFeed_afterAll (above : List UInt8) :
    (Location.start.afterAll above).after 0x0A = Location.start.down (lineFeeds above + 1) := by
  have hone : (1 : UInt32) = UInt32.ofNat 1 := rfl
  rw [Location.after, if_pos rfl, Location.line_afterAll, UInt32.add_assoc, Location.down,
    UInt32.ofNat_add, ← hone]
  rfl

section
variable {above : List UInt8} (habove : 0 ∉ above) (name : String) (below : List UInt8)
include habove

theorem tokens_ofBytes_below :
    (ofSource (.ofBytes name (above ++ 0x0A :: below))).tokens =
      (ofSource (.ofBytes name above)).tokens ++
        (ofSource (.ofBytes name below)).tokens.map
          (Token.relocate (.down (lineFeeds above + 1))) := by
  rw [List.append_cons, tokens_ofBytes_append habove isBlanks_lineFeed,
    Location.afterAll_append, Location.afterAll_cons, Location.afterAll_nil,
    after_lineFeed_afterAll, tokens_down]
  rfl

theorem finish_ofBytes_below :
    (ofSource (.ofBytes name (above ++ 0x0A :: below))).finish =
      (ofSource (.ofBytes name below)).finish.down (lineFeeds above + 1) := by
  rw [List.append_cons, finish_ofBytes_append habove isBlanks_lineFeed,
    Location.afterAll_append, Location.afterAll_cons, Location.afterAll_nil,
    after_lineFeed_afterAll, finish, ← Location.afterAll_down]
  rfl

end

end Scanner

theorem toNat_line_of_mem_tokenize {name : String} {bytes : List UInt8} {t : Token}
    (hbytes : lineFeeds bytes + 1 < UInt32.size) (h : t ∈ tokenize (.ofBytes name bytes)) :
    1 ≤ t.location.line.toNat ∧ t.location.line.toNat ≤ lineFeeds bytes + 1 := by
  obtain ⟨front, hfront, hlocation⟩ := exists_of_mem_tokenize h
  have hprefix := hfront.trans (Source.visible_ofBytes_isPrefix name bytes)
  have hle : lineFeeds front ≤ lineFeeds bytes := hprefix.sublist.count_le 0x0A
  rw [hlocation, Location.toNat_line_start_afterAll (by omega)]
  omega

end LetLang
