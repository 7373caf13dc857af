import LetLang.Source

/-! What can be seen of a source: its bytes up to a zero byte or a failure. -/
namespace LetLang

/-- Deliveries of which nothing is seen: none, or a zero byte or a failure for good and behind
it anything. -/
inductive Delivery.Ending : List Delivery → Prop
  | finished : Ending []
  | zero (more : List Delivery) : Ending (.byte 0 :: more)
  | failed {f : Failure} (hf : f.isTransient = false) (more : List Delivery) :
      Ending (.failure f :: more)

namespace Delivery

variable {rest : List Delivery} {bytes : List UInt8}

theorem readAll_byte_cons {b : UInt8} (h : readAll (.byte b :: rest) = .ok bytes) :
    ∃ others, readAll rest = .ok others ∧ bytes = b :: others := by
  rw [readAll] at h
  cases hrest : readAll rest with
  | error f =>
    rw [hrest] at h
    cases h
  | ok others =>
    rw [hrest] at h
    cases h
    exact ⟨others, rfl, rfl⟩

theorem readAll_failure_cons {f : Failure} (h : readAll (.failure f :: rest) = .ok bytes) :
    f.isTransient = true ∧ readAll rest = .ok bytes := by
  rw [readAll] at h
  split at h
  · next hf => exact ⟨hf, h⟩
  · cases h

end Delivery

namespace Source

theorem visible_append_of_ending {front back : List Delivery} {bytes : List UInt8}
    (hzero : 0 ∉ bytes) (hfront : Delivery.readAll front = .ok bytes)
    (hback : Delivery.Ending back) (name : String) :
    visible ⟨name, front ++ back⟩ = bytes := by
  change visible.go (front ++ back) = bytes
  induction front generalizing bytes with
  | nil =>
    cases hfront
    cases hback with
    | finished => rfl
    | zero => rfl
    | failed hf => simp [visible.go, hf]
  | cons d front ih =>
    cases d with
    | byte b =>
      obtain ⟨others, hothers, rfl⟩ := Delivery.readAll_byte_cons hfront
      obtain ⟨hb, hzero⟩ := List.ne_and_not_mem_of_not_mem_cons hzero
      rw [List.cons_append, visible.go, if_neg (Ne.symm hb), ih hzero hothers]
    | failure f =>
      obtain ⟨hf, hrest⟩ := Delivery.readAll_failure_cons hfront
      rw [List.cons_append, visible.go, if_pos hf, ih hzero hrest]

/-- What is read to the end is seen up to its first zero byte. -/
theorem visible_of_readAll {deliveries : List Delivery} {bytes : List UInt8}
    (h : Delivery.readAll deliveries = .ok bytes) (name : String) :
    visible ⟨name, deliveries⟩ = bytes.takeWhile (· ≠ 0) := by
  change visible.go deliveries = _
  induction deliveries generalizing bytes with
  | nil =>
    cases h
    rfl
  | cons d deliveries ih =>
    cases d with
    | byte b =>
      obtain ⟨others, hothers, rfl⟩ := Delivery.readAll_byte_cons h
      rw [visible.go, List.takeWhile_cons, ih hothers]
      by_cases hb : b = 0 <;> simp [hb]
    | failure f =>
      obtain ⟨hf, hrest⟩ := Delivery.readAll_failure_cons h
      rw [visible.go, if_pos hf, ih hrest]

theorem visible_ofBytes_append {front : List UInt8} (hfront : 0 ∉ front) (name : String)
    (back : List UInt8) :
    (ofBytes name (front ++ back)).visible = front ++ (ofBytes name back).visible := by
  rw [visible_ofBytes, visible_ofBytes]
  apply List.takeWhile_append_of_pos
  intro b hb
  exact decide_eq_true (ne_of_mem_of_not_mem hb hfront)

theorem visible_ofBytes_of_zero_not_mem {bytes : List UInt8} (h : 0 ∉ bytes) (name : String) :
    (ofBytes name bytes).visible = bytes := by
  have happend := visible_ofBytes_append h name []
  rw [List.append_nil, visible_ofBytes name [], List.takeWhile_nil, List.append_nil] at happend
  exact happend

theorem visible_ofBytes_isPrefix (name : String) (bytes : List UInt8) :
    (ofBytes name bytes).visible <+: bytes := by
  rw [visible_ofBytes]
  exact List.takeWhile_prefix _

end Source
end LetLang
