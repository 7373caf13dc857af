import LetLang.Text.Utf8

/-! Where text comes from: a named series of bytes and failed reads. A zero byte or a
failed read ends what can be seen of a source; an interruption does not. -/
namespace LetLang

namespace Failure

inductive Cause where
  | interrupted
  | wouldBlock
  | unexpectedEnd
  | other
  | notFound
  | isDirectory
  | notDirectory
  | nameTooLong
  | invalidData
  | writeZero
deriving DecidableEq, Repr, Inhabited

end Failure

structure Failure where
  cause : Failure.Cause
  message : String
deriving DecidableEq, Repr, Inhabited

namespace Failure

def notText : Failure := ⟨.invalidData, "stream did not contain valid UTF-8"⟩

def writerFull : Failure := ⟨.writeZero, "failed to write whole buffer"⟩

def notFound : Failure := ⟨.notFound, "No such file or directory (os error 2)"⟩

def isDirectory : Failure := ⟨.isDirectory, "Is a directory (os error 21)"⟩

def notDirectory : Failure := ⟨.notDirectory, "Not a directory (os error 20)"⟩

def nameTooLong : Failure := ⟨.nameTooLong, "File name too long (os error 36)"⟩

/-- An interrupted read is tried again and leaves no trace. -/
def isTransient (f : Failure) : Bool := f.cause = .interrupted

end Failure

inductive Delivery where
  | byte (b : UInt8)
  | failure (f : Failure)
deriving DecidableEq, Repr

namespace Delivery

def ofBytes (bytes : List UInt8) : List Delivery := bytes.map byte

/-- All the bytes, unless a read fails for good. -/
def readAll : List Delivery → Except Failure (List UInt8)
  | [] => .ok []
  | .byte b :: rest => (readAll rest).map (b :: ·)
  | .failure f :: rest => if f.isTransient then readAll rest else .error f

@[simp] theorem readAll_ofBytes (bytes : List UInt8) : readAll (ofBytes bytes) = .ok bytes := by
  induction bytes with
  | nil => rfl
  | cons b bytes ih =>
    rw [ofBytes, List.map_cons, readAll, ← ofBytes, ih]
    rfl

/-- All the bytes as text; a failed read comes before malformed text. -/
def readText (deliveries : List Delivery) : Except Failure String := do
  let bytes ← readAll deliveries
  match Utf8.decode? bytes with
  | some text => .ok text
  | none => .error .notText

end Delivery

/-- A text to be read, with the name that messages give it. -/
structure Source where
  name : String
  deliveries : List Delivery
deriving DecidableEq, Repr

namespace Source

def ofBytes (name : String) (bytes : List UInt8) : Source := ⟨name, Delivery.ofBytes bytes⟩

def ofText (name text : String) : Source := ofBytes name (Utf8.encode text)

/-- The bytes before the first zero byte, failure or end. -/
def visible (source : Source) : List UInt8 :=
  go source.deliveries
where
  go : List Delivery → List UInt8
    | [] => []
    | .byte b :: rest => if b = 0 then [] else b :: go rest
    | .failure f :: rest => if f.isTransient then go rest else []

/-- The failure right behind the visible bytes, if that is what ends them. -/
def failure? (source : Source) : Option Failure :=
  go source.deliveries
where
  go : List Delivery → Option Failure
    | [] => none
    | .byte b :: rest => if b = 0 then none else go rest
    | .failure f :: rest => if f.isTransient then go rest else some f

theorem visible_ofBytes (name : String) (bytes : List UInt8) :
    (ofBytes name bytes).visible = bytes.takeWhile (· ≠ 0) := by
  simp only [visible, ofBytes, Delivery.ofBytes]
  induction bytes with
  | nil => rfl
  | cons b bytes ih => by_cases h : b = 0 <;> simp [visible.go, h, ih]

theorem failure?_ofBytes (name : String) (bytes : List UInt8) :
    (ofBytes name bytes).failure? = none := by
  simp only [failure?, ofBytes, Delivery.ofBytes]
  induction bytes with
  | nil => rfl
  | cons b bytes ih => by_cases h : b = 0 <;> simp [failure?.go, h, ih]

theorem zero_not_mem_visible (source : Source) : 0 ∉ source.visible := by
  simp only [visible]
  induction source.deliveries with
  | nil => simp [visible.go]
  | cons d rest ih =>
    cases d with
    | byte b =>
      by_cases h : b = 0
      · simp [visible.go, h]
      · simp [visible.go, h, ih, Ne.symm h]
    | failure f => by_cases h : f.isTransient <;> simp [visible.go, h, ih]

end Source
end LetLang
