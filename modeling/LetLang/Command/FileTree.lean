import LetLang.Source

/-! Files in directories, and where a path leads among them. A path is a series of names
between slashes. It is followed from the root if a slash comes first, and else from the
directory that the command works in. -/
namespace LetLang.Command

/-- The names on the way down from the root, the last one first. -/
abbrev Place := List String

/-- The places of files and of directories. What is above one of them is a directory too,
and so is the root. -/
structure FileTree where
  files : List (Place × List UInt8)
  directories : List Place
deriving Repr

namespace FileTree

def isDirectory (t : FileTree) (place : Place) : Bool :=
  place.isEmpty || t.directories.any place.isSuffixOf ||
    t.files.any fun (file, _) => place.isSuffixOf file.tail

def holds (t : FileTree) (place : Place) : Bool :=
  (t.files.lookup place).isSome || t.isDirectory place

/-- The longest name, in bytes. -/
def nameLimit : Nat := 255

/-- The longest path, in bytes. -/
def pathLimit : Nat := 4095

/-- Where one name leads. Even a name that leads nowhere else, an empty one or a dot, can
only be followed from a directory. The root is above itself. -/
def step (t : FileTree) (place : Place) (name : String) : Except Failure Place :=
  if !t.isDirectory place then .error .notDirectory
  else if name = "" ∨ name = "." then .ok place
  else if name = ".." then .ok place.tail
  else if nameLimit < name.utf8ByteSize then .error .nameTooLong
  else if t.holds (name :: place) then .ok (name :: place)
  else .error .notFound

def follow (t : FileTree) (home : Place) (path : String) : Except Failure Place :=
  if path = "" then .error .notFound
  else if pathLimit < path.utf8ByteSize then .error .nameTooLong
  else (path.splitOn "/").foldlM t.step (if path.startsWith "/" then [] else home)

/-- Opens what a path leads to. A directory can be opened but not read. -/
def openPath (t : FileTree) (home : Place) (path : String) : Except Failure (List Delivery) := do
  let place ← t.follow home path
  match t.files.lookup place with
  | some bytes => return Delivery.ofBytes bytes
  | none => return [.failure .isDirectory]

theorem holds_of_isDirectory {t : FileTree} {place : Place} (h : t.isDirectory place = true) :
    t.holds place = true := by
  simp [holds, h]

/-- What is above a directory is a directory. -/
theorem isDirectory_tail {t : FileTree} {place : Place} (h : t.isDirectory place = true) :
    t.isDirectory place.tail = true := by
  have up {other : Place} (hp : place <:+ other) : place.tail <:+ other :=
    (List.tail_suffix place).trans hp
  simp only [isDirectory, Bool.or_eq_true, List.isEmpty_iff, List.any_eq_true,
    List.isSuffixOf_iff_suffix] at h ⊢
  rcases h with (rfl | ⟨d, hd, hp⟩) | ⟨f, hf, hp⟩
  · exact .inl (.inl rfl)
  · exact .inl (.inr ⟨d, hd, up hp⟩)
  · exact .inr ⟨f, hf, up hp⟩

/-- No name leads out of the tree. -/
theorem holds_of_step {t : FileTree} {place next : Place} {name : String}
    (h : t.step place name = .ok next) : t.holds next = true := by
  unfold step at h
  split at h
  · contradiction
  next hd =>
    have hd : t.isDirectory place = true := by simpa using hd
    split at h
    · cases h
      exact holds_of_isDirectory hd
    split at h
    · cases h
      exact holds_of_isDirectory (isDirectory_tail hd)
    split at h
    · contradiction
    split at h
    · cases h
      assumption
    · contradiction

end FileTree

end LetLang.Command
