/-
FtServer/FsPath.lean

Path strings as Boost.Filesystem joins and cuts them on a POSIX system.  The
library exists in two versions that differ in `operator/=` (`FsVersion`): in
version 3 an appended path is always attached to the end, in version 4 an
absolute path replaces what it is appended to.  Root names of the form `//host`
are not treated.

`append_eq_self_iff` says when appending to a root gives the appended path
back, so that doing it again changes nothing.
-/
import FtServer.Buffer

namespace FtServer

namespace FsPath

/-- Version of the path semantics of Boost.Filesystem. -/
inductive FsVersion
  | v3
  | v4
  deriving DecidableEq, Repr

/-- The path starts with a separator. -/
def isAbsolute (p : Bytes) : Bool := p.head? == some 47

/-- The separator that an append puts behind `root`: none if there is one
already, none behind the empty path. -/
def separatorFor (root : Bytes) : Bytes :=
  if root.isEmpty || root.getLast? == some 47 then [] else [47]

/-- `root /= p`. -/
def append (v : FsVersion) (root p : Bytes) : Bytes :=
  match v with
  | .v3 =>
    if p.isEmpty then root
    else if isAbsolute p then root ++ p
    else root ++ separatorFor root ++ p
  | .v4 => if isAbsolute p then p else root ++ separatorFor root ++ p

/-- `p.parent_path()`: drop the last name and the separators before it, unless
these are the root directory. -/
def parentPath (p : Bytes) : Bytes :=
  -- up to and with the last separator
  let dir := (p.reverse.dropWhile (· ≠ 47)).reverse
  let stripped := (dir.reverse.dropWhile (· = 47)).reverse
  if stripped.isEmpty then (if dir = p then [] else dir) else stripped

/-- Appending `p` to `root` gives `p` back. -/
def Kept (v : FsVersion) (root p : Bytes) : Prop :=
  root = [] ∨ (v = .v4 ∧ isAbsolute p = true)

instance Kept.decidable (v : FsVersion) (root p : Bytes) : Decidable (Kept v root p) := by
  unfold Kept
  infer_instance

theorem append_nil_left (v : FsVersion) (p : Bytes) : append v [] p = p := by
  cases v with
  | v3 =>
    rw [append]
    split
    · rename_i hp
      exact (List.isEmpty_iff.mp hp).symm
    · split <;> rfl
  | v4 =>
    rw [append]
    split <;> rfl

/-- Something put in front of a list gives the list back only if it is empty. -/
theorem append_ne_right {root p : Bytes} (h : root ≠ []) : root ++ p ≠ p := by
  intro he
  exact h (List.append_left_eq_self.mp he)

/-- **When an append can be repeated.** -/
theorem append_eq_self_iff (v : FsVersion) (root p : Bytes) :
    append v root p = p ↔ Kept v root p := by
  constructor
  · intro h
    by_contra hk
    obtain ⟨hroot, habs⟩ := not_or.mp hk
    cases v with
    | v3 =>
      rw [append] at h
      split at h
      · rename_i hp
        exact hroot (h.trans (List.isEmpty_iff.mp hp))
      · split at h
        · exact append_ne_right hroot h
        · exact append_ne_right (by simp [hroot]) h
    | v4 =>
      have hrel : isAbsolute p = false := by simpa using habs
      rw [append, hrel] at h
      exact append_ne_right (by simp [hroot]) h
  · rintro (rfl | ⟨rfl, habs⟩)
    · exact append_nil_left v p
    · rw [append, if_pos habs]

example : parentPath (lit "/data/G021/a.fit") = lit "/data/G021" := by decide

example : append .v3 (lit "/data") (lit "/data/G021") = lit "/data/data/G021" := by decide

end FsPath

end FtServer
