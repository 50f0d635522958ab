import GroupChat.Posix.Basic

/-!
# Where a path leads

A path is resolved from the current directory, component by component: an empty component and `.`
stay, `..` goes up, and whatever has a component behind it must be a directory. `Target` is what is
found at the end, seen from the current directory, whose own entries a program may change while it
runs. `FileTree.target` resolves paths in a tree of directories, and a plain name leads to the entry
of that name (`target_name`).
-/

namespace Posix

/-- What is at the end of a path. -/
inductive Target
  /-- an entry of the current directory, if there is one with this name -/
  | entry (name : List Byte)
  /-- a file elsewhere -/
  | elsewhere (content : List Byte)
  | directory
  | nothing
  deriving DecidableEq, Repr

/-- The directories and the files of a machine, each at its components from the root. The entries of
the current directory that are no directories are left out. -/
structure FileTree where
  cwd : List (List Byte)
  isDirectory : List (List Byte) → Bool
  content : List (List Byte) → Option (List Byte)

namespace FileTree

/-- Follow the components of a path. -/
def walk (t : FileTree) (here : List (List Byte)) : List (List Byte) → Option (List (List Byte))
  | [] => some here
  | name :: rest =>
    if t.isDirectory here then
      if name = [] ∨ name = [46] then t.walk here rest
      else if name = [46, 46] then t.walk here.dropLast rest
      else t.walk (here ++ [name]) rest
    else none

/-- The end of a path. -/
def target (t : FileTree) (path : List Byte) : Target :=
  match t.walk t.cwd (path.splitOn 47) with
  | none => .nothing
  | some place =>
    if t.isDirectory place then .directory
    else if place = t.cwd ++ [place.getLastD []] then .entry (place.getLastD [])
    else
      match t.content place with
      | none => .nothing
      | some content => .elsewhere content

variable {t : FileTree} {name : List Byte}

theorem splitOn_dot_slash (hslash : 47 ∉ name) : (46 :: 47 :: name).splitOn 47 = [[46], name] := by
  rw [List.splitOn_cons_eq_if_modifyHead, if_neg (by decide), List.splitOn_cons_eq_if_modifyHead,
    if_pos (by decide), List.splitOn_eq_singleton hslash]
  rfl

/-- A plain name, with or without `./` before it, leads to the entry of that name. -/
theorem target_name (hcwd : t.isDirectory t.cwd = true) (hslash : 47 ∉ name)
    (hdots : name ≠ [] ∧ name ≠ [46] ∧ name ≠ [46, 46])
    (hfile : t.isDirectory (t.cwd ++ [name]) = false) :
    t.target (46 :: 47 :: name) = .entry name := by
  obtain ⟨hempty, hdot, hup⟩ := hdots
  have hwalk : t.walk t.cwd [[46], name] = some (t.cwd ++ [name]) := by
    rw [walk, if_pos hcwd, if_pos (Or.inr rfl), walk, if_pos hcwd, if_neg (by tauto), if_neg hup,
      walk]
  have hlast : (t.cwd ++ [name]).getLastD [] = name := by
    rw [List.getLastD_eq_getLast?, List.getLast?_concat]
    rfl
  rw [target, splitOn_dot_slash hslash, hwalk]
  simp only [hfile, hlast, Bool.false_eq_true, if_false, if_true]

/-- `./../d/x`, from `/d`. -/
example : (FileTree.mk [[100]] (fun place => place = [] ∨ place = [[100]]) fun _ => none).target
    [46, 47, 46, 46, 47, 100, 47, 120] = .entry [120] := by
  decide

end FileTree

end Posix
