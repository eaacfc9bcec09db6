import TagVersion.CommandLine.Run
import TagVersion.Git.Disk

/-!
A tree of files as the world that the program runs in.
-/

namespace TagVersion.Git

/-- How the directories of a tree lead to its repositories, seen from one of them. -/
def surroundings (t : FileTree) (cwd : FileTree.Place) : Surroundings where
  openAt path := do
    let layout ← openAt t cwd path
    return {
      workTree := Discovery.folderPath layout.workTree
      repository := Disk.repository t layout }
  canonical path :=
    match t.resolve? cwd path with
    | some place => .ok (FileTree.pathOf place)
    | none =>
      .error
        (.operation "canonicalize worktree root" "No such file or directory (os error 2)" (some 2))

/-- The world of a program that is started in a directory of a tree. -/
def world (t : FileTree) (cwd : FileTree.Place) (environment : Config.Environment) : World where
  files := t.files cwd
  environment
  directory := FileTree.pathOf cwd
  surroundings := surroundings t cwd

end TagVersion.Git
