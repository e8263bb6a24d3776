import GitHistory.Proofs.InProcess.Metadata

/-! A machine with nothing but one bare repository on it, and that this repository can be opened. -/
namespace GitHistory

open FileTree

/-- A machine with nothing on it. -/
def World.blank : World := { tree := .empty, current := [], environment := [], stores := [] }

/-- A machine with a repository without a working tree at `/repo`. -/
def World.ofStore (store : Store) : World where
  tree := ⟨[(["repo"], .directory), (["repo", "HEAD"], .file "ref: refs/heads/main\n" false),
    (["repo", "objects"], .directory), (["repo", "refs"], .directory)]⟩
  current := []
  environment := []
  stores := [(["repo"], store)]

/-- A directory right under the root is found there. -/
theorem FileTree.locate_repo {tree : FileTree} (stands : tree.entry? ["repo"] = some .directory) :
    tree.IsPlace ["repo"] ∧ tree.locate [] true "/repo" = .ok (.present ["repo"] .directory) := by
  have isName : IsName "repo" := ⟨by decide, by decide, by decide, by decide, by decide⟩
  have isPlace : tree.IsPlace ["repo"] := .within .root isName.isStep isName.solid stands
  have usable : IsUsable "/repo" := ⟨by decide, by decide, by decide⟩
  exact ⟨isPlace, (isPlace.arrives []).locate_eq usable⟩

theorem World.find_root (store : Store) :
    (ofStore store).tree.find [] true "/repo" = .ok (["repo"], .directory) :=
  find_eq_ok_iff.mpr (locate_repo rfl).2

/-- The repository of the machine is the one that is opened. -/
theorem InProcess.openStore_ofStore (store : Store) :
    openStore (World.ofStore store) "/repo" = .ok store := by
  have stands : (World.ofStore store).tree.entry? ["repo"] = some .directory := rfl
  obtain ⟨isPlace, located⟩ := locate_repo stands
  have opened : gitDirectoryIn (World.ofStore store) ["repo"] = .ok ["repo"] :=
    gitDirectoryIn_of_furnished isPlace rfl (furnished_of_entries rfl rfl rfl) (by decide)
      (by decide)
  exact openStore_of_located located opened

end GitHistory
