import Wireframe.Files

/-!
# Reading and writing files

Reading leaves files as they are, and writing changes one of them. What a check does to files is put
together from these two facts.

## Main definitions

* `LeavesState`, `FileAccess.ReadsOnly` — files that only writing changes.
* `FileTree.ChangesOnly` — two trees that differ at one file at most.

## Main results

* `LeavesState.bind_apply` — a computation goes on from where another one has left the files.
* `FileTree.write_eq_ok_iff` — what is written, and where.
* `FileTree.changesOnly_write` — a write changes one file.
-/

namespace Wireframe

/-! ### Files that only writing changes -/

/-- A computation that leaves the state as it is. -/
def LeavesState {σ α : Type} (x : StateM σ α) : Prop :=
  ∀ s, (x s).2 = s

/-- Access to files that changes them only by writing. -/
structure FileAccess.ReadsOnly {σ : Type} (files : FileAccess (StateM σ)) : Prop where
  occupied : ∀ path, LeavesState (files.occupied path)
  read : ∀ path, LeavesState (files.read path)

theorem FileAccess.tree_readsOnly : FileAccess.tree.ReadsOnly where
  occupied := fun _ _ => rfl
  read := fun _ _ => rfl

section LeavesState

variable {σ α β : Type}

theorem LeavesState.pure (a : α) : LeavesState (pure a : StateM σ α) :=
  fun _ => rfl

theorem LeavesState.bind {x : StateM σ α} {f : α → StateM σ β} (first : LeavesState x)
    (others : ∀ a, LeavesState (f a)) : LeavesState (x >>= f) := by
  intro s
  exact (others (x s).1 (x s).2).trans (first s)

theorem stateM_bind_apply (x : StateM σ α) (f : α → StateM σ β) (s : σ) :
    (x >>= f) s = f (x s).1 (x s).2 :=
  rfl

/-- Behind a computation that leaves the state as it is, only its value counts. -/
theorem LeavesState.bind_apply {x : StateM σ α} (first : LeavesState x) (f : α → StateM σ β)
    (s : σ) : (x >>= f) s = f (x s).1 s := by
  rw [stateM_bind_apply, first s]

end LeavesState

/-! ### File trees -/

section

variable (tree : FileTree) (name content : String)

@[simp]
theorem FileAccess.tree_occupied :
    FileAccess.tree.occupied name tree = (tree.occupied name, tree) :=
  rfl

@[simp]
theorem FileAccess.tree_read : FileAccess.tree.read name tree = (tree.read name, tree) :=
  rfl

theorem FileAccess.tree_write :
    FileAccess.tree.write name content tree =
      match tree.write name content with
      | .ok after => (.ok (), after)
      | .error reason => (.error reason, tree) := by
  change (match tree.write name content with
    | .ok after => _
    | .error reason => _ : StateM FileTree _) tree = _
  cases tree.write name content <;> rfl

end

/-- Two trees that differ at most at the path that a name stands for. -/
structure FileTree.ChangesOnly (before : FileTree) (name : Option String) (after : FileTree) :
    Prop where
  files : ∀ path, after.node? path ≠ before.node? path →
    ∃ text ∈ name, before.resolve text = .ok path
  workingDirectory : after.workingDirectory = before.workingDirectory

namespace FileTree

variable {tree after : FileTree} {text content : String}

theorem ChangesOnly.refl (tree : FileTree) (name : Option String) :
    tree.ChangesOnly name tree :=
  ⟨fun _ differ => absurd rfl differ, rfl⟩

theorem node?_put {path other : FilePath} (node : FileNode) (apart : other ≠ path) :
    (tree.put path node).node? other = tree.node? other := by
  unfold node? put
  rw [List.lookup_cons, beq_eq_false_iff_ne.mpr apart]

/-- A write puts a file where its path leads, if that is not a directory and the path does not ask
for one. -/
theorem write_eq_ok_iff :
    tree.write text content = .ok after ↔
      text.endsWith "/" = false ∧ ∃ path, tree.resolve text = .ok path ∧
        tree.node? path ≠ some .directory ∧ after = tree.put path (.file content.toUTF8) := by
  unfold write resolve
  dsimp only
  cases asks : text.endsWith "/" with
  | true =>
    -- What is around the directory is looked for first, and then the write fails anyway.
    rw [if_pos rfl]
    cases tree.resolveNames text
        (((text.splitOn "/").reverse.dropWhile (·.isEmpty)).reverse.dropLast ++ ["."]) <;>
      exact ⟨nofun, nofun⟩
  | false =>
    rw [if_neg Bool.false_ne_true]
    cases tree.resolveNames text (text.splitOn "/") with
    | error reason => exact ⟨nofun, nofun⟩
    | ok path =>
      simp only [bind, Except.bind]
      split
      case h_1 directory =>
        refine ⟨nofun, ?_⟩
        rintro ⟨-, _, ⟨⟩, free, -⟩
        exact absurd directory free
      case h_2 free =>
        constructor
        · rintro ⟨⟩
          exact ⟨trivial, path, rfl, free, rfl⟩
        · rintro ⟨-, _, ⟨⟩, -, rfl⟩
          rfl

theorem fromUTF8?_toUTF8 (text : String) : String.fromUTF8? text.toUTF8 = some text := by
  rw [String.fromUTF8?, String.toUTF8_eq_toByteArray, dif_pos text.isValidUTF8]
  rfl

/-- The text at a path is what is read there. -/
theorem read_of_node? {path : FilePath} (found : tree.resolve text = .ok path)
    (there : tree.node? path = some (.file content.toUTF8)) : tree.read text = .ok content := by
  simp only [read, found, bind, Except.bind, there, fromUTF8?_toUTF8]

theorem changesOnly_write (tree : FileTree) (text content : String) :
    tree.ChangesOnly (some text) (FileAccess.tree.write text content tree).2 := by
  rw [FileAccess.tree_write]
  cases written : tree.write text content with
  | error reason => exact .refl tree _
  | ok after =>
    obtain ⟨-, path, found, -, rfl⟩ := write_eq_ok_iff.mp written
    refine ⟨fun other differ => ⟨text, rfl, ?_⟩, rfl⟩
    by_cases here : other = path
    · rw [here, found]
    · exact absurd (node?_put _ here) differ

end FileTree

end Wireframe
