import AcmeGitWebhook.Library.FileTree

/-!
# A branch and a clone of it

The history of a branch is the list of its commits, newest first, so that one branch has all
commits of another when the other is a suffix of it. A clone has a branch of its own, an index
and a working tree. Below are the operations that a service performs on its clone: pulling with
rebase, staging what a glob finds, committing and pushing. How two changes of one file merge is
the parameter `merge`.
-/

namespace AcmeGitWebhook.Library.Git

variable {β : Type}

structure Commit (β : Type) where
  id : Nat
  tree : FileTree β
  deriving DecidableEq

abbrev History (β : Type) := List (Commit β)

namespace History

def headTree : History β → FileTree β
  | [] => []
  | commit :: _ => commit.tree

/-- One commit for each tree, the first of them next, numbered from `n`. -/
def extend (n : Nat) : List (FileTree β) → History β → History β
  | [], h => h
  | tree :: trees, h => extend (n + 1) trees (⟨n, tree⟩ :: h)

/-- All commits have numbers below `n`. -/
def Below (n : Nat) (h : History β) : Prop := ∀ commit ∈ h, commit.id < n

theorem Below.mono {n m : Nat} {h : History β} (below : Below n h) (le : n ≤ m) : Below m h :=
  fun commit mem => (below commit mem).trans_le le

theorem Below.cons {n : Nat} {h : History β} (below : Below n h) (tree : FileTree β) :
    Below (n + 1) (⟨n, tree⟩ :: h) := by
  intro commit mem
  rcases List.mem_cons.mp mem with rfl | mem
  · exact Nat.lt_succ_self n
  · exact (below commit mem).trans_le (Nat.le_succ n)

theorem Below.extend {n : Nat} {h : History β} (below : Below n h) (trees : List (FileTree β)) :
    Below (n + trees.length) (History.extend n trees h) := by
  induction trees generalizing n h with
  | nil => exact below
  | cons tree trees ih =>
    have rest := ih (below.cons tree)
    rwa [List.length_cons, Nat.add_comm trees.length, ← Nat.add_assoc]

theorem suffix_extend (n : Nat) (trees : List (FileTree β)) (h : History β) :
    h <:+ extend n trees h := by
  induction trees generalizing n h with
  | nil => exact List.suffix_refl h
  | cons tree trees ih => exact (List.suffix_cons _ h).trans (ih (n + 1) _)

end History

structure Clone (β : Type) where
  head : History β
  index : FileTree β
  work : FileTree β
  rebasing : Bool := false

namespace Clone

/-- A fresh checkout. -/
def of (h : History β) : Clone β := ⟨h, h.headTree, h.headTree, false⟩

/-- Neither the working tree nor the index differs from the last commit. -/
def Unmodified (c : Clone β) : Prop :=
  FileTree.Same c.work c.index ∧ FileTree.Same c.index c.head.headTree

instance [DecidableEq β] (c : Clone β) : Decidable c.Unmodified :=
  inferInstanceAs (Decidable (_ ∧ _))

theorem of_unmodified (h : History β) : (of h).Unmodified := ⟨.rfl, .rfl⟩

theorem Unmodified.work {c : Clone β} (h : c.Unmodified) :
    FileTree.Same c.work c.head.headTree := h.1.trans h.2

section Pull

variable [DecidableEq β] (merge : FileTree β → FileTree β → FileTree β → Option (FileTree β))

/-- The commits that the remote lacks, oldest first, each after the tree it changed. -/
def ahead (remote : History β) : History β → List (FileTree β × FileTree β)
  | [] => []
  | commit :: h =>
    if commit :: h <:+ remote then [] else ahead remote h ++ [(History.headTree h, commit.tree)]

/-- The trees that replaying changes on a tree commits, and whether a conflict ended it. A
change that is there already makes no commit. -/
def replay (onto : FileTree β) :
    List (FileTree β × FileTree β) → List (FileTree β) × Bool
  | [] => ([], false)
  | (base, tree) :: rest =>
    match merge base onto tree with
    | none => ([], true)
    | some merged =>
      if FileTree.Same merged onto ∧ ¬ FileTree.Same base tree then replay onto rest
      else (merged :: (replay merged rest).1, (replay merged rest).2)

/-- `git pull --rebase`, with the number of the next commit; the last part says whether it
succeeded. A clone with changes is refused, and so is one in the middle of a rebase. -/
def pullRebase (remote : History β) (n : Nat) (c : Clone β) : Clone β × Nat × Bool :=
  if c.rebasing ∨ ¬ c.Unmodified then (c, n, false)
  else if c.head <:+ remote then (of remote, n, true)
  else if remote <:+ c.head then (c, n, true)
  else
    let (trees, stopped) := replay merge remote.headTree (ahead remote c.head)
    ({ of (History.extend n trees remote) with rebasing := stopped }, n + trees.length, !stopped)

variable {merge} {remote : History β} {n : Nat} {c : Clone β}

/-- After a successful pull the clone has all of the remote and no changes. -/
theorem pullRebase_ok (ok : (c.pullRebase merge remote n).2.2 = true) :
    remote <:+ (c.pullRebase merge remote n).1.head ∧
      (c.pullRebase merge remote n).1.Unmodified := by
  unfold pullRebase at ok ⊢
  split_ifs at ok ⊢ with dirty old new
  · exact ⟨List.suffix_refl _, of_unmodified _⟩
  · exact ⟨new, (not_not.mp (not_or.mp dirty).2)⟩
  · exact ⟨History.suffix_extend _ _ _, of_unmodified _⟩

/-- A clean clone with nothing of its own is brought to the remote. -/
theorem pullRebase_of_suffix (clean : c.Unmodified) (idle : c.rebasing = false)
    (old : c.head <:+ remote) : c.pullRebase merge remote n = (of remote, n, true) := by
  rw [pullRebase, if_neg (by simp [idle, clean]), if_pos old]

theorem pullRebase_below (merge : FileTree β → FileTree β → FileTree β → Option (FileTree β))
    (remoteBelow : remote.Below n) (below : c.head.Below n) :
    n ≤ (c.pullRebase merge remote n).2.1 ∧
      (c.pullRebase merge remote n).1.head.Below (c.pullRebase merge remote n).2.1 := by
  unfold pullRebase
  split_ifs
  · exact ⟨le_rfl, below⟩
  · exact ⟨le_rfl, remoteBelow⟩
  · exact ⟨le_rfl, below⟩
  · exact ⟨Nat.le_add_right _ _, remoteBelow.extend _⟩

end Pull

/-! ## Staging, committing, pushing -/

/-- What the glob `*` passes over in the top directory. -/
def hidden (p : Path) : Bool := p.head?.any fun name => name.toList.head? = some '.'

/-- The index after adding all that `*` finds; what is missing in the working tree stays. -/
def stageAll (work index : FileTree β) : FileTree β :=
  work.foldr (fun entry index => if hidden entry.1 then index else index.set entry.1 entry.2) index

def stage (c : Clone β) : Clone β := { c with index := stageAll c.work c.index }

/-- A commit of the index, empty or not. -/
def commit (c : Clone β) (id : Nat) : Clone β := { c with head := ⟨id, c.index⟩ :: c.head }

theorem get?_stageAll (work index : FileTree β) (p : Path) :
    (stageAll work index).get? p =
      if hidden p then index.get? p else (work.get? p).or (index.get? p) := by
  induction work with
  | nil => simp [stageAll]
  | cons entry work ih =>
    simp only [stageAll, List.foldr_cons] at ih ⊢
    by_cases here : entry.1 = p
    · subst here
      by_cases hides : hidden entry.1 <;> simp [hides, ih, Dict.get?]
    · have other : p ≠ entry.1 := fun same => here same.symm
      by_cases hides : hidden entry.1 <;> simp [hides, ih, Dict.get?, here, other]

variable {c : Clone β} {p : Path} {node : Node β}

/-- Changing one visible file of a clean clone and staging brings it into the index. -/
theorem stageAll_set_visible (same : FileTree.Same c.work c.index) (visible : hidden p = false) :
    FileTree.Same (stageAll (c.work.set p node) c.index) (c.work.set p node) := by
  intro q
  rw [get?_stageAll]
  by_cases here : q = p
  · simp [here, visible]
  · rw [Dict.get?_set_of_ne _ _ here, same q]
    cases c.index.get? q <;> simp

/-- A hidden file stays out of the index. -/
theorem stageAll_set_hidden (same : FileTree.Same c.work c.index) (hides : hidden p = true) :
    FileTree.Same (stageAll (c.work.set p node) c.index) c.index := by
  intro q
  rw [get?_stageAll]
  by_cases here : q = p
  · simp [here, hides]
  · rw [Dict.get?_set_of_ne _ _ here, same q]
    cases c.index.get? q <;> simp

/-- The clone after changing one file. -/
def edited (c : Clone β) (p : Path) (node : Node β) : Clone β :=
  { c with work := c.work.set p node }

theorem edited_unmodified_iff (clean : c.Unmodified) :
    (c.edited p node).Unmodified ↔ c.work.get? p = some node := by
  rw [← FileTree.same_set_iff]
  exact ⟨fun h => h.1.trans clean.1.symm, fun h => ⟨h.trans clean.1, clean.2⟩⟩

/-- A changed file shows until it is committed. -/
theorem edited_stage_modified (clean : c.Unmodified) (changed : c.work.get? p ≠ some node) :
    ¬ (c.edited p node).stage.Unmodified := by
  intro h
  have same : FileTree.Same (c.work.set p node) c.head.headTree := h.work
  exact changed (FileTree.same_set_iff.mp (same.trans clean.work.symm))

/-- A commit leaves nothing modified if the changed file is in it. -/
theorem edited_commit_unmodified_iff (clean : c.Unmodified) (changed : c.work.get? p ≠ some node)
    (id : Nat) : ((c.edited p node).stage.commit id).Unmodified ↔ hidden p = false := by
  constructor
  · intro h
    by_contra hides
    have out : FileTree.Same (stageAll (c.work.set p node) c.index) c.index :=
      stageAll_set_hidden clean.1 (Bool.not_eq_false _ ▸ hides)
    have same : FileTree.Same (c.work.set p node) c.index := h.1.trans out
    exact changed (FileTree.same_set_iff.mp (same.trans clean.1.symm))
  · intro visible
    exact ⟨(stageAll_set_visible clean.1 visible).symm, .rfl⟩

end Clone

/-- The remote takes a push that continues its branch. -/
def Accepts (remote : History β) (c : Clone β) : Prop := remote <:+ c.head

instance [DecidableEq β] (remote : History β) (c : Clone β) : Decidable (Accepts remote c) :=
  inferInstanceAs (Decidable (_ <:+ _))

/-- Commits that the clone does not know make its push fail. -/
theorem accepts_append_iff {new remote : History β} {c : Clone β} (base : remote <:+ c.head)
    (unknown : ∀ commit ∈ new, commit ∉ c.head) : Accepts (new ++ remote) c ↔ new = [] := by
  constructor
  · intro accepts
    cases new with
    | nil => rfl
    | cons commit new =>
      have mem : commit ∈ c.head := accepts.mem (by simp)
      exact absurd mem (unknown commit (by simp))
  · rintro rfl
    exact base

end AcmeGitWebhook.Library.Git
