import AcmeGitWebhook.Library.Dict
import Mathlib.Data.List.Infix

/-!
# File trees and symbolic links

A tree lists its files and symbolic links by path; directories are the paths that lead to
them. A disk is a tree mounted at a root, among the files of the host. `Disk.walk` follows a
path the way the kernel does, and `walk_congr` says that only the shape of the disk matters
to it: which paths are files, and where the links point. What files contain is the type `β`.
-/

namespace AcmeGitWebhook.Library

abbrev Path := List String

inductive Node (β : Type*) where
  | file (content : β)
  | link (target : String)
  deriving DecidableEq, Repr

abbrev FileTree (β : Type*) := Dict Path (Node β)

/-- The parts of a path's text; empty parts and dots say nothing. -/
def pathParts (text : String) : List String :=
  ((text.toList.splitOn '/').map String.ofList).filter fun part => part ≠ "" ∧ part ≠ "."

def isAbsolute (text : String) : Bool := text.toList.head? = some '/'

/-- `base / text`: an absolute text starts over. -/
def joinPath (base : List String) (text : String) : List String :=
  if isAbsolute text then pathParts text else base ++ pathParts text

variable {β : Type*}

namespace FileTree

/-- Two trees with the same entries. -/
def Same (t t' : FileTree β) : Prop := ∀ p, t.get? p = t'.get? p

theorem same_iff_keys (t t' : FileTree β) :
    Same t t' ↔ ∀ p ∈ t.map Prod.fst ++ t'.map Prod.fst, t.get? p = t'.get? p := by
  refine ⟨fun h p _ => h p, fun h p => ?_⟩
  by_cases known : p ∈ t.map Prod.fst ++ t'.map Prod.fst
  · exact h p known
  · have absent : ∀ t'' : FileTree β, p ∉ t''.map Prod.fst → t''.get? p = none := by
      intro t'' notKey
      cases found : t''.get? p with
      | none => rfl
      | some node => exact absurd (List.mem_map_of_mem (Dict.mem_of_get? found)) notKey
    rw [List.mem_append, not_or] at known
    rw [absent t known.1, absent t' known.2]

instance [DecidableEq β] (t t' : FileTree β) : Decidable (Same t t') :=
  decidable_of_iff _ (same_iff_keys t t').symm

@[simp] theorem Same.rfl {t : FileTree β} : Same t t := fun _ => Eq.refl _

theorem Same.symm {t t' : FileTree β} (h : Same t t') : Same t' t := fun p => (h p).symm

theorem Same.trans {t t' t'' : FileTree β} (h : Same t t') (h' : Same t' t'') : Same t t'' :=
  fun p => (h p).trans (h' p)

/-- Overwriting an entry makes a different tree unless it was there already. -/
theorem same_set_iff {t : FileTree β} {p : Path} {node : Node β} :
    Same (t.set p node) t ↔ t.get? p = some node := by
  constructor
  · intro h
    rw [← h p, Dict.get?_set_self]
  · intro h q
    by_cases here : q = p
    · rw [here, Dict.get?_set_self, h]
    · exact Dict.get?_set_of_ne t node here

end FileTree

/-- A link counts by its target and a file as such. -/
def Node.shape : Node β → Option String
  | .file _ => none
  | .link target => some target

structure Disk (β : Type*) where
  root : Path
  tree : FileTree β
  host : FileTree β

namespace Disk

/-- The mounted tree hides what the host has below the root. -/
def lookup (d : Disk β) (p : Path) : Option (Node β) :=
  if d.root <+: p then d.tree.get? (p.drop d.root.length) else d.host.get? p

/-- Some path goes on from `p`. -/
def isDir (d : Disk β) (p : Path) : Bool :=
  decide (p <+: d.root) || (d.tree.map Prod.fst).any (fun q => decide (p <+: d.root ++ q)) ||
    (d.host.map Prod.fst).any (fun q => decide (p <+: q))

/-- Follow `rest` from the real directory `cur`; the fuel ends loops of links. -/
def walk (d : Disk β) : Nat → Path → List String → Option Path
  | _, cur, [] => some cur
  | 0, _, _ :: _ => none
  | n + 1, cur, part :: rest =>
    if part = ".." then walk d n cur.dropLast rest
    else
      match d.lookup (cur ++ [part]) with
      | some (.file _) => if rest = [] then some (cur ++ [part]) else none
      | some (.link target) =>
        walk d n (if isAbsolute target then [] else cur) (pathParts target ++ rest)
      | none => if d.isDir (cur ++ [part]) then walk d n (cur ++ [part]) rest else none

/-- The path of what `parts` leads to, if it exists. -/
def realpath (d : Disk β) (parts : List String) : Option Path := d.walk 4096 [] parts

def read? (d : Disk β) (p : Path) : Option β :=
  match d.lookup p with
  | some (.file content) => some content
  | _ => none

/-- Overwrite a file. -/
def write (d : Disk β) (p : Path) (content : β) : Disk β :=
  if d.root <+: p then
    { d with tree := d.tree.set (p.drop d.root.length) (.file content) }
  else { d with host := d.host.set p (.file content) }

/-- Two disks with the same files and links, whatever the files contain. -/
structure SameShape (d d' : Disk β) : Prop where
  root : d'.root = d.root
  tree : ∀ p, (d'.tree.get? p).map Node.shape = (d.tree.get? p).map Node.shape
  host : ∀ p, (d'.host.get? p).map Node.shape = (d.host.get? p).map Node.shape

variable {d d' : Disk β}

theorem SameShape.refl (d : Disk β) : SameShape d d := ⟨rfl, fun _ => rfl, fun _ => rfl⟩

theorem SameShape.trans {d'' : Disk β} (h : SameShape d d') (h' : SameShape d' d'') :
    SameShape d d'' :=
  ⟨h'.root.trans h.root, fun p => (h'.tree p).trans (h.tree p),
    fun p => (h'.host p).trans (h.host p)⟩

theorem any_keys_congr {t t' : FileTree β}
    (same : ∀ p, (t'.get? p).map Node.shape = (t.get? p).map Node.shape) (f : Path → Bool) :
    (t'.map Prod.fst).any f = (t.map Prod.fst).any f := by
  have one : ∀ {t t' : FileTree β}, (∀ p, (t'.get? p).map Node.shape = (t.get? p).map Node.shape) →
      (t'.map Prod.fst).any f = true → (t.map Prod.fst).any f = true := by
    intro t t' same h
    obtain ⟨p, key, hit⟩ := List.any_eq_true.mp h
    obtain ⟨entry, mem, rfl⟩ := List.mem_map.mp key
    have present : (t.get? entry.1).isSome := by
      have := congrArg Option.isSome (same entry.1)
      simpa [Dict.get?_isSome_of_mem mem] using this.symm
    obtain ⟨node, found⟩ := Option.isSome_iff_exists.mp present
    have here : entry.1 ∈ t.map Prod.fst := List.mem_map.mpr ⟨_, Dict.mem_of_get? found, rfl⟩
    exact List.any_eq_true.mpr ⟨entry.1, here, hit⟩
  exact Bool.eq_iff_iff.mpr ⟨one same, one fun p => (same p).symm⟩

theorem SameShape.lookup (h : SameShape d d') (p : Path) :
    (d'.lookup p).map Node.shape = (d.lookup p).map Node.shape := by
  unfold Disk.lookup
  rw [h.root]
  split_ifs
  · exact h.tree _
  · exact h.host p

theorem SameShape.isDir (h : SameShape d d') (p : Path) : d'.isDir p = d.isDir p := by
  simp only [Disk.isDir, h.root, any_keys_congr h.tree, any_keys_congr h.host]

theorem walk_congr (h : SameShape d d') (n : Nat) (cur : Path) (rest : List String) :
    d'.walk n cur rest = d.walk n cur rest := by
  induction n generalizing cur rest with
  | zero => cases rest <;> rfl
  | succ n ih =>
    cases rest with
    | nil => rfl
    | cons part rest =>
      have shape := h.lookup (cur ++ [part])
      simp only [walk, ih, h.isDir]
      rcases found : d.lookup (cur ++ [part]) with _ | (content | target) <;>
        rcases found' : d'.lookup (cur ++ [part]) with _ | (content' | target') <;>
        grind [Node.shape]

theorem realpath_congr (h : SameShape d d') (parts : List String) :
    d'.realpath parts = d.realpath parts := walk_congr h 4096 [] parts

/-- Disks whose trees have the same entries. -/
theorem sameShape_of_same {root : Path} {t t' host : FileTree β} (h : FileTree.Same t' t) :
    SameShape ⟨root, t, host⟩ ⟨root, t', host⟩ :=
  ⟨rfl, fun p => by rw [h p], fun _ => rfl⟩

theorem set_shape {t : FileTree β} {p : Path} {content : β} (file : t.get? p = some (.file content))
    (content' : β) (q : Path) :
    ((t.set p (.file content')).get? q).map Node.shape = (t.get? q).map Node.shape := by
  by_cases here : q = p
  · rw [here, Dict.get?_set_self, file]
    rfl
  · rw [Dict.get?_set_of_ne _ _ here]

theorem lookup_of_read {p : Path} {content : β} (h : d.read? p = some content) :
    d.lookup p = some (.file content) := by
  unfold read? at h
  split at h
  · next found => rw [found, Option.some.inj h]
  · contradiction

/-- Overwriting a file keeps the shape. -/
theorem write_sameShape {p : Path} {content : β} (h : d.read? p = some content) (content' : β) :
    SameShape d (d.write p content') := by
  have file := lookup_of_read h
  unfold write
  unfold lookup at file
  split_ifs at file ⊢
  · exact ⟨rfl, set_shape file content', fun _ => rfl⟩
  · exact ⟨rfl, fun _ => rfl, set_shape file content'⟩

theorem read_write {p : Path} (content : β) : (d.write p content).read? p = some content := by
  unfold write read? lookup
  split_ifs
  · simp
  · simp

theorem read_write_of_ne {p q : Path} (content : β) (other : q ≠ p) :
    (d.write p content).read? q = d.read? q := by
  have lookup_same : (d.write p content).lookup q = d.lookup q := by
    unfold write lookup
    split_ifs with below below' below'
    · refine Dict.get?_set_of_ne _ _ fun same => other ?_
      calc q
        _ = d.root ++ q.drop d.root.length := (List.prefix_iff_eq_append.mp below').symm
        _ = d.root ++ p.drop d.root.length := congrArg (d.root ++ ·) same
        _ = p := List.prefix_iff_eq_append.mp below
    · rfl
    · rfl
    · exact Dict.get?_set_of_ne _ _ other
  rw [read?, lookup_same, read?]

end Disk

end AcmeGitWebhook.Library
