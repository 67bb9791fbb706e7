import AcmeGitWebhook.Library.Run
import Mathlib.Data.List.Induction
import Mathlib.Data.List.Nodup
import Mathlib.Logic.Function.Basic

/-!
# A store against updates that read, modify and write

A value is overwritten once by a store, and changed by updates, each of which reads it and
later writes what it made of the value it read, without looking at it again. Reads and
writes interleave. The value a race ends with is that of a chain of updates, each of which
read what the one before it wrote; the chain begins at the store or at the start. If it goes
back to the store, some sequential order of the calls ends with the same value
(`exists_order`); otherwise the store is lost (`exists_lost`).
-/

namespace AcmeGitWebhook.Library.ReadModifyWrite

variable {α β ι : Type*}

/-- The value of the store, what an update takes from the value that it reads, and what it
makes of it; `none` writes nothing. -/
structure Calls (α β ι : Type*) where
  store : α
  read : ι → α → β
  write : ι → β → Option α

inductive Access (ι : Type*) where
  | store
  | read (i : ι)
  | write (i : ι)
  deriving DecidableEq

/-- All accesses of the calls in some order, each update's read before its write. -/
structure Interleaving (ι : Type*) where
  accesses : List (Access ι)
  once : accesses.Nodup
  complete : ∀ a, a ∈ accesses
  ordered : ∀ i pre post, accesses = pre ++ .write i :: post → .read i ∈ pre

/-- `goesBack` and `foundBack` note of the current value, and of what an update has found,
whether the chain it comes from begins at the store. -/
structure Race (α β ι : Type*) where
  current : α
  found : ι → Option β
  goesBack : Bool
  foundBack : ι → Bool

def Race.initial (start : α) : Race α β ι := ⟨start, fun _ => none, false, fun _ => false⟩

namespace Calls

variable (c : Calls α β ι)

def step [DecidableEq ι] (r : Race α β ι) : Access ι → Race α β ι
  | .store => { r with current := c.store, goesBack := true }
  | .read i => { r with
      found := Function.update r.found i (some (c.read i r.current))
      foundBack := Function.update r.foundBack i r.goesBack }
  | .write i =>
    match (r.found i).bind (c.write i) with
    | some a => { r with current := a, goesBack := r.foundBack i }
    | none => r

/-- An update as a whole. -/
def apply (i : ι) (a : α) : α := (c.write i (c.read i a)).getD a

/-- Updates one after the other. -/
def follow (chain : List ι) (a : α) : α := chain.foldl (fun a i => c.apply i a) a

/-- Calls one after the other; `none` is the store. -/
def serial (order : List (Option ι)) (a : α) : α :=
  order.foldl (fun a call => call.elim c.store (fun i => c.apply i a)) a

/-- The value where a chain begins. -/
def root (start : α) (back : Bool) : α := if back then c.store else start

end Calls

/-- Every call once. -/
structure IsOrder (order : List (Option ι)) : Prop where
  once : order.Nodup
  complete : ∀ call, call ∈ order

variable {c : Calls α β ι} {start : α}

@[simp] theorem follow_nil (a : α) : c.follow [] a = a := rfl

theorem follow_append (chain chain' : List ι) (a : α) :
    c.follow (chain ++ chain') a = c.follow chain' (c.follow chain a) := List.foldl_append

theorem follow_concat (chain : List ι) (i : ι) (a : α) :
    c.follow (chain ++ [i]) a = c.apply i (c.follow chain a) := by
  rw [follow_append]
  rfl

theorem serial_store (before : List (Option ι)) (chain : List ι) (a : α) :
    c.serial (before ++ none :: chain.map some) a = c.follow chain c.store := by
  rw [Calls.serial, List.foldl_append, List.foldl_cons, List.foldl_map]
  rfl

/-- After the store of an order only updates follow. -/
theorem IsOrder.split {order : List (Option ι)} (h : IsOrder order) :
    ∃ before chain, order = before ++ none :: List.map some chain := by
  obtain ⟨before, after, rfl⟩ := List.append_of_mem (h.complete none)
  have absent : none ∉ after := by
    have once := (List.nodup_append.mp h.once).2.1
    exact (List.nodup_cons.mp once).1
  have updates : ∀ after : List (Option ι), none ∉ after →
      ∃ chain : List ι, after = chain.map some := by
    intro after
    induction after with
    | nil => exact fun _ => ⟨[], rfl⟩
    | cons call after ih =>
      intro absent
      obtain ⟨head, tail⟩ : none ≠ call ∧ none ∉ after := by simpa using absent
      obtain ⟨i, rfl⟩ := Option.ne_none_iff_exists'.mp (Ne.symm head)
      obtain ⟨chain, rfl⟩ := ih tail
      exact ⟨i :: chain, rfl⟩
  obtain ⟨chain, rfl⟩ := updates after absent
  exact ⟨before, chain, rfl⟩

/-- The updates of an interleaving. -/
def Interleaving.updates (il : Interleaving ι) : List ι :=
  il.accesses.filterMap fun
    | .read i => some i
    | _ => none

theorem Interleaving.mem_updates (il : Interleaving ι) (i : ι) : i ∈ il.updates :=
  List.mem_filterMap.mpr ⟨.read i, il.complete _, rfl⟩

theorem Interleaving.updates_nodup (il : Interleaving ι) : il.updates.Nodup := by
  refine List.Nodup.filterMap (fun a a' i h h' => ?_) il.once
  cases a <;> cases a' <;> simp_all

variable [DecidableEq ι]

/-- Any chain of updates can be put after the store, and the other updates before it. -/
theorem Interleaving.isOrder (il : Interleaving ι) {chain : List ι} (nodup : chain.Nodup) :
    IsOrder ((il.updates.filter (· ∉ chain)).map some ++ none :: chain.map some) where
  once := by
    have inj : Function.Injective (some : ι → Option ι) := fun _ _ => Option.some.inj
    refine List.nodup_append.mpr ⟨List.Nodup.map inj (il.updates_nodup.filter _),
      List.nodup_cons.mpr ⟨by simp, List.Nodup.map inj nodup⟩, ?_⟩
    rintro _ before _ after rfl
    obtain ⟨i, mem, rfl⟩ := List.mem_map.mp before
    simp only [List.mem_cons, reduceCtorEq, List.mem_map, Option.some.injEq, exists_eq_right,
      false_or] at after
    exact absurd after (by simpa using (List.mem_filter.mp mem).2)
  complete call := by
    cases call with
    | none => simp
    | some i =>
      by_cases mem : i ∈ chain
      · simp [mem]
      · simp [mem, il.mem_updates i]

/-! ## Chains -/

/-- What is known of a race after the accesses `pre`. A current value that does not go back
to the store, although the store is through, was written by an update. -/
structure Traced (c : Calls α β ι) (start : α) (pre : List (Access ι)) (r : Race α β ι) :
    Prop where
  current : ∃ chain, chain.Nodup ∧ (∀ i ∈ chain, .write i ∈ pre) ∧
    r.current = c.follow chain (c.root start r.goesBack)
  lost : r.goesBack = false → .store ∈ pre → ∃ chain i, (chain ++ [i]).Nodup ∧
    c.write i (c.read i (c.follow chain start)) = some r.current
  found : ∀ i b, r.found i = some b → ∃ chain, chain.Nodup ∧ (∀ j ∈ chain, .write j ∈ pre) ∧
    b = c.read i (c.follow chain (c.root start (r.foundBack i)))

theorem step_traced {pre : List (Access ι)} {r : Race α β ι} (h : Traced c start pre r)
    (a : Access ι) (new : a ∉ pre) : Traced c start (pre ++ [a]) (c.step r a) := by
  have wider : ∀ {chain : List ι}, (∀ i ∈ chain, Access.write i ∈ pre) →
      ∀ i ∈ chain, Access.write i ∈ pre ++ [a] :=
    fun all i mem => List.mem_append_left _ (all i mem)
  have found : ∀ i b, r.found i = some b → ∃ chain, chain.Nodup ∧
      (∀ j ∈ chain, Access.write j ∈ pre ++ [a]) ∧
        b = c.read i (c.follow chain (c.root start (r.foundBack i))) := by
    intro i b hb
    obtain ⟨chain, nodup, all, eq⟩ := h.found i b hb
    exact ⟨chain, nodup, wider all, eq⟩
  obtain ⟨chain, nodup, all, eq⟩ := h.current
  cases a with
  | store =>
    exact ⟨⟨[], List.nodup_nil, by simp, rfl⟩, by simp [Calls.step], found⟩
  | read i =>
    refine ⟨⟨chain, nodup, wider all, eq⟩, fun back stored => h.lost back ?_, ?_⟩
    · simpa using stored
    · intro j b hb
      by_cases same : j = i
      · subst same
        obtain rfl : c.read j r.current = b := by simpa [Calls.step] using hb
        refine ⟨chain, nodup, wider all, ?_⟩
        simp [Calls.step, eq]
      · have hb' : r.found j = some b := by simpa [Calls.step, same] using hb
        simpa [Calls.step, same] using found j b hb'
  | write i =>
    have before : ∀ stored : Access.store ∈ pre ++ [Access.write i], Access.store ∈ pre := by
      simp
    cases written : (r.found i).bind (c.write i) with
    | none =>
      have same : c.step r (.write i) = r := by simp [Calls.step, written]
      rw [same]
      exact ⟨⟨chain, nodup, wider all, eq⟩, fun back stored => h.lost back (before stored), found⟩
    | some a =>
      obtain ⟨b, hb, written⟩ := Option.bind_eq_some_iff.mp written
      have after : c.step r (.write i) = { r with current := a, goesBack := r.foundBack i } := by
        simp [Calls.step, hb, written]
      rw [after]
      obtain ⟨chain', nodup', all', rfl⟩ := h.found i b hb
      -- `i` has not written yet, so it is not in the chain that it read
      have fresh : (chain' ++ [i]).Nodup := by
        refine List.nodup_append.mpr ⟨nodup', List.pairwise_singleton _ _, ?_⟩
        rintro j mem _ only rfl
        obtain rfl := List.mem_singleton.mp only
        exact new (all' j mem)
      refine ⟨⟨chain' ++ [i], fresh, ?_, ?_⟩, fun back _ => ⟨chain', i, fresh, ?_⟩, found⟩
      · intro j mem
        rcases List.mem_append.mp mem with old | only
        · exact wider all' j old
        · simp [List.mem_singleton.mp only]
      · rw [follow_concat, Calls.apply, written, Option.getD_some]
      · simpa [Calls.root, show r.foundBack i = false from back] using written

theorem run_traced (pre : List (Access ι)) (nodup : pre.Nodup) :
    Traced c start pre (run c.step (.initial start) pre) := by
  induction pre using List.reverseRecOn with
  | nil => exact ⟨⟨[], List.nodup_nil, by simp, rfl⟩, by simp, by simp [Race.initial]⟩
  | append_singleton pre a ih =>
    obtain ⟨first, -, apart⟩ := List.nodup_append.mp nodup
    rw [run_concat]
    exact step_traced (ih first) a fun mem => apart a mem a (by simp) rfl

/-- A race whose last value goes back to the store ends like a sequential order. -/
theorem exists_order (il : Interleaving ι)
    (back : (run c.step (.initial start) il.accesses).goesBack = true) :
    ∃ order, IsOrder order ∧
      c.serial order start = (run c.step (.initial start) il.accesses).current := by
  have traced : Traced c start _ _ := run_traced il.accesses il.once
  obtain ⟨chain, nodup, -, eq⟩ := traced.current
  refine ⟨_, il.isOrder nodup, ?_⟩
  rw [serial_store, eq, back]
  rfl

/-- Any other was ended by an update of a chain that begins at the start. -/
theorem exists_lost (il : Interleaving ι)
    (lost : (run c.step (.initial start) il.accesses).goesBack = false) :
    ∃ chain i, (chain ++ [i]).Nodup ∧ c.write i (c.read i (c.follow chain start)) =
      some (run c.step (.initial start) il.accesses).current :=
  (run_traced _ il.once).lost lost (il.complete _)

/-! ## The chain of the last value, from the order of the accesses -/

/-- Whether a value goes back to the store, and what each update has found does. -/
def lineage (back : Bool × (ι → Bool)) : Access ι → Bool × (ι → Bool)
  | .store => (true, back.2)
  | .read i => (back.1, Function.update back.2 i back.1)
  | .write i => (back.2 i, back.2)

/-- The store wrote last, or the update did that had read a value which goes back to it. -/
def Interleaving.goesBack (il : Interleaving ι) : Bool :=
  (il.accesses.foldl lineage (false, fun _ => false)).1

/-- If every update writes, the order of the accesses decides where the last value comes
from. -/
theorem goesBack_eq (il : Interleaving ι)
    (writes : ∀ chain i back, (c.write i (c.read i (c.follow chain (c.root start back)))).isSome) :
    (run c.step (.initial start) il.accesses).goesBack = il.goesBack := by
  have both : ∀ pre : List (Access ι), pre.Nodup →
      (∀ i before after, pre = before ++ .write i :: after → .read i ∈ before) →
      (((run c.step (.initial start) pre).goesBack, (run c.step (.initial start) pre).foundBack) =
        pre.foldl lineage (false, fun _ => false)) ∧
      ∀ i, .read i ∈ pre → ((run c.step (.initial start) pre).found i).isSome := by
    intro pre
    induction pre using List.reverseRecOn with
    | nil => exact fun _ _ => ⟨rfl, by simp⟩
    | append_singleton pre a ih =>
      intro nodup ordered
      have first := (List.nodup_append.mp nodup).1
      obtain ⟨flags, found⟩ := ih first fun i before after eq =>
        ordered i before (after ++ [a]) (by simp [eq])
      have traced : Traced c start pre _ := run_traced pre first
      rw [run_concat, List.foldl_concat, ← flags]
      generalize run c.step (.initial start) pre = r at found traced
      cases a with
      | store => exact ⟨rfl, fun i mem => found i (by simpa using mem)⟩
      | read i =>
        refine ⟨rfl, fun j mem => ?_⟩
        by_cases same : j = i
        · simp [Calls.step, same]
        · simpa [Calls.step, same] using found j (by simpa [same] using mem)
      | write i =>
        obtain ⟨b, hb⟩ := Option.isSome_iff_exists.mp (found i (ordered i pre [] rfl))
        obtain ⟨chain, -, -, rfl⟩ := traced.found i b hb
        obtain ⟨a, written⟩ := Option.isSome_iff_exists.mp (writes chain i (r.foundBack i))
        simp only [Calls.step, hb, Option.bind_some, written]
        exact ⟨rfl, fun j mem => found j (by simpa using mem)⟩
  exact congrArg Prod.fst (both il.accesses il.once il.ordered).1

/-- If no update makes anything of the start, the last value goes back to the store. -/
theorem goesBack_of_fruitless (il : Interleaving ι)
    (fruitless : ∀ i, c.write i (c.read i start) = none) :
    (run c.step (.initial start) il.accesses).goesBack = true := by
  have still : ∀ chain, c.follow chain start = start := by
    intro chain
    induction chain with
    | nil => rfl
    | cons i chain ih =>
      have unchanged : c.apply i start = start := by simp [Calls.apply, fruitless]
      rwa [Calls.follow, List.foldl_cons, unchanged]
  by_contra lost
  obtain ⟨chain, i, -, written⟩ := exists_lost il (Bool.eq_false_iff.mpr lost)
  rw [still, fruitless] at written
  simp at written

end AcmeGitWebhook.Library.ReadModifyWrite
