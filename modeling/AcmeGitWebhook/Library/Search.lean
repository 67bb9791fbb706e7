import Mathlib.Data.List.Basic

/-!
# Searching a list with a test that may fail

`List.anyM` in `Except`: the search ends at the first element that passes the test, and at the
first one on which the test fails. So whether it fails depends on what comes before the first
wanted element and on nothing else.

## Main results

* `anyM_found_iff`: what a search finds that does not fail.
* `anyM_ok_iff`: whether a search fails.
-/

namespace AcmeGitWebhook.Library

universe u v

variable {α : Type u} {ε : Type v}

/-- The element stands in the list and no wanted one stands before it. -/
inductive Reached (wanted : α → Prop) : List α → α → Prop
  | here (x : α) (xs : List α) : Reached wanted (x :: xs) x
  | further {x y : α} {xs : List α} : ¬ wanted y → Reached wanted xs x →
      Reached wanted (y :: xs) x

/-- Wherever the test does not fail, it tells the wanted elements from the others. -/
def TellsWanted (test : α → Except ε Bool) (wanted : α → Prop) : Prop :=
  ∀ x found, test x = .ok found → (found = true ↔ wanted x)

variable {test : α → Except ε Bool} {wanted : α → Prop} {x y : α} {xs ys : List α}

@[simp] theorem not_reached_nil : ¬ Reached wanted [] x := nofun

@[simp] theorem reached_cons_iff :
    Reached wanted (y :: xs) x ↔ x = y ∨ ¬ wanted y ∧ Reached wanted xs x := by
  constructor
  · rintro (_ | ⟨unwanted, later⟩)
    · exact Or.inl rfl
    · exact Or.inr ⟨unwanted, later⟩
  · rintro (rfl | ⟨unwanted, later⟩)
    · exact .here x xs
    · exact .further unwanted later

/-- What is added behind a wanted element is out of reach. -/
theorem Reached.of_append (found : ∃ y ∈ xs, wanted y) (reached : Reached wanted (xs ++ ys) x) :
    Reached wanted xs x := by
  induction xs with
  | nil => simp at found
  | cons y xs ih =>
    rw [List.cons_append, reached_cons_iff] at reached
    obtain rfl | ⟨unwanted, later⟩ := reached
    · exact .here x xs
    · have found := (List.exists_mem_cons_iff _ _ _).mp found
      exact .further unwanted (ih (found.resolve_left unwanted) later)

/-- The search gets past an element whose test says no, and ends at any other. -/
theorem anyM_cons_cases (test : α → Except ε Bool) (x : α) (xs : List α) :
    (∃ err, test x = .error err ∧ (x :: xs).anyM test = .error err) ∨
      (test x = .ok true ∧ (x :: xs).anyM test = .ok true) ∨
      (test x = .ok false ∧ (x :: xs).anyM test = xs.anyM test) := by
  rw [List.anyM_cons]
  cases test x with
  | error err => exact Or.inl ⟨err, rfl, rfl⟩
  | ok found =>
    cases found
    · exact Or.inr (Or.inr ⟨rfl, rfl⟩)
    · exact Or.inr (Or.inl ⟨rfl, rfl⟩)

theorem anyM_found_iff (tells : TellsWanted test wanted) {found : Bool}
    (searched : xs.anyM test = .ok found) : found = true ↔ ∃ x ∈ xs, wanted x := by
  induction xs with
  | nil =>
    obtain rfl : false = found := Except.ok.inj searched
    simp
  | cons x xs ih =>
    rw [List.exists_mem_cons_iff]
    obtain ⟨err, -, fails⟩ | ⟨passes, stops⟩ | ⟨passes, goes_on⟩ := anyM_cons_cases test x xs
    · cases fails.symm.trans searched
    · obtain rfl : true = found := Except.ok.inj (stops.symm.trans searched)
      exact iff_of_true rfl (Or.inl ((tells x true passes).mp rfl))
    · have unwanted : ¬ wanted x := fun is => Bool.false_ne_true ((tells x false passes).mpr is)
      rw [ih (goes_on.symm.trans searched), or_iff_right unwanted]

/-- The elements after a wanted one are out of reach. -/
theorem anyM_ok_iff (tells : TellsWanted test wanted) :
    (∃ found, xs.anyM test = .ok found) ↔
      ∀ x, Reached wanted xs x → ∃ found, test x = .ok found := by
  induction xs with
  | nil => exact iff_of_true ⟨false, rfl⟩ fun x reached => absurd reached not_reached_nil
  | cons x xs ih =>
    simp only [reached_cons_iff, forall_eq_or_imp]
    obtain ⟨err, failed, fails⟩ | ⟨passes, stops⟩ | ⟨passes, goes_on⟩ := anyM_cons_cases test x xs
    · rw [fails, failed]
      simp
    · have is : wanted x := (tells x true passes).mp rfl
      exact iff_of_true ⟨true, stops⟩ ⟨⟨true, passes⟩, fun y later => absurd is later.1⟩
    · have unwanted : ¬ wanted x := fun is => Bool.false_ne_true ((tells x false passes).mpr is)
      rw [goes_on, ih]
      simp [passes, unwanted]

end AcmeGitWebhook.Library
