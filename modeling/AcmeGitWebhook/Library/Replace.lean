import Mathlib.Data.List.Infix

/-!
# Replacing a piece of text

`replaceAll old new text` writes `new` for each occurrence of `old`; occurrences are found from
left to right and do not overlap. `replace_induction` is the induction along that search, and
`replaceAll_append_cons` says that a separator outside of `old` cuts the work in two.
-/

namespace AcmeGitWebhook.Library

variable {α : Type*} {old new text before after : List α} {c : α} {n : ℕ}

/-- An occurrence does not reach over an element that it does not have. -/
theorem prefix_of_prefix_append (absent : c ∉ old) (found : old <+: before ++ c :: after) :
    old <+: before := by
  rcases List.prefix_or_prefix_of_prefix found (List.prefix_append before (c :: after)) with
    within | ⟨rest, rfl⟩
  · exact within
  · rw [List.prefix_append_right_inj] at found
    cases rest with
    | nil => simp
    | cons d rest =>
      obtain ⟨rfl, -⟩ := List.cons_prefix_cons.mp found
      simp at absent

variable [DecidableEq α]

/-- The search, with the number of elements that belong to the last occurrence still. -/
def replaceFrom (old new : List α) : ℕ → List α → List α
  | _, [] => []
  | n + 1, _ :: cs => replaceFrom old new n cs
  | 0, c :: cs =>
    if old <+: c :: cs then new ++ replaceFrom old new (old.length - 1) cs
    else c :: replaceFrom old new 0 cs

def replaceAll (old new text : List α) : List α := replaceFrom old new 0 text

example : replaceAll [1, 2] [7] [0, 1, 2, 1, 1, 2] = [0, 7, 1, 7] := by decide

@[simp] theorem replaceAll_nil : replaceAll old new [] = [] := rfl

theorem replaceFrom_eq_drop (n : ℕ) (cs : List α) :
    replaceFrom old new n cs = replaceAll old new (cs.drop n) := by
  induction cs generalizing n with
  | nil => cases n <;> rfl
  | cons c cs ih =>
    cases n with
    | zero => rfl
    | succ n => exact ih n

theorem replaceAll_append_left (nonempty : old ≠ []) (cs : List α) :
    replaceAll old new (old ++ cs) = new ++ replaceAll old new cs := by
  obtain ⟨c, rest, rfl⟩ := List.exists_cons_of_ne_nil nonempty
  have found : c :: rest <+: c :: (rest ++ cs) := ⟨cs, rfl⟩
  rw [replaceAll, List.cons_append, replaceFrom, if_pos found, replaceFrom_eq_drop]
  simp

theorem replaceAll_cons (other : ¬ old <+: c :: text) :
    replaceAll old new (c :: text) = c :: replaceAll old new text := by
  rw [replaceAll, replaceFrom, if_neg other]
  rfl

/-- The cases of the search: the end, an occurrence, and an element that starts none. -/
theorem replace_induction {motive : List α → Prop} (nonempty : old ≠ []) (nil : motive [])
    (occurrence : ∀ cs, motive cs → motive (old ++ cs))
    (other : ∀ c cs, ¬ old <+: c :: cs → motive cs → motive (c :: cs)) (text : List α) :
    motive text := by
  induction length : text.length using Nat.strong_induction_on generalizing text with
  | _ n ih =>
    subst length
    cases text with
    | nil => exact nil
    | cons c cs =>
      by_cases found : old <+: c :: cs
      · obtain ⟨rest, eq⟩ := found
        have pos := List.length_pos_of_ne_nil nonempty
        have shorter : rest.length < (c :: cs).length := by
          rw [← eq, List.length_append]
          omega
        exact eq ▸ occurrence rest (ih _ shorter rest rfl)
      · exact other c cs found (ih _ (by simp) cs rfl)

theorem replaceAll_of_not_infix (absent : ¬ old <:+: text) : replaceAll old new text = text := by
  induction text with
  | nil => rfl
  | cons c cs ih =>
    have other : ¬ old <+: c :: cs := fun found => absent found.isInfix
    have later : ¬ old <:+: cs := fun found => absent (List.infix_cons found)
    rw [replaceAll_cons other, ih later]

theorem replaceAll_self (nonempty : old ≠ []) : replaceAll old new old = new := by
  have whole : replaceAll old new (old ++ []) = new ++ replaceAll old new [] :=
    replaceAll_append_left nonempty []
  simpa using whole

theorem replaceAll_append_cons (nonempty : old ≠ []) (absent : c ∉ old) :
    replaceAll old new (before ++ c :: after) =
      replaceAll old new before ++ c :: replaceAll old new after := by
  induction before using replace_induction nonempty with
  | nil =>
    have other : ¬ old <+: c :: after := fun found =>
      nonempty (List.prefix_nil.mp (prefix_of_prefix_append absent found))
    simpa using replaceAll_cons other
  | occurrence cs ih =>
    rw [List.append_assoc, replaceAll_append_left nonempty, ih,
      replaceAll_append_left nonempty, List.append_assoc]
  | other d cs other ih =>
    have other' : ¬ old <+: d :: (cs ++ c :: after) := fun found =>
      other (prefix_of_prefix_append absent found)
    rw [List.cons_append, replaceAll_cons other', ih, replaceAll_cons other, List.cons_append]

end AcmeGitWebhook.Library
