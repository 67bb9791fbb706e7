import Mathlib.Data.List.Infix

/-!
# Suffixes at a separator

What is left of a list after one of its separators, or all of it: the parents of a name, the
tails of a path. `suffixesAt` lists them from the longest on, so that the first hit in it is the
longest one (`findSome?_longest`).
-/

namespace AcmeGitWebhook.Library

variable {α : Type*}

/-- `x` is all of `l`, or what follows one of its separators. -/
def SuffixAt (sep : α) (x l : List α) : Prop := x = l ∨ ∃ front, l = front ++ sep :: x

theorem SuffixAt.length_le {sep : α} {x l : List α} (h : SuffixAt sep x l) :
    x.length ≤ l.length := by
  obtain rfl | ⟨front, rfl⟩ := h
  · exact le_rfl
  · simp
    omega

theorem SuffixAt.trans {sep : α} {x y l : List α} (h : SuffixAt sep x y) (h' : SuffixAt sep y l) :
    SuffixAt sep x l := by
  obtain rfl | ⟨front, rfl⟩ := h
  · exact h'
  · obtain rfl | ⟨front', rfl⟩ := h'
    · exact .inr ⟨front, rfl⟩
    · exact .inr ⟨front' ++ sep :: front, by simp⟩

/-- The separator stands between the two halves of joined parts. -/
theorem intercalate_append (sep : α) {front rest : List (List α)} (nonempty : front ≠ [])
    (nonempty' : rest ≠ []) :
    [sep].intercalate (front ++ rest) =
      [sep].intercalate front ++ sep :: [sep].intercalate rest := by
  induction front with
  | nil => contradiction
  | cons part front ih =>
    rw [List.cons_append, List.intercalate_cons_of_ne_nil (by simp [nonempty'])]
    by_cases last : front = []
    · simp [last]
    · rw [ih last, List.intercalate_cons_of_ne_nil last]
      simp

theorem mem_tails_dropLast {l t : List α} : t ∈ l.tails.dropLast ↔ t <:+ l ∧ t ≠ [] := by
  induction l with
  | nil => simp
  | cons a l ih =>
    have more : l.tails ≠ [] := by
      rw [Ne, ← List.length_eq_zero_iff, List.length_tails]
      omega
    rw [List.tails_cons, List.dropLast_cons_of_ne_nil more, List.mem_cons, ih, List.suffix_cons_iff]
    constructor
    · rintro (rfl | ⟨within, nonempty⟩)
      · exact ⟨.inl rfl, by simp⟩
      · exact ⟨.inr within, nonempty⟩
    · rintro ⟨rfl | within, nonempty⟩
      · exact .inl rfl
      · exact .inr ⟨within, nonempty⟩

section

variable [BEq α] {sep : α} {x l : List α}

/-- The suffixes of a list at a separator, the longest first. -/
def suffixesAt (sep : α) (l : List α) : List (List α) :=
  (l.splitOn sep).tails.dropLast.map [sep].intercalate

theorem suffixesAt_pairwise :
    (suffixesAt sep l).Pairwise fun longer shorter => shorter.length < longer.length := by
  rw [suffixesAt, List.pairwise_map]
  induction l.splitOn sep with
  | nil => simp
  | cons part parts ih =>
    have more : parts.tails ≠ [] := by
      rw [Ne, ← List.length_eq_zero_iff, List.length_tails]
      omega
    rw [List.tails_cons, List.dropLast_cons_of_ne_nil more, List.pairwise_cons]
    refine ⟨?_, ih⟩
    intro rest mem
    obtain ⟨⟨front, rfl⟩, nonempty⟩ := mem_tails_dropLast.mp mem
    rw [← List.cons_append, intercalate_append sep (by simp) nonempty, List.length_append,
      List.length_cons]
    omega

variable [LawfulBEq α]

/-- The parts of a suffix are the last parts of the list. -/
theorem SuffixAt.splitOn (h : SuffixAt sep x l) : x.splitOn sep <:+ l.splitOn sep := by
  obtain rfl | ⟨front, rfl⟩ := h
  · exact List.suffix_rfl
  · rw [List.splitOn_append_cons_self]
    exact List.suffix_append _ _

theorem mem_suffixesAt : x ∈ suffixesAt sep l ↔ SuffixAt sep x l := by
  simp only [suffixesAt, List.mem_map, mem_tails_dropLast]
  constructor
  · rintro ⟨parts, ⟨⟨front, whole⟩, nonempty⟩, rfl⟩
    have joined : l = [sep].intercalate (front ++ parts) := by
      rw [whole, List.intercalate_splitOn]
    by_cases all : front = []
    · exact .inl (by rw [joined, all, List.nil_append])
    · exact .inr ⟨[sep].intercalate front, joined.trans (intercalate_append sep all nonempty)⟩
  · intro h
    exact ⟨x.splitOn sep, ⟨h.splitOn, List.splitOn_ne_nil _ _⟩, List.intercalate_splitOn _⟩

end

/-- In a list that gets smaller and smaller, the first hit is the largest. -/
theorem findSome?_longest {ι γ : Type*} {size : ι → Nat} {f : ι → Option γ} {is : List ι} {c : γ}
    (sorted : is.Pairwise fun i j => size j < size i) :
    is.findSome? f = some c ↔
      ∃ i ∈ is, f i = some c ∧ ∀ j ∈ is, (f j).isSome → size j ≤ size i := by
  induction is with
  | nil => simp
  | cons i is ih =>
    obtain ⟨smaller, sorted⟩ := List.pairwise_cons.mp sorted
    cases here : f i with
    | some hit =>
      rw [List.findSome?_cons_of_isSome (by simp [here]), here]
      constructor
      · intro found
        refine ⟨i, List.mem_cons_self, here.trans found, ?_⟩
        rintro j (_ | ⟨_, mem⟩) _
        · exact le_rfl
        · exact (smaller j mem).le
      · rintro ⟨j, mem, found, largest⟩
        rcases List.mem_cons.mp mem with rfl | mem
        · exact here.symm.trans found
        · have bound := largest i List.mem_cons_self (by simp [here])
          have less := smaller j mem
          omega
    | none =>
      rw [List.findSome?_cons_of_isNone (by simp [here]), ih sorted]
      constructor
      · rintro ⟨j, mem, found, largest⟩
        refine ⟨j, List.mem_cons_of_mem _ mem, found, ?_⟩
        rintro k (_ | ⟨_, mem'⟩) hit
        · simp [here] at hit
        · exact largest k mem' hit
      · rintro ⟨j, mem, found, largest⟩
        rcases List.mem_cons.mp mem with rfl | mem
        · simp [here] at found
        · exact ⟨j, mem, found, fun k mem' => largest k (List.mem_cons_of_mem _ mem')⟩

end AcmeGitWebhook.Library
