import Mathlib.Computability.Language

/-!
# Languages of separated fields

`fields sep A B` are the words of `A`, each with a separator behind it, followed by a word of `B`,
as `(A sep)* B` is written as a regular expression. If no word of `A` or `B` has the separator in
it, a word is cut into its fields in one way only.
-/

namespace AcmeGitWebhook.Library

open Computability

variable {α : Type*} {sep : α} {A B : Language α} {p : α → Bool} {w rest : List α}

/-- One letter of a class. -/
def letter (p : α → Bool) : Language α := {w | ∃ c, p c = true ∧ w = [c]}

/-- `[..]+`. -/
def oneOrMore (p : α → Bool) : Language α := letter p * (letter p)∗

/-- `(A sep)*B`. -/
def fields (sep : α) (A B : Language α) : Language α := (A * {[sep]})∗ * B

/-- No word of the language has the letter in it. -/
def Free (sep : α) (A : Language α) : Prop := ∀ w ∈ A, sep ∉ w

theorem mem_kstar_letter : w ∈ (letter p)∗ ↔ ∀ c ∈ w, p c = true := by
  rw [Language.mem_kstar]
  constructor
  · rintro ⟨parts, rfl, letters⟩ c mem
    obtain ⟨part, found, mem⟩ := List.mem_flatten.mp mem
    obtain ⟨c', accepted, rfl⟩ := letters part found
    obtain rfl := List.mem_singleton.mp mem
    exact accepted
  · intro accepted
    refine ⟨w.map fun c => [c], ?_, ?_⟩
    · induction w with
      | nil => rfl
      | cons c w ih =>
        simp [← ih fun c' mem => accepted c' (List.mem_cons_of_mem _ mem)]
    · intro part mem
      obtain ⟨c, found, rfl⟩ := List.mem_map.mp mem
      exact ⟨c, accepted c found, rfl⟩

theorem mem_oneOrMore : w ∈ oneOrMore p ↔ w ≠ [] ∧ ∀ c ∈ w, p c = true := by
  rw [oneOrMore, Language.mem_mul]
  constructor
  · rintro ⟨_, ⟨c, accepted, rfl⟩, rest, others, rfl⟩
    rw [mem_kstar_letter] at others
    grind
  · rintro ⟨nonempty, accepted⟩
    obtain ⟨c, rest, rfl⟩ := List.exists_cons_of_ne_nil nonempty
    refine ⟨[c], ⟨c, accepted c List.mem_cons_self, rfl⟩, rest, ?_, rfl⟩
    exact mem_kstar_letter.mpr fun c' mem => accepted c' (List.mem_cons_of_mem _ mem)

/-- A list of fields is a last field, or a field in front of a list of fields. -/
theorem fields_eq : fields sep A B = B + A * ({[sep]} * fields sep A B) := by
  have unfold_star : (A * {[sep]})∗ = 1 + A * {[sep]} * (A * {[sep]})∗ :=
    (Language.one_add_self_mul_kstar_eq_kstar _).symm
  calc fields sep A B
      = (1 + A * {[sep]} * (A * {[sep]})∗) * B := by rw [fields, ← unfold_star]
    _ = B + A * ({[sep]} * fields sep A B) := by
        rw [fields, add_mul, one_mul]
        simp only [mul_assoc]

theorem mem_fields : w ∈ fields sep A B ↔
    w ∈ B ∨ ∃ a ∈ A, ∃ rest ∈ fields sep A B, w = a ++ sep :: rest := by
  conv_lhs => rw [fields_eq, Language.mem_add, Language.mem_mul]
  refine or_congr_right ⟨?_, ?_⟩
  · rintro ⟨a, mem, tail, ⟨s, rfl, rest, found, rfl⟩, rfl⟩
    exact ⟨a, mem, rest, found, rfl⟩
  · rintro ⟨a, mem, rest, found, rfl⟩
    exact ⟨a, mem, sep :: rest, ⟨[sep], rfl, rest, found, rfl⟩, rfl⟩

/-- Without a separator there is only the last field. -/
theorem mem_fields_of_notMem (here : sep ∉ w) : w ∈ fields sep A B ↔ w ∈ B := by
  rw [mem_fields]
  grind

theorem cut_unique {a rest' : List α} (here : sep ∉ w) (there : sep ∉ a)
    (same : w ++ sep :: rest = a ++ sep :: rest') : w = a ∧ rest = rest' := by
  induction w generalizing a with
  | nil => cases a <;> grind
  | cons c w ih => cases a <;> grind

/-- The first field ends at the first separator. -/
theorem append_mem_fields (freeA : Free sep A) (freeB : Free sep B) (here : sep ∉ w) :
    w ++ sep :: rest ∈ fields sep A B ↔ w ∈ A ∧ rest ∈ fields sep A B := by
  rw [mem_fields]
  constructor
  · rintro (last | ⟨a, mem, rest', found, same⟩)
    · exact absurd (by simp) (freeB _ last)
    · obtain ⟨rfl, rfl⟩ := cut_unique here (freeA a mem) same
      exact ⟨mem, found⟩
  · rintro ⟨mem, found⟩
    exact .inr ⟨w, mem, rest, found, rfl⟩

/-- Every letter of a list of fields is the separator or stands in a field. -/
theorem forall_mem_fields {q : α → Prop} (separator : q sep) (inA : ∀ w ∈ A, ∀ c ∈ w, q c)
    (inB : ∀ w ∈ B, ∀ c ∈ w, q c) (mem : w ∈ fields sep A B) : ∀ c ∈ w, q c := by
  obtain ⟨front, starred, last, lastB, rfl⟩ := Language.mem_mul.mp mem
  obtain ⟨parts, rfl, each⟩ := Language.mem_kstar.mp starred
  intro c found
  rcases List.mem_append.mp found with found | found
  · obtain ⟨part, listed, found⟩ := List.mem_flatten.mp found
    obtain ⟨a, field, s, rfl, rfl⟩ := Language.mem_mul.mp (each part listed)
    rcases List.mem_append.mp found with found | found
    · exact inA a field c found
    · rwa [List.mem_singleton.mp found]
  · exact inB last lastB c found

end AcmeGitWebhook.Library
