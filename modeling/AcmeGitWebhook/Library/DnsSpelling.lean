import AcmeGitWebhook.Library.DnsName
import AcmeGitWebhook.Library.Suffixes

/-!
# Spellings of a name

Which plain texts are read as the same name: those with the same letters in either case, with or
without the root's dot at the end (`fromText_eq_iff`).
-/

namespace AcmeGitWebhook.Library

namespace DnsName

/-- Lower case keeps apart what is no letter. -/
theorem toLower_eq_iff {c x : Char} (other : x.isAlpha = false) : c.toLower = x ↔ c = x := by
  obtain ⟨notUpper, notLower⟩ : x.isUpper = false ∧ x.isLower = false :=
    Bool.or_eq_false_iff.mp other
  unfold Char.toLower
  split
  · next upper =>
    have low : 65 ≤ c.val.toNat := upper.1
    have high : c.val.toNat ≤ 90 := upper.2
    have shift : ('a'.val - 'A'.val).toNat = 32 := by decide
    have shifted : (c.val + ('a'.val - 'A'.val)).toNat = c.val.toNat + 32 := by
      rw [UInt32.toNat_add, shift]
      exact Nat.mod_eq_of_lt (by omega)
    constructor
    · rintro rfl
      have above : 'a'.val ≤ c.val + ('a'.val - 'A'.val) := by
        rw [UInt32.le_iff_toNat_le, shifted]
        exact Nat.add_le_add_right low 32
      have below : c.val + ('a'.val - 'A'.val) ≤ 'z'.val := by
        rw [UInt32.le_iff_toNat_le, shifted]
        exact Nat.add_le_add_right high 32
      rcases Bool.and_eq_false_iff.mp notLower with outside | outside
      · exact absurd above (of_decide_eq_false outside)
      · exact absurd below (of_decide_eq_false outside)
    · rintro rfl
      exact absurd upper (of_decide_eq_false notUpper)
  · rfl

def lower (text : List Char) : List Char := text.map Char.toLower

theorem splitOn_lower (text : List Char) :
    (lower text).splitOn '.' = (text.splitOn '.').map lower := by
  induction text with
  | nil => rfl
  | cons c text ih =>
    simp only [lower, List.map_cons, List.splitOn_cons_eq_if_modifyHead, beq_iff_eq,
      toLower_eq_iff (c := c) (x := '.') rfl] at ih ⊢
    by_cases dot : c = '.'
    · simp [dot, ih, lower]
    · rw [if_neg dot, if_neg dot, ih]
      cases text.splitOn '.' <;> simp [lower]

theorem lower_eq_intercalate (text : List Char) :
    lower text = ['.'].intercalate ((text.splitOn '.').map lower) := by
  rw [← splitOn_lower, List.intercalate_splitOn]

theorem ofLabels_eq_iff {ls ls' : List (List Char)} :
    ofLabels ls = ofLabels ls' ↔ ls.map lower = ls'.map lower := by
  have eq : ∀ ls : List (List Char), ofLabels ls = (ls.map lower).map String.ofList := by
    intro ls
    simp [ofLabels, lower]
  rw [eq, eq]
  exact (List.map_injective_iff.mpr fun _ _ same => String.ofList_inj.mp same).eq_iff

theorem wellSized_lower (ls : List (List Char)) : wellSized (ls.map lower) = wellSized ls := by
  simp [wellSized, lower, Function.comp_def]

/-- The parts without the empty one after a final dot. -/
def rootless (parts : List (List Char)) : List (List Char) :=
  if parts.getLast? = some [] then parts.dropLast else parts

theorem rootless_of_full {parts : List (List Char)} (full : [] ∉ parts) :
    rootless parts = parts :=
  if_neg fun last => full (List.mem_of_getLast? last)

@[simp] theorem rootless_append (parts : List (List Char)) : rootless (parts ++ [[]]) = parts := by
  simp [rootless]

/-- A text all of whose labels are there, and which is no shorthand. -/
structure Labelled (text : List Char) : Prop where
  full : [] ∉ text.splitOn '.'
  spelled : text ≠ ['@']

namespace Labelled

variable {text name : List Char}

theorem not_special (h : Labelled name) : name ∉ [[], ['@'], ['.']] := by
  have full := h.full
  simp only [List.mem_cons, List.not_mem_nil, or_false, not_or]
  refine ⟨?_, h.spelled, ?_⟩ <;> rintro rfl <;> exact full (by decide)

theorem nil_notMem_lower (h : Labelled name) : [] ∉ (name.splitOn '.').map lower := by
  intro mem
  obtain ⟨part, mem', empty⟩ := List.mem_map.mp mem
  rw [List.map_eq_nil_iff.mp empty] at mem'
  exact h.full mem'

theorem labels_eq (h : Labelled name) : labels name = some (name.splitOn '.') := by
  have same := rootless_of_full h.full
  rw [rootless] at same
  simp only [labels, if_neg h.not_special, same, if_neg h.full]

theorem rootless_eq_iff (h : Labelled name) :
    (rootless (text.splitOn '.')).map lower = (name.splitOn '.').map lower ↔
      lower text = lower name ∨ lower text = lower name ++ ['.'] := by
  have nonempty : (name.splitOn '.').map lower ≠ [] := by simp
  constructor
  · intro same
    by_cases dotted : (text.splitOn '.').getLast? = some []
    · obtain ⟨front, split⟩ := List.getLast?_eq_some_iff.mp dotted
      rw [split, rootless_append] at same
      right
      rw [lower_eq_intercalate text, split, List.map_append, same,
        intercalate_append '.' nonempty (by simp), ← lower_eq_intercalate]
      rfl
    · rw [rootless, if_neg dotted] at same
      exact .inl (by rw [lower_eq_intercalate text, same, ← lower_eq_intercalate])
  · rintro (same | same)
    · have parts : (text.splitOn '.').map lower = (name.splitOn '.').map lower := by
        rw [← splitOn_lower, same, splitOn_lower]
      have full : [] ∉ text.splitOn '.' := by
        intro mem
        have mem' : [] ∈ (name.splitOn '.').map lower := parts ▸ List.mem_map_of_mem mem
        exact h.nil_notMem_lower mem'
      rw [rootless_of_full full, parts]
    · have parts : (text.splitOn '.').map lower = (name.splitOn '.').map lower ++ [[]] := by
        rw [← splitOn_lower, same, List.splitOn_append_cons_self, splitOn_lower]
        rfl
      obtain ⟨front, last, split, same', lastEmpty⟩ := List.map_eq_append_iff.mp parts
      obtain ⟨part, rfl, empty⟩ := List.map_eq_singleton_iff.mp lastEmpty
      rw [split, List.map_eq_nil_iff.mp empty, rootless_append, same']

/-- The texts that name what a text with all its labels names: the same letters in either case,
and a final dot or none. -/
theorem labels_eq_iff (h : Labelled name) :
    (labels text).map ofLabels = some (ofLabels (name.splitOn '.')) ↔
      lower text = lower name ∨ lower text = lower name ++ ['.'] := by
  rw [← h.rootless_eq_iff]
  by_cases special : text ∈ [[], ['@'], ['.']]
  · have root : (labels text).map ofLabels = some [] := by rw [labels, if_pos special]; rfl
    rw [root, Option.some_inj]
    have named : [] ≠ ofLabels (name.splitOn '.') := by simp [ofLabels]
    refine iff_of_false named ?_
    simp only [List.mem_cons, List.not_mem_nil, or_false] at special
    rcases special with rfl | rfl | rfl
    · have parts : rootless (List.splitOn '.' []) = [] := by decide
      rw [parts]
      exact fun same => List.splitOn_ne_nil _ _ (List.map_eq_nil_iff.mp same.symm)
    · have parts : (rootless (List.splitOn '.' ['@'])).map lower = [['@']] := by decide
      rw [parts]
      intro same
      have alone : lower name = ['@'] := by
        rw [lower_eq_intercalate, ← same]
        rfl
      obtain ⟨c, rfl, shorthand⟩ := List.map_eq_singleton_iff.mp alone
      exact h.spelled (by rw [(toLower_eq_iff rfl).mp shorthand])
    · have parts : (rootless (List.splitOn '.' ['.'])).map lower = [[]] := by decide
      rw [parts]
      intro same
      exact h.nil_notMem_lower (same ▸ List.mem_singleton_self [])
  · have eq : labels text = if [] ∈ rootless (text.splitOn '.') then none
        else some (rootless (text.splitOn '.')) := if_neg special
    rw [eq]
    split_ifs with missing
    · have empty : [] ∈ (rootless (text.splitOn '.')).map lower := List.mem_map_of_mem missing
      refine iff_of_false (by simp) fun same => ?_
      exact h.nil_notMem_lower (same ▸ empty)
    · rw [Option.map_some, Option.some_inj, ofLabels_eq_iff]

end Labelled

theorem wellSized_congr {ls ls' : List (List Char)} (same : ofLabels ls = ofLabels ls') :
    wellSized ls = wellSized ls' := by
  rw [← wellSized_lower ls, ofLabels_eq_iff.mp same, wellSized_lower]

/-- The plain texts that are read as the name a text with all its labels stands for. -/
theorem fromText_eq_iff {special : String → Option DnsName} {text name : String}
    (labelled : Labelled name.toList) (plainText : plain text.toList = true) :
    fromText special text = some (ofLabels (name.toList.splitOn '.')) ↔
      wellSized (name.toList.splitOn '.') = true ∧ (lower text.toList = lower name.toList ∨
        lower text.toList = lower name.toList ++ ['.']) := by
  rw [fromText, if_pos plainText, ← labelled.labels_eq_iff, Option.map_eq_some_iff,
    Option.map_eq_some_iff]
  constructor
  · rintro ⟨ls, kept, same⟩
    obtain ⟨read, sized⟩ := Option.filter_eq_some_iff.mp kept
    exact ⟨(wellSized_congr same).symm.trans sized, ls, read, same⟩
  · rintro ⟨sized, ls, read, same⟩
    exact ⟨ls, Option.filter_eq_some_iff.mpr ⟨read, (wellSized_congr same).trans sized⟩, same⟩

theorem fromText_labelled {special : String → Option DnsName} {name : String} {n : DnsName}
    (labelled : Labelled name.toList) (plainText : plain name.toList = true) :
    fromText special name = some n ↔
      wellSized (name.toList.splitOn '.') = true ∧ n = ofLabels (name.toList.splitOn '.') := by
  rw [fromText, if_pos plainText, labelled.labels_eq, Option.filter_some]
  split_ifs with sized <;> simp [sized, eq_comm]

/-- What is read of a text with a final dot. -/
theorem fromText_dotted {special : String → Option DnsName} {text : String} {n : DnsName}
    (plainText : plain text.toList = true) (nonempty : text ≠ "")
    (h : fromText special (text ++ ".") = some n) : n = ofLabels (text.toList.splitOn '.') := by
  have chars : (text ++ ".").toList = text.toList ++ ['.'] := String.toList_append
  have plain' : plain (text.toList ++ ['.']) = true := by
    rw [plain, List.all_append, ← plain, plainText]
    rfl
  have long : text.toList ++ ['.'] ∉ [[], ['@'], ['.']] := by
    obtain ⟨c, cs, split⟩ := List.exists_cons_of_ne_nil
      (show text.toList ≠ [] by simpa using nonempty)
    simp [split]
  have parts : rootless ((text.toList ++ ['.']).splitOn '.') = text.toList.splitOn '.' := by
    rw [List.splitOn_append_cons_self]
    exact rootless_append _
  have read : labels (text.toList ++ ['.']) = if [] ∈ text.toList.splitOn '.' then none
      else some (text.toList.splitOn '.') := by
    rw [← parts]
    exact if_neg long
  rw [fromText, chars, if_pos plain', read] at h
  split_ifs at h
  · cases h
  · obtain ⟨ls, kept, rfl⟩ := Option.map_eq_some_iff.mp h
    rw [Option.some.inj (Option.filter_eq_some_iff.mp kept).1]

end DnsName

end AcmeGitWebhook.Library
