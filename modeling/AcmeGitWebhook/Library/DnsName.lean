import Mathlib.Algebra.GroupWithZero.Nat
import Mathlib.Data.List.Basic

/-!
# Absolute names of the DNS

A name is the list of its labels, without the root's. DNS compares names without regard to
case, so labels are kept in lower case and two names are one exactly when they are equal.
-/

namespace AcmeGitWebhook.Library

abbrev DnsName := List String

namespace DnsName

/-- Text without escapes or characters beyond ASCII, whose labels are what stands between
its dots. -/
def plain (text : List Char) : Bool := text.all fun c => c.toNat < 128 && c ≠ '\\'

/-- The labels of a plain text; a trailing dot is the root's. -/
def labels (text : List Char) : Option (List (List Char)) :=
  if text ∈ [[], ['@'], ['.']] then some []
  else
    let parts := text.splitOn '.'
    let parts := if parts.getLast? = some [] then parts.dropLast else parts
    if [] ∈ parts then none else some parts

/-- A label has at most 63 characters and a name at most 255, one for each label's length
included. -/
def wellSized (labels : List (List Char)) : Bool :=
  labels.all (·.length ≤ 63) && (labels.map (·.length + 1)).sum + 1 ≤ 255

def ofLabels (labels : List (List Char)) : DnsName :=
  labels.map fun label => String.ofList (label.map Char.toLower)

/-- `dns.name.from_text` against the root. What it makes of text that is not plain is
`special`. -/
def fromText (special : String → Option DnsName) (text : String) : Option DnsName :=
  if plain text.toList then ((labels text.toList).filter (fun ls => wellSized ls)).map ofLabels
  else special text

example : fromText (fun _ => none) "_acme-challenge.Example.com." =
    some ["_acme-challenge", "example", "com"] ∧ fromText (fun _ => none) "a..b" = none := by
  decide

/-- A first label stands in front of the labels of what follows its dot. -/
theorem labels_cons {label rest : List Char} (undotted : '.' ∉ label) (nonempty : label ≠ [])
    (named : rest ∉ [['@'], ['.']]) :
    labels (label ++ '.' :: rest) = (labels rest).map (label :: ·) := by
  have split : (label ++ '.' :: rest).splitOn '.' = label :: rest.splitOn '.' := by
    have alone : label.splitOn '.' = [label] := by
      refine List.splitOnP_eq_singleton fun c mem => ?_
      simpa using fun same : c = '.' => undotted (same ▸ mem)
    rw [List.splitOn, List.splitOnP_append_cons _ _ (by simp), ← List.splitOn, alone]
    rfl
  have long : label ++ '.' :: rest ∉ [[], ['@'], ['.']] := by
    cases label with
    | nil => contradiction
    | cons c label => simp
  have parts : rest.splitOn '.' ≠ [] := List.splitOnP_ne_nil _ _
  rw [labels, if_neg long, split, labels]
  by_cases root : rest = []
  · subst root
    simp [Ne.symm nonempty]
  · have named' : rest ∉ [[], ['@'], ['.']] := by simpa [root] using named
    rw [if_neg named']
    have last : (label :: rest.splitOn '.').getLast? = (rest.splitOn '.').getLast? :=
      List.getLast?_cons_of_ne_nil parts
    have front : (label :: rest.splitOn '.').dropLast = label :: (rest.splitOn '.').dropLast :=
      List.dropLast_cons_of_ne_nil parts
    simp only [last, front]
    by_cases dotted : (rest.splitOn '.').getLast? = some [] <;>
      simp only [dotted, if_true, if_false, List.mem_cons, Ne.symm nonempty, false_or] <;>
      split_ifs <;> rfl

theorem wellSized_tail {label : List Char} {ls : List (List Char)}
    (h : wellSized (label :: ls) = true) : wellSized ls = true := by
  simp only [wellSized, List.all_cons, List.map_cons, List.sum_cons, Bool.and_eq_true,
    decide_eq_true_eq] at h ⊢
  exact ⟨h.1.2, by omega⟩

/-- A plain name whose text starts with one more label is longer by that label. -/
theorem fromText_cons {special : String → Option DnsName} {label rest : String} {name : DnsName}
    (text : plain (label.toList ++ '.' :: rest.toList) = true) (undotted : '.' ∉ label.toList)
    (nonempty : label ≠ "") (named : rest.toList ∉ [['@'], ['.']])
    (h : fromText special (label ++ "." ++ rest) = some name) :
    ∃ tail, fromText special rest = some tail ∧
      name = String.ofList (label.toList.map Char.toLower) :: tail := by
  have whole : (label ++ "." ++ rest).toList = label.toList ++ '.' :: rest.toList := by simp
  have text' : plain rest.toList = true := by
    rw [plain, List.all_append, List.all_cons, Bool.and_eq_true, Bool.and_eq_true] at text
    exact text.2.2
  have nonempty' : label.toList ≠ [] := by simpa using nonempty
  rw [fromText, whole, if_pos text, labels_cons undotted nonempty' named] at h
  obtain ⟨all, kept, rfl⟩ := Option.map_eq_some_iff.mp h
  obtain ⟨longer, sized⟩ := Option.filter_eq_some_iff.mp kept
  obtain ⟨ls, found, rfl⟩ := Option.map_eq_some_iff.mp longer
  refine ⟨ofLabels ls, ?_, rfl⟩
  rw [fromText, if_pos text', found, Option.filter_some, if_pos (wellSized_tail sized)]
  rfl

end DnsName

end AcmeGitWebhook.Library
