import Mathlib.Data.List.Basic

/-!
# Insertion-ordered dictionaries

A Python `dict` as the list of its items: assigning to a key that is present
keeps its place, and a new key goes to the end.
-/

namespace AcmeGitWebhook.Library

/-- The items of a dictionary, oldest key first. -/
abbrev Dict (κ ν : Type*) := List (κ × ν)

namespace Dict

variable {κ ν : Type*} [DecidableEq κ]

def get? : Dict κ ν → κ → Option ν
  | [], _ => none
  | (k', v) :: d, k => if k' = k then some v else get? d k

def set : Dict κ ν → κ → ν → Dict κ ν
  | [], k, v => [(k, v)]
  | (k', v') :: d, k, v => if k' = k then (k', v) :: d else (k', v') :: set d k v

def erase (d : Dict κ ν) (k : κ) : Dict κ ν := d.filter (fun item => item.1 ≠ k)

def values (d : Dict κ ν) : List ν := d.map Prod.snd

@[simp] theorem get?_nil (k : κ) : get? ([] : Dict κ ν) k = none := rfl

@[simp] theorem get?_set_self (d : Dict κ ν) (k : κ) (v : ν) : (d.set k v).get? k = some v := by
  induction d with
  | nil => simp [set, get?]
  | cons item d ih =>
    by_cases h : item.1 = k <;> simp [set, get?, h, ih]

@[simp] theorem get?_set_of_ne (d : Dict κ ν) {k k' : κ} (v : ν) (h : k' ≠ k) :
    (d.set k v).get? k' = d.get? k' := by
  induction d with
  | nil => simp [set, get?, Ne.symm h]
  | cons item d ih =>
    by_cases hk : item.1 = k
    · simp [set, get?, hk, Ne.symm h]
    · by_cases hk' : item.1 = k' <;> simp [set, get?, hk, hk', ih, h]

@[simp] theorem get?_erase_self (d : Dict κ ν) (k : κ) : (d.erase k).get? k = none := by
  induction d with
  | nil => rfl
  | cons item d ih =>
    by_cases h : item.1 = k
    · simpa [erase, h] using ih
    · have ih' : get? (List.filter (fun item => !decide (item.1 = k)) d) k = none := by
        simpa [erase] using ih
      simp [erase, get?, h, ih']

@[simp] theorem get?_erase_of_ne (d : Dict κ ν) {k k' : κ} (h : k' ≠ k) :
    (d.erase k).get? k' = d.get? k' := by
  induction d with
  | nil => rfl
  | cons item d ih =>
    have ih' : get? (List.filter (fun item => !decide (item.1 = k)) d) k' = get? d k' := by
      simpa [erase] using ih
    by_cases hk : item.1 = k
    · simp [erase, get?, hk, Ne.symm h, ih']
    · by_cases hk' : item.1 = k' <;> simp [erase, get?, hk, hk', ih', h]

/-- The last of two assignments to a key is the one that counts. -/
@[simp] theorem set_set (d : Dict κ ν) (k : κ) (v w : ν) : (d.set k v).set k w = d.set k w := by
  induction d with
  | nil => simp [set]
  | cons item d ih =>
    by_cases h : item.1 = k <;> simp [set, h, ih]

theorem isSome_set (d : Dict κ ν) (k k' : κ) (v : ν) :
    ((d.set k v).get? k').isSome ↔ (d.get? k').isSome ∨ k' = k := by
  by_cases same : k' = k
  · simp [same]
  · simp [same]

theorem get?_append (d d' : Dict κ ν) (k : κ) :
    get? (d ++ d') k = (d.get? k).or (d'.get? k) := by
  induction d with
  | nil => rfl
  | cons item d ih =>
    by_cases h : item.1 = k <;> simp [get?, h, ih]

/-- Looking a key up in the items whose keys pass a test. -/
theorem get?_filter_key (d : Dict κ ν) (p : κ → Bool) (k : κ) :
    get? (d.filter fun item => p item.1) k = if p k then d.get? k else none := by
  induction d with
  | nil => simp
  | cons item d ih =>
    obtain ⟨k', v⟩ := item
    by_cases here : k' = k
    · subst here
      cases passes : p k' <;> simp [get?, passes, ih]
    · cases passes : p k' <;> simp [get?, here, passes, ih]

theorem mem_of_get? {d : Dict κ ν} {k : κ} {v : ν} (h : d.get? k = some v) : (k, v) ∈ d := by
  induction d with
  | nil => simp at h
  | cons item d ih =>
    by_cases hk : item.1 = k
    · have hv : item.2 = v := by simpa [get?, hk] using h
      exact List.mem_cons.mpr (Or.inl (by rw [← hk, ← hv]))
    · exact List.mem_cons.mpr (Or.inr (ih (by simpa [get?, hk] using h)))

theorem get?_eq_none {d : Dict κ ν} {k : κ} (h : ∀ item ∈ d, item.1 ≠ k) : d.get? k = none := by
  cases found : d.get? k with
  | none => rfl
  | some v => exact absurd rfl (h _ (mem_of_get? found))

theorem get?_isSome_of_mem {d : Dict κ ν} {item : κ × ν} (h : item ∈ d) :
    (d.get? item.1).isSome := by
  induction d with
  | nil => simp at h
  | cons head d ih =>
    by_cases hk : head.1 = item.1
    · simp [get?, hk]
    · have tail : item ∈ d := by
        rcases List.mem_cons.mp h with rfl | tail
        · exact absurd rfl hk
        · exact tail
      simpa [get?, hk] using ih tail

/-- An item of an assigned dictionary is the new one or was there before. -/
theorem mem_set {d : Dict κ ν} {k : κ} {v : ν} {item : κ × ν} (h : item ∈ d.set k v) :
    item = (k, v) ∨ item ∈ d := by
  induction d with
  | nil => simpa [set] using h
  | cons head d ih =>
    by_cases hk : head.1 = k
    · simp only [set, hk, if_true, List.mem_cons] at h
      rcases h with rfl | h
      · exact Or.inl rfl
      · exact Or.inr (List.mem_cons_of_mem _ h)
    · simp only [set, hk, if_false, List.mem_cons] at h
      rcases h with rfl | h
      · exact Or.inr (List.mem_cons_self)
      · exact (ih h).imp id (List.mem_cons_of_mem _)

theorem get?_map {ν' : Type*} (f : ν → ν') (d : Dict κ ν) (k : κ) :
    get? (d.map fun item => (item.1, f item.2)) k = (d.get? k).map f := by
  induction d with
  | nil => rfl
  | cons item d ih =>
    simp only [List.map_cons, get?, ih]
    split <;> rfl

section Assignments

variable {α : Type*} {key : α → κ} {val : α → ν}

/-- After a series of assignments a key is present if it was or one of them is to it. -/
theorem isSome_foldl_set (l : List α) (d : Dict κ ν) (k : κ) :
    ((l.foldl (fun d a => d.set (key a) (val a)) d).get? k).isSome ↔
      (d.get? k).isSome ∨ ∃ a ∈ l, key a = k := by
  induction l generalizing d with
  | nil => simp
  | cons a l ih =>
    simp only [List.foldl_cons, ih, isSome_set, List.mem_cons, exists_eq_or_imp, or_assoc,
      eq_comm (a := k)]

theorem get?_foldl_set_of_ne {l : List α} {k : κ} (d : Dict κ ν) (others : ∀ a ∈ l, key a ≠ k) :
    (l.foldl (fun d a => d.set (key a) (val a)) d).get? k = d.get? k := by
  induction l generalizing d with
  | nil => rfl
  | cons a l ih =>
    rw [List.foldl_cons, ih _ fun b mem => others b (List.mem_cons_of_mem _ mem)]
    exact get?_set_of_ne _ _ (Ne.symm (others a List.mem_cons_self))

/-- What a key has after assignments to it was assigned by one of them. -/
theorem exists_get?_foldl_set {l : List α} {k : κ} (d : Dict κ ν)
    (assigned : ∃ a ∈ l, key a = k) : ∃ a ∈ l, key a = k ∧
      (l.foldl (fun d a => d.set (key a) (val a)) d).get? k = some (val a) := by
  induction l generalizing d with
  | nil => simp at assigned
  | cons a l ih =>
    rw [List.foldl_cons]
    by_cases later : ∃ b ∈ l, key b = k
    · obtain ⟨b, mem, same, found⟩ := ih (d.set (key a) (val a)) later
      exact ⟨b, List.mem_cons_of_mem _ mem, same, found⟩
    · have others : ∀ b ∈ l, key b ≠ k := fun b mem same => later ⟨b, mem, same⟩
      obtain ⟨b, mem, same⟩ := assigned
      obtain rfl : b = a := (List.mem_cons.mp mem).resolve_right fun mem => others b mem same
      exact ⟨b, List.mem_cons_self, same,
        by rw [get?_foldl_set_of_ne _ others, same, get?_set_self]⟩

/-- Assignments that agree on a key leave it their value. -/
theorem get?_foldl_set {l : List α} {k : κ} {v : ν} (d : Dict κ ν)
    (agree : ∀ a ∈ l, key a = k → val a = v) (assigned : ∃ a ∈ l, key a = k) :
    (l.foldl (fun d a => d.set (key a) (val a)) d).get? k = some v := by
  obtain ⟨a, mem, same, found⟩ := exists_get?_foldl_set d assigned
  rw [found, agree a mem same]

end Assignments

end Dict

end AcmeGitWebhook.Library
