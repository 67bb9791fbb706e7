import Mathlib.Data.List.Infix

/-!
# Double-quoted strings of PowerShell

What PowerShell makes of the text after an opening double quote: a backtick escapes the next
character, a dollar sign starts an expansion, a doubled quote is a quote, and a single one closes
the string. `readLiteral_eq_self_iff` says which texts stand for themselves there.
-/

namespace AcmeGitWebhook.Library.PowerShell

def doubleQuote : Char := '\x22'

def backtick : Char := '\x60'

/-- The straight quote and the three typographic ones that PowerShell takes for it. -/
def isDoubleQuote (c : Char) : Bool := c.toNat ∈ [0x22, 0x201c, 0x201d, 0x201e]

/-- What a backtick makes of the character after it, in Windows PowerShell. -/
def escaped : Char → Char
  | '0' => '\x00'
  | 'a' => '\x07'
  | 'b' => '\x08'
  | 'f' => '\x0c'
  | 'n' => '\n'
  | 'r' => '\r'
  | 't' => '\t'
  | 'v' => '\x0b'
  | c => c

/-- Read a string from behind its opening quote: its value and what follows the closing quote.
`none` when it is not closed or something in it is expanded. -/
def readLiteral : List Char → Option (List Char × List Char)
  | [] => none
  | [c] => if isDoubleQuote c then some ([], []) else none
  | c :: c' :: cs =>
    if c = '$' then none
    else if c = backtick then (readLiteral cs).map (Prod.map (escaped c' :: ·) id)
    else if isDoubleQuote c then
      if isDoubleQuote c' then (readLiteral cs).map (Prod.map (c' :: ·) id)
      else some ([], c' :: cs)
    else (readLiteral (c' :: cs)).map (Prod.map (c :: ·) id)

/-- A character that does not stand for itself in a string. -/
def special (c : Char) : Bool := c = '$' || c = backtick || isDoubleQuote c

/-- A character outside of strings that starts neither a string nor a comment. -/
def codeChar (c : Char) : Bool := !isDoubleQuote c && c ∉ ['\x27', backtick, '#', '@']

/-- Script text that is read as code at its end: characters of code and whole strings. -/
inductive Code : List Char → Prop
  | nil : Code []
  | char {c : Char} {cs : List Char} : codeChar c = true → Code cs → Code (c :: cs)
  | string {text value rest : List Char} : readLiteral text = some (value, rest) → Code rest →
      Code (doubleQuote :: text)

example : readLiteral "a`n\"\"b\" c".toList = some ("a\n\"b".toList, " c".toList) ∧
    readLiteral "$(x)\"".toList = none := by
  decide

variable {c : Char} {text value after cs rest : List Char}

theorem special_cases {c : Char} (h : special c = true) :
    c ∈ ['$', '\x60', '\x22', '\u201c', '\u201d', '\u201e'] := by
  have code (d : Char) (eq : c.toNat = d.toNat) : c = d := Char.toNat_inj.mp eq
  simp only [special, isDoubleQuote, Bool.or_eq_true, decide_eq_true_eq, List.mem_cons,
    List.not_mem_nil, or_false] at h ⊢
  rcases h with (rfl | rfl) | h | h | h | h
  · simp
  · simp [backtick]
  · simp [code '\x22' h]
  · simp [code '\u201c' h]
  · simp [code '\u201d' h]
  · simp [code '\u201e' h]

theorem plain_of_holds {p : Char → Bool} {c : Char} (holds : p c = true)
    (specials : ['$', '\x60', '\x22', '\u201c', '\u201d', '\u201e'].all (!p ·) = true) :
    special c = false := by
  by_contra odd
  have := List.all_eq_true.mp specials c (special_cases (Bool.not_eq_false _ ▸ odd))
  simp [holds] at this

theorem plain_of_all (all : text.all (!special ·) = true) : ∀ c ∈ text, special c = false := by
  simpa using all

theorem readLiteral_ordinary (ordinary : special c = false) (cs : List Char) (nonempty : cs ≠ []) :
    readLiteral (c :: cs) = (readLiteral cs).map (Prod.map (c :: ·) id) := by
  simp only [special, Bool.or_eq_false_iff, decide_eq_false_iff_not] at ordinary
  obtain ⟨⟨dollar, tick⟩, quote⟩ := ordinary
  match cs, nonempty with
  | c' :: cs, _ => simp [readLiteral, dollar, tick, quote]

theorem of_map_cons {read : Option (List Char × List Char)}
    (h : read.map (Prod.map (c :: ·) id) = some (value, rest)) :
    ∃ value', read = some (value', rest) ∧ value = c :: value' := by
  obtain ⟨⟨value', rest'⟩, found, eq⟩ := Option.map_eq_some_iff.mp h
  obtain ⟨rfl, rfl⟩ := Prod.mk.inj eq
  exact ⟨value', found, rfl⟩

/-- Each character of the value, and the closing quote, take at least one character. -/
theorem readLiteral_length (h : readLiteral cs = some (value, rest)) :
    value.length + rest.length + 1 ≤ cs.length := by
  fun_induction readLiteral cs generalizing value with
  | case1 | case3 | case4 => cases h
  | case2 | case7 =>
    obtain ⟨rfl, rfl⟩ := Prod.mk.inj (Option.some.inj h)
    simp
  | case5 | case6 | case8 =>
    obtain ⟨value', read, rfl⟩ := of_map_cons h
    grind

/-- Text without special characters is its own value. -/
theorem readLiteral_self (plain : ∀ c ∈ text, special c = false)
    (closes : ∀ c ∈ after.head?, isDoubleQuote c = false) :
    readLiteral (text ++ doubleQuote :: after) = some (text, after) := by
  induction text with
  | nil =>
    cases after with
    | nil => rfl
    | cons c after =>
      have other : isDoubleQuote c = false := closes c rfl
      simp [readLiteral, doubleQuote, backtick, isDoubleQuote] at other ⊢
      simp [other]
  | cons c text ih =>
    obtain ⟨ordinary, plain⟩ := List.forall_mem_cons.mp plain
    rw [List.cons_append, readLiteral_ordinary ordinary _ (by simp), ih plain]
    rfl

/-- Text that is its own value has no special characters: they would cost a character. -/
theorem plain_of_readLiteral (h : readLiteral (text ++ doubleQuote :: after) = some (text, after)) :
    ∀ c ∈ text, special c = false := by
  induction text with
  | nil => simp
  | cons c text ih =>
    rw [List.cons_append] at h
    cases kind : special c with
    | false =>
      rw [readLiteral_ordinary kind _ (by simp)] at h
      obtain ⟨value, read, tail⟩ := of_map_cons h
      obtain rfl := (List.cons.inj tail).2
      exact List.forall_mem_cons.mpr ⟨kind, ih read⟩
    | true =>
      obtain ⟨c', cs, split⟩ := List.exists_cons_of_ne_nil
        (List.append_ne_nil_of_right_ne_nil text (List.cons_ne_nil doubleQuote after))
      have length : cs.length = text.length + after.length := by
        have := congrArg List.length split
        simp only [List.length_append, List.length_cons] at this
        omega
      rw [split, readLiteral] at h
      -- after a backtick or a doubled quote too little is left for the rest of the value
      have short {x : Char} : (readLiteral cs).map (Prod.map (x :: ·) id) ≠
          some (c :: text, after) := by
        intro h
        obtain ⟨value, read, tail⟩ := of_map_cons h
        obtain rfl := (List.cons.inj tail).2
        have := readLiteral_length read
        omega
      split_ifs at h with dollar tick quote doubled
      · exact absurd h short
      · exact absurd h short
      · simp at h
      · simp [special, dollar, tick, quote] at kind

theorem readLiteral_eq_self_iff (closes : ∀ c ∈ after.head?, isDoubleQuote c = false) :
    readLiteral (text ++ doubleQuote :: after) = some (text, after) ↔
      ∀ c ∈ text, special c = false :=
  ⟨plain_of_readLiteral, fun plain => readLiteral_self plain closes⟩

theorem code_append (chars : ∀ c ∈ cs, codeChar c = true) (tail : Code rest) :
    Code (cs ++ rest) := by
  induction cs with
  | nil => exact tail
  | cons c cs ih =>
    obtain ⟨here, chars⟩ := List.forall_mem_cons.mp chars
    exact .char here (ih chars)

/-- Text behind a string closes it if it does not start with a quote. -/
theorem closes_of_head (head : after.head? = some c) (other : isDoubleQuote c = false) :
    ∀ c ∈ after.head?, isDoubleQuote c = false := by
  rw [head]
  simpa using other

theorem code_string (plain : ∀ c ∈ text, special c = false)
    (closes : ∀ c ∈ rest.head?, isDoubleQuote c = false) (tail : Code rest) :
    Code (doubleQuote :: (text ++ doubleQuote :: rest)) :=
  .string (readLiteral_self plain closes) tail

/-! ## The strings of a script -/

/-- The values of the double-quoted strings of a script, in order; `none` when one of them is
expanded, or when something stands between them that is not plain code. -/
def strings : List Char → Option (List (List Char))
  | [] => some []
  | c :: cs =>
    if c = doubleQuote then
      match h : readLiteral cs with
      | none => none
      | some (value, rest) =>
        have : rest.length < cs.length + 1 := by have := readLiteral_length h; omega
        (strings rest).map (value :: ·)
    else if codeChar c then strings cs else none
termination_by cs => cs.length

@[simp] theorem strings_nil : strings [] = some [] := by rw [strings]

/-- Code between strings adds none. -/
theorem strings_append (chars : ∀ c ∈ cs, codeChar c = true) (rest : List Char) :
    strings (cs ++ rest) = strings rest := by
  induction cs with
  | nil => rfl
  | cons c cs ih =>
    obtain ⟨here, chars⟩ := List.forall_mem_cons.mp chars
    have other : c ≠ doubleQuote := by
      rintro rfl
      exact absurd here (by decide)
    rw [List.cons_append, strings, if_neg other, if_pos here, ih chars]

theorem strings_code (chars : ∀ c ∈ cs, codeChar c = true) : strings cs = some [] := by
  simpa using strings_append chars []

theorem strings_string (plain : ∀ c ∈ text, special c = false)
    (closes : ∀ c ∈ rest.head?, isDoubleQuote c = false) :
    strings (doubleQuote :: (text ++ doubleQuote :: rest)) = (strings rest).map (text :: ·) := by
  rw [strings, if_pos rfl]
  split
  · next failed => simp [readLiteral_self plain closes] at failed
  · next value after read =>
    rw [readLiteral_self plain closes] at read
    obtain ⟨rfl, rfl⟩ := Prod.mk.inj (Option.some.inj read)
    rfl

end AcmeGitWebhook.Library.PowerShell
