import Mathlib.Data.List.Basic

/-!
# Character strings in zone-file text

How the data of a TXT record is written in a zone file: words and quoted strings between blanks,
with comments, parentheses that let the data go on over lines, and backslashes. `Reads` is what
such a text is read as.

## Main results

* `Reads.shorter`: a text with any of that is read as fewer bytes than it is written with.
* `Reads.eq_text_iff`: which texts are read as themselves.
-/

namespace AcmeGitWebhook.Library.ZoneText

def quote : Char := '\x22'

/-- A character as it is written: as it is, or behind a backslash. -/
inductive Piece where
  | char (c : Char)
  | escaped (c : Char)
  deriving DecidableEq, Repr

inductive Token where
  | identifier (value : List Piece)
  | quoted (value : List Piece)
  deriving DecidableEq, Repr

def Token.value : Token → List Piece
  | .identifier value => value
  | .quoted value => value

/-- Where the reader is, with what it has of the token there; an identifier that has nothing yet is
not begun. -/
inductive Mode where
  | plain (value : List Piece)
  | escape (value : List Piece)
  | quoted (value : List Piece)
  | quotedEscape (value : List Piece)
  | comment

def flush : List Piece → List Token
  | [] => []
  | value => [.identifier value]

/-- The tokens of the first line, which parentheses may continue; `depth` of them are open. -/
def lex : Mode → ℕ → List Char → Option (List Token)
  | .plain value, depth, [] => if depth = 0 then some (flush value) else none
  | .comment, depth, [] => if depth = 0 then some [] else none
  | _, _, [] => none
  | .plain value, depth, c :: cs =>
    if c = ' ' ∨ c = '\t' then (lex (.plain []) depth cs).map (flush value ++ ·)
    else if c = '\n' then
      if depth = 0 then some (flush value) else (lex (.plain []) depth cs).map (flush value ++ ·)
    else if c = ';' then (lex .comment depth cs).map (flush value ++ ·)
    else if c = '(' then (lex (.plain []) (depth + 1) cs).map (flush value ++ ·)
    else if c = ')' then
      if depth = 0 then none else (lex (.plain []) (depth - 1) cs).map (flush value ++ ·)
    else if c = quote then (lex (.quoted []) depth cs).map (flush value ++ ·)
    else if c = '\\' then lex (.escape value) depth cs
    else lex (.plain (value ++ [.char c])) depth cs
  | .escape value, depth, c :: cs =>
    if c = '\n' then none else lex (.plain (value ++ [.escaped c])) depth cs
  | .quoted value, depth, c :: cs =>
    if c = quote then (lex (.plain []) depth cs).map (.quoted value :: ·)
    else if c = '\n' then none
    else if c = '\\' then lex (.quotedEscape value) depth cs
    else lex (.quoted (value ++ [.char c])) depth cs
  | .quotedEscape value, depth, c :: cs => lex (.quoted (value ++ [.escaped c])) depth cs
  | .comment, depth, c :: cs =>
    if c = '\n' then if depth = 0 then some [] else lex (.plain []) depth cs
    else lex .comment depth cs

/-- The bytes of a token. A backslash before a digit starts a byte in three decimal digits;
`digit` gives the value of a character that counts as one. -/
def unescape (digit : Char → Option ℕ) : List Piece → Option (List UInt8)
  | [] => some []
  | .char c :: value => (unescape digit value).map (String.utf8EncodeChar c ++ ·)
  | .escaped c :: value =>
    match digit c with
    | none => (unescape digit value).map (String.utf8EncodeChar c ++ ·)
    | some x =>
      match value with
      | .char c' :: .char c'' :: value =>
        match digit c', digit c'' with
        | some y, some z =>
          if 100 * x + 10 * y + z ≤ 255 then
            (unescape digit value).map (UInt8.ofNat (100 * x + 10 * y + z) :: ·)
          else none
        | _, _ => none
      | _ => none

/-- The first word of data that is not written as character strings but in hexadecimal digits. -/
def generic : Token := .identifier [.escaped '#']

def read (digit : Char → Option ℕ) (text : List Char) : Option (List (List UInt8)) :=
  match lex (.plain []) 0 text with
  | none => none
  | some tokens =>
    if tokens.head? = some generic then none
    else
      (tokens.mapM fun token => unescape digit token.value).filter fun strings =>
        strings ≠ [] ∧ ∀ string ∈ strings, string.length ≤ 255

example : (read (fun _ => none) "a b;c".toList).map List.length = some 2 ∧
    read (fun _ => none) "\"a b;c\"".toList = some ["a b;c".toUTF8.toList] ∧
    read (fun _ => none) "a(b".toList = none ∧ read (fun _ => none) ";".toList = none := by
  decide +kernel

/-! ## How much is left of a text -/

def Piece.size : Piece → ℕ
  | .char c | .escaped c => c.utf8Size

def size : List Piece → ℕ
  | [] => 0
  | p :: value => p.size + size value

def total : List Token → ℕ
  | [] => 0
  | token :: tokens => size token.value + total tokens

def Mode.size : Mode → ℕ
  | .plain value | .escape value | .quoted value | .quotedEscape value => ZoneText.size value
  | .comment => 0

def bytes : List Char → ℕ
  | [] => 0
  | c :: text => c.utf8Size + bytes text

variable {mode : Mode} {depth : ℕ} {c : Char} {cs text : List Char} {value : List Piece}
  {tokens tokens' : List Token} {digit : Char → Option ℕ} {string : List UInt8}
  {strings : List (List UInt8)}

@[simp] theorem size_nil : size [] = 0 := rfl

@[simp] theorem size_cons (p : Piece) : size (p :: value) = p.size + size value := rfl

@[simp] theorem size_append (value' : List Piece) :
    size (value ++ value') = size value + size value' := by
  induction value with
  | nil => simp
  | cons p value ih => simp [ih, Nat.add_assoc]

@[simp] theorem bytes_cons : bytes (c :: cs) = c.utf8Size + bytes cs := rfl

@[simp] theorem total_nil : total [] = 0 := rfl

@[simp] theorem total_cons (token : Token) :
    total (token :: tokens) = size token.value + total tokens := rfl

@[simp] theorem total_append : total (tokens ++ tokens') = total tokens + total tokens' := by
  induction tokens with
  | nil => simp
  | cons token tokens ih => simp [ih, Nat.add_assoc]

@[simp] theorem total_flush : total (flush value) = size value := by
  cases value <;> simp [flush, Token.value]

/-- A separator ends the identifier that stands before it. -/
theorem total_ended {found : Option (List Token)} {n : ℕ}
    (h : found.map (flush value ++ ·) = some tokens)
    (le : ∀ {rest}, found = some rest → total rest ≤ 0 + n) : total tokens ≤ size value + n := by
  obtain ⟨rest, found, rfl⟩ := Option.map_eq_some_iff.mp h
  have := le found
  rw [total_append, total_flush]
  omega

/-- What the tokens have was there, or was read. -/
theorem lex_total (h : lex mode depth cs = some tokens) : total tokens ≤ mode.size + bytes cs := by
  fun_induction lex mode depth cs generalizing tokens with
  | case1 | case7 =>
    obtain rfl := Option.some.inj h
    simp [Mode.size]
  | case3 | case23 =>
    obtain rfl := Option.some.inj h
    simp
  | case2 | case4 | case5 | case11 | case16 | case19 => cases h
  | case6 | case8 | case9 | case10 | case12 | case13 =>
    rename_i ih
    have := total_ended h ih
    simp only [Mode.size, bytes_cons] at this ⊢
    omega
  | case18 _ _ _ ih =>
    obtain ⟨rest, read, rfl⟩ := Option.map_eq_some_iff.mp h
    have := ih read
    simp only [Mode.size, size_nil, bytes_cons, total_cons, Token.value] at this ⊢
    omega
  | case14 | case20 | case24 | case25 =>
    rename_i ih
    have := ih h
    simp only [Mode.size, size_nil, bytes_cons] at this ⊢
    omega
  | case15 | case17 | case21 | case22 =>
    rename_i ih
    have := ih h
    simp only [Mode.size, size_append, size_cons, size_nil, Piece.size, bytes_cons] at this ⊢
    omega

/-- A character that separates or escapes. -/
def special (c : Char) : Bool := c ∈ [' ', '\t', '\n', ';', '(', ')', quote, '\\']

theorem lex_ordinary (ordinary : special c = false) : lex (.plain value) depth (c :: cs) =
    lex (.plain (value ++ [.char c])) depth cs := by
  simp only [special, decide_eq_false_iff_not, List.mem_cons, List.not_mem_nil, or_false,
    not_or] at ordinary
  simp [lex, ordinary]

/-- A special character outside of quotes is not in the tokens. -/
theorem lex_special (h : lex (.plain value) depth (c :: cs) = some tokens)
    (here : special c = true) : total tokens ≤ size value + bytes cs := by
  rw [lex] at h
  split_ifs at h
  · exact total_ended h lex_total
  · obtain rfl := Option.some.inj h
    simp
  · exact total_ended h lex_total
  · exact total_ended h lex_total
  · exact total_ended h lex_total
  · exact total_ended h lex_total
  · exact total_ended h lex_total
  · exact lex_total h
  · simp_all [special]

theorem lex_shorter (h : lex (.plain value) depth cs = some tokens)
    (some : ∃ c ∈ cs, special c = true) : total tokens < size value + bytes cs := by
  induction cs generalizing value with
  | nil => simp at some
  | cons c cs ih =>
    have pos := c.utf8Size_pos
    cases here : special c with
    | true =>
      have := lex_special h here
      rw [bytes_cons]
      omega
    | false =>
      rw [lex_ordinary here] at h
      have := ih h (by simpa [here] using some)
      simp only [size_append, size_cons, size_nil, Piece.size, bytes_cons] at this ⊢
      omega

theorem lex_plain (plain : ∀ c ∈ cs, special c = false) :
    lex (.plain value) 0 cs = some (flush (value ++ cs.map .char)) := by
  induction cs generalizing value with
  | nil => simp [lex]
  | cons c cs ih =>
    obtain ⟨here, plain⟩ := List.forall_mem_cons.mp plain
    rw [lex_ordinary here, ih plain]
    simp

theorem unescape_length (h : unescape digit value = some string) :
    string.length ≤ size value := by
  fun_induction unescape digit value generalizing string with
  | case1 =>
    obtain rfl := Option.some.inj h
    simp
  | case2 | case3 =>
    rename_i ih
    obtain ⟨rest, read, rfl⟩ := Option.map_eq_some_iff.mp h
    have := ih read
    simp only [List.length_append, String.length_utf8EncodeChar, size_cons, Piece.size]
    omega
  | case4 c _ _ c' c'' value _ _ _ _ _ ih =>
    -- one byte for three digits
    obtain ⟨rest, read, rfl⟩ := Option.map_eq_some_iff.mp h
    have := ih read
    have := c.utf8Size_pos
    simp only [List.length_cons, size_cons, Piece.size]
    omega
  | case5 | case6 | case7 => cases h

theorem unescape_plain : unescape digit (cs.map .char) =
    some (cs.flatMap String.utf8EncodeChar) := by
  induction cs with
  | nil => rfl
  | cons c cs ih => simp [unescape, ih]

/-! ## What a text is read as -/

/-- The text is data made of these character strings, written as strings or, with the first word
that says so, in hexadecimal digits, of which a byte has two. -/
inductive Reads (digit : Char → Option ℕ) (text : List Char) (strings : List (List UInt8)) : Prop
  | strings : read digit text = some strings → Reads digit text strings
  | generic (tokens : List Token) : lex (.plain []) 0 text = some (generic :: tokens) →
      2 * strings.flatten.length ≤ total tokens → Reads digit text strings

theorem flatten_length (h : tokens.mapM (fun token => unescape digit token.value) = some strings) :
    strings.flatten.length ≤ total tokens := by
  induction tokens generalizing strings with
  | nil =>
    obtain rfl := Option.some.inj h
    simp
  | cons token tokens ih =>
    rw [List.mapM_cons] at h
    obtain ⟨string, here, h⟩ := Option.bind_eq_some_iff.mp h
    obtain ⟨strings, rest, h⟩ := Option.bind_eq_some_iff.mp h
    obtain rfl := Option.some.inj h
    have := ih rest
    have := unescape_length here
    rw [List.flatten_cons, List.length_append, total_cons]
    omega

theorem read_eq_some (h : read digit text = some strings) :
    ∃ tokens, lex (.plain []) 0 text = some tokens ∧
      tokens.mapM (fun token => unescape digit token.value) = some strings ∧ strings ≠ [] := by
  unfold read at h
  split at h
  · cases h
  next tokens lexed =>
    split_ifs at h
    obtain ⟨found, kept⟩ := Option.filter_eq_some_iff.mp h
    exact ⟨tokens, lexed, found, (of_decide_eq_true kept).1⟩

/-- What separates or escapes takes bytes that the data do not have. -/
theorem Reads.shorter (h : Reads digit text strings) (some : ∃ c ∈ text, special c = true) :
    strings.flatten.length < bytes text := by
  cases h with
  | strings h =>
    obtain ⟨tokens, lexed, found, -⟩ := read_eq_some h
    have := flatten_length found
    have := lex_shorter lexed some
    rw [size_nil] at this
    omega
  | generic tokens lexed half =>
    have := lex_shorter lexed some
    rw [size_nil, total_cons] at this
    omega

theorem Reads.of_plain (h : Reads digit text strings) (plain : ∀ c ∈ text, special c = false) :
    strings = [text.flatMap String.utf8EncodeChar] := by
  have lexed : lex (.plain []) 0 text = some (flush (text.map .char)) := lex_plain plain
  cases h with
  | strings h =>
    obtain ⟨tokens, lexed', found, nonempty⟩ := read_eq_some h
    obtain rfl := Option.some.inj (lexed.symm.trans lexed')
    cases text with
    | nil =>
      obtain rfl := Option.some.inj found
      exact absurd rfl nonempty
    | cons c cs =>
      have one : flush ((c :: cs).map .char) = [.identifier ((c :: cs).map .char)] := rfl
      rw [one, List.mapM_cons, Token.value, unescape_plain] at found
      exact (Option.some.inj found).symm
  | generic tokens lexed' _ =>
    have same := Option.some.inj (lexed.symm.trans lexed')
    cases text with
    | nil => cases same
    | cons c cs => simp [flush, ZoneText.generic] at same

theorem bytes_eq : bytes text = (text.flatMap String.utf8EncodeChar).length := by
  induction text with
  | nil => rfl
  | cons c cs ih => rw [bytes_cons, ih, List.flatMap_cons, List.length_append,
      String.length_utf8EncodeChar]

/-- The data are the text itself exactly when nothing in it separates or escapes. -/
theorem Reads.eq_text_iff (h : Reads digit text strings) :
    strings.flatten = text.flatMap String.utf8EncodeChar ↔ ∀ c ∈ text, special c = false := by
  constructor
  · intro same
    by_contra odd
    push Not at odd
    have shorter := h.shorter (by simpa using odd)
    rw [same, bytes_eq] at shorter
    exact absurd shorter (Nat.lt_irrefl _)
  · intro plain
    rw [h.of_plain plain]
    simp

end AcmeGitWebhook.Library.ZoneText
