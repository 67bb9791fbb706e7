import AcmeGitWebhook.Library.Replace

/-!
# Words of a shell command line

`split` reads a command line into words by the rules of a POSIX shell for quotes and backslashes,
without expansions and comments, and `quote` writes a text as one word. The reading is a state
machine; `Words` says which pieces of the text its words are written as.

## Main results

* `readWords_of_words`, `exists_words`: `split` reads each piece for itself.
* `quote_word`, `value_quote`: a quoted text can stand wherever a word may begin or go on, and is
  read as that text.
-/

namespace AcmeGitWebhook.Library.Shell

def singleQuote : Char := '\x27'

def doubleQuote : Char := '\x22'

def backslash : Char := '\\'

def isSpace (c : Char) : Bool := c ∈ [' ', '\t', '\r', '\n']

/-- A character that is only a character wherever it stands. -/
def ordinary (c : Char) : Bool := !isSpace c && c ∉ [singleQuote, doubleQuote, backslash]

/-- What the reader is in: white space, a word, one of its quotes, or behind a backslash. -/
inductive Mode where
  | between
  | word
  | single
  | double
  | escape
  | escapeDouble
  deriving DecidableEq, Repr

def Mode.next : Mode → Char → Mode
  | .between, c | .word, c =>
    if isSpace c then .between
    else if c = singleQuote then .single
    else if c = doubleQuote then .double
    else if c = backslash then .escape
    else .word
  | .single, c => if c = singleQuote then .word else .single
  | .double, c =>
    if c = doubleQuote then .word else if c = backslash then .escapeDouble else .double
  | .escape, _ => .word
  | .escapeDouble, _ => .double

/-- What a character adds to the word. In double quotes a backslash escapes itself and the quote
only, and is kept otherwise. -/
def Mode.emit : Mode → Char → List Char
  | .between, c | .word, c => if ordinary c then [c] else []
  | .single, c => if c = singleQuote then [] else [c]
  | .double, c => if c = doubleQuote ∨ c = backslash then [] else [c]
  | .escape, c => [c]
  | .escapeDouble, c => if c = doubleQuote ∨ c = backslash then [c] else [backslash, c]

/-- Read on with a word begun. There is no result when a quote is not closed or a backslash stands
last. -/
def readWords : Mode → List Char → List Char → Option (List (List Char))
  | .between, _, [] => some []
  | .word, token, [] => some [token]
  | _, _, [] => none
  | mode, token, c :: cs =>
    if mode = .word ∧ isSpace c then (readWords .between [] cs).map (token :: ·)
    else readWords (mode.next c) (token ++ mode.emit c) cs

def split (line : String) : Option (List String) :=
  (readWords .between [] line.toList).map (·.map String.ofList)

/-- The characters that `quote` leaves without quotes. -/
def isSafe (c : Char) : Bool :=
  ('A' ≤ c && c ≤ 'Z') || ('a' ≤ c && c ≤ 'z') || ('0' ≤ c && c ≤ '9') || c ∈ "_@%+=:,./-".toList

/-- A single quote cannot stand in single quotes: it is put in double quotes of its own. -/
def inSingleQuotes (text : List Char) : List Char :=
  text.flatMap fun c =>
    if c = singleQuote then [singleQuote, doubleQuote, singleQuote, doubleQuote, singleQuote]
    else [c]

def quote (text : String) : String :=
  if text.toList = [] then String.ofList [singleQuote, singleQuote]
  else if text.toList.all isSafe then text
  else String.ofList (singleQuote :: inSingleQuotes text.toList ++ [singleQuote])

example : split "a\\ b 'c d'\"e\\\"f\" ''" = some ["a b", "c de\"f", ""] ∧ split "it's" = none ∧
    quote "it's" = "'it'\"'\"'s'" ∧ quote "www.example.com" = "www.example.com" := by
  decide +kernel

/-! ## Modes -/

def Mode.scan (mode : Mode) (cs : List Char) : Mode := cs.foldl Mode.next mode

/-- No word is ended. -/
def Mode.Stays : Mode → List Char → Prop
  | _, [] => True
  | mode, c :: cs => mode.next c ≠ .between ∧ (mode.next c).Stays cs

/-- What is read up to the end of the word. -/
def Mode.value : Mode → List Char → List Char
  | _, [] => []
  | mode, c :: cs => mode.emit c ++ (mode.next c).value cs

/-- Outside of quotes, and not behind a backslash. -/
def Mode.Outside (mode : Mode) : Prop := mode = .between ∨ mode = .word

/-- Where an ordinary character leads. -/
def Mode.settled : Mode → Mode
  | .between | .word | .escape => .word
  | .single => .single
  | .double | .escapeDouble => .double

/-- A piece of a line that is read as one word. -/
def Word (piece : List Char) : Prop :=
  Mode.Stays .between piece ∧ Mode.scan .between piece = .word

/-- The line is white space and these pieces, each of which is a word. -/
inductive Words : List Char → List (List Char) → Prop
  | nil : Words [] []
  | space {c : Char} {line : List Char} {pieces : List (List Char)} :
      isSpace c = true → Words line pieces → Words (c :: line) pieces
  | last {piece : List Char} : Word piece → Words piece [piece]
  | word {piece : List Char} {c : Char} {line : List Char} {pieces : List (List Char)} :
      Word piece → isSpace c = true → Words line pieces →
      Words (piece ++ c :: line) (piece :: pieces)

variable {mode : Mode} {c : Char} {cs a b token text line : List Char}
  {words pieces : List (List Char)}

@[simp] theorem scan_nil : mode.scan [] = mode := rfl

@[simp] theorem scan_cons : mode.scan (c :: cs) = (mode.next c).scan cs := rfl

theorem scan_append : mode.scan (a ++ b) = (mode.scan a).scan b := List.foldl_append

theorem stays_append : mode.Stays (a ++ b) ↔ mode.Stays a ∧ (mode.scan a).Stays b := by
  induction a generalizing mode with
  | nil => simp [Mode.Stays]
  | cons c a ih => simp [Mode.Stays, ih, and_assoc]

theorem value_append : mode.value (a ++ b) = mode.value a ++ (mode.scan a).value b := by
  induction a generalizing mode with
  | nil => rfl
  | cons c a ih => simp [Mode.value, ih]

@[simp] theorem settled_settled : mode.settled.settled = mode.settled := by cases mode <;> rfl

theorem settled_ne_between : mode.settled ≠ .between := by cases mode <;> simp [Mode.settled]

theorem ordinary_iff : ordinary c = true ↔
    isSpace c = false ∧ c ≠ singleQuote ∧ c ≠ doubleQuote ∧ c ≠ backslash := by
  simp [ordinary]

theorem next_ordinary (h : ordinary c = true) : mode.next c = mode.settled := by
  obtain ⟨space, single, double, escape⟩ := ordinary_iff.mp h
  cases mode <;> simp [Mode.next, Mode.settled, space, single, double, escape]

theorem scan_ordinary (nonempty : cs ≠ []) (h : ∀ c ∈ cs, ordinary c = true) :
    mode.scan cs = mode.settled := by
  induction cs generalizing mode with
  | nil => exact absurd rfl nonempty
  | cons c cs ih =>
    obtain ⟨here, h⟩ := List.forall_mem_cons.mp h
    rw [scan_cons, next_ordinary here]
    cases cs with
    | nil => rfl
    | cons d cs => rw [ih (by simp) h, settled_settled]

theorem stays_ordinary (h : ∀ c ∈ cs, ordinary c = true) : mode.Stays cs := by
  induction cs generalizing mode with
  | nil => trivial
  | cons c cs ih =>
    obtain ⟨here, h⟩ := List.forall_mem_cons.mp h
    exact ⟨next_ordinary here ▸ settled_ne_between, ih h⟩

theorem value_ordinary (outside : mode.Outside) (h : ∀ c ∈ cs, ordinary c = true) :
    mode.value cs = cs := by
  induction cs generalizing mode with
  | nil => rfl
  | cons c cs ih =>
    obtain ⟨here, h⟩ := List.forall_mem_cons.mp h
    rw [Mode.value, next_ordinary here]
    rcases outside with rfl | rfl
    · simp [Mode.emit, here, Mode.settled, ih (.inr rfl) h]
    · simp [Mode.emit, here, Mode.settled, ih (.inr rfl) h]

theorem scan_outside (outside : mode.Outside)
    (plain : ∀ c ∈ cs, c ∉ [singleQuote, doubleQuote, backslash]) : (mode.scan cs).Outside := by
  induction cs generalizing mode with
  | nil => exact outside
  | cons c cs ih =>
    obtain ⟨here, plain⟩ := List.forall_mem_cons.mp plain
    simp only [List.mem_cons, List.not_mem_nil, or_false, not_or] at here
    refine ih ?_ plain
    rcases outside with rfl | rfl
    all_goals
      simp only [Mode.next, here, if_false, Mode.Outside]
      split_ifs <;> simp

theorem next_space (outside : mode.Outside) (space : isSpace c = true) :
    mode.next c = .between := by
  rcases outside with rfl | rfl <;> simp [Mode.next, space]

/-! ## Quoted text -/

theorem isSafe_ordinary (safe : isSafe c = true) : ordinary c = true := by
  by_contra odd
  have cases : c ∈ [' ', '\t', '\r', '\n', singleQuote, doubleQuote, backslash] := by
    simp only [ordinary, isSpace, Bool.and_eq_true, Bool.not_eq_true', decide_eq_false_iff_not,
      decide_eq_true_eq, not_and_or, not_not, ← List.mem_append] at odd
    exact odd
  have unsafes : [' ', '\t', '\r', '\n', singleQuote, doubleQuote, backslash].all
      (!isSafe ·) = true := by decide +kernel
  have := List.all_eq_true.mp unsafes c cases
  simp [safe] at this

/-- Within single quotes the text is read as it is, and the reader stays there. -/
theorem single_inSingleQuotes (text : List Char) :
    Mode.scan .single (inSingleQuotes text) = .single ∧
      Mode.Stays .single (inSingleQuotes text) ∧
      Mode.value .single (inSingleQuotes text) = text := by
  induction text with
  | nil => exact ⟨rfl, trivial, rfl⟩
  | cons c text ih =>
    obtain ⟨scan, stays, value⟩ := ih
    rw [inSingleQuotes, List.flatMap_cons, ← inSingleQuotes]
    split_ifs with quoted
    · subst quoted
      -- out of the quotes, a quoted quote, and in again
      have around : Mode.Stays .single
          [singleQuote, doubleQuote, singleQuote, doubleQuote, singleQuote] := by
        simp only [Mode.Stays]
        decide
      exact ⟨scan, stays_append.mpr ⟨around, stays⟩, congrArg (singleQuote :: ·) value⟩
    · have stay : Mode.next .single c = .single := by simp [Mode.next, quoted]
      simp [Mode.Stays, Mode.value, Mode.emit, stay, quoted, scan, stays, value]

/-- Wherever a word may begin or go on, a quoted text is a piece of it that is read as the text. -/
theorem outside_quote (outside : mode.Outside) (text : String) :
    mode.scan (quote text).toList = .word ∧ mode.Stays (quote text).toList ∧
      mode.value (quote text).toList = text.toList := by
  have opens : mode.next singleQuote = .single := by rcases outside with rfl | rfl <;> rfl
  have silent : mode.emit singleQuote = [] := by rcases outside with rfl | rfl <;> rfl
  have closes : Mode.next .single singleQuote = .word := rfl
  have closes' : Mode.emit .single singleQuote = [] := rfl
  unfold quote
  split_ifs with empty safe
  · simp [opens, silent, closes, closes', empty, Mode.Stays, Mode.value]
  · have settles : mode.settled = .word := by rcases outside with rfl | rfl <;> rfl
    have chars : ∀ c ∈ text.toList, ordinary c = true := fun c mem =>
      isSafe_ordinary (List.all_eq_true.mp safe c mem)
    exact ⟨(scan_ordinary empty chars).trans settles, stays_ordinary chars,
      value_ordinary outside chars⟩
  · obtain ⟨scan, stays, value⟩ := single_inSingleQuotes text.toList
    simp [opens, silent, closes, closes', scan_append, stays_append, value_append, scan, stays,
      value, Mode.Stays, Mode.value]

/-! ## The pieces of a line -/

theorem readWords_stays (stays : mode.Stays a) :
    readWords mode token (a ++ b) = readWords (mode.scan a) (token ++ mode.value a) b := by
  induction a generalizing mode token with
  | nil => simp [Mode.value]
  | cons c a ih =>
    obtain ⟨here, stays⟩ := stays
    have goes : ¬ (mode = .word ∧ isSpace c = true) := fun ⟨word, space⟩ =>
      here (next_space (.inr word) space)
    rw [List.cons_append, readWords, if_neg goes, ih stays, scan_cons, Mode.value,
      List.append_assoc]

theorem readWords_of_words (h : Words line pieces) :
    readWords .between [] line = some (pieces.map (Mode.value .between)) := by
  induction h with
  | nil => rfl
  | space space _ ih =>
    rw [readWords, if_neg (by simp), next_space (.inl rfl) space]
    simpa [Mode.emit, ordinary, space] using ih
  | @last piece word =>
    have read : readWords .between [] (piece ++ []) = _ := readWords_stays word.1
    rw [word.2] at read
    simpa [readWords] using read
  | word word space _ ih =>
    rw [readWords_stays word.1, word.2, readWords, if_pos ⟨rfl, space⟩, ih]
    rfl

/-- There is a result unless a quote or an escape is open at the end. -/
theorem readWords_isSome : (readWords mode token line).isSome = true ↔
    (mode.scan line).Outside := by
  fun_induction readWords mode token line with
  | case1 => simp [Mode.Outside]
  | case2 => simp [Mode.Outside]
  | case3 mode _ between word =>
    cases mode with
    | between => exact absurd rfl between
    | word => exact absurd rfl word
    | _ => simp [Mode.Outside]
  | case4 mode token c cs ends ih =>
    obtain ⟨rfl, space⟩ := ends
    simpa [next_space (.inr rfl) space] using ih
  | case5 mode token c cs goes ih => exact ih

theorem next_eq_between (h : mode.next c = .between) : mode.Outside ∧ isSpace c = true := by
  cases mode with
  | between | word =>
    refine ⟨by simp [Mode.Outside], ?_⟩
    by_contra space
    simp only [Mode.next, if_neg space] at h
    split_ifs at h
  | single => simp only [Mode.next] at h; split_ifs at h
  | double => simp only [Mode.next] at h; split_ifs at h
  | escape | escapeDouble => cases h

/-- A word that is begun goes on to a space or to the end. -/
theorem exists_piece (begun : mode ≠ .between) (closed : (mode.scan line).Outside) :
    ∃ piece rest, line = piece ++ rest ∧ mode.Stays piece ∧ mode.scan piece = .word ∧
      ∀ c ∈ rest.head?, isSpace c = true := by
  induction line generalizing mode with
  | nil => exact ⟨[], [], rfl, trivial, closed.resolve_left begun, by simp⟩
  | cons c line ih =>
    by_cases ends : mode.next c = .between
    · obtain ⟨outside, space⟩ := next_eq_between ends
      exact ⟨[], c :: line, rfl, trivial, outside.resolve_left begun, by simpa using space⟩
    · obtain ⟨piece, rest, rfl, stays, scan, space⟩ := ih ends closed
      exact ⟨c :: piece, rest, rfl, ⟨ends, stays⟩, scan, space⟩

theorem exists_words (closed : (Mode.scan .between line).Outside) :
    ∃ pieces, Words line pieces := by
  induction length : line.length using Nat.strong_induction_on generalizing line with
  | _ n ih =>
    subst length
    cases line with
    | nil => exact ⟨[], .nil⟩
    | cons c line =>
      by_cases space : Mode.next .between c = .between
      · rw [scan_cons, space] at closed
        obtain ⟨pieces, words⟩ := ih _ (by simp) closed rfl
        exact ⟨pieces, .space (next_eq_between space).2 words⟩
      · obtain ⟨piece, rest, rfl, stays, scan, spaces⟩ := exists_piece space closed
        have word : Word (c :: piece) := ⟨⟨space, stays⟩, scan⟩
        cases rest with
        | nil => exact ⟨[c :: piece], by simpa using Words.last word⟩
        | cons d rest =>
          have space : isSpace d = true := spaces d rfl
          rw [scan_cons, scan_append, scan, scan_cons, next_space (.inr rfl) space] at closed
          obtain ⟨pieces, words⟩ := ih _ (by simp; omega) closed rfl
          exact ⟨(c :: piece) :: pieces, .word word space words⟩

/-- A line that ends between words can be followed by another one. -/
theorem Words.append {pieces' : List (List Char)} (h : Words a pieces)
    (ends : Mode.scan .between a = .between) (h' : Words b pieces') :
    Words (a ++ b) (pieces ++ pieces') := by
  induction h with
  | nil => exact h'
  | space space words ih =>
    rw [scan_cons, next_space (.inl rfl) space] at ends
    exact .space space (ih ends)
  | last word => simp [word.2] at ends
  | word word space words ih =>
    rw [scan_append, word.2, scan_cons, next_space (.inr rfl) space] at ends
    rw [List.append_assoc]
    exact .word word space (ih ends)

/-- Where a piece stands in the line. -/
theorem Words.mem {piece : List Char} (h : Words line pieces) (mem : piece ∈ pieces) :
    ∃ before after, line = before ++ piece ++ after ∧ Mode.scan .between before = .between ∧
      Word piece := by
  induction h with
  | nil => simp at mem
  | space space words ih =>
    obtain ⟨before, after, rfl, scan, word⟩ := ih mem
    exact ⟨_ :: before, after, rfl, by rwa [scan_cons, next_space (.inl rfl) space], word⟩
  | last word =>
    obtain rfl := List.mem_singleton.mp mem
    exact ⟨[], [], by simp, rfl, word⟩
  | @word piece' c line pieces word space words ih =>
    rcases List.mem_cons.mp mem with rfl | mem
    · exact ⟨[], c :: line, rfl, rfl, word⟩
    · obtain ⟨before, after, rfl, scan, word'⟩ := ih mem
      refine ⟨piece' ++ c :: before, after, by simp, ?_, word'⟩
      rwa [scan_append, word.2, scan_cons, next_space (.inr rfl) space]

/-! ## Rewriting a line word by word -/

/-- The function works on each side of a space for itself. -/
structure Wordwise (f : List Char → List Char) : Prop where
  nil : f [] = []
  space : ∀ a c b, isSpace c = true → f (a ++ c :: b) = f a ++ c :: f b

theorem Words.map {f : List Char → List Char} (wordwise : Wordwise f) (h : Words line pieces)
    (keeps : ∀ piece ∈ pieces, Word piece → Word (f piece)) :
    Words (f line) (pieces.map f) := by
  induction h with
  | nil => rw [wordwise.nil]; exact .nil
  | @space c line pieces space words ih =>
    have cut : f (c :: line) = c :: f line := by
      simpa [wordwise.nil] using wordwise.space [] c line space
    exact cut ▸ .space space (ih keeps)
  | last word => exact .last (keeps _ (by simp) word)
  | word word space words ih =>
    obtain ⟨here, keeps⟩ := List.forall_mem_cons.mp keeps
    rw [wordwise.space _ _ _ space, List.map_cons]
    exact .word (here word) space (ih keeps)

theorem Wordwise.comp {f g : List Char → List Char} (hf : Wordwise f) (hg : Wordwise g) :
    Wordwise (f ∘ g) where
  nil := by rw [Function.comp_apply, hg.nil, hf.nil]
  space a c b space := by
    simp only [Function.comp_apply, hg.space _ _ _ space, hf.space _ _ _ space]

theorem wordwise_replaceAll {old new : List Char} (nonempty : old ≠ [])
    (plain : ∀ c ∈ old, ordinary c = true) : Wordwise (replaceAll old new) where
  nil := rfl
  space a c b space := by
    refine replaceAll_append_cons nonempty fun mem => ?_
    rw [(ordinary_iff.mp (plain c mem)).1] at space
    cases space

/-- Where `old` stands, `new` leads the reader to the same place without ending a word. -/
theorem replaceAll_scan {old new : List Char} (nonempty : old ≠ [])
    (same : ∀ a b, text = a ++ old ++ b →
      (mode.scan a).Stays new ∧ (mode.scan a).scan new = (mode.scan a).scan old)
    (stays : mode.Stays text) :
    mode.Stays (replaceAll old new text) ∧
      mode.scan (replaceAll old new text) = mode.scan text := by
  induction text using replace_induction nonempty generalizing mode with
  | nil => exact ⟨stays, rfl⟩
  | occurrence cs ih =>
    obtain ⟨stays', scan⟩ := same [] cs (by simp)
    obtain ⟨stays'', scan'⟩ := @ih (mode.scan old)
      (fun a b eq => by
        have := same (old ++ a) b (by simp [eq])
        rwa [scan_append] at this)
      (stays_append.mp stays).2
    rw [scan_nil] at stays' scan
    rw [replaceAll_append_left nonempty, stays_append, scan_append, scan_append, scan]
    exact ⟨⟨stays', stays''⟩, scan'⟩
  | other c cs other ih =>
    obtain ⟨stays', scan⟩ := @ih (mode.next c)
      (fun a b eq => same (c :: a) b (by simp [eq])) stays.2
    rw [replaceAll_cons other]
    exact ⟨⟨stays.1, stays'⟩, scan⟩

end AcmeGitWebhook.Library.Shell
