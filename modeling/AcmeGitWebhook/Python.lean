import AcmeGitWebhook.Library.Base64
import AcmeGitWebhook.Library.Replace
import Mathlib.Data.Int.Log
import Mathlib.Data.List.Infix
import Mathlib.Data.Rat.Floor

/-!
# The parts of Python the service leans on

Errors as values, `int` on strings, division of integers to a double, parsed ISO dates, and
JSON values as `json.loads` returns them. Only the texts that the repository itself writes
are kept in an error; those of Python's own errors are read by no code here.
-/

namespace AcmeGitWebhook

/-- The exceptions the modelled functions can raise. -/
inductive PyError where
  | valueError (message : String)
  | typeError
  | attributeError
  | keyError (key : String)
  | zoneInfoNotFoundError (key : String)
  | osError
  | fileNotFoundError (message : String)
  | runtimeError (message : String)
  | library (name : String)
  deriving DecidableEq, Repr

namespace Python

/-- Code points that are the digit zero of a decimal script; the nine after each are its
other digits. `int` accepts them all. -/
def decimalZeros : List Nat :=
  [0x30, 0x660, 0x6f0, 0x7c0, 0x966, 0x9e6, 0xa66, 0xae6, 0xb66, 0xbe6, 0xc66, 0xce6, 0xd66,
   0xde6, 0xe50, 0xed0, 0xf20, 0x1040, 0x1090, 0x17e0, 0x1810, 0x1946, 0x19d0, 0x1a80, 0x1a90,
   0x1b50, 0x1bb0, 0x1c40, 0x1c50, 0xa620, 0xa8d0, 0xa900, 0xa9d0, 0xa9f0, 0xaa50, 0xabf0,
   0xff10, 0x104a0, 0x10d30, 0x11066, 0x110f0, 0x11136, 0x111d0, 0x112f0, 0x11450, 0x114d0,
   0x11650, 0x116c0, 0x11730, 0x118e0, 0x11950, 0x11c50, 0x11d50, 0x11da0, 0x16a60, 0x16ac0,
   0x16b50, 0x1d7ce, 0x1d7d8, 0x1d7e2, 0x1d7ec, 0x1d7f6, 0x1e140, 0x1e2f0, 0x1e950, 0x1fbf0]

def digit? (c : Char) : Option Nat :=
  (decimalZeros.find? (fun base => base ≤ c.toNat && c.toNat < base + 10)).map (c.toNat - ·)

/-- `str.isspace` for one character. -/
def isSpace (c : Char) : Bool :=
  let n := c.toNat
  (9 ≤ n && n ≤ 13) || (0x1c ≤ n && n ≤ 0x20) || (0x2000 ≤ n && n ≤ 0x200a) ||
    n ∈ [0x85, 0xa0, 0x1680, 0x2028, 0x2029, 0x202f, 0x205f, 0x3000]

/-- The digits after a digit: underscores may stand between digits, one at a time. -/
def digits : Nat → List Char → Option Nat
  | acc, [] => some acc
  | acc, '_' :: c :: cs => (digit? c).bind (fun d => digits (acc * 10 + d) cs)
  | acc, c :: cs => (digit? c).bind (fun d => digits (acc * 10 + d) cs)

def natural : List Char → Option Nat
  | [] => none
  | c :: cs => (digit? c).bind (fun d => digits d cs)

def strip (cs : List Char) : List Char :=
  ((cs.dropWhile isSpace).reverse.dropWhile isSpace).reverse

/-- `int(text)`: surrounding blanks and one sign are allowed. -/
def int (text : List Char) : Option Int :=
  match strip text with
  | '-' :: cs => (natural cs).map (fun n => -(n : Int))
  | '+' :: cs => (natural cs).map Int.ofNat
  | cs => (natural cs).map Int.ofNat

example : int " +0_8 ".toList = some 8 ∧ int "8:".toList = none ∧ int "٨".toList = some 8 := by
  decide

/-! ## Doubles -/

/-- The double nearest to a rational, to even on a tie. Doubles too large or too close to
zero for this are out of reach of the dates the service divides. -/
def roundDouble (q : ℚ) : ℚ :=
  if q = 0 then 0
  else
    let scale : ℚ := 2 ^ (52 - Int.log 2 |q|)
    let n := ⌊q * scale⌋
    let rest := q * scale - n
    let even := if n % 2 = 0 then n else n + 1
    (if rest < 1 / 2 then n else if 1 / 2 < rest then n + 1 else even) / scale

/-- `a / b * c` on integers, in double arithmetic. -/
def scaledRatio (a b c : Int) : ℚ := roundDouble (roundDouble (a / b) * c)

example : scaledRatio 29 100 100 < 29 ∧ scaledRatio 3 20 100 = 15 := by decide +kernel

/-! ## Strings -/

/-- `text.removeprefix(start)`. -/
def removePrefix (start text : String) : String :=
  if start.toList <+: text.toList then String.ofList (text.toList.drop start.length) else text

/-- `text.encode()`. -/
def encode (text : String) : List UInt8 := text.toList.flatMap String.utf8EncodeChar

/-- `base64.b64encode(data).decode()`. -/
def b64encode (data : List UInt8) : List Char := Library.Base64.encode data

/-- `separator.join(parts)`. -/
def join (separator : String) (parts : List String) : String :=
  String.ofList (List.intercalate separator.toList (parts.map String.toList))

/-- `text.replace(old, new)` for one character. -/
def replace (old : Char) (new text : String) : String :=
  String.ofList (text.toList.flatMap fun c => if c = old then new.toList else [c])

/-- `text.replace(old, new)`, for an `old` that is not empty. -/
def replaceAll (old new text : String) : String :=
  String.ofList (Library.replaceAll old.toList new.toList text.toList)

theorem replaceAll_toList (old new text : String) :
    (replaceAll old new text).toList = Library.replaceAll old.toList new.toList text.toList :=
  String.toList_ofList

/-- `part in text`. -/
def contains (text part : String) : Bool := part.toList <:+: text.toList

/-- `text.split(separator)` at one character. -/
def split (separator : Char) (text : String) : List String :=
  (text.toList.splitOn separator).map String.ofList

end Python

/-! ## Dates and JSON -/

/-- What `datetime.fromisoformat` returns: a wall time, with its offset when it has one. -/
structure IsoTime where
  wall : Int
  offset : Option Int
  deriving DecidableEq, Repr

/-- The instant a date with an offset stands for. -/
def IsoTime.instant? : IsoTime → Option Int
  | ⟨wall, some offset⟩ => some (wall - offset)
  | ⟨_, none⟩ => none

/-- The time between two dates; a naive and an aware one cannot be subtracted. -/
def IsoTime.sub? : IsoTime → IsoTime → Option Int
  | ⟨w, none⟩, ⟨w', none⟩ => some (w - w')
  | ⟨w, some o⟩, ⟨w', some o'⟩ => some ((w - o) - (w' - o'))
  | _, _ => none

inductive Json where
  | null
  | bool (b : Bool)
  | number (q : ℚ)
  | string (s : String)
  | array (items : List Json)
  | object (fields : List (String × Json))

/-- `bool(value)`. -/
def Json.truthy : Json → Bool
  | .null => false
  | .bool b => b
  | .number q => q ≠ 0
  | .string s => s ≠ ""
  | .array items => !items.isEmpty
  | .object fields => !fields.isEmpty

end AcmeGitWebhook
