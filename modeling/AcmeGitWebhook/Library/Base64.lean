import Mathlib.Data.List.Basic

/-!
# Base64

Bytes written as characters that stand for six bits each, in groups of four for three bytes, the
last group filled up with `=`. `decode_encode` is the round trip; a reader need not look at the
bits of the last group that belong to no byte.
-/

namespace AcmeGitWebhook.Library.Base64

def alphabet : List Char :=
  "ABCDEFGHIJKLMNOPQRSTUVWXYZabcdefghijklmnopqrstuvwxyz0123456789+/".toList

/-- The character for six bits. -/
def digit (n : Nat) : Char := alphabet[n]?.getD '='

/-- The six bits a character stands for. -/
def value (c : Char) : Option Nat := alphabet.findIdx? (· = c)

def encode : List UInt8 → List Char
  | [] => []
  | [a] => [digit (a.toNat / 4), digit (a.toNat % 4 * 16), '=', '=']
  | [a, b] =>
    [digit (a.toNat / 4), digit (a.toNat % 4 * 16 + b.toNat / 16), digit (b.toNat % 16 * 4), '=']
  | a :: b :: c :: bytes =>
    digit (a.toNat / 4) :: digit (a.toNat % 4 * 16 + b.toNat / 16) ::
      digit (b.toNat % 16 * 4 + c.toNat / 64) :: digit (c.toNat % 64) :: encode bytes

/-- The bytes of four characters. -/
def group (w x y z : Nat) : List UInt8 :=
  [.ofNat (w * 4 + x / 16), .ofNat (x % 16 * 16 + y / 4), .ofNat (y % 4 * 64 + z)]

def decode : List Char → Option (List UInt8)
  | [] => some []
  | [a, b, '=', '='] => do return (group (← value a) (← value b) 0 0).take 1
  | [a, b, c, '='] => do return (group (← value a) (← value b) (← value c) 0).take 2
  | a :: b :: c :: d :: text => do
    let bytes := group (← value a) (← value b) (← value c) (← value d)
    return bytes ++ (← decode text)
  | _ => none

example : encode [77, 97, 110, 77] = "TWFuTQ==".toList ∧
    decode "TWFuTQ==".toList = some [77, 97, 110, 77] := by
  decide

theorem value_digit {n : Nat} (six : n < 64) : value (digit n) = some n := by
  have all : ∀ k : Fin 64, value (digit k) = some k.val := by decide +kernel
  exact all ⟨n, six⟩

theorem digit_ne_pad {n : Nat} (six : n < 64) : digit n ≠ '=' := by
  have all : ∀ k : Fin 64, digit k ≠ '=' := by decide +kernel
  exact all ⟨n, six⟩

theorem ofNat_eq {n : Nat} {a : UInt8} (h : n = a.toNat) : UInt8.ofNat n = a := by
  rw [h, UInt8.ofNat_toNat]

theorem digit_mem (n : Nat) : digit n ∈ '=' :: alphabet := by
  unfold digit
  cases found : alphabet[n]? with
  | none => exact List.mem_cons_self
  | some c => exact List.mem_cons_of_mem _ (List.mem_of_getElem? found)

/-- Bytes are written in the alphabet and the pad. -/
theorem mem_alphabet_of_mem_encode {bytes : List UInt8} {c : Char} (mem : c ∈ encode bytes) :
    c ∈ '=' :: alphabet := by
  have pad : '=' ∈ '=' :: alphabet := List.mem_cons_self
  fun_induction encode bytes with
  | case1 => cases mem
  | case2 | case3 =>
    simp only [List.mem_cons, List.not_mem_nil, or_false] at mem
    rcases mem with rfl | rfl | rfl | rfl <;> first | exact digit_mem _ | exact pad
  | case4 a b d bytes ih =>
    simp only [List.mem_cons] at mem ih
    rcases mem with rfl | rfl | rfl | rfl | mem
    iterate 4 exact digit_mem _
    exact List.mem_cons.mpr (ih mem)

/-- Four characters of three bytes give them back. -/
theorem group_split (a b c : UInt8) :
    group (a.toNat / 4) (a.toNat % 4 * 16 + b.toNat / 16) (b.toNat % 16 * 4 + c.toNat / 64)
      (c.toNat % 64) = [a, b, c] := by
  have ha := a.toNat_lt
  have hb := b.toNat_lt
  have hc := c.toNat_lt
  have first : a.toNat / 4 * 4 + (a.toNat % 4 * 16 + b.toNat / 16) / 16 = a.toNat := by omega
  have second : (a.toNat % 4 * 16 + b.toNat / 16) % 16 * 16 +
      (b.toNat % 16 * 4 + c.toNat / 64) / 4 = b.toNat := by omega
  have third : (b.toNat % 16 * 4 + c.toNat / 64) % 4 * 64 + c.toNat % 64 = c.toNat := by omega
  rw [group, ofNat_eq first, ofNat_eq second, ofNat_eq third]

/-- A group that does not end with a pad is read as it stands. -/
theorem decode_cons {a b c d : Char} (text : List Char) (full : d ≠ '=') :
    decode (a :: b :: c :: d :: text) = do
      let bytes := group (← value a) (← value b) (← value c) (← value d)
      return bytes ++ (← decode text) := by
  rw [decode]
  · simp [full]
  · simp [full]

theorem decode_encode (bytes : List UInt8) : decode (encode bytes) = some bytes := by
  fun_induction encode bytes with
  | case1 => rfl
  | case2 a =>
    have ha := a.toNat_lt
    have split := group_split a 0 0
    simp only [UInt8.toNat_zero, Nat.zero_div, Nat.add_zero, Nat.zero_mod, Nat.zero_mul] at split
    simp [decode, value_digit (n := a.toNat / 4) (by omega),
      value_digit (n := a.toNat % 4 * 16) (by omega), split]
  | case3 a b =>
    have ha := a.toNat_lt
    have hb := b.toNat_lt
    have split := group_split a b 0
    simp only [UInt8.toNat_zero, Nat.zero_div, Nat.add_zero, Nat.zero_mod] at split
    have unpadded := digit_ne_pad (n := b.toNat % 16 * 4) (by omega)
    rw [decode]
    · simp [value_digit (n := a.toNat / 4) (by omega),
        value_digit (n := b.toNat % 16 * 4) (by omega),
        value_digit (n := a.toNat % 4 * 16 + b.toNat / 16) (by omega), split]
    · simpa using unpadded
  | case4 a b c bytes ih =>
    have ha := a.toNat_lt
    have hb := b.toNat_lt
    have hc := c.toNat_lt
    rw [decode_cons _ (digit_ne_pad (by omega)), ih]
    simp [value_digit (n := a.toNat / 4) (by omega), value_digit (n := c.toNat % 64) (by omega),
      value_digit (n := a.toNat % 4 * 16 + b.toNat / 16) (by omega),
      value_digit (n := b.toNat % 16 * 4 + c.toNat / 64) (by omega), group_split]

end AcmeGitWebhook.Library.Base64
