import Mathlib.Algebra.GroupWithZero.Nat
import Mathlib.Data.List.Basic

/-!
# IP address literals

The literals that `ipaddress.ip_address` of Python 3.14 reads, and the address blocks behind
its `is_private`, `is_loopback`, `is_multicast` and `is_unspecified`. An address is its
number; the scope of an IPv6 address is checked and dropped.
-/

namespace AcmeGitWebhook.Library

inductive IpAddress where
  | v4 (ip : Fin (2 ^ 32))
  | v6 (ip : Fin (2 ^ 128))
  deriving DecidableEq, Repr

namespace IpAddress

/-! ## Reading -/

/-- A number below 256 in decimal digits, without leading zeros. -/
def octet? (cs : List Char) : Option (Fin 256) :=
  if cs = [] ∨ 3 < cs.length ∨ (cs ≠ ['0'] ∧ cs.head? = some '0') ∨ cs.any (!·.isDigit) then none
  else
    let n := cs.foldl (fun n c => n * 10 + (c.toNat - '0'.toNat)) 0
    if h : n < 256 then some ⟨n, h⟩ else none

/-- Four octets between dots. -/
def v4? (cs : List Char) : Option (Fin (2 ^ 32)) :=
  match cs.splitOn '.' with
  | [a, b, c, d] => do
    let a ← octet? a
    let b ← octet? b
    let c ← octet? c
    let d ← octet? d
    return ⟨((a * 256 + b) * 256 + c) * 256 + d, by omega⟩
  | _ => none

def hexDigit? (c : Char) : Option (Fin 16) :=
  if h : '0' ≤ c ∧ c ≤ '9' then some ⟨c.toNat - 48, by have : c.toNat ≤ 57 := h.2; omega⟩
  else if h : 'a' ≤ c ∧ c ≤ 'f' then some ⟨c.toNat - 87, by have : c.toNat ≤ 102 := h.2; omega⟩
  else if h : 'A' ≤ c ∧ c ≤ 'F' then some ⟨c.toNat - 55, by have : c.toNat ≤ 70 := h.2; omega⟩
  else none

/-- One to four hexadecimal digits. -/
def hextet? : List Char → Option (Fin 65536)
  | [] => none
  | cs => do
    let ds ← cs.mapM hexDigit?
    let n := ds.foldl (fun n d => n * 16 + d.val) 0
    if h : n < 65536 ∧ cs.length ≤ 4 then some ⟨n, h.1⟩ else none

/-- What stands between two colons: text, or half of an address in dotted form. -/
inductive Part where
  | text (cs : List Char)
  | half (n : Fin 65536)
  deriving DecidableEq

def Part.hextet? : Part → Option (Fin 65536)
  | .text cs => IpAddress.hextet? cs
  | .half n => some n

/-- The parts between the colons; the last may be in dotted form. -/
def parts? (cs : List Char) : Option (List Part) :=
  let parts := cs.splitOn ':'
  match parts.getLast? with
  | none => none
  | some last =>
    if parts.length < 3 then none
    else if '.' ∈ last then
      (v4? last).map fun ip => parts.dropLast.map .text ++
        [.half ⟨ip / 65536, by omega⟩, .half ⟨ip % 65536, by omega⟩]
    else some (parts.map .text)

/-- The number of eight hextets. -/
def number? (hextets : List (Fin 65536)) : Option (Fin (2 ^ 128)) :=
  let n := hextets.foldl (fun n h => n * 65536 + h.val) 0
  if h : n < 2 ^ 128 ∧ hextets.length = 8 then some ⟨n, h.1⟩ else none

/-- The part that an outer end of a `::` leaves: an empty part at the very end of the text has
to belong to the `::`. -/
def trim (parts : List Part) (outer : Option Part) : Option (List Part) :=
  if outer = some (.text []) then if parts.length = 1 then some [] else none else some parts

/-- Eight hextets, or fewer with one `::` for the zeros that are left out. -/
def join? (parts : List Part) : Option (Fin (2 ^ 128)) :=
  match (List.range parts.length).filter
    (fun i => 0 < i ∧ i + 1 < parts.length ∧ parts[i]? = some (.text [])) with
  | [] => do number? (← parts.mapM Part.hextet?)
  | [skip] => do
    let hi ← trim (parts.take skip) parts.head?
    let lo ← trim (parts.drop (skip + 1)) parts.getLast?
    if hi.length + lo.length < 8 then
      let hi ← hi.mapM Part.hextet?
      let lo ← lo.mapM Part.hextet?
      number? (hi ++ List.replicate (8 - (hi.length + lo.length)) 0 ++ lo)
    else none
  | _ => none

def v6? (cs : List Char) : Option (Fin (2 ^ 128)) :=
  let (address, scope) := cs.span (· ≠ '%')
  if '/' ∈ cs ∨ scope = ['%'] ∨ '%' ∈ scope.tail then none
  else do
    let parts ← parts? address
    if parts.length ≤ 9 then join? parts else none

/-- `ipaddress.ip_address(text)`; `none` is its `ValueError`. -/
def parse (text : String) : Option IpAddress :=
  ((v4? text.toList).map v4).or ((v6? text.toList).map v6)

/-! ## Blocks -/

/-- The address lies in the block of `base` with a mask of so many bits. -/
def inBlock (bits : Nat) (ip base mask : Nat) : Bool :=
  ip / 2 ^ (bits - mask) = base / 2 ^ (bits - mask)

def quad (a b c d : Nat) : Nat := ((a * 256 + b) * 256 + c) * 256 + d

/-- An IPv6 address by its first three hextets. -/
def prefix48 (a b c : Nat) : Nat := ((a * 65536 + b) * 65536 + c) * 2 ^ 80

def privateBlocks4 : List (Nat × Nat) :=
  [(quad 0 0 0 0, 8), (quad 10 0 0 0, 8), (quad 127 0 0 0, 8), (quad 169 254 0 0, 16),
   (quad 172 16 0 0, 12), (quad 192 0 0 0, 24), (quad 192 0 0 170, 31), (quad 192 0 2 0, 24),
   (quad 192 168 0 0, 16), (quad 198 18 0 0, 15), (quad 198 51 100 0, 24), (quad 203 0 113 0, 24),
   (quad 240 0 0 0, 4), (quad 255 255 255 255, 32)]

def privateExceptions4 : List (Nat × Nat) := [(quad 192 0 0 9, 32), (quad 192 0 0 10, 32)]

def privateBlocks6 : List (Nat × Nat) :=
  [(1, 128), (0, 128), (quad 0 0 255 255 * 2 ^ 32, 96), (prefix48 0x64 0xff9b 1, 48),
   (prefix48 0x100 0 0, 64), (prefix48 0x2001 0 0, 23), (prefix48 0x2001 0xdb8 0, 32),
   (prefix48 0x2002 0 0, 16), (prefix48 0x3fff 0 0, 20), (prefix48 0xfc00 0 0, 7),
   (prefix48 0xfe80 0 0, 10)]

def privateExceptions6 : List (Nat × Nat) :=
  [(prefix48 0x2001 1 0 + 1, 128), (prefix48 0x2001 1 0 + 2, 128), (prefix48 0x2001 3 0, 32),
   (prefix48 0x2001 4 0x112, 48), (prefix48 0x2001 0x20 0, 28), (prefix48 0x2001 0x30 0, 28)]

def inSome (bits : Nat) (ip : Nat) (blocks : List (Nat × Nat)) : Bool :=
  blocks.any fun block => inBlock bits ip block.1 block.2

/-- The IPv4 address that an IPv6 address of the form `::ffff:a.b.c.d` stands for. -/
def ipv4Mapped (ip : Fin (2 ^ 128)) : Option (Fin (2 ^ 32)) :=
  if ip.val / 2 ^ 32 = 0xffff then some ⟨ip.val % 2 ^ 32, Nat.mod_lt _ (by decide)⟩ else none

/-- A property of either kind of address; mapped addresses have that of what they stand for. -/
def either (p4 : Fin (2 ^ 32) → Bool) (p6 : Fin (2 ^ 128) → Bool) : IpAddress → Bool
  | v4 ip => p4 ip
  | v6 ip => ((ipv4Mapped ip).map p4).getD (p6 ip)

def isPrivate : IpAddress → Bool :=
  either (fun ip => inSome 32 ip privateBlocks4 && !inSome 32 ip privateExceptions4)
    (fun ip => inSome 128 ip privateBlocks6 && !inSome 128 ip privateExceptions6)

def isLoopback : IpAddress → Bool :=
  either (fun ip => inBlock 32 ip (quad 127 0 0 0) 8) (fun ip => ip = 1)

def isMulticast : IpAddress → Bool :=
  either (fun ip => inBlock 32 ip (quad 224 0 0 0) 4)
    (fun ip => inBlock 128 ip (prefix48 0xff00 0 0) 8)

def isUnspecified : IpAddress → Bool := either (fun ip => ip = 0) (fun ip => ip = 0)

example : parse "8.8.8.8" = some (v4 0x08080808) ∧ parse "010.0.0.1" = none ∧
    parse "fe80::1%eth0" = some (v6 (0xfe80 * 2 ^ 112 + 1)) ∧ parse "1::2::3" = none ∧
    parse "::ffff:10.0.0.1" = some (v6 0xffff0a000001) := by decide +kernel

end IpAddress

end AcmeGitWebhook.Library
