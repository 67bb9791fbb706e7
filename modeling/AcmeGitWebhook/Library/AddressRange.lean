import AcmeGitWebhook.Library.IpAddress
import Mathlib.Algebra.Order.Ring.Nat

/-!
# Ranges of addresses

How blocks of addresses lie to each other, the ranges set aside for other things than global
unicast, and the IPv6 addresses that have an IPv4 address inside. Whether one block lies in
another is a finite check, and so is whether some blocks make up all addresses.

## Main results

* `inSome_of_within`, `not_inSome_of_apart`: from a check on blocks to all their addresses.
* `inSome_of_cover`: blocks with short masks cover everything when they cover every start.
-/

namespace AcmeGitWebhook.Library.IpAddress

/-! ## Blocks -/

abbrev Block := Nat × Nat

/-- The first block lies inside the second. -/
def within (bits : Nat) (inner outer : Block) : Bool :=
  outer.2 ≤ inner.2 && inBlock bits inner.1 outer.1 outer.2

/-- The blocks have no address in common. -/
def apart (bits : Nat) (a b : Block) : Bool := !inBlock bits a.1 b.1 (min a.2 b.2)

variable {bits k ip base mask mask' : Nat} {blocks others : List Block}

theorem inBlock_iff :
    inBlock bits ip base mask = true ↔ ip / 2 ^ (bits - mask) = base / 2 ^ (bits - mask) :=
  decide_eq_true_iff

/-- An address of a block lies in the larger blocks that the base lies in. -/
theorem inBlock_of_le (inside : inBlock bits ip base mask = true) (le : mask' ≤ mask)
    (base' : Nat) : inBlock bits ip base' mask' = inBlock bits base base' mask' := by
  rw [inBlock_iff] at inside
  have shift : bits - mask' = bits - mask + (bits - mask' - (bits - mask)) := by omega
  have same : ip / 2 ^ (bits - mask') = base / 2 ^ (bits - mask') := by
    rw [shift, pow_add, ← Nat.div_div_eq_div_mul, ← Nat.div_div_eq_div_mul, inside]
  rw [inBlock, inBlock, same]

theorem inBlock_of_within {inner outer : Block}
    (inside : inBlock bits ip inner.1 inner.2 = true)
    (check : within bits inner outer = true) : inBlock bits ip outer.1 outer.2 = true := by
  obtain ⟨le, held⟩ : outer.2 ≤ inner.2 ∧ inBlock bits inner.1 outer.1 outer.2 = true := by
    simpa [within] using check
  rw [inBlock_of_le inside le outer.1, held]

theorem not_inBlock_of_apart {inner outer : Block}
    (inside : inBlock bits ip inner.1 inner.2 = true)
    (check : apart bits inner outer = true) : inBlock bits ip outer.1 outer.2 = false := by
  by_contra both
  rw [Bool.not_eq_false] at both
  have large := inBlock_of_le inside (min_le_left inner.2 outer.2) outer.1
  have held := inBlock_of_le both (min_le_right inner.2 outer.2) outer.1
  have itself : inBlock bits outer.1 outer.1 (min inner.2 outer.2) = true := inBlock_iff.mpr rfl
  rw [apart, ← large, held, itself] at check
  cases check

theorem inSome_iff :
    inSome bits ip blocks = true ↔ ∃ block ∈ blocks, inBlock bits ip block.1 block.2 = true :=
  List.any_eq_true

@[simp] theorem inSome_nil : inSome bits ip [] = false := rfl

@[simp] theorem inSome_cons (block : Block) :
    inSome bits ip (block :: blocks) = (inBlock bits ip block.1 block.2 || inSome bits ip blocks) :=
  rfl

theorem inSome_append :
    inSome bits ip (blocks ++ others) = (inSome bits ip blocks || inSome bits ip others) :=
  List.any_append

theorem inSome_of_within (inside : inSome bits ip blocks = true)
    (check : (blocks.all fun inner => others.any (within bits inner)) = true) :
    inSome bits ip others = true := by
  obtain ⟨inner, mem, inside⟩ := inSome_iff.mp inside
  obtain ⟨outer, mem', check⟩ := List.any_eq_true.mp (List.all_eq_true.mp check inner mem)
  exact inSome_iff.mpr ⟨outer, mem', inBlock_of_within inside check⟩

theorem not_inSome_of_apart (inside : inSome bits ip blocks = true)
    (check : (blocks.all fun inner => others.all (apart bits inner)) = true) :
    inSome bits ip others = false := by
  obtain ⟨inner, mem, inside⟩ := inSome_iff.mp inside
  refine List.any_eq_false.mpr fun outer mem' => ?_
  have check := List.all_eq_true.mp (List.all_eq_true.mp check inner mem) outer mem'
  simpa using not_inBlock_of_apart inside check

/-- A block is decided by the bits of its mask; with that, by the first `k` bits. -/
theorem inBlock_top (le : mask ≤ k) (fits : k ≤ bits) :
    inBlock bits ip base mask =
      inBlock k (ip / 2 ^ (bits - k)) (base / 2 ^ (bits - k)) mask := by
  have shift : bits - mask = bits - k + (k - mask) := by omega
  rw [inBlock, inBlock, shift, pow_add, ← Nat.div_div_eq_div_mul, ← Nat.div_div_eq_div_mul]

theorem inSome_of_cover (lt : ip < 2 ^ bits) (fits : k ≤ bits)
    (short : ∀ block ∈ blocks, block.2 ≤ k)
    (cover : ((List.range (2 ^ k)).all fun top => blocks.any fun block =>
      inBlock k top (block.1 / 2 ^ (bits - k)) block.2) = true) :
    inSome bits ip blocks = true := by
  have top : ip / 2 ^ (bits - k) < 2 ^ k := by
    rw [Nat.div_lt_iff_lt_mul (Nat.two_pow_pos _), ← pow_add, Nat.add_sub_cancel' fits]
    exact lt
  have start := List.all_eq_true.mp cover _ (List.mem_range.mpr top)
  obtain ⟨block, mem, inside⟩ := List.any_eq_true.mp start
  exact inSome_iff.mpr ⟨block, mem, (inBlock_top (short block mem) fits).trans inside⟩

/-! ## Ranges -/

/-- The blocks of IPv6 that the IETF holds back for later use. -/
def reservedBlocks6 : List Block :=
  [(0, 8), (prefix48 0x100 0 0, 8), (prefix48 0x200 0 0, 7), (prefix48 0x400 0 0, 6),
   (prefix48 0x800 0 0, 5), (prefix48 0x1000 0 0, 4), (prefix48 0x4000 0 0, 3),
   (prefix48 0x6000 0 0, 3), (prefix48 0x8000 0 0, 3), (prefix48 0xa000 0 0, 3),
   (prefix48 0xc000 0 0, 3), (prefix48 0xe000 0 0, 4), (prefix48 0xf000 0 0, 5),
   (prefix48 0xf800 0 0, 6), (prefix48 0xfe00 0 0, 9)]

/-- The part of IPv6 from which unicast addresses are given out. -/
def unicastBlock6 : Block := (prefix48 0x2000 0 0, 3)

def sharedBlock4 : Block := (quad 100 64 0 0, 10)

def isLinkLocal : IpAddress → Bool :=
  either (fun ip => inBlock 32 ip (quad 169 254 0 0) 16)
    (fun ip => inBlock 128 ip (prefix48 0xfe80 0 0) 10)

def isSiteLocal : IpAddress → Bool :=
  either (fun _ => false) (fun ip => inBlock 128 ip (prefix48 0xfec0 0 0) 10)

def isReserved : IpAddress → Bool :=
  either (fun ip => inBlock 32 ip (quad 240 0 0 0) 4) (fun ip => inSome 128 ip reservedBlocks6)

/-- Shared address space, which providers use between them and their customers. -/
def isShared : IpAddress → Bool :=
  either (fun ip => inBlock 32 ip sharedBlock4.1 sharedBlock4.2) (fun _ => false)

/-- The address lies in a range that is set aside. -/
def isSetAside (addr : IpAddress) : Bool :=
  addr.isLoopback || addr.isPrivate || addr.isLinkLocal || addr.isSiteLocal ||
    addr.isMulticast || addr.isUnspecified || addr.isReserved || addr.isShared

/-! ## IPv4 inside IPv6 -/

def low32 (n : Nat) : Fin (2 ^ 32) := ⟨n % 2 ^ 32, Nat.mod_lt _ (by decide)⟩

/-- The interface identifier of an ISATAP address, for a private and for a global IPv4. -/
def isIsatap (ip : Nat) : Bool := ip / 2 ^ 32 % 2 ^ 32 = 0x5efe || ip / 2 ^ 32 % 2 ^ 32 = 0x2005efe

/-- The forms of IPv6 address that have an IPv4 address inside. -/
inductive Embeds (ip : Nat) : Fin (2 ^ 32) → Prop
  | mapped : inBlock 128 ip (0xffff * 2 ^ 32) 96 = true → Embeds ip (low32 ip)
  | compatible : inBlock 128 ip 0 96 = true → Embeds ip (low32 ip)
  | translated : inBlock 128 ip (prefix48 0x64 0xff9b 0) 96 = true → Embeds ip (low32 ip)
  | sixToFour : inBlock 128 ip (prefix48 0x2002 0 0) 16 = true → Embeds ip (low32 (ip / 2 ^ 80))
  | teredoServer : inBlock 128 ip (prefix48 0x2001 0 0) 32 = true →
      Embeds ip (low32 (ip / 2 ^ 64))
  | teredoClient : inBlock 128 ip (prefix48 0x2001 0 0) 32 = true →
      Embeds ip (low32 (2 ^ 32 - 1 - ip % 2 ^ 32))
  | isatap : isIsatap ip = true → Embeds ip (low32 ip)

/-- An address of a host on the Internet: not set aside, and neither is an IPv4 address inside. -/
structure GlobalUnicast (addr : IpAddress) : Prop where
  ordinary : addr.isSetAside = false
  inside : ∀ ip : Fin (2 ^ 128), addr = .v6 ip → ∀ ip4, Embeds ip ip4 → (v4 ip4).isSetAside = false

variable {p4 : Fin (2 ^ 32) → Bool} {p6 : Fin (2 ^ 128) → Bool} {ip4 : Fin (2 ^ 32)}
  {ip6 : Fin (2 ^ 128)}

@[simp] theorem either_v4 : either p4 p6 (.v4 ip4) = p4 ip4 := rfl

theorem either_mapped (mapped : ipv4Mapped ip6 = some ip4) : either p4 p6 (.v6 ip6) = p4 ip4 := by
  simp [either, mapped]

theorem either_unmapped (unmapped : ipv4Mapped ip6 = none) :
    either p4 p6 (.v6 ip6) = p6 ip6 := by
  simp [either, unmapped]

theorem ipv4Mapped_eq_some_iff : ipv4Mapped ip6 = some ip4 ↔
    inBlock 128 ip6 (0xffff * 2 ^ 32) 96 = true ∧ low32 ip6 = ip4 := by
  have base : 0xffff * 2 ^ 32 / 2 ^ (128 - 96) = 0xffff := by decide
  rw [inBlock_iff, base, ipv4Mapped]
  split_ifs with mapped
  · rw [Option.some_inj, and_iff_right mapped]
    rfl
  · exact iff_of_false nofun fun both => mapped both.1

/-! ## What lies in what -/

variable {addr : IpAddress} {q4 : Fin (2 ^ 32) → Bool} {q6 : Fin (2 ^ 128) → Bool}

/-- One range lies in another when that holds of IPv4 and of the IPv6 addresses that stand for
themselves. -/
theorem either_mono (of4 : ∀ ip, p4 ip = true → q4 ip = true)
    (of6 : ∀ ip, ipv4Mapped ip = none → p6 ip = true → q6 ip = true)
    (is : either p4 p6 addr = true) : either q4 q6 addr = true := by
  cases addr with
  | v4 ip => exact of4 ip is
  | v6 ip =>
    cases mapped : ipv4Mapped ip with
    | none =>
      rw [either_unmapped mapped] at is ⊢
      exact of6 ip mapped is
    | some ip4 =>
      rw [either_mapped mapped] at is ⊢
      exact of4 ip4 is

/-- The blocks lie in the listed ones and away from the exceptions. -/
def listed (bits : Nat) (blocks list exceptions : List Block) : Bool :=
  (blocks.all fun inner => list.any (within bits inner)) &&
    (blocks.all fun inner => exceptions.all (apart bits inner))

theorem listed_of_inSome {list exceptions : List Block} (blocks : List Block)
    (inside : inSome bits ip blocks = true) (check : listed bits blocks list exceptions = true) :
    (inSome bits ip list && !inSome bits ip exceptions) = true := by
  obtain ⟨within, apart⟩ := (Bool.and_eq_true _ _).mp check
  rw [inSome_of_within inside within, not_inSome_of_apart inside apart, Bool.not_false,
    Bool.and_self]

theorem isPrivate_of_isLoopback : addr.isLoopback = true → addr.isPrivate = true := by
  refine either_mono (fun ip inside => ?_) (fun ip _ inside => ?_)
  · exact listed_of_inSome [(quad 127 0 0 0, 8)] (by simpa using inside) (by decide +kernel)
  · obtain rfl : ip = 1 := of_decide_eq_true inside
    decide +kernel

theorem isPrivate_of_isUnspecified : addr.isUnspecified = true → addr.isPrivate = true := by
  refine either_mono (fun ip inside => ?_) (fun ip _ inside => ?_) <;>
    obtain rfl : ip = 0 := of_decide_eq_true inside
  · decide +kernel
  · decide +kernel

theorem isPrivate_of_isLinkLocal : addr.isLinkLocal = true → addr.isPrivate = true := by
  refine either_mono (fun ip inside => ?_) (fun ip _ inside => ?_)
  · exact listed_of_inSome [(quad 169 254 0 0, 16)] (by simpa using inside) (by decide +kernel)
  · exact listed_of_inSome [(prefix48 0xfe80 0 0, 10)] (by simpa using inside)
      (by decide +kernel)

theorem isPrivate_of_isReserved4 (reserved : (v4 ip4).isReserved = true) :
    (v4 ip4).isPrivate = true := by
  have inside : inBlock 32 ip4 (quad 240 0 0 0) 4 = true := reserved
  exact listed_of_inSome [(quad 240 0 0 0, 4)] (by simpa using inside) (by decide +kernel)

/-- Loopback, link-local and unspecified addresses are private ones. -/
theorem isSetAside_iff : addr.isSetAside = true ↔ addr.isPrivate = true ∨
    addr.isSiteLocal = true ∨ addr.isMulticast = true ∨ addr.isReserved = true ∨
      addr.isShared = true := by
  grind [isSetAside, isPrivate_of_isLoopback, isPrivate_of_isUnspecified, isPrivate_of_isLinkLocal]

theorem isSetAside_of_isPrivate (is : addr.isPrivate = true) : addr.isSetAside = true := by
  simp [isSetAside, is]

theorem isSetAside_of_isSiteLocal (is : addr.isSiteLocal = true) : addr.isSetAside = true := by
  simp [isSetAside, is]

theorem isSetAside_of_isMulticast (is : addr.isMulticast = true) : addr.isSetAside = true := by
  simp [isSetAside, is]

theorem isSetAside_of_isReserved (is : addr.isReserved = true) : addr.isSetAside = true := by
  simp [isSetAside, is]

/-- Every unmapped IPv6 address outside of the unicast part is set aside: the remaining blocks
make up all of the starts of ten bits. -/
theorem isSetAside_of_outside (unmapped : ipv4Mapped ip6 = none)
    (outside : inBlock 128 ip6 unicastBlock6.1 unicastBlock6.2 = false) :
    (v6 ip6).isSetAside = true := by
  have covered : inSome 128 ip6 (unicastBlock6 :: (prefix48 0xfec0 0 0, 10) ::
      (prefix48 0xff00 0 0, 8) :: (reservedBlocks6 ++
        [(prefix48 0xfc00 0 0, 7), (prefix48 0xfe80 0 0, 10)])) = true :=
    inSome_of_cover ip6.isLt (by decide : 10 ≤ 128) (by decide) (by decide +kernel)
  rw [inSome_cons, inSome_cons, inSome_cons, inSome_append, outside, Bool.false_or] at covered
  simp only [Bool.or_eq_true] at covered
  obtain siteLocal | multicast | reserved | privately := covered
  · exact isSetAside_of_isSiteLocal ((either_unmapped unmapped).trans siteLocal)
  · exact isSetAside_of_isMulticast ((either_unmapped unmapped).trans multicast)
  · exact isSetAside_of_isReserved ((either_unmapped unmapped).trans reserved)
  · refine isSetAside_of_isPrivate ((either_unmapped unmapped).trans ?_)
    exact listed_of_inSome _ privately (by decide +kernel)

/-- In the unicast part, private is all that an address can be. -/
theorem isSetAside_of_unicast (unmapped : ipv4Mapped ip6 = none)
    (unicast : inBlock 128 ip6 unicastBlock6.1 unicastBlock6.2 = true) :
    (v6 ip6).isSetAside = (v6 ip6).isPrivate := by
  have inside : inSome 128 ip6 [unicastBlock6] = true := by simpa using unicast
  have away : inSome 128 ip6 (reservedBlocks6 ++ [(prefix48 0xfec0 0 0, 10)] ++
      [(prefix48 0xff00 0 0, 8)]) = false :=
    not_inSome_of_apart inside (by decide +kernel)
  simp only [inSome_append, Bool.or_eq_false_iff, inSome_cons, inSome_nil, Bool.or_false] at away
  obtain ⟨⟨reserved, siteLocal⟩, multicast⟩ := away
  have reserved : (v6 ip6).isReserved = false := (either_unmapped unmapped).trans reserved
  have siteLocal : (v6 ip6).isSiteLocal = false := (either_unmapped unmapped).trans siteLocal
  have multicast : (v6 ip6).isMulticast = false := (either_unmapped unmapped).trans multicast
  have shared : (v6 ip6).isShared = false := either_unmapped unmapped
  rw [Bool.eq_iff_iff, isSetAside_iff]
  simp [reserved, siteLocal, multicast, shared]

/-! ## Global unicast -/

theorem globalUnicast_v4 : (v4 ip4).GlobalUnicast ↔ (v4 ip4).isSetAside = false :=
  ⟨GlobalUnicast.ordinary, fun ordinary => ⟨ordinary, nofun⟩⟩

/-- A mapped address is in the ranges of the IPv4 address inside, and has no other one inside. -/
theorem globalUnicast_mapped (mapped : ipv4Mapped ip6 = some ip4) :
    (v6 ip6).GlobalUnicast ↔ (v4 ip4).isSetAside = false := by
  have same : (v6 ip6).isSetAside = (v4 ip4).isSetAside := by
    simp only [isSetAside, isLoopback, isPrivate, isLinkLocal, isSiteLocal, isMulticast,
      isUnspecified, isReserved, isShared, either_mapped mapped, either_v4]
  refine ⟨fun global => same ▸ global.ordinary, fun ordinary => ⟨same.trans ordinary, ?_⟩⟩
  rintro _ ⟨⟩ other embeds
  obtain ⟨inside, rfl⟩ := ipv4Mapped_eq_some_iff.mp mapped
  have away (outer : Block) (check : apart 128 (0xffff * 2 ^ 32, 96) outer = true) :
      inBlock 128 ip6 outer.1 outer.2 = false := not_inBlock_of_apart inside check
  cases embeds with
  | mapped => exact ordinary
  | compatible held => cases held.symm.trans (away (0, 96) (by decide +kernel))
  | translated held =>
    cases held.symm.trans (away (prefix48 0x64 0xff9b 0, 96) (by decide +kernel))
  | sixToFour held => cases held.symm.trans (away (prefix48 0x2002 0 0, 16) (by decide +kernel))
  | teredoServer held => cases held.symm.trans (away (prefix48 0x2001 0 0, 32) (by decide +kernel))
  | teredoClient held => cases held.symm.trans (away (prefix48 0x2001 0 0, 32) (by decide +kernel))
  | isatap => exact ordinary

/-- Any other IPv6 address with an IPv4 address inside is set aside itself, ISATAP apart. -/
theorem Embeds.isatap_or_setAside (unmapped : ipv4Mapped ip6 = none) (embeds : Embeds ip6 ip4) :
    (isIsatap ip6 = true ∧ ip4 = low32 ip6) ∨ (v6 ip6).isSetAside = true := by
  have of_reserved (block : Block) (held : inBlock 128 ip6 block.1 block.2 = true)
      (check : reservedBlocks6.any (within 128 block) = true) : (v6 ip6).isSetAside = true := by
    have held : inSome 128 ip6 [block] = true := by simpa using held
    have reserved : inSome 128 ip6 reservedBlocks6 = true :=
      inSome_of_within held (by simpa using check)
    exact isSetAside_of_isReserved ((either_unmapped unmapped).trans reserved)
  have of_private (block : Block) (held : inBlock 128 ip6 block.1 block.2 = true)
      (check : listed 128 [block] privateBlocks6 privateExceptions6 = true) :
      (v6 ip6).isSetAside = true := by
    have privately := listed_of_inSome [block] (by simpa using held) check
    exact isSetAside_of_isPrivate ((either_unmapped unmapped).trans privately)
  cases embeds with
  | mapped held => cases unmapped.symm.trans (ipv4Mapped_eq_some_iff.mpr ⟨held, rfl⟩)
  | compatible held => exact Or.inr (of_reserved (0, 96) held (by decide +kernel))
  | translated held =>
    exact Or.inr (of_reserved (prefix48 0x64 0xff9b 0, 96) held (by decide +kernel))
  | sixToFour held => exact Or.inr (of_private (prefix48 0x2002 0 0, 16) held (by decide +kernel))
  | teredoServer held =>
    exact Or.inr (of_private (prefix48 0x2001 0 0, 32) held (by decide +kernel))
  | teredoClient held =>
    exact Or.inr (of_private (prefix48 0x2001 0 0, 32) held (by decide +kernel))
  | isatap is => exact Or.inl ⟨is, rfl⟩

theorem globalUnicast_unmapped (unmapped : ipv4Mapped ip6 = none) :
    (v6 ip6).GlobalUnicast ↔ (v6 ip6).isSetAside = false ∧
      (isIsatap ip6 = true → (v4 (low32 ip6)).isSetAside = false) := by
  refine ⟨fun global => ⟨global.ordinary, fun is => global.inside ip6 rfl _ (.isatap is)⟩, ?_⟩
  rintro ⟨ordinary, isatap⟩
  refine ⟨ordinary, ?_⟩
  rintro _ ⟨⟩ ip4 embeds
  obtain ⟨is, rfl⟩ | aside := embeds.isatap_or_setAside unmapped
  · exact isatap is
  · cases aside.symm.trans ordinary

end AcmeGitWebhook.Library.IpAddress
