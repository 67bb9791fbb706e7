import AcmeGitWebhook.Dns.Nameservers
import AcmeGitWebhook.Library.AddressRange

/-!
# Which resolvers pass validation

`validate_nameserver` of `app/dns_probe.py` against its docstring, which promises global unicast
addresses. It is a list of what to refuse, put together from four predicates of `ipaddress`;
`passesGlobal_iff` says what falls between them.
-/

namespace AcmeGitWebhook.Dns

open Library IpAddress

/-- The four tests on the address. -/
def refused (addr : IpAddress) : Bool :=
  addr.isPrivate || addr.isLoopback || addr.isMulticast || addr.isUnspecified

/-- An address that passes is global unicast. -/
def PassesGlobal (ip : String) : Prop :=
  validateNameserver ip = true → ∃ addr, IpAddress.parse ip = some addr ∧ addr.GlobalUnicast

/-- What the tests refuse outside of `unicastBlock6`. -/
def refusedBlocks6 : List Block :=
  [(0, 128), (1, 128), (prefix48 0x64 0xff9b 1, 48), (prefix48 0x100 0 0, 64),
   (prefix48 0xfc00 0 0, 7), (prefix48 0xfe80 0 0, 10), (prefix48 0xff00 0 0, 8)]

/-- An IPv4 address that is not from shared address space. -/
def Foreseen4 (ip : Fin (2 ^ 32)) : Prop := inBlock 32 ip sharedBlock4.1 sharedBlock4.2 = false

/-- An address of the unicast part that is private or no ISATAP address around an IPv4 address
that is set aside; or an address of one of the refused blocks. -/
def Foreseen6 (ip : Fin (2 ^ 128)) : Prop :=
  if inBlock 128 ip unicastBlock6.1 unicastBlock6.2 then
    (v6 ip).isPrivate = true ∨ (isIsatap ip = true → (v4 (low32 ip)).isSetAside = false)
  else inSome 128 ip refusedBlocks6 = true

/-- An address that the tests take for what it is. -/
def Foreseen : IpAddress → Prop
  | .v4 ip => Foreseen4 ip
  | .v6 ip =>
    match ipv4Mapped ip with
    | some ip4 => Foreseen4 ip4
    | none => Foreseen6 ip

variable {text : String} {addr : IpAddress} {ip4 : Fin (2 ^ 32)} {ip6 : Fin (2 ^ 128)}

theorem validateNameserver_of_parse (read : IpAddress.parse text = some addr) :
    validateNameserver text = !refused addr := by
  rw [validateNameserver, read]
  rfl

theorem refused_iff : refused addr = true ↔ addr.isPrivate = true ∨ addr.isMulticast = true := by
  grind [refused, isPrivate_of_isLoopback, isPrivate_of_isUnspecified]

theorem refused_mapped (mapped : ipv4Mapped ip6 = some ip4) :
    refused (.v6 ip6) = refused (.v4 ip4) := by
  simp only [refused, isPrivate, isLoopback, isMulticast, isUnspecified, either_mapped mapped,
    either_v4]

/-- Of IPv4, the tests overlook shared address space, and refuse nothing of it. -/
theorem passes4_iff :
    (refused (.v4 ip4) = false → (v4 ip4).isSetAside = false) ↔ Foreseen4 ip4 := by
  rw [Foreseen4]
  cases shared : inBlock 32 ip4 sharedBlock4.1 sharedBlock4.2 with
  | true =>
    have inside : inSome 32 ip4 [sharedBlock4] = true := by simpa using shared
    have away : inSome 32 ip4 (privateBlocks4 ++ [(quad 224 0 0 0, 4)]) = false :=
      not_inSome_of_apart inside (by decide +kernel)
    rw [inSome_append, Bool.or_eq_false_iff] at away
    have passes : refused (.v4 ip4) = false := by
      rw [Bool.eq_false_iff, ne_eq, refused_iff]
      simpa [isPrivate, isMulticast, away.1] using away.2
    have aside : (v4 ip4).isSetAside = true := isSetAside_iff.mpr (by simp [isShared, shared])
    simp [passes, aside]
  | false =>
    refine iff_of_true (fun passes => ?_) rfl
    rw [Bool.eq_false_iff, ne_eq, refused_iff] at passes
    rw [Bool.eq_false_iff, ne_eq, isSetAside_iff]
    have siteLocal : (v4 ip4).isSiteLocal = false := rfl
    have unshared : (v4 ip4).isShared = false := shared
    have unreserved : (v4 ip4).isReserved = true → (v4 ip4).isPrivate = true :=
      isPrivate_of_isReserved4
    grind

/-- Outside of the unicast part nothing is private or multicast but the refused blocks. -/
theorem refused_outside (unmapped : ipv4Mapped ip6 = none)
    (outside : inBlock 128 ip6 unicastBlock6.1 unicastBlock6.2 = false) :
    refused (.v6 ip6) = inSome 128 ip6 refusedBlocks6 := by
  have notMapped : inBlock 128 ip6 (0xffff * 2 ^ 32) 96 = false := by
    rw [Bool.eq_false_iff]
    intro held
    cases unmapped.symm.trans (ipv4Mapped_eq_some_iff.mpr ⟨held, rfl⟩)
  rw [Bool.eq_iff_iff, refused_iff]
  constructor
  · rintro (privately | multicast)
    · have privately := (either_unmapped unmapped).symm.trans privately
      have held :
          inSome 128 ip6 (unicastBlock6 :: (0xffff * 2 ^ 32, 96) :: refusedBlocks6) = true :=
        inSome_of_within ((Bool.and_eq_true _ _).mp privately).1 (by decide +kernel)
      simpa only [inSome_cons, outside, notMapped, Bool.false_or] using held
    · have multicast := (either_unmapped unmapped).symm.trans multicast
      have held : inSome 128 ip6 [(prefix48 0xff00 0 0, 8)] = true := by simpa using multicast
      exact inSome_of_within held (by decide +kernel)
  · intro held
    have split : refusedBlocks6 = refusedBlocks6.take 6 ++ [(prefix48 0xff00 0 0, 8)] := rfl
    rw [split, inSome_append, Bool.or_eq_true] at held
    obtain privately | multicast := held
    · exact Or.inl ((either_unmapped unmapped).trans
        (listed_of_inSome _ privately (by decide +kernel)))
    · exact Or.inr ((either_unmapped unmapped).trans (by simpa using multicast))

/-- In the unicast part, only private addresses are refused. -/
theorem refused_unicast (unmapped : ipv4Mapped ip6 = none)
    (unicast : inBlock 128 ip6 unicastBlock6.1 unicastBlock6.2 = true) :
    refused (.v6 ip6) = (v6 ip6).isPrivate := by
  have aside := isSetAside_of_unicast unmapped unicast
  rw [Bool.eq_iff_iff, refused_iff]
  refine ⟨fun is => is.elim id fun multicast => ?_, Or.inl⟩
  rw [← aside]
  exact isSetAside_of_isMulticast multicast

theorem passes6_iff (unmapped : ipv4Mapped ip6 = none) :
    (refused (.v6 ip6) = false → (v6 ip6).GlobalUnicast) ↔ Foreseen6 ip6 := by
  rw [globalUnicast_unmapped unmapped, Foreseen6]
  cases unicast : inBlock 128 ip6 unicastBlock6.1 unicastBlock6.2 with
  | true =>
    rw [refused_unicast unmapped unicast, isSetAside_of_unicast unmapped unicast, if_pos rfl]
    cases (v6 ip6).isPrivate <;> simp
  | false =>
    rw [refused_outside unmapped unicast, isSetAside_of_outside unmapped unicast,
      if_neg Bool.false_ne_true]
    simp

theorem passes_iff : (refused addr = false → addr.GlobalUnicast) ↔ Foreseen addr := by
  cases addr with
  | v4 ip4 => rw [globalUnicast_v4, passes4_iff, Foreseen]
  | v6 ip6 =>
    cases mapped : ipv4Mapped ip6 with
    | some ip4 =>
      rw [globalUnicast_mapped mapped, refused_mapped mapped, passes4_iff]
      simp only [Foreseen, mapped]
    | none =>
      rw [passes6_iff mapped]
      simp only [Foreseen, mapped]

theorem passesGlobal_iff (text : String) :
    PassesGlobal text ↔ ∀ addr ∈ IpAddress.parse text, Foreseen addr := by
  cases read : IpAddress.parse text with
  | none => simp [PassesGlobal, validateNameserver, read]
  | some addr =>
    simp only [PassesGlobal, validateNameserver_of_parse read, read, Option.mem_some_iff,
      Bool.not_eq_true', Option.some_inj, exists_eq_left', forall_eq', passes_iff]

/-- A resolver behind a provider's address translation. -/
theorem passes_shared : ¬ PassesGlobal "100.64.0.1" := by
  intro global
  obtain ⟨addr, read, unicast⟩ := global (by decide +kernel)
  have is : IpAddress.parse "100.64.0.1" = some (.v4 0x64400001) := by decide +kernel
  obtain rfl := Option.some.inj (is.symm.trans read)
  exact absurd unicast.ordinary (by decide +kernel)

end AcmeGitWebhook.Dns
