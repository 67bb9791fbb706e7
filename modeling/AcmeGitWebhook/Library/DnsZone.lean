import AcmeGitWebhook.Library.Dict
import AcmeGitWebhook.Library.DnsName

/-!
# Zones of the DNS

A zone as dnspython keeps it: for each name at or below the origin a node, and in it one record
set for each type. How a zone is written in a file is a parameter, `ZoneFormat`, of which only
this is known: what is written after changing the TXT records of a name in a zone that was read
from a file reads back as the same records.
-/

namespace AcmeGitWebhook.Library

/-- A type of records by its number, with the type a signature covers. -/
structure RRType where
  number : Nat
  covers : Nat := 0
  deriving DecidableEq, Repr

def TXT : RRType := ⟨16, 0⟩

namespace RRType

/-- CNAME records and their signatures. -/
def isCname (t : RRType) : Bool := t.number = 5 || (t.number = 46 && t.covers = 5)

/-- NSEC, NSEC3 and KEY records and their signatures. -/
def isNeutral (t : RRType) : Bool :=
  t.number ∈ [47, 50, 25] || (t.number = 46 && t.covers ∈ [47, 50, 25])

/-- An alias and ordinary data do not stand at one node. -/
def excludes (t t' : RRType) : Bool :=
  (t.isCname && !t'.isCname && !t'.isNeutral) || (!t.isCname && !t.isNeutral && t'.isCname)

end RRType

/-- Only the data of TXT records is looked into: its character strings. -/
inductive Rdata where
  | txt (strings : List (List UInt8))
  | other (data : String)
  deriving DecidableEq, Repr

structure Rdataset where
  ttl : Nat
  items : List Rdata
  deriving DecidableEq, Repr

abbrev Nodes := Dict DnsName (Dict RRType Rdataset)

structure DnsZone where
  origin : DnsName
  nodes : Nodes
  deriving DecidableEq, Repr

namespace DnsZone

variable (z : DnsZone) (name : DnsName) (t : RRType)

/-- A name outside the zone has no records. -/
def getRdataset : Option Rdataset :=
  if z.origin <:+ name then (z.nodes.get? name).bind (·.get? t) else none

/-- `none` is the `KeyError` for a name outside the zone. -/
def replaceRdataset (rdataset : Rdataset) : Option DnsZone :=
  if z.origin <:+ name then
    let node := (z.nodes.get? name).getD []
    let kept := (node.erase t).filter fun item => !t.excludes item.1
    some { z with nodes := z.nodes.set name (kept ++ [(t, rdataset)]) }
  else none

/-- A node without records goes. -/
def deleteRdataset : Option DnsZone :=
  if z.origin <:+ name then
    match z.nodes.get? name with
    | none => some z
    | some node =>
      if node.erase t = [] then some { z with nodes := z.nodes.erase name }
      else some { z with nodes := z.nodes.set name (node.erase t) }
  else none

variable {z name t} {z' : DnsZone}

theorem getRdataset_replace {rdataset : Rdataset}
    (h : z.replaceRdataset name t rdataset = some z') :
    z'.getRdataset name t = some rdataset := by
  unfold replaceRdataset at h
  split_ifs at h with below
  obtain rfl := Option.some.inj h
  have gone : ∀ item ∈ ((((z.nodes.get? name).getD []).erase t).filter fun item =>
      !t.excludes item.1), item.1 ≠ t := by
    intro item mem
    simpa using (List.mem_filter.mp (List.mem_filter.mp mem).1).2
  simp only [getRdataset, if_pos below, Dict.get?_set_self, Option.bind_some,
    Dict.get?_append, Dict.get?_eq_none gone, Option.none_or]
  simp [Dict.get?]

theorem getRdataset_delete (h : z.deleteRdataset name t = some z') :
    z'.getRdataset name t = none := by
  unfold deleteRdataset at h
  split_ifs at h with below
  split at h
  · next absent =>
    obtain rfl := Option.some.inj h
    simp [getRdataset, absent]
  · next node found =>
    split_ifs at h with empty <;> obtain rfl := Option.some.inj h <;> simp [getRdataset]

theorem getRdataset_replace_of_ne {name' : DnsName} {t' : RRType} {rdataset : Rdataset}
    (h : z.replaceRdataset name t rdataset = some z') (other : name' ≠ name) :
    z'.getRdataset name' t' = z.getRdataset name' t' := by
  unfold replaceRdataset at h
  split_ifs at h
  obtain rfl := Option.some.inj h
  simp only [getRdataset, Dict.get?_set_of_ne _ _ other]

theorem getRdataset_delete_of_ne {name' : DnsName} {t' : RRType}
    (h : z.deleteRdataset name t = some z') (other : name' ≠ name) :
    z'.getRdataset name' t' = z.getRdataset name' t' := by
  unfold deleteRdataset at h
  split_ifs at h
  split at h
  · rw [← Option.some.inj h]
  · split_ifs at h <;> obtain rfl := Option.some.inj h
    · simp only [getRdataset, Dict.get?_erase_of_ne _ other]
    · simp only [getRdataset, Dict.get?_set_of_ne _ _ other]

/-- At the name itself only what the new record set excludes goes with the one it replaces. -/
theorem getRdataset_replace_same {t' : RRType} {rdataset : Rdataset}
    (h : z.replaceRdataset name t rdataset = some z') (other : t' ≠ t) :
    z'.getRdataset name t' = if t.excludes t' then none else z.getRdataset name t' := by
  unfold replaceRdataset at h
  split_ifs at h with below
  obtain rfl := Option.some.inj h
  have last : Dict.get? [(t, rdataset)] t' = none := by simp [Dict.get?, Ne.symm other]
  simp only [getRdataset, if_pos below, Dict.get?_set_self, Option.bind_some, Dict.get?_append,
    last, Option.or_none]
  rw [Dict.get?_filter_key _ fun t' => !t.excludes t', Dict.get?_erase_of_ne _ other]
  cases z.nodes.get? name <;> cases t.excludes t' <;> simp

theorem getRdataset_delete_same {t' : RRType} (h : z.deleteRdataset name t = some z')
    (other : t' ≠ t) : z'.getRdataset name t' = z.getRdataset name t' := by
  unfold deleteRdataset at h
  split_ifs at h with below
  split at h
  · rw [← Option.some.inj h]
  · next node found =>
    have kept : (node.erase t).get? t' = node.get? t' := Dict.get?_erase_of_ne _ other
    split_ifs at h with empty <;> obtain rfl := Option.some.inj h
    · rw [empty] at kept
      simp [getRdataset, below, found, ← kept]
    · simp [getRdataset, below, found, kept]

/-- Changing its records does not move a zone. -/
theorem origin_replace {rdataset : Rdataset} (h : z.replaceRdataset name t rdataset = some z') :
    z'.origin = z.origin := by
  unfold replaceRdataset at h
  split_ifs at h
  rw [← Option.some.inj h]

theorem origin_delete (h : z.deleteRdataset name t = some z') : z'.origin = z.origin := by
  unfold deleteRdataset at h
  split_ifs at h
  split at h
  · rw [← Option.some.inj h]
  · split_ifs at h <;> rw [← Option.some.inj h]

/-- The changes made here: TXT records replaced by one short string, or deleted. -/
inductive TxtChange (z : DnsZone) (name : DnsName) : DnsZone → Prop where
  | replace {ttl : Nat} {value : List UInt8} {z' : DnsZone} (short : value.length ≤ 255)
      (h : z.replaceRdataset name TXT ⟨ttl, [.txt [value]]⟩ = some z') : TxtChange z name z'
  | delete {z' : DnsZone} (h : z.deleteRdataset name TXT = some z') : TxtChange z name z'

end DnsZone

theorem DnsZone.TxtChange.origin {z z' : DnsZone} {name : DnsName}
    (h : DnsZone.TxtChange z name z') : z'.origin = z.origin := by
  cases h with
  | replace _ h => exact DnsZone.origin_replace h
  | delete h => exact DnsZone.origin_delete h

/-- The records at other names stay. -/
theorem DnsZone.TxtChange.getRdataset_of_ne {z z' : DnsZone} {name name' : DnsName} {t : RRType}
    (h : DnsZone.TxtChange z name z') (other : name' ≠ name) :
    z'.getRdataset name' t = z.getRdataset name' t := by
  cases h with
  | replace _ h => exact DnsZone.getRdataset_replace_of_ne h other
  | delete h => exact DnsZone.getRdataset_delete_of_ne h other

/-- Zone files, whose text is of type `β`. -/
structure ZoneFormat (β : Type) where
  parse : DnsName → β → Option Nodes
  render : DnsZone → β
  parse_render {origin : DnsName} {text : β} {nodes : Nodes} {name : DnsName} {z : DnsZone}
    (read : parse origin text = some nodes) (change : DnsZone.TxtChange ⟨origin, nodes⟩ name z) :
    ∃ nodes', parse origin (render z) = some nodes' ∧
      ∀ name t, DnsZone.getRdataset ⟨origin, nodes'⟩ name t = z.getRdataset name t

/-- Zone files that are zones. -/
def ZoneFormat.plain : ZoneFormat DnsZone where
  parse origin z := if z.origin = origin then some z.nodes else none
  render z := z
  parse_render {origin _ nodes _ z} _ change := by
    have same : z.origin = origin := change.origin
    exact ⟨z.nodes, if_pos same, fun _ _ => by rw [← same]⟩

end AcmeGitWebhook.Library
