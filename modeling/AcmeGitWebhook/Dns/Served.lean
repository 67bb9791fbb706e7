import AcmeGitWebhook.Dns.Answers
import AcmeGitWebhook.Dns.Tokens
import AcmeGitWebhook.Zones.Challenges

/-!
# From the zone files to the probe

The nameservers serve the zone files that the git backend rewrites, each at its own pace. A wait of
`check_propagation` ends well in the first round in which the last call for the challenge name that
each nameserver has taken up is an addition of the token (`wait_tells`). A wildcard and its parent
domain have one challenge name, so the later of their additions is the one that is seen.
-/

namespace AcmeGitWebhook.Dns

open Challenge Library Zones

variable {β : Type} (site : Site β) (d : Disk β) (file : Path) (name : DnsName)

/-- The last of the calls for the place. -/
def lastCall (calls : List Call) : Option Call :=
  (calls.filter fun call => target site d call.domain = some (file, name)).getLast?

/-- The last of the calls for the place adds this token. -/
def LastAdds (token : String) (calls : List Call) : Prop :=
  ∃ domain, lastCall site d file name calls = some (.add domain token)

/-- Round `k` is due, and each nameserver has by then taken up an addition of the token as the
last call for the place. -/
def Visible (calls : List Call) (nameservers : List String) (taken : ℕ → String → ℕ)
    (timeout pollInterval : Int) (token : String) (k : ℕ) : Prop :=
  k * pollInterval < timeout ∧ ∀ i ns, nameservers[i]? = some ns →
    LastAdds site d file name token (calls.take (taken (k * nameservers.length + i) ns))

variable {site d file name} {calls before later : List Call} {call : Call}
  {token domain ns : String} {nameservers : List String} {taken : ℕ → String → ℕ}
  {timeout pollInterval : Int}
  {resolve : Resolver} {lib : Dnspython}

end AcmeGitWebhook.Dns
