import AcaSocial.Gateway.Exchange
import AcaSocial.Gateway.Strings

/-!
# The address of the client

The forwarding headers count only when the peer is a trusted proxy.
-/

namespace AcaSocial.Gateway

/-- One entry of `trusted_proxies`, read. There is none when it is not an address or a network. -/
def configureTrustedProxy (env : Env) (proxies : TrustedProxies) (entry : String) :
    Option TrustedProxies :=
  let entry := trimSpace entry
  if entry = "" then some proxies
  else if entry.toList.contains '/' then
    (env.parseCIDR entry).map fun network => { proxies with nets := proxies.nets ++ [network] }
  else (env.parseIP entry).map fun ip => { proxies with ips := proxies.ips ++ [ip] }

def configureTrustedProxies (env : Env) (cidrs : List String) : Option TrustedProxies :=
  cidrs.foldlM (configureTrustedProxy env) ⟨[], []⟩

def isTrustedProxy (env : Env) (ip : String) : Bool :=
  match env.parseIP ip with
  | none => false
  | some parsed =>
    env.trustedProxies.ips.contains parsed
      || env.trustedProxies.nets.any fun network => env.inNetwork network parsed

def remoteAddrIP (env : Env) (r : Request) : String := (env.splitHostPort r.remoteAddr).getD r.remoteAddr

/-- The rightmost address that is no trusted proxy, else the leftmost element if it is an address. -/
def clientIPFromXFF (env : Env) (xff : String) : String :=
  let parts := (split xff ',').map trimSpace
  match parts.reverse.find? fun ip => (env.parseIP ip).isSome && !isTrustedProxy env ip with
  | some ip => ip
  | none =>
    let ip := parts.headD ""
    if (env.parseIP ip).isSome then ip else ""

def realIP (env : Env) (r : Request) : String :=
  let directIP := remoteAddrIP env r
  if isTrustedProxy env directIP then
    let xff := r.header.get "X-Forwarded-For"
    let ip := if xff = "" then "" else clientIPFromXFF env xff
    if ip ≠ "" then ip
    else
      let xri := r.header.get "X-Real-IP"
      if xri ≠ "" ∧ (env.parseIP (trimSpace xri)).isSome then trimSpace xri else directIP
  else directIP

end AcaSocial.Gateway
