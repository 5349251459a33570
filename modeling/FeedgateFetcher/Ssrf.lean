import FeedgateFetcher.Fetcher.Errors
import FeedgateFetcher.Python.Url

/-!
# SSRF protection

`validate_public_url` on a resolver.  The resolver returns the address strings of
a host; a failed resolution is the empty list, as in `_resolve`, and any other
exception of `getaddrinfo` escapes.
-/

namespace FeedgateFetcher

open Python

/-- `_resolve`. -/
abbrev Resolver := Text → Except Exc (List Text)

namespace Ssrf

def allowedSchemes : List Text := ["http".toList, "https".toList]

/-- `_is_blocked_ip`. -/
def isBlockedIp (ip : IPAddress) : Bool :=
  ip.isPrivate || ip.isLoopback || ip.isLinkLocal || ip.isReserved || ip.isMulticast ||
    ip.isUnspecified

/-- The address before the zone of a scoped one, `addr.split("%", 1)[0]`. -/
def unscoped (addr : Text) : Text := (Text.partition '%' addr).1

/-- The loop over the resolved addresses: the first blocked one is reported. -/
def checkAddresses (host : Text) : List Text → Except Exc Unit
  | [] => .ok ()
  | addr :: addrs =>
    match IPAddress.parse (unscoped addr) with
    | none => checkAddresses host addrs
    | some ip =>
      if isBlockedIp ip then
        .error (.blockedURL (host ++ " resolves to blocked address ".toList ++ addr))
      else checkAddresses host addrs

/-- `validate_public_url`. -/
def validatePublicUrl (resolver : Resolver) (url : Text) (resolve : Bool) : Except Exc Unit := do
  let parts ← (SplitResult.urlsplit url).mapError .builtin
  let scheme := Text.lower parts.scheme
  if !allowedSchemes.contains scheme then
    throw (.blockedURL ("unsupported scheme: '".toList ++ scheme ++ "'".toList))
  match parts.hostname with
  | none => throw (.blockedURL "missing host".toList)
  | some host =>
    match IPAddress.parse host with
    | some literal =>
      if isBlockedIp literal then throw (.blockedURL ("blocked address: ".toList ++ host))
      else pure ()
    | none =>
      if !resolve then pure ()
      else
        let addrs ← resolver host
        checkAddresses host addrs

/-- `validate_public_url(url)` lets the URL through. -/
def accepts (resolver : Resolver) (url : Text) : Bool :=
  (validatePublicUrl resolver url true).isOk

example (resolver : Resolver) :
    validatePublicUrl resolver "http://169.254.169.254/x".toList true =
      .error (.blockedURL "blocked address: 169.254.169.254".toList) := by
  rfl

end Ssrf

end FeedgateFetcher
