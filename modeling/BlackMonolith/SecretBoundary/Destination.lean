import BlackMonolith.SecretBoundary.Policy

/-!
# Destinations of the HTTP adapter

A destination is resolved to the addresses the connection is pinned to. Every
address is checked against the ranges a request must never reach.
-/
namespace BlackMonolith.SecretBoundary
open Text

def isDangerousIpv4 (allowPrivateIps : Bool) (a b c d : UInt8) : Bool :=
  a == 127 || a == 0 || (a == 169 && b == 254) ||
    (a == 255 && b == 255 && c == 255 && d == 255) ||
    (224 ≤ a && a ≤ 239) || 240 ≤ a ||
    (a == 192 && b == 0 && c == 2) || (a == 198 && b == 51 && c == 100) ||
    (a == 203 && b == 0 && c == 113) ||
    (a == 198 && b &&& 0xFE == 18) ||
    (!allowPrivateIps &&
      (a == 10 || (a == 172 && 16 ≤ b && b ≤ 31) || (a == 192 && b == 168) ||
        (a == 100 && b &&& 0xC0 == 64)))

def highByte (s : UInt16) : UInt8 := (s >>> 8).toUInt8

/-- The IPv4 address in the last two segments. -/
def embeddedDangerous (allowPrivateIps : Bool) (s6 s7 : UInt16) : Bool :=
  isDangerousIpv4 allowPrivateIps (highByte s6) s6.toUInt8 (highByte s7) s7.toUInt8

def isDangerousIp (allowPrivateIps : Bool) : IpAddr → Bool
  | .v4 a b c d => isDangerousIpv4 allowPrivateIps a b c d
  | .v6 s0 s1 s2 s3 s4 s5 s6 s7 =>
      let leading := s0 == 0 && s1 == 0 && s2 == 0 && s3 == 0 && s4 == 0
      if leading && s5 == 0 && s6 == 0 && (s7 == 0 || s7 == 1) then true
      else if leading && s5 == 0xFFFF then embeddedDangerous allowPrivateIps s6 s7
      else if leading && s5 == 0 then embeddedDangerous allowPrivateIps s6 s7
      else
        s0 &&& 0xFFC0 == 0xFE80 || s0 &&& 0xFF00 == 0xFF00 ||
          (s0 == 0xFD00 && s1 == 0x0EC2) ||
          (!allowPrivateIps && s0 &&& 0xFE00 == 0xFC00) ||
          (s0 == 0x2001 && s1 == 0x0DB8)

section
variable (platform : Platform)

def validateIpSafety (allowPrivateIps : Bool) (ip : IpAddr) : Except BoundaryError Unit :=
  if isDangerousIp allowPrivateIps ip then
    let family := match ip with
      | .v4 _ _ _ _ => "IPv4"
      | .v6 _ _ _ _ _ _ _ _ => "IPv6"
    .error (.ssrfBlocked
      s!"Destination {family} '{platform.displayIp ip}' is blocked by SSRF defense")
  else .ok ()

def isLoopbackName (lower : String) : Bool :=
  lower == "localhost" || endsWith lower ".localhost" || lower == "127.0.0.1" ||
    lower == "::1" || lower == "0.0.0.0"

def isMetadataName (lower : String) : Bool :=
  lower == "169.254.169.254" || lower == "metadata.google.internal" ||
    lower == "instance-data" || lower == "metadata.tencentyun.com"

/-- A host without the brackets of an IPv6 literal. -/
def trimBrackets (host : String) : String :=
  String.ofList ((host.toList.dropWhile (· == '[')).rdropWhile (· == ']'))

/-- A resolver answers for a host and a port. -/
def resolveAndPinDestination (resolve : String → ℕ → Except BoundaryError (List SocketAddr))
    (allowPrivateIps : Bool) (url : Url) :
    Except BoundaryError (String × ℕ × List SocketAddr) := do
  if url.scheme ≠ "http" ∧ url.scheme ≠ "https" then
    .error (.destinationViolation
      s!"Unsupported URL scheme '{url.scheme}'. Only 'http' and 'https' are permitted")
  else
    match url.host, url.portOrKnownDefault with
    | none, _ => .error (.destinationViolation "Destination URL is missing a valid host")
    | some _, none =>
        .error (.destinationViolation "Unable to determine port for destination")
    | some host, some port =>
        let lower := asciiLowercase host
        if isLoopbackName lower then
          .error (.ssrfBlocked
            s!"Loopback destination '{host}' is forbidden by SSRF policy")
        else if isMetadataName lower then
          .error (.ssrfBlocked
            s!"Cloud metadata endpoint '{host}' is strictly prohibited")
        else
          match platform.parseIp (trimBrackets host) with
          | some ip =>
              validateIpSafety platform allowPrivateIps ip
              .ok (host, port, [⟨ip, port⟩])
          | none =>
              let addrs ← resolve host port
              if addrs.isEmpty then
                .error (.destinationViolation
                  s!"DNS resolution returned no addresses for '{host}'")
              else
                for addr in addrs do
                  validateIpSafety platform allowPrivateIps addr.ip
                .ok (host, port, addrs)

end

end BlackMonolith.SecretBoundary
