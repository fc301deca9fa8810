import PretextBuildServer.JobCalls
import PretextBuildServer.Library.TextCase
import PretextBuildServer.NameValidators

/-!
# Validating a callback target

`urlparse` is the standard library's, as far as scheme, authority and host go.
Its checks of a bracketed address and of Unicode normalisation can only refuse
an authority; they are the call `checkNetloc`.
-/

namespace PretextBuildServer.CallbackUrl

open EffectProgram EffectProgram.Program TextCase
open PretextBuildServer.ServerSettings PretextBuildServer.JobCalls
open PretextBuildServer.NameValidators

set_option autoImplicit false

structure ParsedUrl where
  scheme : List Char
  netloc : List Char
  deriving DecidableEq

/-- The characters `urlsplit` strips in front of a URL. -/
def isControlOrSpace (c : Char) : Bool := c.toNat ≤ 32

/-- The characters it removes wherever they stand. -/
def isRemoved (c : Char) : Bool := c == '\t' || c == '\r' || c == '\n'

def cleaned (url : List Char) : List Char :=
  (url.dropWhile isControlOrSpace).filter fun c => !isRemoved c

def isSchemeChar (c : Char) : Bool := isAlnum c || c == '+' || c == '-' || c == '.'

/-- The text before the first colon, lower-cased, if it can be a scheme, and
what follows; otherwise no scheme and the whole text. -/
def splitScheme (text : List Char) : List Char × List Char :=
  let scheme := text.takeWhile (· != ':')
  match text.dropWhile (· != ':'), scheme with
  | _ :: rest, first :: _ =>
      if isLetter first && scheme.all isSchemeChar then (lower scheme, rest) else ([], text)
  | _, _ => ([], text)

def endsAuthority (c : Char) : Bool := c == '/' || c == '?' || c == '#'

/-- Exactly one kind of bracket occurs. -/
def bracketsUnbalanced (netloc : List Char) : Bool := netloc.contains '[' != netloc.contains ']'

def urlparse (url : List Char) : JobProgram ParsedUrl :=
  let (scheme, rest) := splitScheme (cleaned url)
  match rest with
  | '/' :: '/' :: rest =>
      let netloc := rest.takeWhile fun c => !endsAuthority c
      if bracketsUnbalanced netloc then
        raise { kind := .valueError, message := "Invalid IPv6 URL" }
      else do
        jobCall (.checkNetloc netloc)
        return { scheme, netloc }
  | _ => return { scheme, netloc := [] }

def afterLast (separator : Char) (text : List Char) : List Char :=
  (text.reverse.takeWhile (· != separator)).reverse

/-- What follows the last `@` of an authority, without a port and without the
brackets of a literal address. -/
def hostinfo (netloc : List Char) : List Char :=
  let info := afterLast '@' netloc
  match info.dropWhile (· != '[') with
  | _ :: bracketed => bracketed.takeWhile (· != ']')
  | [] => info.takeWhile (· != ':')

/-- `parsed.hostname or ""`: lower-cased but for the zone of a scoped address. -/
def ParsedUrl.hostname (parsed : ParsedUrl) : List Char :=
  let host := hostinfo parsed.netloc
  lower (host.takeWhile (· != '%')) ++ host.dropWhile (· != '%')

def ResolvedAddress.blocked (ip : ResolvedAddress) : Bool :=
  ip.isLoopback || ip.isPrivate || ip.isLinkLocal || ip.isReserved || ip.isUnspecified ||
    ip.isMulticast

/-- True if the host resolves to any non-public address; an unresolvable host
counts as blocked. Only `gaierror` is caught. -/
def resolvesToBlockedIp (hostname : List Char) : JobProgram Bool :=
  (jobCall (.getaddrinfo hostname)).andThen fun
    | .ok (infos : List ResolvedAddress) => return infos.any ResolvedAddress.blocked
    | .error (raised : Raised) =>
        if raised.kind = .gaierror then return true else raise raised

/-- The text both checks of the allowlist and the resolver are given. -/
def validatedHost (parsed : ParsedUrl) : List Char := rstripDots (lower parsed.hostname)

/-- The tests that need no resolver: http(s) only, a host, on the allowlist if
one is set. -/
def allowlistAdmits (settings : Settings) (parsed : ParsedUrl) : Bool :=
  let host := validatedHost parsed
  (parsed.scheme = "http".toList || parsed.scheme = "https".toList) && host != [] &&
    (settings.callbackAllowedHosts.isEmpty ||
      (settings.callbackAllowedHosts.map String.toList).contains host)

def isAllowedCallbackUrl (settings : Settings) (url : List Char) : JobProgram Bool :=
  (urlparse url).andThen fun
    | .error (raised : Raised) =>
        if raised.isValueError then return false else raise raised
    | .ok parsed =>
        if !allowlistAdmits settings parsed then return false
        else if settings.callbackAllowPrivateIps then return true
        else do
          let blocked ← resolvesToBlockedIp (validatedHost parsed)
          return !blocked

end PretextBuildServer.CallbackUrl
