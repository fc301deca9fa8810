import PretextBuildServer.CallbackValidation
import PretextBuildServer.Library.IpAddresses

/-!
# Which addresses a callback may reach

The guard refuses a host as soon as one of its addresses has one of six
properties. The shared address space of carriers has none of them and is not
global either.
-/

namespace PretextBuildServer.PublicAddresses

open EffectProgram EffectProgram.Program IpAddresses
open PretextBuildServer.ServerSettings PretextBuildServer.JobCalls
open PretextBuildServer.CallbackUrl PretextBuildServer.CallbackDelivery
open PretextBuildServer.CallbackValidation

set_option autoImplicit false

/-- `ipaddress.ip_address` of a text that denotes `ip`. -/
def resolvedAddress (text : String) (ip : IpAddress) : ResolvedAddress where
  text := text
  isLoopback := ip.properties.isLoopback
  isPrivate := ip.properties.isPrivate
  isLinkLocal := ip.properties.isLinkLocal
  isReserved := ip.properties.isReserved
  isUnspecified := ip.properties.isUnspecified
  isMulticast := ip.properties.isMulticast

/-- An entry of `getaddrinfo`, as its text and the address it denotes. -/
structure AddressInfo where
  text : String
  ip : IpAddress

def AddressInfo.resolved (info : AddressInfo) : ResolvedAddress := resolvedAddress info.text info.ip

/-- The address has one of the six properties. -/
def AddressInfo.blocked (info : AddressInfo) : Bool := ResolvedAddress.blocked info.resolved

/-- Globally reachable, and not a group of hosts. -/
def AddressInfo.Public (info : AddressInfo) : Prop :=
  info.ip.properties.isGlobal = true ∧ info.ip.properties.isMulticast = false

/-- The resolver's answers are lists of addresses of either family. -/
def Answers (outside : Outside)
    (getaddrinfo : List Char → Except LookupFailure (List AddressInfo)) : Prop :=
  ∀ host, outside.lookup host = (getaddrinfo host).map (List.map AddressInfo.resolved)

theorem shared_not_blocked {info : AddressInfo} (shared : info.ip.shared = true) :
    info.blocked = false := by
  have outside := shared_properties (contains_base Ipv4.publicNetwork)
  have special : info.ip.properties = Ipv4.properties Ipv4.publicNetwork.base :=
    shared_is_special shared
  rw [outside] at special
  simp [AddressInfo.blocked, AddressInfo.resolved, resolvedAddress, ResolvedAddress.blocked, special]

/-- What is not blocked is public but for the shared address space. -/
theorem public_iff {info : AddressInfo} (unblocked : info.blocked = false) :
    info.Public ↔ info.ip.shared = false := by
  simp only [AddressInfo.blocked, AddressInfo.resolved, resolvedAddress, ResolvedAddress.blocked,
    Bool.or_eq_false_iff] at unblocked
  simp [AddressInfo.Public, global_iff, unblocked]

section Guarding

variable {outside : Outside} {settings : Settings} {url : List Char}
  {getaddrinfo : List Char → Except LookupFailure (List AddressInfo)}

/-- With the guard on, a URL is accepted exactly if its host resolves, to
addresses that are not blocked. -/
theorem accepted_iff (answers : Answers outside getaddrinfo)
    (guarded : settings.callbackAllowPrivateIps = false) :
    (run outside.handler { record := {} } (isAllowedCallbackUrl settings url)).1 = .ok true ↔
      ∃ host infos, hostToResolve outside settings url = some host ∧ getaddrinfo host = .ok infos ∧
        ∀ info ∈ infos, info.blocked = false := by
  rw [run_validation]
  cases resolved : hostToResolve outside settings url with
  | none =>
      have unadmitted : (parsedUrl outside url).any (allowlistAdmits settings) = false := by
        rw [hostToResolve] at resolved
        cases parsed : parsedUrl outside url with
        | none => rfl
        | some parsed => simpa [*] using resolved
      simp [unadmitted]
  | some host =>
      simp only [answers host]
      cases found : getaddrinfo host with
      | error failure => cases failure <;> simp [found, Except.map]
      | ok infos => simp [found, Except.map, AddressInfo.blocked]

end Guarding

/-- The guard passes only public addresses exactly if no address of the host is
in the shared address space, or another one is blocked. -/
theorem guard_passes_public_iff (outside : Outside) (settings : Settings) (url : String)
    (getaddrinfo : List Char → Except LookupFailure (List AddressInfo))
    (answers : Answers outside getaddrinfo)
    (guarded : settings.callbackAllowPrivateIps = false) :
    ((run outside.handler { record := {} } (isAllowedCallbackUrl settings url.toList)).1 = .ok true →
      ∀ host infos, hostToResolve outside settings url.toList = some host →
        getaddrinfo host = .ok infos → ∀ info ∈ infos, info.Public) ↔
    ∀ host infos, hostToResolve outside settings url.toList = some host →
      getaddrinfo host = .ok infos →
      (∀ info ∈ infos, info.ip.shared = false) ∨
        ∃ info ∈ infos, info.ip.shared = false ∧ info.blocked = true := by
  rw [accepted_iff answers guarded]
  constructor
  · intro safe host infos resolved found
    by_cases unblocked : ∀ info ∈ infos, info.blocked = false
    · left
      intro info member
      exact (public_iff (unblocked info member)).mp
        (safe ⟨host, infos, resolved, found, unblocked⟩ host infos resolved found info member)
    · right
      push Not at unblocked
      obtain ⟨info, member, blocked⟩ := unblocked
      refine ⟨info, member, ?_, by simpa using blocked⟩
      by_contra shared
      exact blocked (shared_not_blocked (by simpa using shared))
  · rintro safe ⟨host', infos', resolved', found', unblocked⟩ host infos resolved found info member
    obtain rfl : host' = host := Option.some.inj (resolved'.symm.trans resolved)
    obtain rfl : infos' = infos := Except.ok.inj (found'.symm.trans found)
    rw [public_iff (unblocked info member)]
    rcases safe host' infos' resolved found with unshared | ⟨other, member', _, blocked⟩
    · exact unshared info member
    · simp [unblocked other member'] at blocked

/-! ## A host behind a carrier's address translation -/

/-- A resolver that gives every host one address. -/
def resolvingTo (info : AddressInfo) : Outside where
  authority _ := true
  lookup _ := .ok [info.resolved]
  deliver _ := .ok { statusCode := 200 }

theorem resolving_answers (info : AddressInfo) :
    Answers (resolvingTo info) fun _ => .ok [info] := fun _ => rfl

def sharedHost : AddressInfo := ⟨"100.64.0.1", .v4 (ipv4 100 64 0 1)⟩

def publicHost : AddressInfo := ⟨"93.184.215.14", .v4 (ipv4 93 184 215 14)⟩

/-- An address of the shared space is neither blocked nor global. -/
theorem shared_space_is_accepted :
    (run (resolvingTo sharedHost).handler { record := {} }
        (isAllowedCallbackUrl defaults "http://router.example/".toList)).1 = .ok true ∧
      ¬ sharedHost.Public := by
  constructor
  · decide +kernel
  · intro reachable
    exact absurd reachable.1 (by decide)

theorem public_host_passes :
    (run (resolvingTo publicHost).handler { record := {} }
        (isAllowedCallbackUrl defaults "http://pretext.plus/".toList)).1 = .ok true ∧
      publicHost.Public := by
  have passes : (run (resolvingTo publicHost).handler { record := {} }
      (isAllowedCallbackUrl defaults "http://pretext.plus/".toList)).1 = .ok true := by
    decide +kernel
  have resolved : hostToResolve (resolvingTo publicHost) defaults "http://pretext.plus/".toList =
      some "pretext.plus".toList := by
    decide +kernel
  refine ⟨passes, ?_⟩
  apply (guard_passes_public_iff _ defaults "http://pretext.plus/" _ (resolving_answers _) rfl).mpr _
    passes _ _ resolved rfl publicHost List.mem_cons_self
  intro host infos _ found
  left
  cases found
  decide

end PretextBuildServer.PublicAddresses
