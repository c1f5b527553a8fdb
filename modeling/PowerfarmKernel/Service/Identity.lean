import PowerfarmKernel.Kernel.Store
import PowerfarmKernel.Service.Models

/-!
# Who asked

`IdentityService` of `service/identity.py` resolves the requester of an action from the
principal that presented it. A principal proves that someone authenticated to the
platform; it does not say that they may act, and it need not be a person: a service may
ask on its own behalf, and then requester and performer are one Identity.
-/

namespace PowerfarmKernel

open Prog LedgerM

namespace IdentityService

/-- `IdentityService.resolve_requester`: who asked, and of what kind – resolved, never
asserted. -/
def resolveRequester (allowSignedWithoutOauth : Bool) (performer : Identity)
    (principal : Option RequestPrincipal) (cut : Cut) : LedgerM (Hash × String) :=
  match principal with
  | none =>
      if allowSignedWithoutOauth = false then
        .raise (authorizationError "OAuth principal is required")
      else return (performer.hash, performer.kind)
  | some principal => do
      let resolved ← resolvePrincipal principal.issuer principal.subject
      match resolved with
      | none =>
          .raise (authorizationError
            "authenticated principal is not linked to Powerfarm Identity")
      | some requesterHash =>
          if requesterHash = performer.hash then return (requesterHash, performer.kind)
          else do
            let found ← getIdentity requesterHash cut
            match found with
            | none =>
                .raise (authorizationError "requester Identity is unknown at the declared cut")
            | some requester => return (requesterHash, requester.kind)

/-- Resolving a requester reads only. -/
theorem only_resolveRequester (allow : Bool) (performer : Identity)
    (principal : Option RequestPrincipal) (cut : Cut) :
    (resolveRequester allow performer principal cut).Only LedgerOp.IsRead := by
  rcases principal with _ | principal
  · exact .ite (.raise _) (.pure _)
  · refine .bind (.call trivial) fun resolved => ?_
    rcases resolved with _ | requesterHash
    · exact .raise _
    · refine .ite (.pure _) (.bind (.call trivial) fun found => ?_)
      rcases found with _ | requester
      · exact .raise _
      · exact .pure _

end IdentityService

end PowerfarmKernel
