import Portalis.World

/-!
# The operations

The handlers of `api.rs`, the commands of `service.rs` and `Runtime::open`, as programs over the
calls.  `activate` is the part that the four apply and rollback operations have in common: write the
kernel, enable forwarding, record the revision, and write the previous configuration back when a
later step fails.  Each operation is written with its own tests before it and its own answers after
it.
-/

namespace Portalis

open Programs

abbrev Operation (α : Type) := Program Call Answer α

/-! ### What they have in common -/

/-- `nft.apply(&previous)` and the text that reports its failure. -/
def compensate {α : Type} (previous : Config) (next : String → Operation α) : Operation α :=
  .call (.nftRollback previous) fun
    | .ok _ => next ""
    | .error rollback => next ("; nft rollback failed: " ++ rollback.text)

/-- From `nft.apply` to `mark_active`. -/
def activate {α : Type} (config previous : Config) (refused : NftError → Operation α)
    (unforwarded : String → Operation α) (unsaved : String → String → Operation α)
    (done : Revision → ApplyReceipt → Operation α) : Operation α :=
  .call (.nftApply config) fun
    | .error error => refused error
    | .ok receipt => .call (.ensureForwarding config) fun
      | .error error => compensate previous fun rollback => unforwarded (error ++ rollback)
      | .ok () => .call (.markActive config) fun
        | .error error => compensate previous fun rollback => unsaved error rollback
        | .ok active => done active receipt

/-- The kernel is left alone when it already has the rules of the configuration. -/
def unlessInPlace {α : Type} (config previous : Config) (reuse fresh : Operation α) :
    Operation α :=
  if previous = config then
    .call (.nftStatus config) fun
      | .ok kernel => if kernel.tablePresent && !kernel.drifted then reuse else fresh
      | .error _ => fresh
  else fresh

/-- The newest draft, validated, over the active configuration: `reuse` when its rules are in place. -/
def applyNewest {α : Type} (failed : String → α) (noDraft : α)
    (invalid : Revision → List ValidationError → α) (reuse : Operation α)
    (fresh : Revision → Config → Operation α) : Operation α :=
  .call .draftConfig fun
    | .error error => .ret (failed error)
    | .ok none => .ret noDraft
    | .ok (some draft) => .call .validationContext fun context =>
      match draft.config.validate context with
      | .error errors => .ret (invalid draft errors)
      | .ok () => .call .activeConfig fun
        | .error error => .ret (failed error)
        | .ok previous =>
          unlessInPlace draft.config (previous.getD .default) reuse
            (fresh draft (previous.getD .default))

/-! ### The handlers of the API -/

inductive Response
  | applied (active : Revision) (nft : ApplyReceipt)
  | reused (active : Option Revision)
  | rolledBack (active : Revision)
  | created (draft : Revision)
  | unprocessable (errors : List ValidationError) (plan : List RulePlan)
  | badRequest (error : String)
  | notFound (error : String)
  | internal (error : String)
  deriving DecidableEq

def Response.isError : Response → Bool
  | .unprocessable _ _ => true
  | .badRequest _ => true
  | .notFound _ => true
  | .internal _ => true
  | _ => false

namespace Api

/-- `PUT /api/v1/draft`. -/
def saveDraft (config : Config) : Operation Response :=
  .call .validationContext fun context =>
    match config.validate context with
    | .error errors => .ret (.unprocessable errors config.plan)
    | .ok () => .call (.saveDraft config) fun
      | .ok revision => .ret (.created revision)
      | .error error => .ret (.internal error)

/-- `mark_apply_error`, whose own failure is ignored, and the answer. -/
def failApply (draft : Revision) (message : String) : Operation Response :=
  .call (.markApplyError draft.id message) fun _ => .ret (.internal message)

/-- The rest of `apply` once the kernel has to be written. -/
def applyFresh (draft : Revision) (previous : Config) : Operation Response :=
  .call .createSnapshotDir fun
    | .error error => .ret (.internal error)
    | .ok () => .call .tableSnapshot fun
      | .error error => .ret (.internal error.text)
      | .ok () => .call .writeSnapshot fun
        | .error error => .ret (.internal error)
        | .ok () =>
          activate draft.config previous
            (fun error => failApply draft error.text)
            (fun message => failApply draft message)
            (fun error rollback =>
              .ret (.internal ("could not persist active revision: " ++ error ++ rollback)))
            (fun active receipt =>
              .call (.exportConfig draft.config) fun _ => .ret (.applied active receipt))

/-- `POST /api/v1/apply`. -/
def apply : Operation Response :=
  applyNewest .internal (.badRequest "no saved draft")
    (fun draft errors => .unprocessable errors draft.config.plan)
    (.call .activeRevision fun
      | .error error => .ret (.internal error)
      | .ok active => .ret (.reused active))
    applyFresh

/-- `POST /api/v1/rollback/{id}`. -/
def rollback (revisionId : String) : Operation Response :=
  .call (.revision revisionId) fun
    | .error error => .ret (.internal error)
    | .ok none => .ret (.notFound "revision not found")
    | .ok (some revision) => .call .validationContext fun context =>
      match revision.config.validate context with
      | .error errors => .ret (.unprocessable errors revision.config.plan)
      | .ok () => .call .activeConfig fun
        | .error error => .ret (.internal error)
        | .ok previous =>
          activate revision.config (previous.getD .default)
            (fun error => .ret (.internal error.text))
            (fun message => .ret (.internal message))
            (fun error rollback =>
              .ret (.internal ("could not persist rollback: " ++ error ++ rollback)))
            (fun active _ => .ret (.rolledBack active))

end Api

/-! ### The commands -/

inductive CommandError
  | text (message : String)
  | invalid (errors : List ValidationError)
  deriving DecidableEq

namespace Service

/-- `apply_draft` from `nft.apply` on. -/
def activateDraft (draft : Revision) (previous : Config) : Operation (Except CommandError String) :=
  activate draft.config previous
    (fun error => .ret (.error (.text error.text)))
    (fun message => .ret (.error (.text message)))
    (fun error _ => .ret (.error (.text error)))
    (fun active receipt => .ret (.ok ("active revision " ++ active.id ++ " (" ++
      toString receipt.ruleCount ++ " kernel rules, replaced_existing_table=" ++
      toString receipt.replacedExistingTable ++ ")")))

/-- The rest of `apply_draft` once the kernel has to be written.  The snapshot is best effort, but
its file is not. -/
def applyFresh (draft : Revision) (previous : Config) : Operation (Except CommandError String) :=
  .call .tableSnapshot fun
    | .error _ => activateDraft draft previous
    | .ok () => .call .writeSnapshot fun
      | .error error => .ret (.error (.text error))
      | .ok () => activateDraft draft previous

/-- `portalis apply`. -/
def applyDraft : Operation (Except CommandError String) :=
  applyNewest (fun error => .error (.text error)) (.error (.text "no saved draft"))
    (fun _ errors => .error (.invalid errors))
    (.ret (.ok "active rules already match the saved draft"))
    applyFresh

/-- `portalis rollback`: nothing is validated. -/
def rollback (revisionId : String) : Operation (Except CommandError String) :=
  .call (.revision revisionId) fun
    | .error error => .ret (.error (.text error))
    | .ok none => .ret (.error (.text "revision not found"))
    | .ok (some revision) => .call .activeConfig fun
      | .error error => .ret (.error (.text error))
      | .ok previous =>
        activate revision.config (previous.getD .default)
          (fun error => .ret (.error (.text error.text)))
          (fun message => .ret (.error (.text message)))
          (fun error rollback =>
            .ret (.error (.text ("could not persist rollback: " ++ error ++ rollback))))
          (fun active _ => .ret (.ok ("rolled back to " ++ revisionId ++ " as active revision " ++
            active.id)))

end Service

/-! ### Startup -/

/-- The part of `Runtime::open` after the database is open: restore the active revision when the status
does not show it in place.  Only the database read can make it fail. -/
def Runtime.openKernel : Operation (Except String Unit) :=
  .call .activeConfig fun
    | .error error => .ret (.error error)
    | .ok none => .ret (.ok ())
    | .ok (some config) =>
      let restore : Operation (Except String Unit) := .call (.nftApply config) fun
        | .error _ => .ret (.ok ())
        | .ok _ => .call (.ensureForwarding config) fun _ => .ret (.ok ())
      .call (.nftStatus config) fun
        | .error _ => restore
        | .ok status => if !status.tablePresent || status.drifted then restore else .ret (.ok ())

end Portalis
