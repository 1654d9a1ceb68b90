import FleetServer.Server.Service

/-!
# What is set up when the server starts

Bundles whose signature does not verify are signed again, before the server
takes its first request.
-/

namespace FleetServer
namespace Runtime

open FleetServer.Core
open Storage
open Server
open Concurrency

variable (deps : Deps)

/-!
# resign_bundles
-/

/-- Why the walk over the bundles stops. -/
inductive ResignError where
  | database
  | signing
deriving DecidableEq

def rowDescriptor (row : BundleRow) : BundleDescriptor :=
  { tenantId := row.tenantId, bundleId := row.id, name := row.name, version := row.version,
    format := row.format, sha256Hex := row.sha256 }

/-- Whether a row's signature verifies under the tenant's public key. -/
def alreadyValid (secrets : TenantSecretsRow) (row : BundleRow) : Bool :=
  match deps.base64Decode row.signature with
  | none => false
  | some signature =>
      deps.verifyWith secrets.bundleSigningPubPem (rowDescriptor row).toSigningBytes signature

def resignRows : List BundleRow -> Prog (Except ResignError Unit)
  | [] => return Except.ok ()
  | row :: rest =>
      askOr (Query.tenantSecrets row.tenantId) (Except.error ResignError.database) fun
        -- A bundle of a tenant with no secrets stays as it is.
        | none => resignRows rest
        | some secrets =>
            if alreadyValid deps secrets row then resignRows rest
            else
              askOr (Query.tenantSecrets row.tenantId) (Except.error ResignError.signing)
                fun secrets =>
                  match Bundles.loadSigningKey deps row.tenantId secrets with
                  | none => return Except.error ResignError.signing
                  | some key =>
                      executeOr
                        (Statement.replaceSignature row.tenantId row.id
                          (Bundles.signDescriptor deps key (rowDescriptor row)))
                        (Except.error ResignError.database) fun _ => resignRows rest

def resignBundles : Prog (Except ResignError Unit) :=
  askOr Query.allBundles (Except.error ResignError.database) fun rows => resignRows deps rows

/-!
# The server with its start
-/

inductive Task where
  | request (r : Request)
  | resign

inductive TaskOutcome where
  | answered (answer : Answer)
  | resigned (result : Except ResignError Unit)

def taskProgram (n : Nat) : Task -> Prog TaskOutcome
  | Task.request r => do
      let answer ← program deps n r
      return TaskOutcome.answered answer
  | Task.resign => do
      let result ← resignBundles deps
      return TaskOutcome.resigned result

@[reducible] def maintained : Service Op.Res where
  machine := machine
  Request := Task
  Response := TaskOutcome
  program := taskProgram deps
  Env := Tick
  disturb := Tick.on

end Runtime
end FleetServer
