import FleetServer.Server.Service

/-!
# The sweep of stored files

Housekeeping lists the stored files, reads the bundle rows, and removes the
files older than a grace period that no row names.  It runs beside the server
on the same tables and files, of which it also sees when they were written.
-/

namespace FleetServer
namespace Runtime

open Storage
open Server
open Concurrency
open KeyedMap

structure StoredBundleFile where
  tenantId : Int
  bundleId : String
  modified : Int

def StoredBundleFile.key (f : StoredBundleFile) : Int × String :=
  (f.tenantId, f.bundleId)

def rowKey (b : BundleRow) : Int × String :=
  (b.tenantId, b.id)

/-!
# Calls
-/

/-- The server's world, and when its files were written. -/
structure Disk where
  server : World
  modified : Map (Int × String) Int

def Disk.start (w : World) : Disk :=
  { server := w, modified := ∅ }

inductive SweepOp where
  | serve (op : Op)
  | listFiles
  | listBundles
  | remove (tenantId : Int) (id : String)

@[reducible] def SweepOp.Res : SweepOp -> Type
  | serve op => op.Res
  | listFiles => Except StoreError (List StoredBundleFile)
  | listBundles => Except DbError (List BundleRow)
  | remove _ _ => Except StoreError Unit

namespace Disk

def list (d : Disk) : List StoredBundleFile :=
  d.server.files.keys.map fun key =>
    { tenantId := key.1, bundleId := key.2, modified := (d.modified.lookup key).getD 0 }

def stamped (d : Disk) : Op -> Map (Int × String) Int
  | Op.storePut tenantId id _ => d.modified.insert (tenantId, id) d.server.now
  | Op.storeDelete tenantId id => d.modified.erase (tenantId, id)
  | _ => d.modified

def exec : (op : SweepOp) -> Disk -> op.Res × Disk
  | SweepOp.serve op, d =>
      ((Server.exec op d.server).1,
        { server := (Server.exec op d.server).2, modified := d.stamped op })
  | SweepOp.listFiles, d => (Except.ok d.list, d)
  | SweepOp.listBundles, d => (Except.ok d.server.db.bundles, d)
  | SweepOp.remove tenantId id, d =>
      match d.server.files.lookup (tenantId, id) with
      | none => (Except.error StoreError.missing, d)
      | some _ =>
          (Except.ok (),
            { server := { d.server with files := d.server.files.erase (tenantId, id) }
              modified := d.modified.erase (tenantId, id) })

def fault : (op : SweepOp) -> Option op.Res
  | SweepOp.serve op => Server.fault op
  | SweepOp.listFiles => some (Except.error StoreError.unavailable)
  | SweepOp.listBundles => some (Except.error DbError.unavailable)
  | SweepOp.remove _ _ => some (Except.error StoreError.unavailable)

@[reducible] def machine : Machine SweepOp.Res where
  World := Disk
  exec := exec
  fault := fault

end Disk

abbrev SweepProg (alpha : Type) : Type := Program SweepOp.Res alpha

/-!
# sweep_bundle_files
-/

/-- What a request or a sweep ends with. -/
inductive Outcome where
  | answered (answer : Answer)
  | swept (removed : Nat)

def orphanBundleGraceSecs : Int := 3600

def sweepFiles (cutoff : Int) (rows : List (Int × String)) (removed : Nat) :
    List StoredBundleFile -> SweepProg Outcome
  | [] => return Outcome.swept removed
  | f :: rest =>
      if cutoff < f.modified ∨ f.key ∈ rows then sweepFiles cutoff rows removed rest
      else do
        match ← Program.perform (SweepOp.remove f.tenantId f.bundleId) with
        | Except.ok () => sweepFiles cutoff rows (removed + 1) rest
        | Except.error _ => sweepFiles cutoff rows removed rest

def sweepBundleFiles (graceSecs : Int) : SweepProg Outcome := do
  match ← Program.perform SweepOp.listFiles with
  | Except.error _ => return Outcome.swept 0
  | Except.ok files =>
      match ← Program.perform SweepOp.listBundles with
      | Except.error _ => return Outcome.swept 0
      | Except.ok rows => do
          let now ← Program.perform (SweepOp.serve Op.nowUnix)
          sweepFiles (now - graceSecs) (rows.map rowKey) 0 files

/-!
# The server with its housekeeping
-/

def serve : Prog Answer -> SweepProg Outcome
  | Program.done answer => Program.done (Outcome.answered answer)
  | Program.call op next => Program.call (SweepOp.serve op) fun r => serve (next r)

inductive Job where
  | request (r : Request)
  | sweep (graceSecs : Int)

@[reducible] def housekeeping (deps : Deps) : Service SweepOp.Res where
  machine := Disk.machine
  Request := Job
  Response := Outcome
  program := fun n job =>
    match job with
    | Job.request r => serve (program deps n r)
    | Job.sweep graceSecs => sweepBundleFiles graceSecs
  Env := Tick
  disturb := fun tick d => { d with server := tick.on d.server }

/-- What became of the stored files: when each was first stored, and which of them
the sweeps removed. -/
structure FileLog where
  stored : Int × String -> Option Int
  removed : List (Int × String)

/-- The files that are there from the start count as stored at zero, as they are
listed. -/
def FileLog.start (w : World) : FileLog :=
  { stored := fun key => (w.files.lookup key).map fun _ => 0, removed := [] }

def FileLog.put (log : FileLog) (key : Int × String) (now : Int) : FileLog :=
  { stored := fun k => if k = key then some ((log.stored k).getD now) else log.stored k
    removed := log.removed.filter fun k => k ≠ key }

@[reducible] def fileLog (deps : Deps) : Observer (housekeeping deps) FileLog where
  onCall := fun op d log =>
    match op with
    | SweepOp.remove tenantId id =>
        if (d.server.files.lookup (tenantId, id)).isSome then
          { log with removed := (tenantId, id) :: log.removed }
        else log
    | SweepOp.serve (Op.storePut tenantId id _) => log.put (tenantId, id) d.server.now
    | _ => log
  onEnv := fun _ _ log => log

abbrev swept (deps : Deps) : Service SweepOp.Res :=
  (housekeeping deps).observed (fileLog deps)

end Runtime
end FleetServer
