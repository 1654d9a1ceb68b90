import FleetServer.Server.Constraints

/-!
# A rename is all or nothing

The caller reads the versions first and makes the transaction later; whatever
happened to the database meanwhile, the transaction renames every version or
changes nothing.
-/

namespace FleetServer
namespace Bundles

open Storage
open Server

theorem renameBundle_allOrNothing {w : World} (tenantId : Int) (from_ to_ : String)
    (inPlace : List RenamedInPlace) (moved : List MovedBundle) (hkeys : ConfigKeys w.db) :
    (((Statement.renameBundle tenantId from_ to_ inPlace moved).exec w).1 =
        Except.ok RenameOutcome.renamed ->
      exists db', ((Statement.renameBundle tenantId from_ to_ inPlace moved).exec w).2 =
          { w with db := db' } ∧
        BundlesRepo.Renamed tenantId from_ to_ moved w.db db') ∧
    (((Statement.renameBundle tenantId from_ to_ inPlace moved).exec w).1 ≠
        Except.ok RenameOutcome.renamed ->
      ((Statement.renameBundle tenantId from_ to_ inPlace moved).exec w).2 = w) := by
  rcases statement_exec (Statement.renameBundle tenantId from_ to_ inPlace moved) w with
    ⟨e, _, hexec⟩ | ⟨outcome, db', htx, hexec⟩
  · rw [hexec]
    constructor
    · intro hanswer
      cases hanswer
    · intro _
      rfl
  · rw [hexec]
    constructor
    · intro hanswer
      have houtcome : outcome = RenameOutcome.renamed := Except.ok.inj hanswer
      rw [houtcome] at htx
      exact ⟨db', rfl, BundlesRepo.rename_eq_renamed hkeys htx⟩
    · intro hanswer
      have houtcome : outcome ≠ RenameOutcome.renamed :=
        fun h => hanswer (congrArg Except.ok h)
      rw [BundlesRepo.rename_eq_self houtcome htx]

/-!
# A rename in place and a move
-/

/-- Two versions of `web`, the second one encrypted and assigned to a group. -/
def twoVersions : World :=
  World.start { sampleDb with
    groups := [{ id := "g", tenantId := 1, name := "all", selectorJson := "{}",
                 createdAt := 0 }]
    bundles := [
      { id := "plain", tenantId := 1, name := "web", version := "1", sha256 := "p",
        sizeBytes := 1, signature := "", uploadedAt := 0, format := "plain",
        keyFingerprint := none },
      { id := "sealed", tenantId := 1, name := "web", version := "2", sha256 := "s",
        sizeBytes := 1, signature := "", uploadedAt := 0, format := "enc",
        keyFingerprint := some "k" }]
    bundleAssignments := [{ tenantId := 1, groupId := "g", bundleId := "sealed",
                            priority := 5, assignedAt := 0 }] } ∅ 0

def webInPlace : List RenamedInPlace := [{ id := "plain", signature := "q" }]

def webMoved : List MovedBundle :=
  [{ oldId := "sealed", newId := "staged", sha256 := "t", sizeBytes := 1, signature := "q",
     keyFingerprint := some "k" }]

theorem configKeys_twoVersions : ConfigKeys twoVersions.db := by
  constructor <;> decide +kernel

theorem renameBundle_twoVersions :
    exists db', ((Statement.renameBundle 1 "web" "site" webInPlace webMoved).exec
        twoVersions).2 = { twoVersions with db := db' } ∧
      BundlesRepo.Renamed 1 "web" "site" webMoved twoVersions.db db' := by
  have hanswer : ((Statement.renameBundle 1 "web" "site" webInPlace webMoved).exec
      twoVersions).1 = Except.ok RenameOutcome.renamed := by
    rfl
  exact (renameBundle_allOrNothing 1 "web" "site" webInPlace webMoved
    configKeys_twoVersions).1 hanswer

end Bundles
end FleetServer
