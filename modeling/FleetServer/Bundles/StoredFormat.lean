import FleetServer.Bundles.Files

/-!
# Rows and the format of their files

A row names the format of its file, and for an encrypted one the key it is
sealed with.  Uploads take them from the form and the header, composing and
directories from how the bytes were made, renames from the row before.
-/

namespace FleetServer
namespace Bundles

open FleetServer.Core
open Storage
open Server
open Concurrency

variable {deps : Deps}

/-!
# Files that fit
-/

/-- Stored bytes are what the row says of them. -/
structure Fits (b : BundleRow) (bytes : Bytes) : Prop where
  plain : b.format = EncBundle.formatPlain -> EncBundle.isEncrypted bytes = false
  encrypted : b.format = EncBundle.formatEncV1 -> exists h,
    EncBundle.parseHeader bytes = Except.ok h ∧ b.keyFingerprint = some h.fingerprintHex

def Formatted (lossy : Bool) (b : BundleRow) : Option Bytes -> Prop
  | none => lossy = true
  | some bytes => Fits b bytes

/-- Zip archives start with `PK`. -/
def ZipMagic (deps : Deps) : Prop :=
  forall stamp entries bytes, deps.buildZip stamp entries = some bytes ->
    bytes.take 2 = [80, 75]

theorem not_encrypted_of_zip {stamp : Option Int} {entries : List (String × Bytes)}
    {bytes : Bytes} (hzip : ZipMagic deps) (h : deps.buildZip stamp entries = some bytes) :
    EncBundle.isEncrypted bytes = false := by
  have hstart := hzip stamp entries bytes h
  cases bytes with
  | nil => rfl
  | cons first rest =>
      have hfirst : first = 80 := by
        cases rest with
        | nil => cases hstart
        | cons second rest =>
            injection hstart
      rw [hfirst]
      rfl

theorem format_ne : EncBundle.formatEncV1 ≠ EncBundle.formatPlain := by
  decide

theorem fits_plain {b : BundleRow} {bytes : Bytes} (hformat : b.format = EncBundle.formatPlain)
    (hbytes : EncBundle.isEncrypted bytes = false) : Fits b bytes := by
  constructor
  · exact fun _ => hbytes
  · intro h
    exact absurd (h.symm.trans hformat) format_ne

theorem fits_encrypted {b : BundleRow} {bytes : Bytes} {h : EncBundle.Header}
    (hformat : b.format ≠ EncBundle.formatPlain)
    (hheader : EncBundle.parseHeader bytes = Except.ok h)
    (hfingerprint : b.keyFingerprint = some h.fingerprintHex) : Fits b bytes := by
  constructor
  · intro hplain
    exact absurd hplain hformat
  · exact fun _ => ⟨h, hheader, hfingerprint⟩

/-!
# What requests write
-/

theorem format_of_formatOf {declared : Option String} {format : String}
    (h : formatOf declared = Except.ok format) :
    format = EncBundle.formatPlain ∨ format = EncBundle.formatEncV1 := by
  unfold formatOf at h
  split at h
  · cases h
    exact Or.inl rfl
  · split at h
    · cases h
      exact Or.inl rfl
    · split at h
      · cases h
        exact Or.inr rfl
      · cases h

theorem fits_uploaded {b : NewBundle} {row : BundleRow} (hzip : ZipMagic deps)
    (horigin : Origin deps b) (hformat : row.format = b.format)
    (hfingerprint : row.keyFingerprint = b.keyFingerprint) : Fits row b.bytes := by
  cases horigin with
  | uploaded declared hdeclared hchecked =>
      unfold keyFingerprintOf at hchecked
      split at hchecked
      · rename_i hencrypted
        cases hheader : EncBundle.parseHeader b.bytes with
        | error e =>
            rw [hheader] at hchecked
            cases hchecked
        | ok h =>
            rw [hheader] at hchecked
            injection hchecked with hchecked
            apply fits_encrypted _ hheader (hfingerprint.trans hchecked.symm)
            rw [hformat, hencrypted]
            exact format_ne
      · rename_i hplain
        split at hchecked
        · cases hchecked
        · rename_i hbytes
          apply fits_plain _ (Bool.eq_false_iff.mpr hbytes)
          rcases format_of_formatOf hdeclared with h | h
          · exact hformat.trans h
          · exact absurd h hplain
  | composed stamp entries hbuilt hplain _ =>
      exact fits_plain (hformat.trans hplain) (not_encrypted_of_zip hzip hbuilt)

theorem fits_built {spec : ConfigSource.BundleSpec} {built : ConfigSource.BuiltBundle}
    {row : BundleRow} (hzip : ZipMagic deps) (hfrom : ConfigSource.BuiltFrom deps spec built)
    (hformat : row.format = built.format)
    (hfingerprint : row.keyFingerprint = built.keyFingerprint) : Fits row built.bytes := by
  rcases hfrom.contents with ⟨label, hcontents⟩
  cases hspec : spec.contents with
  | tree files =>
      rw [hspec] at hcontents
      simp only [ConfigSource.contentsOf] at hcontents
      cases hbuilt : buildZipFromEntries deps files with
      | none =>
          rw [hbuilt] at hcontents
          cases hcontents
      | some bytes =>
          rw [hbuilt] at hcontents
          injection hcontents with hcontents
          injection hcontents with hplain hcontents
          injection hcontents with hbytes hcontents
          rw [← hbytes]
          exact fits_plain (hformat.trans hplain.symm) (not_encrypted_of_zip hzip hbuilt)
  | plainBlob bytes =>
      rw [hspec] at hcontents
      simp only [ConfigSource.contentsOf] at hcontents
      split at hcontents
      · cases hcontents
      · rename_i hnot
        injection hcontents with hcontents
        injection hcontents with hplain hcontents
        injection hcontents with hbytes hcontents
        rw [← hbytes]
        exact fits_plain (hformat.trans hplain.symm) (Bool.eq_false_iff.mpr hnot)
  | encrypted bytes =>
      rw [hspec] at hcontents
      simp only [ConfigSource.contentsOf] at hcontents
      cases hheader : EncBundle.parseHeader bytes with
      | error e =>
          rw [hheader] at hcontents
          cases hcontents
      | ok h =>
          rw [hheader] at hcontents
          injection hcontents with hcontents
          injection hcontents with henc hcontents
          injection hcontents with hbytes hcontents
          injection hcontents with hkey hcontents
          rw [← hbytes]
          apply fits_encrypted _ hheader (hfingerprint.trans hkey.symm)
          rw [hformat, ← henc]
          exact format_ne

theorem header_of_checkResealed {version : BundleRow} {bytes : Bytes} {fingerprint : String}
    (h : checkResealed deps version bytes = Except.ok fingerprint) :
    exists header, EncBundle.parseHeader bytes = Except.ok header ∧
      fingerprint = header.fingerprintHex := by
  unfold checkResealed at h
  split at h
  · cases h
  · split at h
    · cases h
    · rename_i header hheader
      split at h
      · cases h
      · split at h
        · cases h
        · injection h with h
          exact ⟨header, hheader, h.symm⟩

theorem granted_formatted {lossy : Bool} (hzip : ZipMagic deps) :
    Granted deps (Formatted lossy) := by
  constructor
  · intro b horigin row _ hformat hfingerprint
    exact fits_uploaded hzip horigin hformat hfingerprint
  · intro spec built hfrom row _ hformat hfingerprint
    exact fits_built hzip hfrom hformat hfingerprint
  · intro b file name signature hfile
    cases file with
    | none => exact hfile
    | some bytes => exact ⟨hfile.plain, hfile.encrypted⟩
  · intro tenantId key to_ staged version bytes m hplain hmade
    rcases movedBundle_eq_ok hmade with ⟨fingerprint, hcheck, hmoved⟩
    rcases header_of_checkResealed hcheck with ⟨header, hheader, hfingerprint⟩
    have hnot : version.format ≠ EncBundle.formatPlain := by
      intro hformat
      unfold isPlain at hplain
      rw [hformat] at hplain
      cases hplain
    have hkey : m.keyFingerprint = some header.fingerprintHex := by
      rw [hmoved, hfingerprint]
    exact fits_encrypted (b := BundlesRepo.movedRow to_ m version) hnot hheader hkey

/-!
# Requests
-/

/-- Where calls may fail or be the last: everywhere, or everywhere but between
an upload's row and its bytes. -/
def mayLose (lossy : Bool) (op : Op) (w : World) : Prop :=
  lossy = true ∨ spared op w

theorem lossy_mayLose {lossy : Bool} {n : Nat} {w : World} (hfresh : Fresh deps n w) :
    Lossy deps (Formatted lossy) (mayLose lossy) n w := by
  intro op u hcut hexposed
  rcases hcut with hlossy | hspared
  · constructor
    · exact fun _ => hlossy
    · intro tenantId
      cases hfile : w.files.lookup (tenantId, deps.ulid n 0) with
      | none => rfl
      | some bytes => exact absurd rfl (hfresh _ bytes hfile n 0 (Nat.le_refl n))
  · unfold spared at hspared
    rw [hexposed] at hspared
    cases hspared

section Requests

variable {lossy : Bool} {n : Nat} {w : World} {CutOff : Op -> World -> Prop}

theorem putsDrawn_of_reads (op : Op) (hop : op.reads = true) : PutsDrawn deps n op := by
  cases op with
  | storePut tenantId id bytes => cases hop
  | _ => trivial

theorem fresh_request {r : Request} (hids : deps.UniqueIds) (hr : writesBundles r = true)
    (hw : Fresh deps (n + 1) w) : Throughout CutOff (Fresh deps (n + 1)) (program deps n r) w := by
  cases r with
  | reconcile tenantId shown dir dryRun =>
      refine safe_bind ?_ (fun _ _ hu => hu)
      apply throughout_reconcile hw
      intro plan p report hplan
      apply fresh_putsDrawn hids _ hw
      apply uses_applyPlan
      · intro e he
        rcases (hplan.staged hids).drawn e he with ⟨k, _, hid⟩
        exact ⟨k, hid⟩
      · exact fun _ => trivial
      · trivial
  | http request =>
      refine safe_bind ?_ (fun _ _ hu => hu)
      cases request with
      | uploadBundle who form =>
          apply throughout_upload hw
          intro b key answer _ _
          exact fresh_insertAndStore hids hw
      | composeBundle who body =>
          apply throughout_compose hw
          intro b key answer _ _
          exact fresh_insertAndStore hids hw
      | deleteBundle who bundleId =>
          apply fresh_putsDrawn hids _ hw
          exact uses_deleteBundle putsDrawn_of_reads (fun _ => trivial) trivial trivial
      | stageReseal who bundleId body =>
          apply fresh_putsDrawn hids _ hw
          exact uses_stageReseal putsDrawn_of_reads (fun _ => ⟨0, rfl⟩)
      | renameBundle who body =>
          apply fresh_putsDrawn hids _ hw
          exact uses_rename putsDrawn_of_reads (fun _ _ _ => trivial)
      | _ => cases hr

theorem kept_request {r : Request} (hids : deps.UniqueIds) (hzip : ZipMagic deps)
    (hr : writesBundles r = true) (hkeys : ConfigKeys w.db) (hfresh : Fresh deps n w)
    (hw : Kept deps (Formatted lossy) n w) :
    Throughout (mayLose lossy) (Kept deps (Formatted lossy) (n + 1)) (program deps n r) w := by
  have hgranted : Granted deps (Formatted lossy) := granted_formatted hzip
  have hlossy : Lossy deps (Formatted lossy) (mayLose lossy) n w := lossy_mayLose hfresh
  have hw' := kept_mono hw (Nat.le_succ n)
  cases r with
  | reconcile tenantId shown dir dryRun =>
      exact safe_bind (kept_reconcile hids hgranted hw) (fun _ _ hu => hu)
  | http request =>
      refine safe_bind ?_ (fun _ _ hu => hu)
      cases request with
      | uploadBundle who form => exact kept_upload hids hgranted hlossy hw
      | composeBundle who body => exact kept_compose hids hgranted hlossy hw
      | deleteBundle who bundleId => exact kept_deleteBundle hw'
      | stageReseal who bundleId body =>
          have hlater : forall u, Kept deps (Formatted lossy) n u ->
              Kept deps (Formatted lossy) (n + 1) u :=
            fun u hu => kept_mono hu (Nat.le_succ n)
          exact safe_weaken hlater (safe_mono (fun _ => hlater) (kept_stageReseal hw))
      | renameBundle who body =>
          exact kept_rename hgranted hkeys (fresh_mono hfresh (Nat.le_succ n)) hw'
      | _ => cases hr

end Requests

/-!
# Sequences
-/

/-- What is kept from one request to the next. -/
structure Stored (deps : Deps) (lossy : Bool) (n : Nat) (w : World) : Prop where
  kept : Kept deps (Formatted lossy) n w
  fresh : Fresh deps n w
  keys : ConfigKeys w.db

theorem stored_request {lossy : Bool} {n : Nat} {r : Request} {w : World}
    (hids : deps.UniqueIds) (hzip : ZipMagic deps) (hr : writesBundles r = true)
    (hw : Stored deps lossy n w) :
    Throughout (mayLose lossy) (Stored deps lossy (n + 1)) (program deps n r) w := by
  have hkept := kept_request hids hzip hr hw.keys hw.fresh hw.kept
  have hfresh : Throughout (mayLose lossy) (Fresh deps (n + 1)) (program deps n r) w :=
    fresh_request hids hr (fresh_mono hw.fresh (Nat.le_succ n))
  have hkeys : Throughout (mayLose lossy) (fun u : World => ConfigKeys u.db)
      (program deps n r) w :=
    safe_of_exec (fun op u hu => configKeys_exec op hu) hw.keys
  have hall := safe_and hkept (safe_and hfresh hkeys)
  exact safe_weaken (fun u hu => ⟨hu.1, hu.2.1, hu.2.2⟩)
    (safe_mono (fun _ u hu => ⟨hu.1, hu.2.1, hu.2.2⟩) hall)

/-- Whatever fails and wherever the process stops, the bytes stored for a row
fit its format; and they are stored unless uploads may lose them. -/
theorem formatted_after_sequence {w v : World} {n : Nat} {lossy : Bool}
    (hids : deps.UniqueIds) (hzip : ZipMagic deps) (hkeys : ConfigKeys w.db)
    (hunused : Unused deps 0 w) (hfresh : Fresh deps 0 w)
    (hstart : forall b, b ∈ w.db.bundles -> Formatted lossy b (fileOf w b))
    (hsequence : Sequence (service deps) (fun r => writesBundles r = true) (mayLose lossy)
      SameStores w n v) :
    forall b, b ∈ v.db.bundles -> Formatted lossy b (fileOf v b) := by
  have hw : Stored deps lossy 0 w := ⟨⟨hstart, hunused⟩, hfresh, hkeys⟩
  refine (hsequence.invariant (Stored deps lossy) ?_ ?_ hw).kept.rows
  · intro n r u hallowed hu
    exact stored_request hids hzip hallowed hu
  · rintro n u u' ⟨hdb, hfiles⟩ hu
    constructor
    · exact kept_of_subset hu.kept hfiles (fun b hb => by rw [← hdb]; exact hb)
    · intro key bytes hfile
      rw [hfiles] at hfile
      exact hu.fresh key bytes hfile
    · rw [hdb]
      exact hu.keys

/-!
# A sealed upload
-/

def noBundles : World :=
  World.start sampleDb ∅ 0

/-- A header and a tag with nothing in between. -/
def uploadSealed : Request :=
  Request.http (HttpRequest.uploadBundle
    { userId := 1, tenantId := 1, role := Role.owner }
    { name := some "base", version := some "1", format := some "enc-v1", baseBundleId := none,
      bytes := some (EncBundle.magic ++ List.replicate 36 0) })

theorem formatted_after_uploadSealed :
    let v := ((program Deps.sample 0 uploadSealed).run machine noBundles).2
    v.db.bundles.map BundleRow.format = ["enc-v1"] ∧
      forall b, b ∈ v.db.bundles -> Formatted false b (fileOf v b) := by
  intro v
  have hzip : ZipMagic Deps.sample := by
    intro stamp entries bytes h
    cases h
  have hkeys : ConfigKeys noBundles.db := by
    constructor <;> decide +kernel
  have hunused : Unused Deps.sample 0 noBundles := fun _ hb => absurd hb List.not_mem_nil
  have hfresh : Fresh Deps.sample 0 noBundles := by
    intro key bytes h
    cases h
  have hstart : forall b, b ∈ noBundles.db.bundles -> Formatted false b (fileOf noBundles b) :=
    fun _ hb => absurd hb List.not_mem_nil
  have hallowed : writesBundles uploadSealed = true := rfl
  have hattempt : Attempt machine (mayLose false) (program Deps.sample 0 uploadSealed)
      noBundles v := attempt_run machine (program Deps.sample 0 uploadSealed) noBundles
  have hsequence : Sequence (service Deps.sample) (fun r => writesBundles r = true)
      (mayLose false) SameStores noBundles 1 v :=
    Sequence.request Sequence.start hallowed hattempt
  have hformat : v.db.bundles.map BundleRow.format = ["enc-v1"] := by
    decide +kernel
  exact ⟨hformat, formatted_after_sequence Deps.uniqueIds_sample hzip hkeys hunused hfresh
    hstart hsequence⟩

end Bundles
end FleetServer
