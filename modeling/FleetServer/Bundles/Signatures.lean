import FleetServer.Bundles.Writes
import FleetServer.Runtime.TenantSetup
import FleetServer.Server.Calls
import FleetServer.Server.Constraints
import FleetServer.Storage.Replace

/-!
# Rows and their signatures

Every request that stores a row signs the descriptor of what it stores.  A row
is signed when its signature is its tenant's over the descriptor it has now.
-/

namespace FleetServer
namespace Bundles

open FleetServer.Core
open Storage
open Table
open Server
open Concurrency
open FleetServer.Runtime (rowDescriptor alreadyValid resignRows resignBundles)

variable {deps : Deps}
variable {db db' : Db} {tenantId : Int} {key : Bytes} {b : BundleRow} {s : Statement}

/-!
# Signed rows
-/

def Signed (deps : Deps) (db : Db) (b : BundleRow) : Prop :=
  exists key, HasKey deps b.tenantId db key ∧
    b.signature = signDescriptor deps key (rowDescriptor b)

structure AllSigned (deps : Deps) (w : World) : Prop where
  keys : ConfigKeys w.db
  signed : forall b, b ∈ w.db.bundles -> Signed deps w.db b

theorem hasKey_of_same (hsecrets : db.Same Part.secrets db') (h : HasKey deps tenantId db key) :
    HasKey deps tenantId db' key := by
  have hsame : db'.tenantSecrets = db.tenantSecrets := hsecrets
  unfold HasKey TenantSecretsRepo.getByTenant
  rw [hsame]
  exact h

theorem signed_of_same (hsecrets : db.Same Part.secrets db') (h : Signed deps db b) :
    Signed deps db' b := by
  rcases h with ⟨key, hkey, hsignature⟩
  exact ⟨key, hasKey_of_same hsecrets hkey, hsignature⟩

theorem secrets_unwritten (s : Statement) : Part.secrets ∉ s.writes := by
  cases s <;> simp [Statement.writes]

theorem same_secrets {w : World} {answer : s.Answer} (h : s.tx w.now w.db = Except.ok (answer, db))
    : w.db.Same Part.secrets db :=
  Statement.keeps (secrets_unwritten s) w.db answer db h

/-- After a statement, the rows it wrote have to be signed; the others still
are. -/
theorem allSigned_statement {w : World} {answer : s.Answer} (hw : AllSigned deps w)
    (h : s.tx w.now w.db = Except.ok (answer, db))
    (hrows : forall b, b ∈ db.bundles -> b ∈ w.db.bundles ∨ Signed deps w.db b) :
    AllSigned deps { w with db := db } := by
  constructor
  · exact Statement.keepsKeys s w.now w.db answer db h hw.keys
  · intro b hb
    apply signed_of_same (same_secrets h)
    rcases hrows b hb with hold | hsigned
    · exact hw.signed b hold
    · exact hsigned

/-!
# Calls
-/

/-- A call that leaves every row signed, given what the tenants' secrets are. -/
def KeepsSigned (deps : Deps) (w : World) (op : Op) : Prop :=
  forall u, w.db.Same Part.secrets u.db -> AllSigned deps u -> AllSigned deps (exec op u).2

section Calls

variable {n : Nat} {w : World}

theorem same_secrets_exec (op : Op) (u : World) :
    u.db.Same Part.secrets (exec op u).2.db := by
  apply exec_same
  cases op with
  | statement s => exact secrets_unwritten s
  | _ => exact List.not_mem_nil

theorem keepsSigned_of_unwritten {op : Op} (hop : Part.bundles ∉ op.writes) :
    KeepsSigned deps w op := by
  intro u _ hu
  have hrows : (exec op u).2.db.bundles = u.db.bundles := exec_same hop u
  constructor
  · exact configKeys_exec op hu.keys
  · intro b hb
    rw [hrows] at hb
    exact signed_of_same (same_secrets_exec op u) (hu.signed b hb)

theorem keepsSigned_of_reads (op : Op) (hop : op.reads = true) : KeepsSigned deps w op := by
  intro u _ hu
  rw [exec_of_reads hop]
  exact hu

theorem keepsSigned_statement (hs : forall (u : World) answer db, w.db.Same Part.secrets u.db ->
      s.tx u.now u.db = Except.ok (answer, db) -> forall b, b ∈ db.bundles ->
        b ∈ u.db.bundles ∨ Signed deps u.db b) :
    KeepsSigned deps w (Op.statement s) := by
  intro u hsecrets hu
  show AllSigned deps (s.exec u).2
  rcases statement_exec s u with ⟨e, _, hexec⟩ | ⟨answer, db, htx, hexec⟩
  · rw [hexec]
    exact hu
  · rw [hexec]
    exact allSigned_statement hu htx (hs u answer db hsecrets htx)

theorem keepsSigned_createBundle {id : String} {b : NewBundle}
    (hkey : HasKey deps tenantId w.db key) :
    KeepsSigned deps w (Op.statement (Statement.createBundle id tenantId b.name b.version
      (deps.sha256Hex b.bytes) b.bytes.length
      (signDescriptor deps key (descriptorOf deps tenantId id b)) b.format
      b.keyFingerprint)) := by
  apply keepsSigned_statement
  intro u row db hsecrets htx c hc
  have hcreated := BundlesRepo.create_eq_ok htx
  rw [(BundlesRepo.insertRow_eq_ok.mp hcreated.2).2] at hc
  rcases List.mem_append.mp hc with hc | hc
  · exact Or.inl hc
  · rw [List.mem_singleton.mp hc, hcreated.1]
    exact Or.inr ⟨key, hasKey_of_same hsecrets hkey, rfl⟩

theorem keepsSigned_deleteBundle (tenantId : Int) (id : String) :
    KeepsSigned deps w (Op.statement (Statement.deleteBundle tenantId id)) := by
  apply keepsSigned_statement
  intro u found db _ htx b hb
  rw [BundlesRepo.delete_eq_ok htx] at hb
  exact Or.inl (mem_of_mem_deleteWhere hb)

theorem keepsSigned_applyConfig {plan : ConfigPlan} {p : ConfigSource.Planning}
    (hplan : Planned deps n tenantId w plan p) :
    KeepsSigned deps w (Op.statement (Statement.applyConfig tenantId plan)) := by
  apply keepsSigned_statement
  intro u outcome db hsecrets htx b hb
  cases outcome with
  | changed =>
      rw [ConfigSourceRepo.apply_eq_changed htx] at hb
      exact Or.inl hb
  | applied =>
      rw [(ConfigSourceRepo.apply_eq_ok htx).2.1] at hb
      rcases List.mem_append.mp hb with hb | hb
      · exact Or.inl (mem_of_mem_deleteWhere hb)
      · rcases List.mem_map.mp hb with ⟨planned, hplanned, rfl⟩
        rw [hplan.inserts] at hplanned
        rcases hplan.made planned hplanned with ⟨_, built, _, ⟨key, hkey, hsigned⟩, _⟩
        rw [hsigned]
        exact Or.inr ⟨key, hasKey_of_same hsecrets hkey, rfl⟩

theorem allSigned_rename {from_ to_ : String} {moved : List MovedBundle} {outcome : RenameOutcome}
    (hkey : HasKey deps tenantId w.db key) (hne : to_ ≠ from_)
    (hmoved : forall m, m ∈ moved -> Moved deps tenantId key from_ to_ w m) (hw : AllSigned deps w)
    (htx : BundlesRepo.rename tenantId from_ to_
      (renamedInPlace deps tenantId key to_ (BundlesRepo.listByName tenantId from_ w.db)) moved
      w.db = Except.ok (outcome, db)) :
    AllSigned deps { w with db := db } := by
  have hlisted : forall v, v ∈ BundlesRepo.listByName tenantId from_ w.db ->
      v ∈ w.db.bundles := by
    intro v hv
    exact List.mem_of_mem_filter ((List.mem_insertionSort _).mp hv)
  apply allSigned_statement hw
    (show (Statement.renameBundle tenantId from_ to_ _ moved).tx w.now w.db = _ from htx)
  intro b hb
  cases BundlesRepo.rows_rename hne htx b hb with
  | kept hb => exact Or.inl hb
  | @inPlace r c hr hc htenant hid hname =>
      rcases List.mem_map.mp hr with ⟨version, hversion, rfl⟩
      -- The version that was read is the row that is renamed.
      have hsame : version = c :=
        eq_of_key_eq hw.keys.bundleIds (hlisted version (List.mem_of_mem_filter hversion)) hc
          hid.symm
      subst hsame
      subst htenant
      exact Or.inr ⟨key, hkey, rfl⟩
  | @moved m c hm hc htenant hid hname =>
      rcases (hmoved m hm).staged with ⟨version, bytes, hversion, _, _, hmade⟩
      rcases movedBundle_eq_ok hmade with ⟨_, _, hmade⟩
      have hold : m.oldId = version.id := by
        rw [hmade]
      have hsame : version = c :=
        eq_of_key_eq hw.keys.bundleIds (hlisted version hversion) hc (hold.symm.trans hid.symm)
      subst hsame
      subst htenant
      refine Or.inr ⟨key, hkey, ?_⟩
      have hsha : m.sha256 = deps.sha256Hex bytes := by
        rw [hmade]
      have hsignature : m.signature =
          signRenamed deps version.tenantId key to_ m.newId version (deps.sha256Hex bytes) := by
        exact congrArg MovedBundle.signature hmade
      show m.signature = signDescriptor deps key 
        (rowDescriptor (BundlesRepo.movedRow to_ m version))
      rw [hsignature, ← hsha]
      rfl

end Calls

/-!
# Requests
-/

section Requests

variable {n : Nat} {w : World}

theorem throughout_keepsSigned {alpha : Type} {p : Prog alpha}
    (hp : Program.Uses (KeepsSigned deps w) p) (hw : AllSigned deps w) :
    Throughout anywhere (AllSigned deps) p w := by
  have hkeeps : Program.Uses
      (fun op => forall u : World, AllSigned deps u ∧ w.db.Same Part.secrets u.db ->
        AllSigned deps (exec op u).2 ∧ w.db.Same Part.secrets (exec op u).2.db) p := by
    apply Program.uses_mono _ hp
    intro op hop u hu
    constructor
    · exact hop u hu.2 hu.1
    · exact Db.same_trans _ _ _ _ hu.2 (same_secrets_exec op u)
  exact safe_mono (fun _ _ h => h.2.1)
    (safe_of_uses (fun _ hu => hu.1) hkeeps (Program.ends_true p)
      ⟨hw, Db.same_refl Part.secrets w.db⟩)

theorem keepsSigned_bumpConfigVersion (tenantId : Int) :
    KeepsSigned deps w (Op.statement (Statement.bumpConfigVersion tenantId)) :=
  keepsSigned_of_unwritten (by simp [Op.writes, Statement.writes])

theorem uses_storedBundle {b : NewBundle} {answer : BundleRow -> Response}
    (hkey : HasKey deps tenantId w.db key) :
    Program.Uses (KeepsSigned deps w) (insertAndStore deps n tenantId b
      (signDescriptor deps key (descriptorOf deps tenantId (deps.ulid n 0) b)) answer) := by
  apply uses_insertAndStore keepsSigned_bumpConfigVersion
  · exact keepsSigned_createBundle hkey
  · exact fun id => keepsSigned_of_unwritten List.not_mem_nil

theorem throughout_request {r : Request} (hr : writesBundles r = true)
    (hw : AllSigned deps w) :
    Throughout anywhere (AllSigned deps) (program deps n r) w := by
  cases r with
  | reconcile tenantId shown dir dryRun =>
      refine safe_bind ?_ (fun _ _ hu => hu)
      apply throughout_reconcile hw
      intro plan p report hplan
      apply throughout_keepsSigned _ hw
      apply uses_applyPlan
      · exact fun e _ => keepsSigned_of_unwritten List.not_mem_nil
      · exact fun id => keepsSigned_of_unwritten List.not_mem_nil
      · exact keepsSigned_applyConfig hplan
  | http request =>
      refine safe_bind ?_ (fun _ _ hu => hu)
      cases request with
      | uploadBundle who form =>
          apply throughout_upload hw
          intro b key answer _ hkey
          exact throughout_keepsSigned (uses_storedBundle hkey) hw
      | composeBundle who body =>
          apply throughout_compose hw
          intro b key answer _ hkey
          exact throughout_keepsSigned (uses_storedBundle hkey) hw
      | deleteBundle who bundleId =>
          apply throughout_keepsSigned _ hw
          apply uses_deleteBundle keepsSigned_of_reads keepsSigned_bumpConfigVersion
          · exact keepsSigned_deleteBundle who.tenantId bundleId
          · exact keepsSigned_of_unwritten List.not_mem_nil
      | stageReseal who bundleId body =>
          apply throughout_keepsSigned _ hw
          apply uses_stageReseal keepsSigned_of_reads
          exact fun bytes => keepsSigned_of_unwritten List.not_mem_nil
      | renameBundle who body =>
          apply throughout_rename hw
          intro key to_ moved hkey hne hmoved
          apply safe_executeOr hw
          · intro outcome db htx
            have hrenamed := allSigned_rename hkey hne hmoved hw htx
            apply throughout_keepsSigned _ hrenamed
            apply uses_renameAnswer
            exact keepsSigned_of_reads
          · exact hw
      | _ => cases hr

end Requests

/-!
# The walk at startup
-/

/-- A row the walk can deal with: its tenant has secrets, and it is signed if
its signature verifies. -/
def Resignable (deps : Deps) (db : Db) (b : BundleRow) : Prop :=
  exists secrets, TenantSecretsRepo.getByTenant b.tenantId db = some secrets ∧
    (alreadyValid deps secrets b = true -> Signed deps db b)

theorem resignable_of_same (hsecrets : db.Same Part.secrets db') (h : Resignable deps db b) :
    Resignable deps db' b := by
  rcases h with ⟨secrets, hfound, hvalid⟩
  have hsame : db'.tenantSecrets = db.tenantSecrets := hsecrets
  refine ⟨secrets, ?_, fun h => signed_of_same hsecrets (hvalid h)⟩
  unfold TenantSecretsRepo.getByTenant
  rw [hsame]
  exact hfound

theorem resignable_of_signed (h : Signed deps db b) :
    Resignable deps db b := by
  rcases h with ⟨key, hkey, hsignature⟩
  cases hfound : TenantSecretsRepo.getByTenant b.tenantId db with
  | none =>
      unfold HasKey at hkey
      rw [hfound] at hkey
      cases hkey
  | some secrets => exact ⟨secrets, hfound, fun _ => ⟨key, hkey, hsignature⟩⟩

structure Resigning (deps : Deps) (Waiting : Db -> BundleRow -> Prop) (rest : List BundleRow)
    (u : World) : Prop where
  keys : ConfigKeys u.db
  there : forall r, r ∈ rest -> r ∈ u.db.bundles ∧ Waiting u.db r
  once : (rest.map BundleRow.id).Nodup
  rows : forall b, b ∈ u.db.bundles -> b ∈ rest ∨ Signed deps u.db b

section Resigning

variable {Waiting : Db -> BundleRow -> Prop} {rest : List BundleRow} {row : BundleRow}
  {u : World}

theorem resigning_skip (hu : Resigning deps Waiting (row :: rest) u)
    (hrow : Signed deps u.db row) : Resigning deps Waiting rest u := by
  have honce := hu.once
  rw [List.map_cons, List.nodup_cons] at honce
  constructor
  · exact hu.keys
  · exact fun r hr => hu.there r (List.mem_cons_of_mem row hr)
  · exact honce.2
  · intro b hb
    rcases hu.rows b hb with hwaiting | hsigned
    · rcases List.mem_cons.mp hwaiting with hsame | hlater
      · rw [hsame]
        exact Or.inr hrow
      · exact Or.inl hlater
    · exact Or.inr hsigned

theorem resigning_replace {answer : Unit}
    (hwaiting : forall db db' b, db.Same Part.secrets db' -> Waiting db b -> Waiting db' b)
    (hu : Resigning deps Waiting (row :: rest) u) (hkey : HasKey deps row.tenantId u.db key)
    (htx : BundlesRepo.replaceSignature row.tenantId row.id
      (signDescriptor deps key (rowDescriptor row)) u.db = Except.ok (answer, db)) :
    Resigning deps Waiting rest { u with db := db } := by
  have honce := hu.once
  rw [List.map_cons, List.nodup_cons] at honce
  have hkeys : ConfigKeys db :=
    KeepsKeys.replaceSignature row.tenantId row.id _ u.db answer db htx hu.keys
  have hrow : row ∈ u.db.bundles := (hu.there row List.mem_cons_self).1
  -- The one row that is written is the one that was listed.
  have honly : forall b, b ∈ u.db.bundles ->
      BundlesRepo.isBundle row.tenantId row.id b = true -> b = row := by
    intro b hb hp
    exact eq_of_key_eq hu.keys.bundleIds hb hrow (KeepsKeys.isBundle_iff.mp hp).2
  have heq := Tx.total_eq_ok.mp htx
  cases heq
  have hsecrets : u.db.Same Part.secrets _ := rfl
  constructor
  · exact hkeys
  · intro r hr
    have hthere := hu.there r (List.mem_cons_of_mem row hr)
    constructor
    · refine mem_updateWhere.mpr ⟨r, hthere.1, (if_neg ?_).symm⟩
      intro hp
      rw [honly r hthere.1 hp] at hr
      exact honce.1 (List.mem_map_of_mem hr)
    · exact hwaiting _ _ r hsecrets hthere.2
  · exact honce.2
  · intro b hb
    rcases of_mem_updateWhere hb with ⟨c, hc, ⟨hp, heq⟩ | ⟨hp, heq⟩⟩
    · rw [heq]
      rcases hu.rows c hc with hlisted | hsigned
      · rcases List.mem_cons.mp hlisted with hsame | hlater
        · rw [hsame] at hp
          rw [KeepsKeys.isBundle_iff.mpr ⟨rfl, rfl⟩] at hp
          cases hp
        · exact Or.inl hlater
      · exact Or.inr (signed_of_same hsecrets hsigned)
    · rw [heq, honly c hc hp]
      exact Or.inr ⟨key, hasKey_of_same hsecrets hkey, rfl⟩

def Walking (deps : Deps) (Waiting : Db -> BundleRow -> Prop) (u : World) : Prop :=
  exists rest, Resigning deps Waiting rest u

/-- What the walk ends with: nothing waits any more, if it got through. -/
def Walked (deps : Deps) (Waiting : Db -> BundleRow -> Prop)
    (result : Except Runtime.ResignError Unit) (u : World) : Prop :=
  Walking deps Waiting u ∧ (result = Except.ok () -> Resigning deps Waiting [] u)

theorem walked_error {e : Runtime.ResignError} (hu : Resigning deps Waiting rest u) :
    Walked deps Waiting (Except.error e) u := by
  constructor
  · exact ⟨rest, hu⟩
  · intro h
    cases h

variable {CutOff : Op -> World -> Prop}

theorem safe_resignRows
    (hwaiting : forall db db' b, db.Same Part.secrets db' -> Waiting db b -> Waiting db' b)
    (hresign : forall db b, Waiting db b -> Resignable deps db b) (rest : List BundleRow) :
    forall u, Resigning deps Waiting rest u ->
      Safe machine CutOff (Walking deps Waiting) (Walked deps Waiting)
        (resignRows deps rest) u := by
  induction rest with
  | nil => exact fun u hu => ⟨⟨[], hu⟩, fun _ => hu⟩
  | cons row rest ih =>
      intro u hu
      rcases hresign u.db row (hu.there row List.mem_cons_self).2 with ⟨secrets, hfound, hvalid⟩
      unfold resignRows
      apply safe_askOr ⟨_, hu⟩ _ (walked_error hu)
      have hread : (Query.tenantSecrets row.tenantId).eval u.now u.db = some secrets := hfound
      rw [hread]
      simp only
      split
      · rename_i hskip
        exact ih u (resigning_skip hu (hvalid hskip))
      · apply safe_askOr ⟨_, hu⟩ _ (walked_error hu)
        split
        · exact walked_error hu
        · rename_i key hkey
          apply safe_executeOr ⟨_, hu⟩ _ (walked_error hu)
          intro answer db htx
          exact ih _ (resigning_replace hwaiting hu hkey htx)

theorem safe_resignBundles
    (hwaiting : forall db db' b, db.Same Part.secrets db' -> Waiting db b -> Waiting db' b)
    (hresign : forall db b, Waiting db b -> Resignable deps db b) (hkeys : ConfigKeys u.db)
    (hu : forall b, b ∈ u.db.bundles -> Waiting u.db b) :
    Safe machine CutOff (Walking deps Waiting) (Walked deps Waiting) (resignBundles deps) u := by
  have hstart : Resigning deps Waiting u.db.bundles u := by
    constructor
    · exact hkeys
    · exact fun b hb => ⟨hb, hu b hb⟩
    · exact hkeys.bundleIds
    · exact fun b hb => Or.inl hb
  apply safe_askOr ⟨_, hstart⟩ _ (walked_error hstart)
  exact safe_resignRows hwaiting hresign u.db.bundles u hstart

end Resigning

theorem allSigned_of_walking {u : World} (hu : Walking deps (Signed deps) u) :
    AllSigned deps u := by
  rcases hu with ⟨rest, hrest⟩
  constructor
  · exact hrest.keys
  · intro b hb
    rcases hrest.rows b hb with hlisted | hsigned
    · exact (hrest.there b hlisted).2
    · exact hsigned

theorem throughout_resign {w : World} (hw : AllSigned deps w) :
    Throughout anywhere (AllSigned deps) (resignBundles deps) w := by
  apply safe_weaken (fun u hu => allSigned_of_walking hu)
  have hsafe : Safe machine anywhere (Walking deps (Signed deps)) (Walked deps (Signed deps))
      (resignBundles deps) w :=
    safe_resignBundles (fun _ _ _ hsecrets h => signed_of_same hsecrets h)
      (fun _ _ h => resignable_of_signed h) hw.keys hw.signed
  exact safe_mono (fun _ u hu => allSigned_of_walking hu.1) hsafe

/-!
# The start of the server
-/

/-- The stored signing key and public key of a tenant belong together: of what
the server signs, only what this key signed over the message verifies. -/
def KeyPair (deps : Deps) (tenantId : Int) (secrets : TenantSecretsRow) : Prop :=
  exists key, loadSigningKey deps tenantId (some secrets) = some key ∧
    forall message signer signed,
      deps.verifyWith secrets.bundleSigningPubPem message (deps.signWith signer signed) = true ->
        deps.signWith signer signed = deps.signWith key message

/-- The row's signature, if it is one, is one the server made. -/
def StoredSignature (deps : Deps) (b : BundleRow) : Prop :=
  forall signature, deps.base64Decode b.signature = some signature ->
    exists signer signed, signature = deps.signWith signer signed

/-- The server was started on `u`, and the walk over its bundles went through. -/
structure StartedUp (deps : Deps) (u w : World) : Prop where
  base64 : forall text bytes, deps.base64Decode text = some bytes -> deps.base64 bytes = text
  keys : ConfigKeys u.db
  secrets : forall b, b ∈ u.db.bundles -> exists secrets,
    TenantSecretsRepo.getByTenant b.tenantId u.db = some secrets ∧ KeyPair deps b.tenantId secrets
  stored : forall b, b ∈ u.db.bundles -> StoredSignature deps b
  resigned : (resignBundles deps).run machine u = (Except.ok (), w)

theorem signed_of_alreadyValid {secrets : TenantSecretsRow}
    (hbase64 : forall text bytes, deps.base64Decode text = some bytes -> deps.base64 bytes = text)
    (hfound : TenantSecretsRepo.getByTenant b.tenantId db = some secrets)
    (hpair : KeyPair deps b.tenantId secrets) (hstored : StoredSignature deps b)
    (h : alreadyValid deps secrets b = true) :
    Signed deps db b := by
  rcases hpair with ⟨key, hkey, hverify⟩
  unfold alreadyValid at h
  cases hdecoded : deps.base64Decode b.signature with
  | none =>
      rw [hdecoded] at h
      cases h
  | some signature =>
      rw [hdecoded] at h
      rcases hstored signature hdecoded with ⟨signer, signed, rfl⟩
      refine ⟨key, ?_, ?_⟩
      · unfold HasKey
        rw [hfound]
        exact hkey
      · rw [← hbase64 _ _ hdecoded, hverify _ _ _ h]
        rfl

theorem allSigned_of_startedUp {u w : World} (h : StartedUp deps u w) : AllSigned deps w := by
  have hresignable : forall b, b ∈ u.db.bundles -> Resignable deps u.db b := by
    intro b hb
    rcases h.secrets b hb with ⟨secrets, hfound, hpair⟩
    exact ⟨secrets, hfound, signed_of_alreadyValid h.base64 hfound hpair (h.stored b hb)⟩
  have hsafe : Safe machine anywhere (Walking deps (Resignable deps))
      (Walked deps (Resignable deps)) (resignBundles deps) u :=
    safe_resignBundles (fun _ _ _ hsecrets hb => resignable_of_same hsecrets hb)
      (fun _ _ hb => hb) h.keys hresignable
  have hwalked := safe_run hsafe
  rw [h.resigned] at hwalked
  have hdone := hwalked.2 rfl
  constructor
  · exact hdone.keys
  · intro b hb
    rcases hdone.rows b hb with hlisted | hsigned
    · cases hlisted
    · exact hsigned

/-!
# Sequences
-/

/-- What is asked of the server, or done when it starts. -/
def signsBundles : Runtime.Task -> Bool
  | Runtime.Task.request r => writesBundles r
  | Runtime.Task.resign => true

/-- Whatever fails and wherever the process stops, every bundle's signature is
its tenant's over what the row says. -/
theorem rows_signed {w v : World} {n : Nat}
    (hstart : AllSigned deps w ∨ exists u, StartedUp deps u w)
    (hsequence : Sequence (Runtime.maintained deps) (fun t => signsBundles t = true) anywhere
      SameStores w n v) :
    forall b, b ∈ v.db.bundles -> exists key,
      loadSigningKey deps b.tenantId (TenantSecretsRepo.getByTenant b.tenantId v.db) = some key ∧
        b.signature = signDescriptor deps key
          { tenantId := b.tenantId, bundleId := b.id, name := b.name, version := b.version,
            format := b.format, sha256Hex := b.sha256 } := by
  have hw : AllSigned deps w := by
    rcases hstart with hsigned | ⟨u, hstarted⟩
    · exact hsigned
    · exact allSigned_of_startedUp hstarted
  have hv : AllSigned deps v := by
    refine hsequence.invariant (fun _ => AllSigned deps) ?_ ?_ hw
    · intro n t u hallowed hu
      cases t with
      | request r => exact safe_bind (throughout_request hallowed hu) (fun _ _ hv => hv)
      | resign => exact safe_bind (throughout_resign hu) (fun _ _ hv => hv)
    · rintro n u u' ⟨hdb, _⟩ hu
      constructor
      · rw [hdb]
        exact hu.keys
      · rw [hdb]
        exact hu.signed
  exact hv.signed

/-!
# An old bundle

Its signature was made before descriptors were signed.  The server starts, and
the bundle is renamed.
-/

def oldBundle : World :=
  World.start { sampleDb with
    bundles := [
      { id := "b", tenantId := 1, name := "base", version := "1", sha256 := "d",
        sizeBytes := 1, signature := "old", uploadedAt := 0, format := "plain",
        keyFingerprint := none }] } ∅ 0

def renameBase : Runtime.Task :=
  Runtime.Task.request (Request.http (HttpRequest.renameBundle
    { userId := 1, tenantId := 1, role := Role.owner }
    { from_ := "base", to_ := "core", resealed := [] }))

theorem startedUp_oldBundle :
    StartedUp Deps.sample oldBundle ((resignBundles Deps.sample).run machine oldBundle).2 := by
  constructor
  · intro text bytes h
    cases h
  · constructor <;> decide +kernel
  · intro b hb
    rw [List.mem_singleton.mp hb]
    refine ⟨_, rfl, [], by decide +kernel, ?_⟩
    intro message signer signed h
    exact (eq_of_beq h).symm
  · intro b hb signature h
    cases h
  · have hanswer : ((resignBundles Deps.sample).run machine oldBundle).1 = Except.ok () := by
      rfl
    rw [← hanswer]

theorem rows_signed_oldBundle :
    let w := ((resignBundles Deps.sample).run machine oldBundle).2
    let v := ((Runtime.taskProgram Deps.sample 0 renameBase).run machine w).2
    v.db.bundles.map BundleRow.name = ["core"] ∧
      forall b, b ∈ v.db.bundles -> exists key,
        loadSigningKey Deps.sample b.tenantId
            (TenantSecretsRepo.getByTenant b.tenantId v.db) = some key ∧
          b.signature = signDescriptor Deps.sample key
            { tenantId := b.tenantId, bundleId := b.id, name := b.name, version := b.version,
              format := b.format, sha256Hex := b.sha256 } := by
  intro w v
  have hallowed : signsBundles renameBase = true := rfl
  have hattempt : Attempt machine anywhere (Runtime.taskProgram Deps.sample 0 renameBase) w v :=
    attempt_run machine (Runtime.taskProgram Deps.sample 0 renameBase) w
  have hsequence : Sequence (Runtime.maintained Deps.sample)
      (fun t => signsBundles t = true) anywhere SameStores w 1 v :=
    Sequence.request Sequence.start hallowed hattempt
  have hname : v.db.bundles.map BundleRow.name = ["core"] := by
    decide +kernel
  exact ⟨hname, rows_signed (Or.inr ⟨oldBundle, startedUp_oldBundle⟩) hsequence⟩

end Bundles
end FleetServer
