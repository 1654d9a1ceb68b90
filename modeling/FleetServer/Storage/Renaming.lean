import FleetServer.Storage.Constraints

/-!
# What a rename leaves

A rename goes through its versions one after another.  The stage it has reached
is described by the versions already moved.
-/

namespace FleetServer
namespace Storage

open Table

namespace BundlesRepo

variable {m : MovedBundle} {b : BundleRow} {found : Bool} {db db' : Db}

def newIdOf (moved : List MovedBundle) (id : String) : String :=
  match moved.find? (fun m => m.oldId == id) with
  | some m => m.newId
  | none => id

/-- What a rename carries over of a version. -/
def carried (b : BundleRow) : String × String × String × Int :=
  (b.id, b.version, b.format, b.uploadedAt)

def carriedTo (moved : List MovedBundle) (b : BundleRow) : String × String × String × Int :=
  (newIdOf moved b.id, b.version, b.format, b.uploadedAt)

def follow (tenantId : Int) (moved : List MovedBundle) (a : BundleAssignmentRow) :
    BundleAssignmentRow :=
  if a.tenantId == tenantId then { a with bundleId := newIdOf moved a.bundleId } else a

def isEither (tenantId : Int) (from_ to_ : String) (b : BundleRow) : Bool :=
  isNamed tenantId from_ b || isNamed tenantId to_ b

theorem newIdOf_append {moved : List MovedBundle} (hnews : m.oldId ∉ moved.map MovedBundle.newId)
    (id : String) :
    newIdOf (moved ++ [m]) id =
      if newIdOf moved id = m.oldId then m.newId else newIdOf moved id := by
  unfold newIdOf
  rw [List.find?_append]
  cases hfind : moved.find? (fun m => m.oldId == id) with
  | some m' =>
      have hmem : m'.newId ∈ moved.map MovedBundle.newId :=
        List.mem_map.mpr ⟨m', List.mem_of_find?_eq_some hfind, rfl⟩
      have hne : m'.newId ≠ m.oldId := by
        intro heq
        rw [heq] at hmem
        exact hnews hmem
      simp [hne]
  | none =>
      by_cases hid : m.oldId = id
      · simp [hid]
      · have hid' : ¬ id = m.oldId := fun h => hid h.symm
        simp [hid, hid']

theorem newIdOf_eq_self {moved : List MovedBundle} {id : String}
    (h : id ∉ moved.map MovedBundle.oldId) : newIdOf moved id = id := by
  have hnone : moved.find? (fun m => m.oldId == id) = none := by
    rw [List.find?_eq_none]
    intro m hm heq
    exact h (List.mem_map.mpr ⟨m, hm, by simpa using heq⟩)
  unfold newIdOf
  rw [hnone]

structure Stage (tenantId : Int) (from_ to_ : String) (start : Db)
    (moved : List MovedBundle) (db : Db) : Prop where
  keys : ConfigKeys db
  rows : ((db.bundles.filter (isEither tenantId from_ to_)).map carried).Perm
    ((start.bundles.filter (isNamed tenantId from_)).map (carriedTo moved))
  others : db.bundles.filter (fun b => !isEither tenantId from_ to_ b) =
    start.bundles.filter (fun b => !isEither tenantId from_ to_ b)
  assignments : db.bundleAssignments = start.bundleAssignments.map (follow tenantId moved)
  rest : db = { start with
    bundles := db.bundles, bundleAssignments := db.bundleAssignments }
  untouched : forall b, b ∈ db.bundles -> isNamed tenantId from_ b = true ->
    b.id ∉ moved.map MovedBundle.oldId ∧ b.id ∉ moved.map MovedBundle.newId
  apart : forall b, b ∈ db.bundles -> isNamed tenantId from_ b = true -> from_ ≠ to_
  mapped : forall m, m ∈ moved -> newIdOf moved m.oldId = m.newId

variable {tenantId : Int} {from_ to_ : String} {start : Db}

theorem isNamed_iff {name : String} :
    isNamed tenantId name b = true <-> b.tenantId = tenantId ∧ b.name = name := by
  simp [isNamed]

theorem carriedTo_nil : carriedTo [] = carried := by
  funext b
  rfl

theorem follow_nil : follow tenantId [] = id := by
  funext a
  unfold follow
  split <;> rfl

theorem stage_start (hstart : ConfigKeys start)
    (hfree : start.bundles.any (isNamed tenantId to_) = false) :
    Stage tenantId from_ to_ start [] start := by
  rw [List.any_eq_false] at hfree
  have heither : forall b, b ∈ start.bundles ->
      isEither tenantId from_ to_ b = isNamed tenantId from_ b := by
    intro b hb
    unfold isEither
    rw [Bool.eq_false_iff.mpr (hfree b hb), Bool.or_false]
  refine { keys := hstart, rows := ?_, others := rfl, assignments := ?_, rest := rfl,
           untouched := ?_, apart := ?_, mapped := ?_ }
  · rw [List.filter_congr heither, carriedTo_nil]
  · rw [follow_nil, List.map_id]
  · intro b _ _
    exact ⟨List.not_mem_nil, List.not_mem_nil⟩
  · intro b hb hnamed heq
    rw [heq] at hnamed
    exact hfree b hb hnamed
  · intro m hm
    exact absurd hm List.not_mem_nil

/-!
# One version
-/

theorem stage_renameRow {moved : List MovedBundle} {r : RenamedInPlace}
    (hdb : Stage tenantId from_ to_ start moved db)
    (h : renameRow tenantId from_ to_ r db = Except.ok (found, db')) :
    Stage tenantId from_ to_ start moved db' := by
  have hkeys : ConfigKeys db' := KeepsKeys.renameRow tenantId from_ to_ r db _ db' h hdb.keys
  unfold renameRow at h
  rcases Tx.guarded_eq_ok.mp h with ⟨_, heq⟩
  cases heq
  have hp : forall b : BundleRow, (isBundle tenantId r.id b && b.name == from_) = true ->
      isNamed tenantId from_ b = true ∧
        isNamed tenantId to_ ({ b with name := to_, signature := r.signature }) = true := by
    intro b hpb
    rw [Bool.and_eq_true, beq_iff_eq] at hpb
    have htenant := (KeepsKeys.isBundle_iff.mp hpb.1).1
    exact ⟨isNamed_iff.mpr ⟨htenant, hpb.2⟩, isNamed_iff.mpr ⟨htenant, rfl⟩⟩
  -- A row under the old name afterwards was there before, with the same id.
  have hbefore : forall b, b ∈ updateWhere
        (fun b => isBundle tenantId r.id b && b.name == from_)
        (fun b => { b with name := to_, signature := r.signature }) db.bundles ->
      isNamed tenantId from_ b = true ->
      exists c, c ∈ db.bundles ∧ isNamed tenantId from_ c = true ∧ c.id = b.id := by
    intro b hb hnamed
    rcases of_mem_updateWhere hb with ⟨c, hc, ⟨_, heq⟩ | ⟨hpc, heq⟩⟩
    · rw [heq] at hnamed ⊢
      exact ⟨c, hc, hnamed, rfl⟩
    · rw [heq]
      exact ⟨c, hc, (hp c hpc).1, rfl⟩
  refine { keys := hkeys, rows := ?_, others := ?_, assignments := hdb.assignments,
           rest := ?_, untouched := ?_, apart := ?_, mapped := hdb.mapped }
  · rw [map_filter_updateWhere]
    · exact hdb.rows
    · intro b _ hpb
      rcases hp b hpb with ⟨hfrom, hto⟩
      unfold isEither
      rw [hfrom, hto, Bool.or_true, Bool.true_or]
      exact ⟨rfl, rfl⟩
  · rw [← hdb.others]
    apply filter_updateWhere
    intro b _ hpb
    rcases hp b hpb with ⟨hfrom, hto⟩
    unfold isEither
    rw [hfrom, hto]
    simp
  · rw [hdb.rest]
  · intro b hb hnamed
    rcases hbefore b hb hnamed with ⟨c, hc, hcnamed, hid⟩
    rw [← hid]
    exact hdb.untouched c hc hcnamed
  · intro b hb hnamed
    rcases hbefore b hb hnamed with ⟨c, hc, hcnamed, _⟩
    exact hdb.apart c hc hcnamed

def withNewId (m : MovedBundle) (c : String × String × String × Int) :
    String × String × String × Int :=
  (if c.1 = m.oldId then m.newId else c.1, c.2)

theorem carriedTo_append {moved : List MovedBundle} (hnews : m.oldId ∉ moved.map MovedBundle.newId)
    :
    carriedTo (moved ++ [m]) = withNewId m ∘ carriedTo moved := by
  funext b
  unfold carriedTo withNewId
  rw [newIdOf_append hnews]
  rfl

theorem carried_moved {q : BundleRow -> Bool} {rows : List BundleRow}
    (hids : (rows.map BundleRow.id).Nodup) (hb : b ∈ rows) (hid : b.id = m.oldId) (hq : q b = true)
    (hqmoved : q (movedRow to_ m b) = true)
    (hp : forall c, c ∈ rows -> (isBundle tenantId m.oldId c = true <-> c.id = b.id)) :
    (((deleteWhere (isBundle tenantId m.oldId) rows ++ [movedRow to_ m b]).filter q).map
        carried).Perm (((rows.filter q).map carried).map (withNewId m)) := by
  have hmoved : carried (movedRow to_ m b) = withNewId m (carried b) := by
    unfold withNewId carried
    rw [if_pos hid]
    rfl
  have hkept : (((deleteWhere (isBundle tenantId m.oldId) rows).filter q).map carried).map
      (withNewId m) = ((deleteWhere (isBundle tenantId m.oldId) rows).filter q).map carried := by
    rw [List.map_map]
    apply List.map_congr_left
    intro c hc
    rcases mem_deleteWhere.mp (List.mem_filter.mp hc).1 with ⟨hmem, hnot⟩
    have hne : c.id ≠ m.oldId := by
      intro hsame
      rw [(hp c hmem).mpr (hsame.trans hid.symm)] at hnot
      cases hnot
    rw [Function.comp_apply]
    unfold withNewId carried
    rw [if_neg hne]
  have hperm : (deleteWhere (isBundle tenantId m.oldId) rows ++ [b]).Perm rows :=
    perm_deleteWhere_append hids hb hp
  have hmapped := ((hperm.filter q).map carried).map (withNewId m)
  rw [List.filter_append, List.filter_singleton, hq, cond_true, List.map_append,
    List.map_append, hkept] at hmapped
  rw [List.filter_append, List.filter_singleton, hqmoved, cond_true, List.map_append,
    List.map_singleton, hmoved]
  exact hmapped

theorem moveRow_eq_ok (h : moveRow tenantId from_ to_ m db = Except.ok (true, db')) :
    exists b, b ∈ db.bundles ∧ b.tenantId = tenantId ∧ b.id = m.oldId ∧ b.name = from_ ∧
      db.hasBundle m.newId = false ∧
      db' = { db with
        bundles := deleteWhere (isBundle tenantId m.oldId) (db.bundles ++ [movedRow to_ m b])
        bundleAssignments := updateWhere
          (fun a => a.tenantId == tenantId && a.bundleId == m.oldId)
          (fun a => { a with bundleId := m.newId }) db.bundleAssignments } := by
  unfold moveRow at h
  split at h
  · cases h
  · rename_i b hfind
    have hb := List.mem_of_find?_eq_some hfind
    have hp := List.find?_some hfind
    rw [Bool.and_eq_true, beq_iff_eq] at hp
    rcases KeepsKeys.isBundle_iff.mp hp.1 with ⟨htenant, hid⟩
    rcases Tx.bind_eq_ok.mp h with ⟨_, db1, hinsert, h⟩
    rcases Tx.bind_eq_ok.mp h with ⟨_, db2, hrepoint, h⟩
    rcases Tx.bind_eq_ok.mp h with ⟨_, db3, hdelete, h⟩
    rcases insertRow_eq_ok.mp hinsert with ⟨⟨_, hfresh, _⟩, rfl⟩
    unfold repoint at hrepoint
    rcases Tx.guarded_eq_ok.mp hrepoint with ⟨_, heq⟩
    cases heq
    unfold deleteRow at hdelete
    rcases Tx.guarded_eq_ok.mp hdelete with ⟨_, heq⟩
    cases heq
    rcases Tx.pure_eq_ok.mp h with ⟨_, rfl⟩
    exact ⟨b, hb, htenant, hid, hp.2, hfresh, rfl⟩

theorem moveRow_eq_missing (h : moveRow tenantId from_ to_ m db = Except.ok (false, db')) :
    db' = db := by
  unfold moveRow at h
  split at h
  · cases h
    rfl
  · rcases Tx.bind_eq_ok.mp h with ⟨_, db1, _, h⟩
    rcases Tx.bind_eq_ok.mp h with ⟨_, db2, _, h⟩
    rcases Tx.bind_eq_ok.mp h with ⟨_, db3, _, h⟩
    cases (Tx.pure_eq_ok.mp h).1

theorem follow_append {moved : List MovedBundle} (hnews : m.oldId ∉ moved.map MovedBundle.newId)
    (assignments : List BundleAssignmentRow) :
    updateWhere (fun a => a.tenantId == tenantId && a.bundleId == m.oldId)
        (fun a => { a with bundleId := m.newId }) (assignments.map (follow tenantId moved)) =
      assignments.map (follow tenantId (moved ++ [m])) := by
  unfold updateWhere
  rw [List.map_map]
  apply List.map_congr_left
  intro a _
  rw [Function.comp_apply]
  unfold follow
  cases htenant : a.tenantId == tenantId with
  | false => simp [htenant]
  | true =>
      rw [if_pos rfl, if_pos rfl, newIdOf_append hnews]
      by_cases hold : newIdOf moved a.bundleId = m.oldId
      · simp [htenant, hold]
      · simp [htenant, hold]

theorem stage_moveRow {moved : List MovedBundle} (hdb : Stage tenantId from_ to_ start moved db)
    (h : moveRow tenantId from_ to_ m db = Except.ok (true, db')) :
    Stage tenantId from_ to_ start (moved ++ [m]) db' := by
  have hkeys : ConfigKeys db' := KeepsKeys.moveRow tenantId from_ to_ m db _ db' h hdb.keys
  rcases moveRow_eq_ok h with ⟨b, hb, htenant, hid, hname, hfresh, rfl⟩
  have hnamed : isNamed tenantId from_ b = true := isNamed_iff.mpr ⟨htenant, hname⟩
  rcases hdb.untouched b hb hnamed with ⟨holds, hnews⟩
  rw [hid] at holds hnews
  have hapart : from_ ≠ to_ := hdb.apart b hb hnamed
  have hother : forall c, c ∈ db.bundles -> c.id ≠ m.newId := by
    intro c hc hsame
    rw [Bool.eq_false_iff] at hfresh
    exact hfresh (Db.hasBundle_iff.mpr ⟨c, hc, hsame⟩)
  have hne : m.newId ≠ m.oldId := fun hsame => hother b hb (hid.trans hsame.symm)
  -- The deleted row is the one found, and not the one just stored.
  have hp : forall c, c ∈ db.bundles ->
      (isBundle tenantId m.oldId c = true <-> c.id = b.id) := by
    intro c hc
    rw [KeepsKeys.isBundle_iff, hid]
    constructor
    · exact fun hc' => hc'.2
    · intro hcid
      rw [eq_of_key_eq hdb.keys.bundleIds hc hb (hcid.trans hid.symm)]
      exact ⟨htenant, hid⟩
  have hbundles : deleteWhere (isBundle tenantId m.oldId) (db.bundles ++ [movedRow to_ m b]) =
      deleteWhere (isBundle tenantId m.oldId) db.bundles ++ [movedRow to_ m b] := by
    have hkept : isBundle tenantId m.oldId (movedRow to_ m b) = false := by
      rw [Bool.eq_false_iff]
      exact fun his => hne (KeepsKeys.isBundle_iff.mp his).2
    unfold deleteWhere
    rw [List.filter_append]
    simp [hkept]
  have heither : isEither tenantId from_ to_ (movedRow to_ m b) = true := by
    have hto : isNamed tenantId to_ (movedRow to_ m b) = true := isNamed_iff.mpr ⟨htenant, rfl⟩
    unfold isEither
    rw [hto, Bool.or_true]
  have heitherb : isEither tenantId from_ to_ b = true := by
    unfold isEither
    rw [hnamed, Bool.true_or]
  -- A row under the old name afterwards was there before, under another id.
  have hbefore : forall c,
      c ∈ deleteWhere (isBundle tenantId m.oldId) (db.bundles ++ [movedRow to_ m b]) ->
      isNamed tenantId from_ c = true -> c ∈ db.bundles ∧ c.id ≠ m.oldId := by
    intro c hc hcnamed
    rw [hbundles] at hc
    rcases List.mem_append.mp hc with hold | hnew
    · rcases mem_deleteWhere.mp hold with ⟨hmem, hnot⟩
      refine ⟨hmem, fun hsame => ?_⟩
      rw [(hp c hmem).mpr (hsame.trans hid.symm)] at hnot
      cases hnot
    · rw [List.mem_singleton.mp hnew] at hcnamed
      exact absurd (isNamed_iff.mp hcnamed).2.symm hapart
  refine { keys := hkeys, rows := ?_, others := ?_, assignments := ?_, rest := ?_,
           untouched := ?_, apart := ?_, mapped := ?_ }
  · rw [carriedTo_append hnews, ← List.map_map]
    change ((deleteWhere _ _).filter _ |>.map carried).Perm _
    rw [hbundles]
    exact (carried_moved hdb.keys.bundleIds hb hid heitherb heither hp).trans
      (hdb.rows.map (withNewId m))
  · change (deleteWhere _ _).filter _ = _
    rw [hbundles, List.filter_append, filter_deleteWhere, hdb.others]
    · simp [heither]
    · intro c hc hpc
      rw [eq_of_key_eq hdb.keys.bundleIds hc hb ((hp c hc).mp hpc), heitherb]
      rfl
  · change updateWhere _ _ db.bundleAssignments = _
    rw [hdb.assignments]
    exact follow_append hnews start.bundleAssignments
  · rw [hdb.rest]
  · intro c hc hcnamed
    rcases hbefore c hc hcnamed with ⟨hmem, hcid⟩
    rcases hdb.untouched c hmem hcnamed with ⟨hcolds, hcnews⟩
    rw [List.map_append, List.map_append, List.mem_append, List.mem_append]
    constructor
    · rintro (hold | hnew)
      · exact hcolds hold
      · exact hcid (List.mem_singleton.mp hnew)
    · rintro (hold | hnew)
      · exact hcnews hold
      · exact hother c hmem (List.mem_singleton.mp hnew)
  · intro c hc hcnamed
    exact hapart
  · intro m' hm'
    rw [newIdOf_append hnews]
    rcases List.mem_append.mp hm' with hold | hnew
    · have hmem : m'.newId ∈ moved.map MovedBundle.newId := List.mem_map.mpr ⟨m', hold, rfl⟩
      rw [hdb.mapped m' hold, if_neg]
      intro heq
      rw [heq] at hmem
      exact hnews hmem
    · rw [List.mem_singleton.mp hnew, newIdOf_eq_self holds, if_pos rfl]

/-!
# All versions
-/

theorem stage_renameRows {moved : List MovedBundle} {rs : List RenamedInPlace} {ok : Bool}
    (hdb : Stage tenantId from_ to_ start moved db)
    (h : allRows (renameRow tenantId from_ to_) rs db = Except.ok (ok, db')) :
    Stage tenantId from_ to_ start moved db' := by
  induction rs generalizing db with
  | nil =>
      rcases Tx.pure_eq_ok.mp h with ⟨_, rfl⟩
      exact hdb
  | cons r rs ih =>
      rcases Tx.bind_eq_ok.mp h with ⟨found, mid, hrow, hrest⟩
      have hmid := stage_renameRow hdb hrow
      cases found with
      | false =>
          rcases Tx.pure_eq_ok.mp hrest with ⟨_, rfl⟩
          exact hmid
      | true => exact ih hmid hrest

theorem stage_moveRows {moved ms : List MovedBundle} (hdb : Stage tenantId from_ to_ start moved db)
    (h : allRows (moveRow tenantId from_ to_) ms db = Except.ok (true, db')) :
    Stage tenantId from_ to_ start (moved ++ ms) db' := by
  induction ms generalizing moved db with
  | nil =>
      rcases Tx.pure_eq_ok.mp h with ⟨_, rfl⟩
      rw [List.append_nil]
      exact hdb
  | cons m ms ih =>
      rcases Tx.bind_eq_ok.mp h with ⟨found, mid, hrow, hrest⟩
      cases found with
      | false => cases (Tx.pure_eq_ok.mp hrest).1
      | true =>
          rw [List.append_cons]
          exact ih (stage_moveRow hdb hrow) hrest

/-!
# The whole rename
-/

/-- What the answer `renamed` says about the database before and after. -/
structure Renamed (tenantId : Int) (from_ to_ : String) (moved : List MovedBundle)
    (db db' : Db) : Prop where
  noneLeft : forall b, b ∈ db'.bundles -> isNamed tenantId from_ b = false
  rows : ((db'.bundles.filter (isNamed tenantId to_)).map carried).Perm
    ((db.bundles.filter (isNamed tenantId from_)).map (carriedTo moved))
  once : forall b, b ∈ db.bundles -> isNamed tenantId from_ b = true ->
    db'.bundles.countP (fun c => isNamed tenantId to_ c && c.version == b.version) = 1
  mapped : forall m, m ∈ moved -> newIdOf moved m.oldId = m.newId
  others : db'.bundles.filter (fun b => !isEither tenantId from_ to_ b) =
    db.bundles.filter (fun b => !isEither tenantId from_ to_ b)
  assignments : db'.bundleAssignments = db.bundleAssignments.map (follow tenantId moved)
  version : db'.configVersion tenantId = (db.configVersion tenantId).map (fun v => v + 1)
  rest : db' = { db with
    tenants := updateWhere (fun t => t.id == tenantId)
      (fun t => { t with configVersion := t.configVersion + 1 }) db.tenants
    bundles := db'.bundles
    bundleAssignments := db'.bundleAssignments }

theorem configVersion_bumped (db : Db) (tenants : List Tenant)
    (htenants : tenants = updateWhere (fun t => t.id == tenantId)
      (fun t => { t with configVersion := t.configVersion + 1 }) db.tenants) :
    ({ db with tenants := tenants } : Db).configVersion tenantId =
      (db.configVersion tenantId).map (fun v => v + 1) := by
  unfold Db.configVersion TenantRepo.get
  rw [htenants]
  change (List.find? _ (updateWhere _ _ db.tenants)).map _ = _
  induction db.tenants with
  | nil => rfl
  | cons t rest ih =>
      rw [updateWhere_cons, List.find?_cons, List.find?_cons]
      cases ht : t.id == tenantId with
      | false =>
          rw [if_neg Bool.false_ne_true, ht]
          exact ih
      | true =>
          rw [if_pos rfl]
          simp [ht]

theorem finishRename_eq_ok
    (h : finishRename tenantId from_ db = Except.ok (RenameOutcome.renamed, db')) :
    db.bundles.any (isNamed tenantId from_) = false ∧
      db' = { db with
        tenants := updateWhere (fun t => t.id == tenantId)
          (fun t => { t with configVersion := t.configVersion + 1 }) db.tenants } := by
  unfold finishRename at h
  split at h
  · cases h
  · rename_i hnone
    rcases Tx.bind_eq_ok.mp h with ⟨_, mid, hbump, hpure⟩
    rcases Tx.pure_eq_ok.mp hpure with ⟨_, rfl⟩
    have heq := Tx.total_eq_ok.mp hbump
    cases heq
    exact ⟨Bool.eq_false_iff.mpr hnone, rfl⟩

theorem renamed_of_stage {moved : List MovedBundle} (hdb : Stage tenantId from_ to_ start moved db)
    (h : finishRename tenantId from_ db = Except.ok (RenameOutcome.renamed, db')) :
    Renamed tenantId from_ to_ moved start db' := by
  rcases finishRename_eq_ok h with ⟨hnone, rfl⟩
  rw [List.any_eq_false] at hnone
  have heither : forall b, b ∈ db.bundles ->
      isEither tenantId from_ to_ b = isNamed tenantId to_ b := by
    intro b hb
    unfold isEither
    rw [Bool.eq_false_iff.mpr (hnone b hb), Bool.false_or]
  have hrows := hdb.rows
  rw [List.filter_congr heither] at hrows
  have htenants : db.tenants = start.tenants := by
    rw [hdb.rest]
  refine { noneLeft := ?_, rows := hrows, once := ?_, mapped := hdb.mapped,
           others := hdb.others, assignments := hdb.assignments, version := ?_, rest := ?_ }
  · intro b hb
    exact Bool.eq_false_iff.mpr (hnone b hb)
  · intro b hb hnamed
    have hmem : carriedTo moved b ∈
        (db.bundles.filter (isNamed tenantId to_)).map carried :=
      hrows.mem_iff.mpr (List.mem_map.mpr ⟨b, List.mem_filter.mpr ⟨hb, hnamed⟩, rfl⟩)
    rcases List.mem_map.mp hmem with ⟨c, hc, hsame⟩
    rcases List.mem_filter.mp hc with ⟨hcmem, hcnamed⟩
    have hversion : c.version = b.version := congrArg (fun x => x.2.1) hsame
    rcases isNamed_iff.mp hcnamed with ⟨hctenant, hcname⟩
    apply countP_eq_one hdb.keys.bundleVersions hcmem
    intro d _
    rw [Bool.and_eq_true, isNamed_iff, beq_iff_eq, Prod.mk.injEq, Prod.mk.injEq, hctenant,
      hcname, hversion, and_assoc]
  · rw [configVersion_bumped db _ rfl]
    unfold Db.configVersion TenantRepo.get
    rw [htenants]
  · have hrest := congrArg (fun d : Db => { d with
      tenants := updateWhere (fun t => t.id == tenantId)
        (fun t => { t with configVersion := t.configVersion + 1 }) start.tenants }) hdb.rest
    rw [htenants]
    exact hrest

theorem rename_eq_finished {inPlace : List RenamedInPlace} {moved : List MovedBundle}
    (h : rename tenantId from_ to_ inPlace moved db =
      Except.ok (RenameOutcome.renamed, db')) :
    exists db1 db2, db.bundles.any (isNamed tenantId to_) = false ∧
      allRows (renameRow tenantId from_ to_) inPlace db = Except.ok (true, db1) ∧
      allRows (moveRow tenantId from_ to_) moved db1 = Except.ok (true, db2) ∧
      finishRename tenantId from_ db2 = Except.ok (RenameOutcome.renamed, db') := by
  unfold rename at h
  split at h
  · cases h
  · rename_i db'' hbody
    cases h
    unfold renameBody at hbody
    split at hbody
    · cases hbody
    · rename_i hfree
      rcases Tx.bind_eq_ok.mp hbody with ⟨ok, db1, hinPlace, hbody⟩
      cases ok with
      | false => cases (Tx.pure_eq_ok.mp hbody).1
      | true =>
          rcases Tx.bind_eq_ok.mp hbody with ⟨ok, db2, hmoved, hbody⟩
          cases ok with
          | false => cases (Tx.pure_eq_ok.mp hbody).1
          | true => exact ⟨db1, db2, Bool.eq_false_iff.mpr hfree, hinPlace, hmoved, hbody⟩
  · rename_i outcome db'' hne hbody
    cases h
    exact absurd rfl hne

theorem rename_eq_renamed {inPlace : List RenamedInPlace} {moved : List MovedBundle}
    (hdb : ConfigKeys db) (h : rename tenantId from_ to_ inPlace moved db =
      Except.ok (RenameOutcome.renamed, db')) :
    Renamed tenantId from_ to_ moved db db' := by
  rcases rename_eq_finished h with ⟨db1, db2, hfree, hinPlace, hmoved, hfinish⟩
  have hstart : Stage tenantId from_ to_ db [] db := stage_start hdb hfree
  have hstage := stage_moveRows (stage_renameRows hstart hinPlace) hmoved
  exact renamed_of_stage hstage hfinish

/-- A rename that does not go through is rolled back. -/
theorem rename_eq_self {inPlace : List RenamedInPlace} {moved : List MovedBundle}
    {outcome : RenameOutcome} (houtcome : outcome ≠ RenameOutcome.renamed)
    (h : rename tenantId from_ to_ inPlace moved db = Except.ok (outcome, db')) :
    db' = db := by
  unfold rename at h
  split at h
  · cases h
  · cases h
    exact absurd rfl houtcome
  · cases h
    rfl

/-!
# Where the rows after a rename come from
-/

inductive RenamedTo (tenantId : Int) (from_ to_ : String) (inPlace : List RenamedInPlace)
    (moved : List MovedBundle) (db : Db) : BundleRow -> Prop where
  | kept {b : BundleRow} (hb : b ∈ db.bundles) :
      RenamedTo tenantId from_ to_ inPlace moved db b
  | inPlace {r : RenamedInPlace} {b : BundleRow} (hr : r ∈ inPlace) (hb : b ∈ db.bundles)
      (htenant : b.tenantId = tenantId) (hid : b.id = r.id) (hname : b.name = from_) :
      RenamedTo tenantId from_ to_ inPlace moved db
        { b with
          name := to_
          signature := r.signature }
  | moved {m : MovedBundle} {b : BundleRow} (hm : m ∈ moved) (hb : b ∈ db.bundles)
      (htenant : b.tenantId = tenantId) (hid : b.id = m.oldId) (hname : b.name = from_) :
      RenamedTo tenantId from_ to_ inPlace moved db (movedRow to_ m b)

/-- Every row of `db` comes from one of `start`. -/
def Accounted (tenantId : Int) (from_ to_ : String) (inPlace : List RenamedInPlace)
    (moved : List MovedBundle) (start db : Db) : Prop :=
  forall b, b ∈ db.bundles -> RenamedTo tenantId from_ to_ inPlace moved start b

section RenamedTo

variable {inPlace : List RenamedInPlace} {moved : List MovedBundle}

theorem mem_of_renamedTo (hne : to_ ≠ from_)
    (h : RenamedTo tenantId from_ to_ inPlace moved start b) (hname : b.name = from_) :
    b ∈ start.bundles := by
  cases h with
  | kept hb => exact hb
  | inPlace => exact absurd hname hne
  | moved => exact absurd hname hne

theorem renamedTo_renameRow {r : RenamedInPlace} (hne : to_ ≠ from_) (hr : r ∈ inPlace)
    (hdb : Accounted tenantId from_ to_ inPlace moved start db)
    (h : renameRow tenantId from_ to_ r db = Except.ok (found, db')) :
    Accounted tenantId from_ to_ inPlace moved start db' := by
  intro b hb
  unfold renameRow at h
  have heq := (Tx.guarded_eq_ok.mp h).2
  cases heq
  rcases of_mem_updateWhere hb with ⟨c, hc, ⟨_, heq⟩ | ⟨hp, heq⟩⟩
  · rw [heq]
    exact hdb c hc
  · rw [Bool.and_eq_true, beq_iff_eq] at hp
    have hbundle := KeepsKeys.isBundle_iff.mp hp.1
    rw [heq]
    exact RenamedTo.inPlace hr (mem_of_renamedTo hne (hdb c hc) hp.2) hbundle.1 hbundle.2 hp.2

theorem renamedTo_moveRow (hne : to_ ≠ from_) (hm : m ∈ moved)
    (hdb : Accounted tenantId from_ to_ inPlace moved start db)
    (h : moveRow tenantId from_ to_ m db = Except.ok (found, db')) :
    Accounted tenantId from_ to_ inPlace moved start db' := by
  cases found with
  | true =>
      rcases moveRow_eq_ok h with ⟨c, hc, htenant, hid, hname, _, rfl⟩
      intro b hb
      rcases List.mem_append.mp (mem_of_mem_deleteWhere hb) with hb | hb
      · exact hdb b hb
      · rw [List.mem_singleton.mp hb]
        exact RenamedTo.moved hm (mem_of_renamedTo hne (hdb c hc) hname) htenant hid hname
  | false =>
      rw [moveRow_eq_missing h]
      exact hdb

theorem accounted_start : Accounted tenantId from_ to_ inPlace moved start start :=
  fun _ hb => RenamedTo.kept hb

theorem rows_rename {outcome : RenameOutcome} (hne : to_ ≠ from_)
    (h : rename tenantId from_ to_ inPlace moved db = Except.ok (outcome, db')) :
    Accounted tenantId from_ to_ inPlace moved db db' := by
  by_cases houtcome : outcome = RenameOutcome.renamed
  · rw [houtcome] at h
    rcases rename_eq_finished h with ⟨db1, db2, _, hinPlace, hmoved, hfinish⟩
    have hfirst : Accounted tenantId from_ to_ inPlace moved db db1 := by
      apply keeps_allRows _ hinPlace accounted_start
      intro r hr d found d' hd hrow
      exact renamedTo_renameRow hne hr hd hrow
    have hsecond : Accounted tenantId from_ to_ inPlace moved db db2 := by
      apply keeps_allRows _ hmoved hfirst
      intro m hm d found d' hd hrow
      exact renamedTo_moveRow hne hm hd hrow
    rw [(finishRename_eq_ok hfinish).2]
    exact hsecond
  · rw [rename_eq_self houtcome h]
    exact accounted_start

end RenamedTo

end BundlesRepo

end Storage
end FleetServer
