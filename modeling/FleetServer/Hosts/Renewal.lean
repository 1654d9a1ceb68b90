import FleetServer.Hosts.Revocation

/-!
# Renewals and the certificates they leave behind

A host's certificates in the order they were recorded.  Presenting one retires
those before it; unless an operator revokes the host's certificates or deletes
the host, nothing else happens to them.
-/

namespace FleetServer
namespace Hosts

open FleetServer.Core
open Storage
open Table
open Server
open Concurrency

variable {tenantId : Int} {hostId serial : String} {now : Int}
variable {db db' : Db} {t : Int} {h : String} {op : Op} {w : World}

def certsOf (tenantId : Int) (hostId : String) (db : Db) : List HostCertRow :=
  db.hostCerts.filter fun c => ofHost tenantId hostId c.tenantId c.hostId

def NewestKept (certs : List HostCertRow) : Prop :=
  forall c, certs.getLast? = some c -> c.revokedAt = none

/-- The certificate `serial` is there, and none recorded before it is live. -/
def OlderRetired (tenantId : Int) (hostId serial : String) (now : Int)
    (certs : List HostCertRow) : Prop :=
  exists older cert newer, certs = older ++ cert :: newer ∧ cert.serial = serial ∧
    forall c, c ∈ older -> HostCertRepo.isLive tenantId hostId now c = false

def sinceSerial (serial : String) (certs : List HostCertRow) : List HostCertRow :=
  certs.dropWhile fun c => c.serial != serial

def hasSerial (serial : String) (certs : List HostCertRow) : Bool :=
  certs.any fun c => c.serial == serial

theorem olderRetired_cons {c : HostCertRow} {rest : List HostCertRow} :
    OlderRetired tenantId hostId serial now (c :: rest) <->
      c.serial = serial ∨ (HostCertRepo.isLive tenantId hostId now c = false ∧
        OlderRetired tenantId hostId serial now rest) := by
  constructor
  · rintro ⟨older, cert, newer, heq, hserial, holder⟩
    cases older with
    | nil =>
        rw [List.nil_append, List.cons.injEq] at heq
        rw [heq.1]
        exact Or.inl hserial
    | cons o older =>
        rw [List.cons_append, List.cons.injEq] at heq
        rcases heq with ⟨rfl, hrest⟩
        refine Or.inr ⟨holder c List.mem_cons_self, older, cert, newer, hrest, hserial, ?_⟩
        intro x hx
        exact holder x (List.mem_cons_of_mem c hx)
  · rintro (hserial | ⟨hnot, older, cert, newer, rfl, hserial, holder⟩)
    · exact ⟨[], c, rest, rfl, hserial, fun x hx => absurd hx List.not_mem_nil⟩
    · refine ⟨c :: older, cert, newer, rfl, hserial, ?_⟩
      intro x hx
      rcases List.mem_cons.mp hx with rfl | hx
      · exact hnot
      · exact holder x hx

theorem isLive_iff {c : HostCertRow} :
    HostCertRepo.isLive tenantId hostId now c = true <->
      ofHost tenantId hostId c.tenantId c.hostId = true ∧ c.revokedAt = none ∧
        now < c.expiresAt := by
  unfold HostCertRepo.isLive
  rw [Bool.and_eq_true, Bool.and_eq_true, Option.isNone_iff_eq_none, decide_eq_true_eq,
    and_assoc]

theorem mem_certsOf {c : HostCertRow} (hc : c ∈ certsOf tenantId hostId db) :
    ofHost tenantId hostId c.tenantId c.hostId = true :=
  (List.mem_filter.mp hc).2

/-!
# Retiring
-/

theorem filter_retireRows_ne (hne : ¬ (t = tenantId ∧ h = hostId)) (rows : List HostCertRow) :
    (HostCertRepo.retireRows t h serial now rows).filter
        (fun c => ofHost tenantId hostId c.tenantId c.hostId) =
      rows.filter (fun c => ofHost tenantId hostId c.tenantId c.hostId) := by
  induction rows with
  | nil => rfl
  | cons c rest ih =>
      unfold HostCertRepo.retireRows
      split
      · rfl
      · rw [List.filter_cons, List.filter_cons, ih]
        split
        · rename_i hlive
          have hother : ofHost tenantId hostId c.tenantId c.hostId = false := by
            rw [Bool.eq_false_iff]
            intro hours
            rcases ofHost_iff.mp (isLive_iff.mp hlive).1 with ⟨htenant, hhost⟩
            rcases ofHost_iff.mp hours with ⟨htenant', hhost'⟩
            exact hne ⟨htenant.symm.trans htenant', hhost.symm.trans hhost'⟩
          simp [hother]
        · rfl

theorem filter_retireRows (rows : List HostCertRow) :
    (HostCertRepo.retireRows tenantId hostId serial now rows).filter
        (fun c => ofHost tenantId hostId c.tenantId c.hostId) =
      HostCertRepo.retireRows tenantId hostId serial now
        (rows.filter fun c => ofHost tenantId hostId c.tenantId c.hostId) := by
  induction rows with
  | nil => rfl
  | cons c rest ih =>
      rw [HostCertRepo.retireRows, List.filter_cons]
      cases hours : ofHost tenantId hostId c.tenantId c.hostId with
      | false =>
          have hdead : HostCertRepo.isLive tenantId hostId now c = false := by
            rw [Bool.eq_false_iff]
            intro hlive
            rw [(isLive_iff.mp hlive).1] at hours
            cases hours
          simp [hdead, hours, ih]
      | true =>
          cases hserial : c.serial == serial with
          | true => simp [HostCertRepo.retireRows, hours, hserial]
          | false =>
              cases hlive : HostCertRepo.isLive tenantId hostId now c with
              | true => simp [HostCertRepo.retireRows, hours, hserial, hlive, ih]
              | false => simp [HostCertRepo.retireRows, hours, hserial, hlive, ih]

section Retire

variable {certs : List HostCertRow} {c : HostCertRow}
  {rest : List HostCertRow}

theorem retireRows_cons_self (hours : ofHost tenantId hostId c.tenantId c.hostId = true)
    (hserial : c.serial = serial) :
    HostCertRepo.retireRows tenantId hostId serial now (c :: rest) = c :: rest := by
  unfold HostCertRepo.retireRows
  simp [hours, hserial]

theorem retireRows_cons_ne (hserial : c.serial ≠ serial) :
    exists c', HostCertRepo.retireRows tenantId hostId serial now (c :: rest) =
        c' :: HostCertRepo.retireRows tenantId hostId serial now rest ∧
      c'.serial = c.serial ∧ c'.expiresAt = c.expiresAt ∧
      (c.revokedAt.isSome = true -> c'.revokedAt.isSome = true) ∧
      HostCertRepo.isLive tenantId hostId now c' = false := by
  rw [HostCertRepo.retireRows, if_neg (by simp [hserial])]
  cases hlive : HostCertRepo.isLive tenantId hostId now c with
  | true =>
      refine ⟨{ c with revokedAt := some now }, rfl, rfl, rfl, fun _ => rfl, ?_⟩
      rw [Bool.eq_false_iff]
      intro hlive'
      cases (isLive_iff.mp hlive').2.1
  | false => exact ⟨c, rfl, rfl, rfl, fun h => h, hlive⟩

theorem olderRetired_retireRows
    (hours : forall c, c ∈ certs -> ofHost tenantId hostId c.tenantId c.hostId = true)
    (hhas : hasSerial serial certs = true) :
    OlderRetired tenantId hostId serial now
      (HostCertRepo.retireRows tenantId hostId serial now certs) := by
  induction certs with
  | nil => cases hhas
  | cons c rest ih =>
      by_cases hserial : c.serial = serial
      · rw [retireRows_cons_self (hours c List.mem_cons_self) hserial, olderRetired_cons]
        exact Or.inl hserial
      · rcases retireRows_cons_ne hserial with ⟨c', heq, _, _, _, hdead⟩
        have hrest : hasSerial serial rest = true := by
          unfold hasSerial at hhas ⊢
          rw [List.any_cons] at hhas
          simpa [hserial] using hhas
        rw [heq, olderRetired_cons]
        exact Or.inr ⟨hdead, ih (fun x hx => hours x (List.mem_cons_of_mem c hx)) hrest⟩

theorem sinceSerial_retireRows
    (hours : forall c, c ∈ certs -> ofHost tenantId hostId c.tenantId c.hostId = true) :
    sinceSerial serial (HostCertRepo.retireRows tenantId hostId serial now certs) =
      sinceSerial serial certs := by
  induction certs with
  | nil => rfl
  | cons c rest ih =>
      by_cases hserial : c.serial = serial
      · rw [retireRows_cons_self (hours c List.mem_cons_self) hserial]
      · rcases retireRows_cons_ne hserial with ⟨c', heq, hsame, _, _, _⟩
        have hne : (c.serial != serial) = true := by simpa using hserial
        have ih' := ih (fun x hx => hours x (List.mem_cons_of_mem c hx))
        unfold sinceSerial at ih' ⊢
        rw [heq, List.dropWhile_cons, List.dropWhile_cons, hsame, hne, if_pos rfl, if_pos rfl]
        exact ih'

theorem olderRetired_retired {serial' : String}
    (hours : forall c, c ∈ certs -> ofHost tenantId hostId c.tenantId c.hostId = true)
    (h : OlderRetired tenantId hostId serial now certs) :
    OlderRetired tenantId hostId serial now
      (HostCertRepo.retireRows tenantId hostId serial' now certs) := by
  induction certs with
  | nil => exact h
  | cons c rest ih =>
      by_cases hserial : c.serial = serial'
      · rw [retireRows_cons_self (hours c List.mem_cons_self) hserial]
        exact h
      · rcases retireRows_cons_ne hserial with ⟨c', heq, hsame, _, _, hdead⟩
        rw [heq, olderRetired_cons, hsame]
        rcases olderRetired_cons.mp h with hfirst | ⟨_, hrest⟩
        · exact Or.inl hfirst
        · exact Or.inr ⟨hdead, ih (fun x hx => hours x (List.mem_cons_of_mem c hx)) hrest⟩

theorem getLast?_retireRows
    (hours : forall c, c ∈ certs -> ofHost tenantId hostId c.tenantId c.hostId = true)
    (hhas : hasSerial serial certs = true) :
    (HostCertRepo.retireRows tenantId hostId serial now certs).getLast? = certs.getLast? := by
  induction certs with
  | nil => rfl
  | cons c rest ih =>
      by_cases hserial : c.serial = serial
      · rw [retireRows_cons_self (hours c List.mem_cons_self) hserial]
      · rcases retireRows_cons_ne hserial with ⟨c', heq, _, _, _, _⟩
        have hrest : hasSerial serial rest = true := by
          unfold hasSerial at hhas ⊢
          rw [List.any_cons] at hhas
          simpa [hserial] using hhas
        have ih' := ih (fun x hx => hours x (List.mem_cons_of_mem c hx)) hrest
        rw [heq, List.getLast?_cons, List.getLast?_cons, ih']
        cases rest with
        | nil => cases hrest
        | cons d rest =>
            rw [List.getLast?_cons]
            rfl

theorem hasSerial_retireRows {serial' : String}
    (hours : forall c, c ∈ certs -> ofHost tenantId hostId c.tenantId c.hostId = true) :
    hasSerial serial (HostCertRepo.retireRows tenantId hostId serial' now certs) =
      hasSerial serial certs := by
  induction certs with
  | nil => rfl
  | cons c rest ih =>
      by_cases hserial : c.serial = serial'
      · rw [retireRows_cons_self (hours c List.mem_cons_self) hserial]
      · rcases retireRows_cons_ne hserial with ⟨c', heq, hsame, _, _, _⟩
        have ih' := ih (fun x hx => hours x (List.mem_cons_of_mem c hx))
        unfold hasSerial at ih' ⊢
        rw [heq, List.any_cons, List.any_cons, hsame, ih']

end Retire

/-!
# What a call does to a host's certificates
-/

def spares (tenantId : Int) (hostId : String) : Op -> Bool
  | Op.statement (Statement.revokeCertsAndResetToPending t h _ _) =>
      t != tenantId || h != hostId
  | Op.statement (Statement.deleteHost t h) => t != tenantId || h != hostId
  | _ => true

theorem certsOf_insertCert {row : HostCertRow} {u : Unit} (hrow : row.revokedAt = none)
    (h : insertCert row db = Except.ok (u, db')) :
    certsOf tenantId hostId db' = certsOf tenantId hostId db ∨
      exists c, c.revokedAt = none ∧
        certsOf tenantId hostId db' = certsOf tenantId hostId db ++ [c] := by
  unfold insertCert at h
  rcases Tx.guarded_eq_ok.mp h with ⟨_, heq⟩
  cases heq
  unfold certsOf
  rw [List.filter_append]
  cases hours : ofHost tenantId hostId row.tenantId row.hostId with
  | false =>
      apply Or.inl
      simp [hours]
  | true =>
      apply Or.inr
      exact ⟨row, hrow, by simp [hours]⟩

theorem certsOf_enroll {nonceHash : String} {hostname os : Option String} {cert : EnrolledCert}
    {answer : Bool}
    (htx : HostRepo.enroll t h nonceHash hostname os cert now db = Except.ok (answer, db')) :
    certsOf tenantId hostId db' = certsOf tenantId hostId db ∨
      exists c, c.revokedAt = none ∧
        certsOf tenantId hostId db' = certsOf tenantId hostId db ++ [c] := by
  unfold HostRepo.enroll at htx
  simp only at htx
  split at htx
  · cases htx
    exact Or.inl rfl
  · split at htx
    · cases htx
    · rename_i db'' hinsert
      cases htx
      have hcerts : certsOf tenantId hostId db' = certsOf tenantId hostId _ ∨
          exists c, c.revokedAt = none ∧
            certsOf tenantId hostId db' = certsOf tenantId hostId _ ++ [c] :=
        certsOf_insertCert rfl hinsert
      exact hcerts

theorem certsOf_deleteHost {found : Bool} (hne : ¬ (t = tenantId ∧ h = hostId))
    (htx : HostRepo.delete t h db = Except.ok (found, db')) :
    certsOf tenantId hostId db' = certsOf tenantId hostId db := by
  unfold HostRepo.delete at htx
  simp only at htx
  split at htx
  · cases htx
  · cases htx
    apply filter_deleteWhere
    intro c _ htheirs
    rw [Bool.eq_false_iff]
    intro hours
    rcases ofHost_iff.mp htheirs with ⟨htenant, hhost⟩
    rcases ofHost_iff.mp hours with ⟨htenant', hhost'⟩
    exact hne ⟨htenant.symm.trans htenant', hhost.symm.trans hhost'⟩

theorem certsOf_revoke {expires : Int} {nonceHash : String} {revoked : Option Nat}
    (hne : ¬ (t = tenantId ∧ h = hostId))
    (htx : HostRepo.revokeCertsAndResetToPending t h nonceHash expires now db =
      Except.ok (revoked, db')) :
    certsOf tenantId hostId db' = certsOf tenantId hostId db := by
  have heq := Tx.total_eq_ok.mp htx
  simp only at heq
  split at heq
  · cases heq
    apply filter_updateWhere
    intro c _ htheirs
    rw [Bool.and_eq_true] at htheirs
    have hother : ofHost tenantId hostId c.tenantId c.hostId = false := by
      rw [Bool.eq_false_iff]
      intro hours
      rcases ofHost_iff.mp htheirs.1 with ⟨htenant, hhost⟩
      rcases ofHost_iff.mp hours with ⟨htenant', hhost'⟩
      exact hne ⟨htenant.symm.trans htenant', hhost.symm.trans hhost'⟩
    exact ⟨hother, hother⟩
  · cases heq
    rfl

theorem hasSerial_certsOf (db : Db) :
    hasSerial serial (certsOf tenantId hostId db) =
      db.hostCerts.any fun c => ofHost tenantId hostId c.tenantId c.hostId &&
        c.serial == serial := by
  unfold hasSerial certsOf
  rw [List.any_filter]

theorem certsOf_retireSuperseded {n : Nat}
    (htx : HostCertRepo.retireSuperseded tenantId hostId serial now db =
      Except.ok (n, db')) :
    (hasSerial serial (certsOf tenantId hostId db) = true ∧
      certsOf tenantId hostId db' =
        HostCertRepo.retireRows tenantId hostId serial now (certsOf tenantId hostId db)) ∨
    (hasSerial serial (certsOf tenantId hostId db) = false ∧ db' = db) := by
  have heq := Tx.total_eq_ok.mp htx
  rw [hasSerial_certsOf]
  split at heq
  · rename_i hhas
    cases heq
    exact Or.inl ⟨hhas, filter_retireRows db.hostCerts⟩
  · rename_i hhas
    cases heq
    exact Or.inr ⟨Bool.eq_false_iff.mpr hhas, rfl⟩

theorem certsOf_retireSuperseded_ne {n : Nat} (hne : ¬ (t = tenantId ∧ h = hostId))
    (htx : HostCertRepo.retireSuperseded t h serial now db = Except.ok (n, db')) :
    certsOf tenantId hostId db' = certsOf tenantId hostId db := by
  have heq := Tx.total_eq_ok.mp htx
  split at heq
  · cases heq
    exact filter_retireRows_ne hne db.hostCerts
  · cases heq
    rfl

/-- The host's certificates stay as they are, get a live one more, or are
retired by one of them. -/
theorem certsOf_exec (hop : spares tenantId hostId op = true) (w : World) :
    certsOf tenantId hostId (exec op w).2.db = certsOf tenantId hostId w.db ∨
    (exists c, c.revokedAt = none ∧
      certsOf tenantId hostId (exec op w).2.db = certsOf tenantId hostId w.db ++ [c]) ∨
    exists serial, op = Op.statement (Statement.retireSuperseded tenantId hostId serial) ∧
      hasSerial serial (certsOf tenantId hostId w.db) = true ∧
      certsOf tenantId hostId (exec op w).2.db =
        HostCertRepo.retireRows tenantId hostId serial w.now (certsOf tenantId hostId w.db) := by
  by_cases hwrites : Part.certs ∈ op.writes
  · cases op with
    | statement s =>
        change certsOf tenantId hostId (s.exec w).2.db = _ ∨ (exists c, _ ∧
          certsOf tenantId hostId (s.exec w).2.db = _) ∨ exists serial, _ ∧ _ ∧
          certsOf tenantId hostId (s.exec w).2.db = _
        rcases statement_exec s w with ⟨e, _, hexec⟩ | ⟨answer, db, htx, hexec⟩
        · rw [hexec]
          exact Or.inl rfl
        · rw [hexec]
          cases s with
          | enroll t h nonceHash hostname os cert =>
              rcases certsOf_enroll htx with hsame | hmore
              · exact Or.inl hsame
              · exact Or.inr (Or.inl hmore)
          | deleteHost t h =>
              apply Or.inl
              refine certsOf_deleteHost (fun hsame => ?_) htx
              simp [spares, hsame] at hop
          | revokeCertsAndResetToPending t h nonceHash expires =>
              apply Or.inl
              refine certsOf_revoke (fun hsame => ?_) htx
              simp [spares, hsame] at hop
          | recordCert t h cert =>
              rcases certsOf_insertCert rfl htx with hsame | hmore
              · exact Or.inl hsame
              · exact Or.inr (Or.inl hmore)
          | retireSuperseded t h serial =>
              by_cases hsame : t = tenantId ∧ h = hostId
              · rcases hsame with ⟨rfl, rfl⟩
                rcases certsOf_retireSuperseded htx with ⟨hhas, hretired⟩ | ⟨_, hdb⟩
                · exact Or.inr (Or.inr ⟨serial, rfl, hhas, hretired⟩)
                · rw [hdb]
                  exact Or.inl rfl
              · exact Or.inl (certsOf_retireSuperseded_ne hsame htx)
          | _ => simp [Op.writes, Statement.writes] at hwrites
    | _ => simp [Op.writes] at hwrites
  · have hsame : (exec op w).2.db.hostCerts = w.db.hostCerts := exec_same hwrites w
    apply Or.inl
    unfold certsOf
    rw [hsame]

/-!
# Steps and runs
-/

theorem newestKept_exec (hop : spares tenantId hostId op = true)
    (hw : NewestKept (certsOf tenantId hostId w.db)) :
    NewestKept (certsOf tenantId hostId (exec op w).2.db) := by
  rcases certsOf_exec hop w with hsame | ⟨c, hc, hmore⟩ | ⟨serial, _, hhas, hretired⟩
  · rw [hsame]
    exact hw
  · intro c' hc'
    rw [hmore, List.getLast?_concat] at hc'
    cases hc'
    exact hc
  · intro c' hc'
    rw [hretired, getLast?_retireRows (fun _ => mem_certsOf) hhas] at hc'
    exact hw c' hc'

theorem hasSerial_exec (hop : spares tenantId hostId op = true)
    (hw : hasSerial serial (certsOf tenantId hostId w.db) = true) :
    hasSerial serial (certsOf tenantId hostId (exec op w).2.db) = true := by
  rcases certsOf_exec hop w with hsame | ⟨c, _, hmore⟩ | ⟨serial', _, _, hretired⟩
  · rw [hsame]
    exact hw
  · rw [hmore]
    unfold hasSerial at hw ⊢
    rw [List.any_append, hw, Bool.true_or]
  · rw [hretired, hasSerial_retireRows (fun _ => mem_certsOf)]
    exact hw

theorem olderRetired_exec (hop : spares tenantId hostId op = true)
    (hw : OlderRetired tenantId hostId serial w.now (certsOf tenantId hostId w.db)) :
    OlderRetired tenantId hostId serial w.now (certsOf tenantId hostId (exec op w).2.db) := by
  rcases certsOf_exec hop w with hsame | ⟨c, _, hmore⟩ | ⟨serial', _, _, hretired⟩
  · rw [hsame]
    exact hw
  · rcases hw with ⟨older, cert, newer, heq, hserial, holder⟩
    rw [hmore, heq]
    exact ⟨older, cert, newer ++ [c], by simp, hserial, holder⟩
  · rw [hretired]
    exact olderRetired_retired (fun _ => mem_certsOf) hw

/-- The dead stay dead as time passes. -/
theorem olderRetired_later {certs : List HostCertRow} {later : Int} (hlater : now ≤ later)
    (h : OlderRetired tenantId hostId serial now certs) :
    OlderRetired tenantId hostId serial later certs := by
  rcases h with ⟨older, cert, newer, heq, hserial, holder⟩
  refine ⟨older, cert, newer, heq, hserial, fun c hc => ?_⟩
  rw [Bool.eq_false_iff]
  intro hlive
  rcases isLive_iff.mp hlive with ⟨hours, hrevoked, hexpires⟩
  have hdead := holder c hc
  rw [isLive_iff.mpr ⟨hours, hrevoked, by omega⟩] at hdead
  cases hdead

theorem hasSerial_of_active
    (h : (HostCertRepo.standing tenantId hostId serial now db).active = true) :
    hasSerial serial (certsOf tenantId hostId db) = true := by
  unfold HostCertRepo.standing HostCertRepo.supersededBy at h
  split at h
  · cases h
  · rename_i i hfind
    rcases List.findIdx?_eq_some_iff_getElem.mp hfind with ⟨hlt, hserial, _⟩
    have hmem := List.mem_filter.mp (List.getElem_mem hlt)
    have hours := (isLive_iff.mp hmem.2).1
    exact List.any_eq_true.mpr ⟨_, List.mem_filter.mpr ⟨hmem.1, hours⟩, hserial⟩

/-- One that leaves nothing behind has nothing live before it. -/
theorem olderRetired_of_standing (h : HostCertRepo.standing tenantId hostId serial now db =
      { active := true, superseded := 0 }) :
    OlderRetired tenantId hostId serial now (certsOf tenantId hostId db) := by
  have hfilter : db.hostCerts.filter (HostCertRepo.isLive tenantId hostId now) =
      (certsOf tenantId hostId db).filter (HostCertRepo.isLive tenantId hostId now) := by
    unfold certsOf
    rw [List.filter_filter]
    apply List.filter_congr
    intro c _
    unfold HostCertRepo.isLive
    cases ofHost tenantId hostId c.tenantId c.hostId <;> simp
  unfold HostCertRepo.standing at h
  rw [hfilter] at h
  generalize certsOf tenantId hostId db = certs at h
  induction certs with
  | nil => cases h
  | cons c rest ih =>
      rw [olderRetired_cons]
      cases hlive : HostCertRepo.isLive tenantId hostId now c with
      | false =>
          rw [List.filter_cons_of_neg (by simp [hlive])] at h
          exact Or.inr ⟨rfl, ih h⟩
      | true =>
          rw [List.filter_cons_of_pos hlive] at h
          unfold HostCertRepo.supersededBy at h
          rw [List.findIdx?_cons] at h
          cases hserial : c.serial == serial with
          | true => exact Or.inl (by simpa using hserial)
          | false =>
              rw [hserial, if_neg Bool.false_ne_true] at h
              split at h
              · cases h
              · rename_i i hfind
                rcases Option.map_eq_some_iff.mp hfind with ⟨j, _, rfl⟩
                cases h

variable {deps : Deps}

/-- Steps that leave the host and its certificates to the host. -/
def Spared (tenantId : Int) (hostId : String) (p : Pool (service deps))
    (c : Choice (service deps)) : Prop :=
  (p.call? c).all (spares tenantId hostId) = true

theorem spares_of_spared {p : Pool (service deps)} {c : Choice (service deps)}
    (hspared : Spared tenantId hostId p c) (hcall : p.call? c = some op) :
    spares tenantId hostId op = true := by
  unfold Spared at hspared
  rw [hcall] at hspared
  exact hspared

/-- The step from `u` to `v` completes the retirement of a request presenting
`serial`: its standing read finds nothing to retire, or what it found is
retired. -/
inductive Completes (tenantId : Int) (hostId serial : String) :
    Pool (service deps) -> Pool (service deps) -> Prop where
  | nothingToRetire {u v : Pool (service deps)} {c : Choice (service deps)} :
      u.call? c = some (Op.query (Query.certStanding tenantId hostId serial)) ->
      HostCertRepo.standing tenantId hostId serial u.world.now u.world.db =
        { active := true, superseded := 0 } ->
      u.step c = some v -> Completes tenantId hostId serial u v
  | retired {p q u v : Pool (service deps)} {c d : Choice (service deps)} :
      p.call? c = some (Op.query (Query.certStanding tenantId hostId serial)) ->
      (HostCertRepo.standing tenantId hostId serial p.world.now p.world.db).active = true ->
      p.step c = some q -> Pool.Run (Spared tenantId hostId) q u ->
      u.call? d = some (Op.statement (Statement.retireSuperseded tenantId hostId serial)) ->
      u.step d = some v -> Completes tenantId hostId serial u v

theorem newestKept_run {p q : Pool (service deps)}
    (hp : NewestKept (certsOf tenantId hostId p.world.db))
    (hrun : Pool.Run (Spared tenantId hostId) p q) :
    NewestKept (certsOf tenantId hostId q.world.db) := by
  refine hrun.world_invariant
    (fun w : World => NewestKept (certsOf tenantId hostId w.db)) ?_ (fun _ _ hw => hw) hp
  intro p c op hspared hcall hw
  exact newestKept_exec (spares_of_spared hspared hcall) hw

theorem hasSerial_run {p q : Pool (service deps)}
    (hp : hasSerial serial (certsOf tenantId hostId p.world.db) = true)
    (hrun : Pool.Run (Spared tenantId hostId) p q) :
    hasSerial serial (certsOf tenantId hostId q.world.db) = true := by
  refine hrun.world_invariant
    (fun w : World => hasSerial serial (certsOf tenantId hostId w.db) = true) ?_
    (fun _ _ hw => hw) hp
  intro p c op hspared hcall hw
  exact hasSerial_exec (spares_of_spared hspared hcall) hw

theorem olderRetired_run {p q : Pool (service deps)}
    (hp : OlderRetired tenantId hostId serial p.world.now
      (certsOf tenantId hostId p.world.db))
    (hrun : Pool.Run (Spared tenantId hostId) p q) :
    OlderRetired tenantId hostId serial q.world.now
      (certsOf tenantId hostId q.world.db) := by
  refine hrun.world_invariant (fun w : World =>
    OlderRetired tenantId hostId serial w.now (certsOf tenantId hostId w.db)) ?_ ?_ hp
  · intro p c op hspared hcall hw
    have hw' := olderRetired_exec (spares_of_spared hspared hcall) hw
    change OlderRetired tenantId hostId serial (exec op p.world).2.now _
    rw [exec_now]
    exact hw'
  · intro tick w hw
    apply olderRetired_later _ hw
    change w.now ≤ w.now + (tick.secs : Int)
    omega

theorem olderRetired_completed {u v : Pool (service deps)}
    (h : Completes tenantId hostId serial u v) :
    OlderRetired tenantId hostId serial v.world.now (certsOf tenantId hostId v.world.db) ∧
      sinceSerial serial (certsOf tenantId hostId v.world.db) =
        sinceSerial serial (certsOf tenantId hostId u.world.db) := by
  cases h with
  | nothingToRetire hcall hstanding hstep =>
      have hworld : v.world = u.world := Pool.step_call hcall hstep
      rw [hworld]
      exact ⟨olderRetired_of_standing hstanding, rfl⟩
  | retired hread hactive hstep hrun hcall hretire =>
      rename_i p q c d
      have hhas : hasSerial serial (certsOf tenantId hostId u.world.db) = true := by
        have hworld : q.world = p.world := Pool.step_call hread hstep
        apply hasSerial_run _ hrun
        rw [hworld]
        exact hasSerial_of_active hactive
      let s := Statement.retireSuperseded tenantId hostId serial
      have hworld : v.world = (s.exec u.world).2 := Pool.step_call hcall hretire
      rcases statement_exec s u.world with ⟨e, htx, _⟩ | ⟨n, db, htx, hexec⟩
      · cases htx
      · rw [hworld, hexec]
        rcases certsOf_retireSuperseded htx with ⟨_, hretired⟩ | ⟨hnone, _⟩
        · change OlderRetired tenantId hostId serial u.world.now (certsOf tenantId hostId db) ∧ _
          rw [hretired]
          exact ⟨olderRetired_retireRows (fun _ => mem_certsOf) hhas,
            sinceSerial_retireRows (fun _ => mem_certsOf)⟩
        · rw [hhas] at hnone
          cases hnone

/-- As long as no operator revokes the host's certificates or deletes it, its
newest certificate is never revoked, and a request that presents a certificate
retires exactly the older ones, for good. -/
theorem renewal_strands_none {p : Pool (service deps)}
    (hstart : NewestKept (certsOf tenantId hostId p.world.db)) :
    (forall q, Pool.Run (Spared tenantId hostId) p q ->
      NewestKept (certsOf tenantId hostId q.world.db)) ∧
    forall serial u v q, Pool.Run (Spared tenantId hostId) p u ->
      Completes tenantId hostId serial u v -> Pool.Run (Spared tenantId hostId) v q ->
      OlderRetired tenantId hostId serial q.world.now (certsOf tenantId hostId q.world.db) ∧
      sinceSerial serial (certsOf tenantId hostId v.world.db) =
        sinceSerial serial (certsOf tenantId hostId u.world.db) := by
  constructor
  · intro q hrun
    exact newestKept_run hstart hrun
  · intro serial u v q _ hcompletes hrun
    rcases olderRetired_completed hcompletes with ⟨holder, hsince⟩
    exact ⟨olderRetired_run holder hrun, hsince⟩

/-!
# A renewed certificate is used
-/

def renewedDb : Db :=
  { enrolledDb with
    hostCerts := enrolledDb.hostCerts ++ [certRow 1 "h"
      { serial := "second", fingerprintSha256 := "", issuedAt := 0, expiresAt := 100 }] }

def renewedPool : Pool (service Deps.sample) :=
  Pool.init (World.start renewedDb ∅ 0)

def heartbeatWith (serial : String) : Choice (service Deps.sample) :=
  Choice.spawn (Request.http (HttpRequest.agent
    { tenantId := 1, tenantSlug := "acme", hostId := "h", serialHex := serial } true
    AgentRequest.heartbeat))

/-- The first certificate is retired by a heartbeat that presents the second. -/
theorem renewal_strands_none_second :
    let p := renewedPool.after [heartbeatWith "second"] rfl
    let u := p.after [Choice.exec 0] rfl
    let v := u.after [Choice.exec 0] rfl
    OlderRetired 1 "h" "second" v.world.now (certsOf 1 "h" v.world.db) ∧
      sinceSerial "second" (certsOf 1 "h" v.world.db) =
        sinceSerial "second" (certsOf 1 "h" u.world.db) := by
  intro p u v
  have hstart : NewestKept (certsOf 1 "h" renewedPool.world.db) := by
    intro c hc
    cases hc
    rfl
  have hrun : Pool.Run (Spared 1 "h") renewedPool u :=
    Pool.run_afterIf (fun p c => (p.call? c).all (spares 1 "h")) renewedPool
      [heartbeatWith "second", Choice.exec 0] rfl
  have hread : p.call? (Choice.exec 0) = some (Op.query (Query.certStanding 1 "h" "second")) :=
    rfl
  have hretire : u.call? (Choice.exec 0) =
      some (Op.statement (Statement.retireSuperseded 1 "h" "second")) := rfl
  have hcompletes : Completes 1 "h" "second" u v :=
    Completes.retired hread rfl rfl Pool.Run.refl hretire rfl
  exact (renewal_strands_none hstart).2 "second" u v v hrun hcompletes Pool.Run.refl

end Hosts
end FleetServer
