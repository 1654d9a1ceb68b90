import FleetServer.Facts.Documents
import FleetServer.Facts.Fleet
import FleetServer.Facts.Import

/-!
# What an import leaves behind

A commit matches the rows anew.  It stops before the first write when a row is
left over; otherwise the documents of the matched rows, and those it was told to
keep, are all there is of its source afterwards.
-/

namespace FleetServer
namespace Facts

open FleetServer.Core
open Storage
open Server
open Concurrency

variable {deps : Deps} {tenantId : Int} {source : String}
variable {db : Db} {hostId : String} {w : World} {p : Prepared} {hosts : List Host} {i : Nat}
variable {body : ImportBody}

/-!
# The hosts' values
-/

theorem run_addTargets (tenantId : Int) (hosts : List Host) (keys : List KeyTarget) (w : World) :
    forall (t : Nat) (index : KeyIndex),
      exists index', (addTargets tenantId hosts t index keys).run machine w =
        (Except.ok index', w) := by
  induction keys with
  | nil =>
      intro t index
      exact ⟨index, rfl⟩
  | cons key rest ih =>
      intro t index
      cases key with
      | host field => exact ih (t + 1) _
      | tag key =>
          unfold addTargets
          rw [run_askOr]
          exact ih (t + 1) _
      | fact source path => exact ih (t + 1) _

theorem run_buildIndex (deps : Deps) (tenantId : Int) (keys : List KeyTarget)
    (normalize : Normalize) (w : World) :
    exists index, (buildIndex deps tenantId keys normalize).run machine w =
      (Except.ok (HostRepo.list tenantId w.db, index), w) := by
  let hosts := HostRepo.list tenantId w.db
  rcases run_addTargets tenantId hosts keys w 0
      (KeyIndex.new keys.length normalize deps.toLowercase) with ⟨index, hindex⟩
  unfold buildIndex
  rw [run_askOr]
  show exists index, Program.run machine (addTargets tenantId hosts 0 _ keys >>= _) w = _
  rw [Program.run_bind, hindex]
  show exists index, Program.run machine (foldHostFacts deps tenantId _ _ _ >>= _) w = _
  rw [Program.run_bind, run_foldHostFacts]
  exact ⟨_, rfl⟩

/-!
# Documents of one source
-/

structure OnlyAt (tenantId : Int) (source : String) (touched : List String) (db db' : Db) :
    Prop where
  hosts : db'.hosts = db.hosts
  keys : FactsKeys db'
  others : forall t h s, ¬ (t = tenantId ∧ h ∈ touched ∧ s = source) ->
    HostFactsRepo.get t h s db' = HostFactsRepo.get t h s db

theorem onlyAt_refl (hkeys : FactsKeys db) (touched : List String) :
    OnlyAt tenantId source touched db db :=
  ⟨rfl, hkeys, fun _ _ _ _ => rfl⟩

theorem onlyAt_trans {touched touched' : List String} {a b c : Db}
    (hab : OnlyAt tenantId source touched a b) (hbc : OnlyAt tenantId source touched' b c) :
    OnlyAt tenantId source (touched ++ touched') a c := by
  constructor
  · rw [hbc.hosts, hab.hosts]
  · exact hbc.keys
  · intro t h s hother
    rw [hbc.others t h s, hab.others t h s]
    · intro hin
      exact hother ⟨hin.1, List.mem_append_left _ hin.2.1, hin.2.2⟩
    · intro hin
      exact hother ⟨hin.1, List.mem_append_right _ hin.2.1, hin.2.2⟩

theorem OnlyAt.elsewhere {touched : List String} {db' : Db}
    (h : OnlyAt tenantId source touched db db') (hnot : hostId ∉ touched) :
    HostFactsRepo.get tenantId hostId source db' = HostFactsRepo.get tenantId hostId source db :=
  h.others tenantId hostId source (fun hin => hnot hin.2.1)

/-!
# Storing
-/

/-- The document a host ends up with: the one that was to be stored, or the one
it had, under the same hash. -/
def Holds (hostId source hash json : String) (tenantId : Int) (db db' : Db) : Prop :=
  exists doc, HostFactsRepo.get tenantId hostId source db' = some doc ∧ doc.factsHash = hash ∧
    (doc.factsJson = json ∨ HostFactsRepo.get tenantId hostId source db = some doc)

theorem run_store (deps : Deps) (hash json : String) (collectedAt : Option String)
    (hkeys : FactsKeys w.db) (hhost : w.db.hosts.any (isHost tenantId hostId) = true)
    (hsource : validSource source = true) :
    exists outcome w',
      (store deps tenantId hostId source hash json collectedAt).run machine w = (outcome, w') ∧
      ((outcome = Except.error StoreFailure.badJson ∧ deps.parseJson json = none ∧ w' = w) ∨
        ((outcome = Except.ok ReplaceOutcome.unchanged ∨
            outcome = Except.ok ReplaceOutcome.stored) ∧
          OnlyAt tenantId source [hostId] w.db w'.db ∧
          Holds hostId source hash json tenantId w.db w'.db)) := by
  let previous := HostFactsRepo.get tenantId hostId source w.db
  unfold store storeAttempts storeRounds
  rw [run_askOr]
  show exists outcome w', Program.run machine
    (if previous.map StoredFacts.factsHash = some hash then _ else _) w = (outcome, w') ∧ _
  by_cases hsame : previous.map StoredFacts.factsHash = some hash
  · rw [if_pos hsame]
    refine ⟨_, _, rfl, Or.inr ⟨Or.inl rfl, onlyAt_refl hkeys _, ?_⟩⟩
    rcases Option.map_eq_some_iff.mp hsame with ⟨doc, hdoc, hhash⟩
    exact ⟨doc, hdoc, hhash, Or.inr hdoc⟩
  · rw [if_neg hsame]
    cases hparse : deps.parseJson json with
    | none => exact ⟨_, _, rfl, Or.inl ⟨rfl, rfl, rfl⟩⟩
    | some document =>
        let doc : NewFacts :=
          { source := source, factsHash := hash, factsJson := json,
            collectedAt := collectedAt,
            expectedPrevious := previous.map StoredFacts.factsHash,
            history := deps.historyEntry (previous.map StoredFacts.factsJson) document }
        let db' := HostFactsRepo.storeRows tenantId hostId doc keepHistory w.now w.db
        have htx : (Statement.replaceFacts tenantId hostId doc keepHistory).tx w.now w.db =
            Except.ok (ReplaceOutcome.stored, db') :=
          HostFactsRepo.replace_expected hsource hhost hsame rfl
        refine ⟨_, World.bumpCatalog { w with
            db := db'
            cache := w.cache.invalidateHost (tenantId, hostId) w.now }
          tenantId CatalogChange.stored, run_executeOr htx _ _, Or.inr ⟨Or.inr rfl, ?_, ?_⟩⟩
        · constructor
          · rfl
          · exact HostFactsRepo.factsKeys_storeRows hkeys hhost
          · intro t h s hother
            apply HostFactsRepo.get_storeRows_other hkeys hhost
            intro hin
            exact hother ⟨hin.1, by rw [hin.2.1]; exact List.mem_singleton_self _, hin.2.2⟩
        · have hget : HostFactsRepo.get tenantId hostId source db' =
              some (HostFactsRepo.stored (HostFactsRepo.docRow tenantId hostId doc w.now)) :=
            @HostFactsRepo.get_storeRows_self w.db tenantId hostId doc keepHistory w.now hkeys
              hhost
          exact ⟨_, hget, rfl, Or.inl rfl⟩

theorem run_storeRows (deps : Deps) (hsource : validSource p.source = true)
    (rows : List (String × PreparedRow)) :
    forall (out : CommitTally) (w : World), FactsKeys w.db -> (rows.map Prod.fst).Nodup ->
      (forall r, r ∈ rows -> w.db.hosts.any (isHost tenantId r.1) = true) ->
      exists done w', (storeRows deps tenantId p out rows).run machine w = (done, w') ∧
        (done.2 = false -> exists r, r ∈ rows ∧ deps.parseJson r.2.json = none) ∧
        (done.2 = true -> OnlyAt tenantId p.source (rows.map Prod.fst) w.db w'.db ∧
          forall r, r ∈ rows ->
            Holds r.1 p.source r.2.hash r.2.json tenantId w.db w'.db) := by
  induction rows with
  | nil =>
      intro out w hkeys _ _
      refine ⟨_, _, rfl, (fun h => by cases h), fun _ => ⟨onlyAt_refl hkeys _, ?_⟩⟩
      intro r hr
      cases hr
  | cons row rest ih =>
      intro out w hkeys hnodup hhosts
      rw [List.map_cons, List.nodup_cons] at hnodup
      rcases run_store deps row.2.hash row.2.json p.collectedAt hkeys
          (hhosts row List.mem_cons_self) hsource with ⟨outcome, w1, hrun, hcases⟩
      unfold storeRows
      rw [Program.run_bind, hrun]
      rcases hcases with ⟨houtcome, hparse, hw⟩ | ⟨houtcome, honly, hholds⟩
      · rw [houtcome]
        refine ⟨_, _, rfl, fun _ => ⟨row, List.mem_cons_self, hparse⟩, fun h => by cases h⟩
      · have hhosts1 : forall r, r ∈ rest -> w1.db.hosts.any (isHost tenantId r.1) = true := by
          intro r hr
          rw [honly.hosts]
          exact hhosts r (List.mem_cons_of_mem _ hr)
        have hnext : forall out1 : CommitTally, exists done w',
            (storeRows deps tenantId p out1 rest).run machine w1 = (done, w') ∧
            (done.2 = false -> exists r, r ∈ row :: rest ∧ deps.parseJson r.2.json = none) ∧
            (done.2 = true ->
              OnlyAt tenantId p.source ((row :: rest).map Prod.fst) w.db w'.db ∧
              forall r, r ∈ row :: rest ->
                Holds r.1 p.source r.2.hash r.2.json tenantId w.db w'.db) := by
          intro out1
          rcases ih out1 w1 honly.keys hnodup.2 hhosts1 with ⟨done, w', hrest, hfailed, hok⟩
          refine ⟨done, w', hrest, ?_, ?_⟩
          · intro hdone
            rcases hfailed hdone with ⟨r, hr, hparse⟩
            exact ⟨r, List.mem_cons_of_mem _ hr, hparse⟩
          · intro hdone
            rcases hok hdone with ⟨honly', hholds'⟩
            refine ⟨onlyAt_trans honly honly', ?_⟩
            intro r hr
            rcases List.mem_cons.mp hr with hr | hr
            · rcases hholds with ⟨doc, hdoc, hhash, hjson⟩
              rw [hr]
              exact ⟨doc, (honly'.elsewhere hnodup.1).trans hdoc, hhash, hjson⟩
            · rcases hholds' r hr with ⟨doc, hdoc, hhash, hjson⟩
              have hother : r.1 ∉ [row.1] := by
                intro hin
                rw [List.mem_singleton] at hin
                apply hnodup.1
                rw [← hin]
                exact List.mem_map_of_mem hr
              rw [honly.elsewhere hother] at hjson
              exact ⟨doc, hdoc, hhash, hjson⟩
        rcases houtcome with houtcome | houtcome
        · rw [houtcome]
          exact hnext (out.count ReplaceOutcome.unchanged)
        · rw [houtcome]
          exact hnext (out.count ReplaceOutcome.stored)

/-!
# Pruning
-/

theorem run_remove (tenantId : Int) (hostId source : String) (hkeys : FactsKeys w.db) :
    exists removed w',
      (remove tenantId hostId source false).run machine w = (Except.ok removed, w') ∧
        OnlyAt tenantId source [hostId] w.db w'.db ∧
        HostFactsRepo.get tenantId hostId source w'.db = none := by
  have hdelete : exists removed db',
      HostFactsRepo.delete tenantId hostId source w.db = Except.ok (removed, db') :=
    ⟨_, _, rfl⟩
  rcases hdelete with ⟨removed, db', hdelete⟩
  have htx : (Statement.deleteFacts tenantId hostId source).tx w.now w.db =
      Except.ok (removed, db') := hdelete
  rcases HostFactsRepo.delete_eq_ok hdelete with ⟨_, hhosts, hnone, hothers, hkept⟩
  have honly : OnlyAt tenantId source [hostId] w.db db' := by
    constructor
    · exact hhosts
    · exact hkept hkeys
    · intro t h s hother
      apply hothers
      intro hin
      exact hother ⟨hin.1, by rw [hin.2.1]; exact List.mem_singleton_self _, hin.2.2⟩
  unfold remove
  rw [run_executeOr htx]
  cases removed with
  | false => exact ⟨false, _, rfl, honly, hnone⟩
  | true => exact ⟨true, _, rfl, honly, hnone⟩

theorem run_pruneHosts (tenantId : Int) (source : String) (hostIds : List String) :
    forall (out : CommitTally) (w : World), FactsKeys w.db ->
      exists out' w', (pruneHosts tenantId source out hostIds).run machine w =
          ((out', true), w') ∧
        OnlyAt tenantId source hostIds w.db w'.db ∧
        forall hostId, hostId ∈ hostIds ->
          HostFactsRepo.get tenantId hostId source w'.db = none := by
  induction hostIds with
  | nil =>
      intro out w hkeys
      exact ⟨_, _, rfl, onlyAt_refl hkeys _, fun _ h => absurd h List.not_mem_nil⟩
  | cons hostId rest ih =>
      intro out w hkeys
      rcases run_remove tenantId hostId source hkeys with
        ⟨removed, w1, hrun, honly, hnone⟩
      have hnext : forall out1 : CommitTally, exists out' w',
          (pruneHosts tenantId source out1 rest).run machine w1 = ((out', true), w') ∧
          OnlyAt tenantId source (hostId :: rest) w.db w'.db ∧
          forall k, k ∈ hostId :: rest ->
            HostFactsRepo.get tenantId k source w'.db = none := by
        intro out1
        rcases ih out1 w1 honly.keys with ⟨out', w', hrest, honly', hnone'⟩
        refine ⟨out', w', hrest, onlyAt_trans honly honly', ?_⟩
        intro k hk
        by_cases hin : k ∈ rest
        · exact hnone' k hin
        · rw [honly'.elsewhere hin, (List.mem_cons.mp hk).resolve_right hin]
          exact hnone
      unfold pruneHosts
      rw [Program.run_bind, hrun]
      cases removed with
      | false => exact hnext out
      | true => exact hnext { out with pruned := out.pruned + 1 }

/-!
# Committing
-/

theorem run_commitRows (deps : Deps) (hsource : validSource p.source = true)
    (rows : List (String × PreparedRow)) (hkeys : FactsKeys w.db)
    (hnodup : (rows.map Prod.fst).Nodup)
    (hhosts : forall r, r ∈ rows -> w.db.hosts.any (isHost tenantId r.1) = true) :
    exists done w', (commitRows deps tenantId p rows).run machine w = (done, w') ∧
      (done.2 = false -> exists r, r ∈ rows ∧ deps.parseJson r.2.json = none) ∧
      (done.2 = true ->
        (forall hostId, hostId ∈ HostFactsRepo.hostsWithSource tenantId p.source w'.db <->
          hostId ∈ rows.map Prod.fst ∨ (p.prune = false ∧
            hostId ∈ HostFactsRepo.hostsWithSource tenantId p.source w.db)) ∧
        forall r, r ∈ rows -> Holds r.1 p.source r.2.hash r.2.json tenantId w.db w'.db) := by
  rcases run_storeRows deps hsource rows CommitTally.zero w hkeys hnodup hhosts with
    ⟨done, w1, hrun, hfailed, hok⟩
  have hheld : done.2 = true -> forall hostId, hostId ∈ rows.map Prod.fst ->
      hostId ∈ HostFactsRepo.hostsWithSource tenantId p.source w1.db := by
    intro hdone hostId hmem
    rcases List.mem_map.mp hmem with ⟨r, hr, hid⟩
    rcases (hok hdone).2 r hr with ⟨doc, hdoc, _⟩
    rw [HostFactsRepo.mem_hostsWithSource, ← hid, hdoc]
    rfl
  have hkept : done.2 = true -> forall hostId, hostId ∉ rows.map Prod.fst ->
      (hostId ∈ HostFactsRepo.hostsWithSource tenantId p.source w1.db <->
        hostId ∈ HostFactsRepo.hostsWithSource tenantId p.source w.db) := by
    intro hdone hostId hnot
    rw [HostFactsRepo.mem_hostsWithSource, HostFactsRepo.mem_hostsWithSource,
      (hok hdone).1.elsewhere hnot]
  unfold commitRows
  rw [Program.run_bind, hrun]
  simp only
  cases hdone : done.2 with
  | false =>
      rw [Bool.false_and, if_neg Bool.false_ne_true]
      refine ⟨_, _, rfl, hfailed, ?_⟩
      intro h
      rw [h] at hdone
      cases hdone
  | true =>
      rw [Bool.true_and]
      cases hprune : p.prune with
      | false =>
          rw [if_neg Bool.false_ne_true]
          refine ⟨_, _, rfl, hfailed, fun h => ⟨?_, (hok h).2⟩⟩
          intro hostId
          by_cases hmem : hostId ∈ rows.map Prod.fst
          · exact ⟨fun _ => Or.inl hmem, fun _ => hheld h hostId hmem⟩
          · rw [hkept h hostId hmem]
            exact ⟨fun hwas => Or.inr ⟨rfl, hwas⟩, fun hin => (hin.resolve_left hmem).2⟩
      | true =>
          rw [if_pos rfl]
          unfold pruneAbsent
          rw [run_askOr]
          let absent := (HostFactsRepo.hostsWithSource tenantId p.source w1.db).filter
            fun h => !(rows.map Prod.fst).contains h
          rcases run_pruneHosts tenantId p.source absent done.1 w1
            (hok hdone).1.keys with ⟨out', w', hpruned, honly, hnone⟩
          have hpresent : forall hostId, hostId ∈ rows.map Prod.fst -> hostId ∉ absent := by
            intro hostId hmem hin
            have hnot := (List.mem_filter.mp hin).2
            rw [List.contains_iff_mem.mpr hmem] at hnot
            cases hnot
          refine ⟨_, _, hpruned, (fun h => by cases h), fun _ => ⟨?_, ?_⟩⟩
          · intro hostId
            by_cases hmem : hostId ∈ rows.map Prod.fst
            · have hthere := hheld hdone hostId hmem
              rw [HostFactsRepo.mem_hostsWithSource] at hthere ⊢
              rw [honly.elsewhere (hpresent hostId hmem)]
              exact ⟨fun _ => Or.inl hmem, fun _ => hthere⟩
            · have hgone : HostFactsRepo.get tenantId hostId p.source w'.db = none := by
                by_cases hin : hostId ∈ absent
                · exact hnone hostId hin
                · rw [honly.elsewhere hin, ← Option.not_isSome_iff_eq_none,
                    ← HostFactsRepo.mem_hostsWithSource]
                  intro hthere
                  apply hin
                  apply List.mem_filter.mpr
                  refine ⟨hthere, ?_⟩
                  rw [Bool.not_eq_true', Bool.eq_false_iff]
                  intro hcontains
                  exact hmem (List.contains_iff_mem.mp hcontains)
              rw [HostFactsRepo.mem_hostsWithSource, hgone]
              constructor
              · intro h
                cases h
              · intro h
                rcases h with h | ⟨h, _⟩
                · exact absurd h hmem
                · cases h
          · intro r hr
            rcases (hok hdone).2 r hr with ⟨doc, hdoc, hhash, hjson⟩
            rw [← honly.elsewhere (hpresent r.1 (List.mem_map_of_mem hr))] at hdoc
            exact ⟨doc, hdoc, hhash, hjson⟩

/-!
# The rows of a request
-/

def MatchedTo (hosts : List Host) (rows : List PreparedRow) (resolved : List Resolution)
    (hostId : String) (row : PreparedRow) : Prop :=
  exists (i k : Nat) (host : Host), rows[i]? = some row ∧
    resolved[i]? = some (Resolution.matched k) ∧ hosts[k]? = some host ∧ host.id = hostId

theorem mem_matchedRows {rows : List PreparedRow} {resolved : List Resolution} {row : PreparedRow} :
    (hostId, row) ∈ matchedRows hosts rows resolved <->
      MatchedTo hosts rows resolved hostId row := by
  unfold matchedRows MatchedTo
  rw [List.mem_filterMap]
  constructor
  · intro h
    rcases h with ⟨⟨row', r⟩, hmem, hr⟩
    rcases List.mem_iff_getElem?.mp hmem with ⟨i, hi⟩
    rw [List.getElem?_zip_eq_some] at hi
    cases r with
    | matched k =>
        rcases Option.map_eq_some_iff.mp hr with ⟨host, hhost, hpair⟩
        cases hpair
        exact ⟨i, k, host, hi.1, hi.2, hhost, rfl⟩
    | _ => cases hr
  · intro h
    rcases h with ⟨i, k, host, hrow, hmatched, hhost, hid⟩
    refine ⟨(row, Resolution.matched k), ?_, ?_⟩
    · apply List.mem_iff_getElem?.mpr
      exact ⟨i, List.getElem?_zip_eq_some.mpr ⟨hrow, hmatched⟩⟩
    · rw [← hid]
      simp only
      rw [hhost]
      rfl

theorem nodup_matchedRows {rows : List PreparedRow} {resolved : List Resolution}
    (hids : (hosts.map Host.id).Nodup) (honce : MatchedOnce resolved) :
    ((matchedRows hosts rows resolved).map Prod.fst).Nodup := by
  show List.Pairwise _ _
  rw [List.pairwise_map]
  unfold matchedRows
  rw [List.pairwise_filterMap, List.pairwise_iff_getElem]
  intro i j hi hj hij a ha b hb hsame
  -- A row on its own is matched the way it is among the others.
  have hrow : forall (k : Nat) (hk : k < (rows.zip resolved).length)
      (c : String × PreparedRow),
      c ∈ matchedRows hosts [(rows.zip resolved)[k].1] [(rows.zip resolved)[k].2] ->
      exists (h : Nat) (host : Host), resolved[k]? = some (Resolution.matched h) ∧
        hosts[h]? = some host ∧ host.id = c.1 := by
    intro k hk c hc
    rcases mem_matchedRows.mp hc with ⟨n, h, host, _, hmatched, hhost, hid⟩
    have hget := List.getElem?_eq_getElem hk
    rw [List.getElem?_zip_eq_some] at hget
    cases n with
    | zero =>
        exact ⟨h, host, hget.2.trans hmatched, hhost, hid⟩
    | succ n => cases hmatched
  have halone : a ∈ matchedRows hosts [(rows.zip resolved)[i].1] [(rows.zip resolved)[i].2] :=
    List.mem_filterMap.mpr ⟨_, List.mem_singleton_self _, ha⟩
  have halone' : b ∈ matchedRows hosts [(rows.zip resolved)[j].1] [(rows.zip resolved)[j].2] :=
    List.mem_filterMap.mpr ⟨_, List.mem_singleton_self _, hb⟩
  rcases hrow i hi a halone with ⟨h, host, hmatched, hhost, hid⟩
  rcases hrow j hj b halone' with ⟨h', host', hmatched', hhost', hid'⟩
  have hids' : (hosts.map Host.id)[h]? = (hosts.map Host.id)[h']? := by
    rw [List.getElem?_map, List.getElem?_map, hhost, hhost', Option.map_some, Option.map_some,
      hid, hid', hsame]
  have hlt : h < (hosts.map Host.id).length := by
    rw [List.length_map]
    exact (List.getElem?_eq_some_iff.mp hhost).1
  have hindex : h = h' := (List.getElem?_inj hlt hids).mp hids'
  rw [← hindex] at hmatched'
  exact absurd (honce.once i j h hmatched hmatched') (Nat.ne_of_lt hij)

theorem any_of_mem_list {host : Host} (h : host ∈ HostRepo.list tenantId db) :
    db.hosts.any (isHost tenantId host.id) = true := by
  unfold HostRepo.list at h
  rw [List.mem_insertionSort, List.mem_map] at h
  rcases h with ⟨row, hrow, hhost⟩
  rcases List.mem_filter.mp hrow with ⟨hrow, htenant⟩
  rw [beq_iff_eq] at htenant
  exact List.any_eq_true.mpr ⟨row, hrow, isHost_iff.mpr ⟨htenant, by rw [← hhost]; rfl⟩⟩

theorem nodup_list (hids : (db.hosts.map HostRow.id).Nodup) :
    ((HostRepo.list tenantId db).map Host.id).Nodup := by
  unfold HostRepo.list
  rw [((List.perm_insertionSort _ _).map Host.id).nodup_iff, List.map_map]
  exact hids.sublist (List.filter_sublist.map HostRow.id)

/-!
# What a request is prepared to
-/

theorem forall2_of_mapM {alpha beta epsilon : Type} {f : alpha -> Except epsilon beta}
    {xs : List alpha} : forall {ys : List beta}, xs.mapM f = Except.ok ys ->
      List.Forall₂ (fun x y => f x = Except.ok y) xs ys := by
  induction xs with
  | nil =>
      intro ys h
      cases h
      exact List.Forall₂.nil
  | cons x xs ih =>
      intro ys h
      rw [List.mapM_cons] at h
      cases hx : f x with
      | error e =>
          rw [hx] at h
          cases h
      | ok y =>
          rw [hx] at h
          cases hrest : xs.mapM f with
          | error e =>
              rw [hrest] at h
              cases h
          | ok rest =>
              rw [hrest] at h
              cases h
              exact List.Forall₂.cons hx (ih hrest)

structure RowOf (deps : Deps) (row : ImportRow) (r : PreparedRow) : Prop where
  json : r.json = deps.jsonToString row.facts
  hash : r.hash = deps.sha256Hex (utf8 r.json)

theorem rowOf_prepareRow {keyCount : Nat} {row : ImportRow} {r : PreparedRow}
    (h : prepareRow deps keyCount i row = Except.ok r) : RowOf deps row r := by
  unfold prepareRow at h
  simp only at h
  split at h
  · cases h
  · cases hkeys : row.keys.mapM (prepareKey i) with
    | error e =>
        rw [hkeys] at h
        cases h
    | ok keys =>
        rw [hkeys] at h
        change (if _ then _ else _) = _ at h
        split at h
        · cases h
        · split at h
          · cases h
          · cases h
            exact ⟨rfl, rfl⟩

/-- What is known of a request that passed its checks. -/
structure Accepted (deps : Deps) (body : ImportBody) (p : Prepared) : Prop where
  source : p.source = importSource body.name
  valid : validSource p.source = true
  keys : p.keys = body.keys
  normalize : p.normalize = body.normalize
  prune : p.prune = body.prune
  skip : forall i, i ∈ p.skip <-> i ∈ body.skip
  rows : List.Forall₂ (RowOf deps) body.rows p.rows

theorem Accepted.row (h : Accepted deps body p) {row : ImportRow} (hrow : body.rows[i]? = some row)
    :
    exists r, p.rows[i]? = some r ∧ RowOf deps row r := by
  rcases List.getElem?_eq_some_iff.mp hrow with ⟨hlt, hget⟩
  have hlt' : i < p.rows.length := by
    rw [← h.rows.length_eq]
    exact hlt
  have hof := h.rows.get hlt hlt'
  rw [List.get_eq_getElem, List.get_eq_getElem, hget] at hof
  exact ⟨p.rows[i], List.getElem?_eq_getElem hlt', hof⟩

theorem accepted_of_prepareBody (h : prepareBody deps body = Except.ok p) :
    Accepted deps body p := by
  unfold prepareBody at h
  split at h
  · cases h
  · rename_i hname
    split at h
    · cases h
    · cases htargets : checkTargets deps body.keys with
      | error e =>
          rw [htargets] at h
          cases h
      | ok u =>
          rw [htargets] at h
          change (if _ then _ else _) = _ at h
          split at h
          · cases h
          · split at h
            · cases h
            · split at h
              · cases h
              · cases hrows : body.rows.zipIdx.mapM fun r =>
                    prepareRow deps body.keys.length r.2 r.1 with
                | error e =>
                    rw [hrows] at h
                    cases h
                | ok rows =>
                    rw [hrows] at h
                    cases h
                    rw [Bool.not_eq_true', Bool.not_eq_false] at hname
                    unfold validImportName at hname
                    rw [Bool.and_eq_true] at hname
                    constructor
                    · rfl
                    · exact hname.2
                    · rfl
                    · rfl
                    · rfl
                    · exact fun i => List.mem_dedup
                    · have hof : List.Forall₂ (fun (x : ImportRow × Nat) y => RowOf deps x.1 y)
                          body.rows.zipIdx rows :=
                        (forall2_of_mapM hrows).imp fun _ _ => rowOf_prepareRow
                      have hrows' : body.rows.zipIdx.map Prod.fst = body.rows :=
                        List.zipIdx_map_fst 0 body.rows
                      rw [← hrows']
                      exact List.forall₂_map_left_iff.mpr hof

theorem accepted_of_accept {who : AuthedUser} {contentType : Option String} {bytes : Bytes}
    (h : accept deps who contentType bytes = Except.ok p) :
    exists body, deps.parseImportBody bytes = Except.ok body ∧ Accepted deps body p := by
  unfold accept at h
  split at h
  · cases h
  · split at h
    · cases h
    · unfold prepare at h
      split at h
      · cases h
      · rename_i body hbody
        exact ⟨body, hbody, accepted_of_prepareBody h⟩

/-!
# Preview and commit
-/

def MatchedHost (hosts : List Host) (resolved : List Resolution) (hostId : String) : Prop :=
  exists (i k : Nat) (host : Host), resolved[i]? = some (Resolution.matched k) ∧
    hosts[k]? = some host ∧ host.id = hostId

/-- What an import of `body` leaves of its source's documents. -/
structure Imported (deps : Deps) (tenantId : Int) (body : ImportBody)
    (resolved : List Resolution) (db db' : Db) : Prop where
  holders : forall hostId,
    hostId ∈ HostFactsRepo.hostsWithSource tenantId (importSource body.name) db' <->
      MatchedHost (HostRepo.list tenantId db) resolved hostId ∨ (body.prune = false ∧
        hostId ∈ HostFactsRepo.hostsWithSource tenantId (importSource body.name) db)
  documents : forall (i k : Nat) (row : ImportRow) (host : Host), body.rows[i]? = some row ->
    resolved[i]? = some (Resolution.matched k) ->
    (HostRepo.list tenantId db)[k]? = some host ->
      exists doc, HostFactsRepo.get tenantId host.id (importSource body.name) db' = some doc ∧
        doc.factsJson = deps.jsonToString row.facts

def Hashed (deps : Deps) (db : Db) : Prop :=
  forall r, r ∈ db.hostFacts -> r.factsHash = deps.sha256Hex (utf8 r.factsJson)

theorem Hashed.get (h : Hashed deps db) {doc : StoredFacts}
    (hdoc : HostFactsRepo.get tenantId hostId source db = some doc) :
    doc.factsHash = deps.sha256Hex (utf8 doc.factsJson) := by
  rcases Option.map_eq_some_iff.mp hdoc with ⟨r, hr, hstored⟩
  rw [← hstored]
  exact h r (List.mem_of_find?_eq_some hr)

/-- A row that is neither matched nor to be skipped. -/
def LeftOver (body : ImportBody) (resolved : List Resolution) : Prop :=
  exists (i : Nat) (r : Resolution), resolved[i]? = some r ∧ r.matchedHost = none ∧
    i ∉ body.skip

theorem isOffending_iff {r : Resolution} :
    isOffending r = true <-> r.matchedHost = none ∧ r ≠ Resolution.skipped := by
  cases r with
  | matched host => simp [isOffending, Resolution.matchedHost]
  | ambiguous hosts => simp [isOffending, Resolution.matchedHost]
  | unmatched => simp [isOffending, Resolution.matchedHost]
  | duplicate host of => simp [isOffending, Resolution.matchedHost]
  | skipped => simp [isOffending, Resolution.matchedHost]

theorem matchRows_skipped (hp : Accepted deps body p) {index : KeyIndex} {r : Resolution}
    (hr : (matchRows hosts index p)[i]? = some r) :
    r = Resolution.skipped <-> i ∈ body.skip := by
  have hlt := (List.getElem?_eq_some_iff.mp hr).1
  unfold matchRows resolveRows at hr hlt
  rw [length_resolveFrom, List.length_map, List.length_zipIdx] at hlt
  have hrow : (p.rows.zipIdx.map (rowKey hosts p))[i]? =
      some (rowKey hosts p (p.rows[i], i)) := by
    rw [List.getElem?_map, List.getElem?_zipIdx, List.getElem?_eq_getElem hlt, Nat.zero_add]
    rfl
  have hskip := @skipped_resolveFrom index (p.rows.zipIdx.map (rowKey hosts p)) 0 ∅ i
  rw [hr, hrow, Option.some.injEq, Option.some.injEq] at hskip
  rw [hskip, ← hp.skip]
  unfold rowKey
  constructor
  · intro h
    split at h
    · rename_i hin
      exact List.contains_iff_mem.mp hin
    · split at h
      · cases h
      · cases h
  · intro h
    rw [if_pos (List.contains_iff_mem.mpr h)]

theorem offending_eq_nil_iff {body : ImportBody} {p : Prepared} (hp : Accepted deps body p)
    {hosts : List Host} {index : KeyIndex} :
    ((matchRows hosts index p).zipIdx.filter fun r => isOffending r.1) = [] <->
      ¬ LeftOver body (matchRows hosts index p) := by
  rw [List.filter_eq_nil_iff]
  constructor
  · intro h hleft
    rcases hleft with ⟨i, r, hr, hnone, hnot⟩
    apply h (r, i) (List.mk_mem_zipIdx_iff_getElem?.mpr hr)
    exact isOffending_iff.mpr ⟨hnone, fun hskip => hnot ((matchRows_skipped hp hr).mp hskip)⟩
  · intro hnone r hr hoffending
    have hr := List.mk_mem_zipIdx_iff_getElem?.mp hr
    have hmatch := isOffending_iff.mp hoffending
    exact hnone ⟨r.2, r.1, hr, hmatch.1,
      fun hin => hmatch.2 ((matchRows_skipped hp hr).mpr hin)⟩

theorem run_commitRows_imported (tenantId : Int)
    (hsha : forall a b, deps.sha256 a = deps.sha256 b -> a = b) (hp : Accepted deps body p)
    (hkeys : FactsKeys w.db) (hhashed : Hashed deps w.db) (index : KeyIndex) :
    let resolved := matchRows (HostRepo.list tenantId w.db) index p
    exists done w', (commitRows deps tenantId p
        (matchedRows (HostRepo.list tenantId w.db) p.rows resolved)).run machine w = (done, w') ∧
      ((forall row, row ∈ body.rows -> (deps.parseJson (deps.jsonToString row.facts)).isSome) ->
        done.2 = true) ∧
      (done.2 = true -> Imported deps tenantId body resolved w.db w'.db) := by
  intro resolved
  let hosts := HostRepo.list tenantId w.db
  have hresolved : resolved.length = p.rows.length := by
    show (resolveFrom index 0 ∅ _).length = _
    rw [length_resolveFrom, List.length_map, List.length_zipIdx]
  have honce : MatchedOnce resolved := matchedOnce_resolveRows _
  have hlands : forall r, r ∈ matchedRows hosts p.rows resolved ->
      w.db.hosts.any (isHost tenantId r.1) = true := by
    intro r hr
    rcases mem_matchedRows.mp hr with ⟨i, k, host, _, _, hhost, hid⟩
    rw [← hid]
    exact any_of_mem_list (List.mem_of_getElem? hhost)
  rcases run_commitRows deps hp.valid (matchedRows hosts p.rows resolved) hkeys
      (nodup_matchedRows (nodup_list hkeys.hostIds) honce) hlands with
    ⟨done, w', hrun, hfailed, hok⟩
  refine ⟨done, w', hrun, ?_, ?_⟩
  · intro hparses
    cases hdone : done.2 with
    | true => rfl
    | false =>
        rcases hfailed hdone with ⟨r, hr, hparse⟩
        rcases mem_matchedRows.mp hr with ⟨i, k, host, hrow, _⟩
        have hlt : i < body.rows.length := by
          rw [hp.rows.length_eq]
          exact (List.getElem?_eq_some_iff.mp hrow).1
        rcases hp.row (List.getElem?_eq_getElem hlt) with ⟨r', hr', hof⟩
        rw [hrow] at hr'
        cases hr'
        have hsome := hparses _ (List.getElem_mem hlt)
        rw [← hof.json, hparse] at hsome
        cases hsome
  · intro hdone
    rcases hok hdone with ⟨hholders, hdocuments⟩
    constructor
    · intro hostId
      rw [← hp.source, ← hp.prune, hholders]
      have hmatched : hostId ∈ (matchedRows hosts p.rows resolved).map Prod.fst <->
          MatchedHost hosts resolved hostId := by
        rw [List.mem_map]
        constructor
        · intro h
          rcases h with ⟨r, hr, hid⟩
          rcases mem_matchedRows.mp hr with ⟨i, k, host, _, hk, hhost, hown⟩
          exact ⟨i, k, host, hk, hhost, hown.trans hid⟩
        · intro h
          rcases h with ⟨i, k, host, hk, hhost, hid⟩
          have hlt : i < p.rows.length := by
            rw [← hresolved]
            exact (List.getElem?_eq_some_iff.mp hk).1
          exact ⟨(hostId, p.rows[i]), mem_matchedRows.mpr
            ⟨i, k, host, List.getElem?_eq_getElem hlt, hk, hhost, hid⟩, rfl⟩
      rw [hmatched]
    · intro i k row host hrow hk hhost
      rcases hp.row hrow with ⟨r, hr, hof⟩
      have hmem : (host.id, r) ∈ matchedRows hosts p.rows resolved :=
        mem_matchedRows.mpr ⟨i, k, host, hr, hk, hhost, rfl⟩
      rcases hdocuments _ hmem with ⟨doc, hdoc, hhash, hjson⟩
      rw [← hp.source]
      refine ⟨doc, hdoc, ?_⟩
      rw [← hof.json]
      rcases hjson with hjson | hheld
      · exact hjson
      · apply deps.sha256Hex_injective hsha
        rw [← hhashed.get hheld, hhash, hof.hash]

theorem run_commit {who : AuthedUser} {contentType : Option String} {bytes : Bytes}
    (haccept : accept deps who contentType bytes = Except.ok p) {index : KeyIndex}
    (hindex : (buildIndex deps who.tenantId p.keys p.normalize).run machine w =
      (Except.ok (hosts, index), w)) :
    let resolved := matchRows hosts index p
    let offending := resolved.zipIdx.filter fun r => isOffending r.1
    let done := (commitRows deps who.tenantId p (matchedRows hosts p.rows resolved)).run machine w
    let committed := (commit deps who contentType bytes).run machine w
    (offending ≠ [] -> committed.1.status = 409 ∧ committed.2 = w) ∧
      (offending = [] -> committed.1 = commitAnswer p done.1 ∧ committed.2.db = done.2.db) := by
  intro resolved offending done committed
  have hrun : committed = Program.run machine
      (if !offending.isEmpty then
        return { status := 409, payload := Payload.unresolvedRows (offending.map (rowView hosts)) }
      else do
        let done ← commitRows deps who.tenantId p (matchedRows hosts p.rows resolved)
        if 0 < done.1.stored ∨ 0 < done.1.pruned then
          bumpCatalog who.tenantId CatalogChange.operator
        return commitAnswer p done) w := by
    show (commit deps who contentType bytes).run machine w = _
    unfold commit
    rw [run_guarded_ok haccept, Program.run_bind, hindex]
  rw [hrun]
  constructor
  · intro hsome
    rw [if_pos (by rw [List.isEmpty_eq_false_iff.mpr hsome]; rfl)]
    exact ⟨rfl, rfl⟩
  · intro hnil
    rw [if_neg (by rw [hnil]; exact Bool.false_ne_true), Program.run_bind]
    show ((Program.run machine (if 0 < done.1.1.stored ∨ 0 < done.1.1.pruned then _ else _)
      done.2).1 = _) ∧ _
    split
    · exact ⟨rfl, rfl⟩
    · exact ⟨rfl, rfl⟩

theorem status_commitAnswer (p : Prepared) (done : CommitTally × Bool) :
    (commitAnswer p done).status = if done.2 then 200 else 500 := by
  unfold commitAnswer
  split
  · rfl
  · rfl

theorem import_commit_agrees (hsha : forall a b, deps.sha256 a = deps.sha256 b -> a = b)
    (who : AuthedUser) (contentType : Option String) (bytes : Bytes) {w : World}
    (hkeys : FactsKeys w.db) (hhashed : Hashed deps w.db) :
    (forall refused, accept deps who contentType bytes = Except.error refused ->
      (resolve deps who contentType bytes).run machine w = (refused, w) ∧
        (commit deps who contentType bytes).run machine w = (refused, w)) ∧
    forall p, accept deps who contentType bytes = Except.ok p ->
      exists body index absent total,
        deps.parseImportBody bytes = Except.ok body ∧ Accepted deps body p ∧
        (buildIndex deps who.tenantId p.keys p.normalize).run machine w =
          (Except.ok (HostRepo.list who.tenantId w.db, index), w) ∧
        (let hosts := HostRepo.list who.tenantId w.db
         let resolved := matchRows hosts index p
         let committed := (commit deps who contentType bytes).run machine w
         MatchedOnce resolved ∧
           (resolve deps who contentType bytes).run machine w =
             (Response.ok (Payload.resolvedRows p.source (resolved.zipIdx.map (rowView hosts))
               absent total (resolveStats resolved)), w) ∧
           (committed.1.status = 409 <-> LeftOver body resolved) ∧
           (committed.1.status = 409 -> committed.2 = w) ∧
           (¬ LeftOver body resolved -> (forall row, row ∈ body.rows ->
             (deps.parseJson (deps.jsonToString row.facts)).isSome) ->
               committed.1.status = 200) ∧
           (committed.1.status = 200 ->
             Imported deps who.tenantId body resolved w.db committed.2.db)) := by
  constructor
  · intro refused haccept
    unfold resolve commit
    rw [haccept]
    exact ⟨rfl, rfl⟩
  · intro p haccept
    rcases accepted_of_accept haccept with ⟨body, hbody, hp⟩
    rcases run_buildIndex deps who.tenantId p.keys p.normalize w with ⟨index, hindex⟩
    let hosts := HostRepo.list who.tenantId w.db
    let resolved := matchRows hosts index p
    let absent := absentHosts hosts
      (HostFactsRepo.hostsWithSource who.tenantId p.source w.db) resolved
    refine ⟨body, index, absent.take maxAbsentShown, absent.length, hbody, hp, hindex,
      matchedOnce_resolveRows _, ?_, ?_⟩
    · unfold resolve
      rw [run_guarded_ok haccept, Program.run_bind, hindex]
      rfl
    · rcases run_commit haccept hindex with ⟨hrefused, hdone⟩
      have hnil := @offending_eq_nil_iff deps body p hp hosts index
      rcases run_commitRows_imported who.tenantId hsha hp hkeys hhashed index with
        ⟨done, w', hrun, hparses, himported⟩
      rw [hrun] at hdone
      by_cases hoffending : (resolved.zipIdx.filter fun r => isOffending r.1) = []
      · have hnone : ¬ LeftOver body resolved := hnil.mp hoffending
        rcases hdone hoffending with ⟨hanswer, hdb⟩
        have hstatus : (commitAnswer p done).status ≠ 409 := by
          rw [status_commitAnswer]
          split
          · decide
          · decide
        simp only
        rw [hanswer, hdb]
        refine ⟨⟨fun h => absurd h hstatus, fun h => absurd h hnone⟩,
          fun h => absurd h hstatus, ?_, ?_⟩
        · intro _ hall
          rw [status_commitAnswer, hparses hall]
          rfl
        · intro hok
          apply himported
          rw [status_commitAnswer] at hok
          split at hok
          · assumption
          · cases hok
      · have hleft : LeftOver body resolved := by
          by_contra hnone
          exact hoffending (hnil.mpr hnone)
        rcases hrefused hoffending with ⟨hstatus, hworld⟩
        refine ⟨⟨fun _ => hleft, fun _ => hstatus⟩, fun _ => hworld,
          fun h => absurd hleft h, ?_⟩
        intro hok
        rw [hstatus] at hok
        cases hok

/-- A file with a row for host `a` and one that is to be skipped. -/
def cmdbFile : String :=
  "\x7b\"name\":\"cmdb\",\"keys\":[\x7b\"kind\":\"host\",\"field\":\"id\"\x7d],\"rows\":[" ++
  "\x7b\"facts\":\x7b\x7d,\"host_id\":\"a\"\x7d," ++
  "\x7b\"facts\":\x7b\x7d,\"host_id\":\"gone\"\x7d],\"skip\":[1],\"prune\":true\x7d"

def cmdbBody : ImportBody :=
  { name := "cmdb", keys := [KeyTarget.host HostField.id],
    normalize := { trim := true, caseInsensitive := true, shortHostname := false },
    collectedAt := none,
    rows := [{ keys := [], facts := Json.object [], hostId := some "a" },
      { keys := [], facts := Json.object [], hostId := some "gone" }],
    skip := [1], prune := true }

/-- Reads the file and its documents, which are empty, and no other text. -/
def cmdbDeps : Deps :=
  { Deps.sample with
    parseJson := fun text => if text = "{}" then some (Json.object []) else none
    jsonToString := fun
      | Json.object [] => "{}"
      | _ => ""
    parseImportBody := fun bytes =>
      if bytes = utf8 cmdbFile then Except.ok cmdbBody else Except.error "" }

/-- Three hosts, the last with a document from an earlier import. -/
def cmdbFleet : World :=
  World.start
    { sampleDb with
      hosts := ["a", "b", "c"].map fun id => newHostRow id 1 0
      hostFacts := [{ tenantId := 1, hostId := "c", source := "import:cmdb",
                      factsHash := cmdbDeps.sha256Hex (utf8 "{}"), factsJson := "{}",
                      collectedAt := none, receivedAt := 0, sizeBytes := 2 }] }
    ∅ 0

def cmdbOperator : AuthedUser := { userId := 1, tenantId := 1, role := Role.admin }

def cmdbPrepared : Prepared :=
  { source := "import:cmdb", keys := [KeyTarget.host HostField.id],
    normalize := cmdbBody.normalize, collectedAt := none,
    rows := ["a", "gone"].map fun id =>
      { keys := [], hostId := some id, hash := cmdbDeps.sha256Hex (utf8 "{}"), json := "{}" },
    skip := [1], prune := true }

theorem import_commit_agrees_pruned :
    let committed := (commit cmdbDeps cmdbOperator (some "application/json")
      (utf8 cmdbFile)).run machine cmdbFleet
    committed.1.status = 200 ∧ forall hostId,
      hostId ∈ HostFactsRepo.hostsWithSource 1 "import:cmdb" committed.2.db <->
        hostId = "a" := by
  intro committed
  have hkeys : FactsKeys cmdbFleet.db := by
    constructor
    · decide +kernel
    · decide +kernel
    · intro r hr
      rw [List.mem_singleton.mp hr]
      exact ⟨newHostRow "c" 1 0, List.mem_map_of_mem (by decide), rfl, rfl⟩
  have hhashed : Hashed cmdbDeps cmdbFleet.db := by
    intro r hr
    rw [List.mem_singleton.mp hr]
  have haccept : accept cmdbDeps cmdbOperator (some "application/json") (utf8 cmdbFile) =
      Except.ok cmdbPrepared := by
    have hoption : (accept cmdbDeps cmdbOperator (some "application/json")
        (utf8 cmdbFile)).toOption = some cmdbPrepared := by decide +kernel
    cases h : accept cmdbDeps cmdbOperator (some "application/json") (utf8 cmdbFile) with
    | error refused =>
        rw [h] at hoption
        cases hoption
    | ok p =>
        rw [h] at hoption
        cases hoption
        rfl
  rcases (@import_commit_agrees cmdbDeps (fun _ _ h => h) cmdbOperator
      (some "application/json") (utf8 cmdbFile) cmdbFleet hkeys hhashed).2 cmdbPrepared
      haccept with
    ⟨body, index, absent, total, hbody, hp, hindex, _, _, _, _, hok, himported⟩
  have hparsed : cmdbDeps.parseImportBody (utf8 cmdbFile) = Except.ok cmdbBody := by
    show (if utf8 cmdbFile = utf8 cmdbFile then Except.ok cmdbBody else Except.error "") = _
    exact if_pos rfl
  rw [hparsed] at hbody
  cases hbody
  have hresolved : matchRows (HostRepo.list 1 cmdbFleet.db) index cmdbPrepared =
      [Resolution.matched 0, Resolution.skipped] := by
    rfl
  have hlist : (HostRepo.list 1 cmdbFleet.db).map Host.id = ["a", "b", "c"] := by
    decide +kernel
  change (¬ LeftOver _ (matchRows (HostRepo.list 1 cmdbFleet.db) index cmdbPrepared) -> _) at hok
  change (_ -> Imported cmdbDeps 1 _ (matchRows (HostRepo.list 1 cmdbFleet.db) index
    cmdbPrepared) _ _) at himported
  rw [hresolved] at hok himported
  have hstatus : committed.1.status = 200 := by
    apply hok
    · intro hleft
      rcases hleft with ⟨i, r, hr, hnone, hnot⟩
      match i with
      | 0 =>
          cases hr
          cases hnone
      | 1 => exact hnot (List.mem_singleton_self 1)
      | i + 2 => cases hr
    · intro row hrow
      have hempty : row.facts = Json.object [] := by
        rcases List.mem_cons.mp hrow with rfl | hrow
        · rfl
        · rw [List.mem_singleton.mp hrow]
      rw [hempty]
      rfl
  refine ⟨hstatus, ?_⟩
  intro hostId
  rw [show "import:cmdb" = importSource cmdbBody.name from by decide, (himported hstatus).holders]
  constructor
  · intro h
    rcases h with ⟨i, k, host, hi, hk, hid⟩ | ⟨h, _⟩
    · match i with
      | 0 =>
          cases hi
          have hfirst := congrArg (fun ids : List String => ids[0]?) hlist
          rw [List.getElem?_map, hk] at hfirst
          rw [← hid]
          exact Option.some.inj hfirst
      | 1 => cases hi
      | i + 2 => cases hi
    · cases h
  · intro h
    have hfirst := congrArg (fun ids : List String => ids[0]?) hlist
    simp only [List.getElem?_map] at hfirst
    rcases Option.map_eq_some_iff.mp hfirst with ⟨host, hk, hid⟩
    exact Or.inl ⟨0, 0, host, rfl, hk, hid.trans h.symm⟩

end Facts
end FleetServer
