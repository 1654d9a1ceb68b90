import FleetServer.Concurrency.Trace
import FleetServer.Facts.Documents
import FleetServer.Storage.Changes

/-!
# The history is a chain

Documents are stored and removed by any number of callers at once.  Each of them
diffs against a document it read earlier; the compare-and-set on its hash makes
it the document that is replaced.
-/

namespace FleetServer
namespace Facts

open FleetServer.Core
open Storage
open Server
open Concurrency

variable {deps : Deps}
variable {log : List Transition} {w : World}

/-!
# Storing and removing
-/

inductive StoreCall where
  | store (tenantId : Int) (hostId source json : String) (collectedAt : Option String)
  | remove (tenantId : Int) (hostId source : String) (bump : Bool)

inductive StoreAnswer where
  | stored (outcome : Except StoreFailure ReplaceOutcome)
  | removed (outcome : Except StoreFailure Bool)

def documentHash (deps : Deps) (json : String) : String :=
  deps.sha256Hex (utf8 json)

def storeProgram (deps : Deps) : StoreCall -> Prog StoreAnswer
  | StoreCall.store tenantId hostId source json collectedAt => do
      let outcome ← store deps tenantId hostId source (documentHash deps json) json collectedAt
      return StoreAnswer.stored outcome
  | StoreCall.remove tenantId hostId source bump => do
      let outcome ← remove tenantId hostId source bump
      return StoreAnswer.removed outcome

@[reducible] def storing (deps : Deps) : Service Op.Res where
  machine := machine
  Request := StoreCall
  Response := StoreAnswer
  program := fun _ call => storeProgram deps call
  Env := Tick
  disturb := Tick.on

/-!
# Transitions
-/

/-- A document was stored in place of another one, or of none. -/
structure Transition where
  before : Option String
  after : String

def documentOf (tenantId : Int) (hostId source : String) (db : Db) : Option String :=
  (HostFactsRepo.get tenantId hostId source db).map StoredFacts.factsJson

/-- Write down a transition; a removal starts over. -/
def followed (before after : Option String) (log : List Transition) : List Transition :=
  match after with
  | none => []
  | some json => if before = some json then log else log ++ [{ before := before, after := json }]

@[reducible] def transitions (deps : Deps) (tenantId : Int) (hostId source : String) :
    Observer (storing deps) (List Transition) where
  onCall := fun op w log =>
    followed (documentOf tenantId hostId source w.db)
      (documentOf tenantId hostId source (exec op w).2.db) log
  onEnv := fun _ _ log => log

def Linked : Option String -> List Transition -> Option String -> Prop
  | start, [], stop => stop = start
  | start, t :: rest, stop => t.before = start ∧ Linked (some t.after) rest stop

def Transition.recorded (deps : Deps) (t : Transition) : Option HistoryEntry :=
  (deps.parseJson t.after).bind fun document =>
    historyEntryOf deps.parseJson t.before document

/-- The row a transition leaves in the history. -/
def Transition.entry (deps : Deps) (t : Transition) : Option (String × Option String) :=
  (t.recorded deps).map fun e => (documentHash deps t.after, deps.historyToString e)

structure HistoryChain (deps : Deps) (tenantId : Int) (hostId source : String)
    (log : List Transition) (db : Db) : Prop where
  linked : Linked none log (documentOf tenantId hostId source db)
  parsed : forall t, t ∈ log -> (deps.parseJson t.after).isSome = true
  entries : (HostFactsRepo.changes tenantId hostId source db).map
      (fun r => (r.factsHash, some r.changesJson)) =
    (log.filterMap (Transition.entry deps)).rtake keepHistory.toNat

/-!
## Chains
-/

theorem linked_append {start stop : Option String} {t : Transition} (h : Linked start log stop)
    (ht : t.before = stop) :
    Linked start (log ++ [t]) (some t.after) := by
  induction log generalizing start with
  | nil =>
      have hstop : stop = start := h
      exact ⟨ht.trans hstop, rfl⟩
  | cons first rest ih => exact ⟨h.1, ih h.2⟩

theorem linked_none {start : String} :
    ¬ Linked (some start) log none := by
  induction log generalizing start with
  | nil =>
      intro h
      cases h
  | cons first rest ih => exact fun h => ih h.2

theorem log_eq_nil (h : Linked none log none) : log = [] := by
  cases log with
  | nil => rfl
  | cons first rest => exact absurd h.2 linked_none

theorem followed_self {document : Option String} (h : Linked none log document) :
    followed document document log = log := by
  cases document with
  | none => exact (log_eq_nil h).symm
  | some json => exact if_pos rfl

/-!
# What callers write
-/

structure DiffedFrom (deps : Deps) (doc : NewFacts) (keep : Int) : Prop where
  keep : keep = keepHistory
  hash : doc.factsHash = documentHash deps doc.factsJson
  diffed : exists previous document,
    doc.expectedPrevious = Option.map (documentHash deps) previous ∧
      deps.parseJson doc.factsJson = some document ∧
      doc.history = deps.historyEntry previous document

variable {tenantId : Int} {hostId source : String}

/-- The calls of storing and removing. -/
def Diffs (deps : Deps) (tenantId : Int) (hostId source : String) : Op -> Prop
  | Op.query _ => True
  | Op.statement (Statement.replaceFacts t h doc keep) =>
      tenantId = t ∧ hostId = h ∧ source = doc.source -> DiffedFrom deps doc keep
  | Op.statement (Statement.deleteFacts _ _ _) => True
  | Op.invalidateHost _ => True
  | Op.bumpCatalog _ _ => True
  | _ => False

def ReadHashed (deps : Deps) (tenantId : Int) (hostId source : String) :
    (op : Op) -> op.Res -> Prop
  | Op.query (Query.facts t h s), answer =>
      tenantId = t ∧ hostId = h ∧ source = s ->
        forall f, answer = Except.ok (some f) -> f.factsHash = documentHash deps f.factsJson
  | _, _ => True

theorem usesGiven_storeRounds (t : Int) (h s json : String) (collectedAt : Option String)
    (rounds : Nat) :
    Program.UsesGiven (ReadHashed deps tenantId hostId source)
      (Diffs deps tenantId hostId source)
      (storeRounds deps t h s (documentHash deps json) json collectedAt rounds) := by
  induction rounds with
  | zero => trivial
  | succ rounds ih =>
      refine ⟨trivial, fun answer hanswer => ?_⟩
      cases answer with
      | error e => trivial
      | ok previous =>
          unfold onOk
          simp only
          split
          · trivial
          · split
            · trivial
            · rename_i document hparse
              constructor
              · intro hkey
                constructor
                · rfl
                · rfl
                · refine ⟨previous.map StoredFacts.factsJson, document, ?_, hparse, rfl⟩
                  cases previous with
                  | none => rfl
                  | some f => exact congrArg some (hanswer hkey f rfl)
              · intro outcome _
                cases outcome with
                | error e => trivial
                | ok outcome =>
                    cases outcome with
                    | stored => exact ⟨trivial, fun _ _ => ⟨trivial, fun _ _ => trivial⟩⟩
                    | unchanged => trivial
                    | conflict => exact ih
                    | noHost => trivial

theorem usesGiven_storeProgram (call : StoreCall) :
    Program.UsesGiven (ReadHashed deps tenantId hostId source)
      (Diffs deps tenantId hostId source) (storeProgram deps call) := by
  cases call with
  | store t h s json collectedAt =>
      exact Program.usesGiven_bind (usesGiven_storeRounds t h s json collectedAt storeAttempts)
        (Program.endsGiven_true _) (fun _ _ => trivial)
  | remove t h s bump =>
      apply Program.usesGiven_of_uses
      refine Program.uses_bind ?_ (fun _ => trivial)
      refine ⟨trivial, fun answer => ?_⟩
      cases answer with
      | error e => trivial
      | ok removed =>
          cases removed with
          | false => trivial
          | true =>
              refine ⟨trivial, fun _ => ?_⟩
              cases bump with
              | false => trivial
              | true => exact ⟨trivial, fun _ => trivial⟩

/-!
# What calls leave
-/

structure Chained (deps : Deps) (tenantId : Int) (hostId source : String)
    (x : World × List Transition) : Prop where
  keys : FactsKeys x.1.db
  hashed : forall f, HostFactsRepo.get tenantId hostId source x.1.db = some f ->
    f.factsHash = documentHash deps f.factsJson
  chain : HistoryChain deps tenantId hostId source x.2 x.1.db

theorem chained_same {w' : World} (hkeys : FactsKeys w'.db)
    (hget : HostFactsRepo.get tenantId hostId source w'.db =
      HostFactsRepo.get tenantId hostId source w.db)
    (hchanges : HostFactsRepo.changes tenantId hostId source w'.db =
      HostFactsRepo.changes tenantId hostId source w.db)
    (h : Chained deps tenantId hostId source (w, log)) :
    Chained deps tenantId hostId source
      (w', followed (documentOf tenantId hostId source w.db)
        (documentOf tenantId hostId source w'.db) log) := by
  have hdocument : documentOf tenantId hostId source w'.db =
      documentOf tenantId hostId source w.db := by
    unfold documentOf
    rw [hget]
  have hlog : followed (documentOf tenantId hostId source w.db)
      (documentOf tenantId hostId source w'.db) log = log := by
    rw [hdocument]
    exact followed_self h.chain.linked
  rw [hlog]
  constructor
  · exact hkeys
  · intro f hf
    rw [show (w', log).1 = w' from rfl, hget] at hf
    exact h.hashed f hf
  · constructor
    · show Linked none log (documentOf tenantId hostId source w'.db)
      rw [hdocument]
      exact h.chain.linked
    · exact h.chain.parsed
    · show (HostFactsRepo.changes tenantId hostId source w'.db).map _ = _
      rw [hchanges]
      exact h.chain.entries

theorem entry_of_diffed (hserialize : forall e, (deps.historyToString e).isSome = true)
    {doc : NewFacts} {document : Json} {previous : Option String}
    (hparse : deps.parseJson doc.factsJson = some document)
    (hhistory : doc.history = deps.historyEntry previous document) :
    Transition.entry deps { before := previous, after := doc.factsJson } =
      doc.history.map fun text => (documentHash deps doc.factsJson, some text) := by
  unfold Transition.entry Transition.recorded
  rw [hhistory, hparse]
  unfold Deps.historyEntry
  show Option.map _ (historyEntryOf deps.parseJson previous document) = _
  cases hentry : historyEntryOf deps.parseJson previous document with
  | none => rfl
  | some e =>
      rcases Option.isSome_iff_exists.mp (hserialize e) with ⟨text, htext⟩
      show some (documentHash deps doc.factsJson, deps.historyToString e) =
        Option.map _ (deps.historyToString e)
      rw [htext]
      rfl

theorem chained_stored {doc : NewFacts} {keep : Int}
    (hsha : forall a b, deps.sha256 a = deps.sha256 b -> a = b)
    (hserialize : forall e, (deps.historyToString e).isSome = true) (hsource : doc.source = source)
    (hdiffed : DiffedFrom deps doc keep) (hhost : w.db.hosts.any (isHost tenantId hostId) = true)
    (hnew : HostFactsRepo.hashOf tenantId hostId doc.source w.db ≠ some doc.factsHash)
    (hexpected : HostFactsRepo.hashOf tenantId hostId doc.source w.db = doc.expectedPrevious)
    (h : Chained deps tenantId hostId source (w, log)) :
    Chained deps tenantId hostId source
      ({ w with db := HostFactsRepo.storeRows tenantId hostId doc keep w.now w.db },
        followed (documentOf tenantId hostId source w.db)
          (documentOf tenantId hostId source
            (HostFactsRepo.storeRows tenantId hostId doc keep w.now w.db)) log) := by
  subst hsource
  rcases hdiffed.diffed with ⟨previous, document, hprevious, hparse, hhistory⟩
  have hget : HostFactsRepo.get tenantId hostId doc.source
      (HostFactsRepo.storeRows tenantId hostId doc keep w.now w.db) =
        some (HostFactsRepo.stored (HostFactsRepo.docRow tenantId hostId doc w.now)) :=
    HostFactsRepo.get_storeRows_self h.keys hhost
  have hafter : documentOf tenantId hostId doc.source
      (HostFactsRepo.storeRows tenantId hostId doc keep w.now w.db) = some doc.factsJson := by
    unfold documentOf
    rw [hget]
    rfl
  have hhash : HostFactsRepo.hashOf tenantId hostId doc.source w.db =
      (documentOf tenantId hostId doc.source w.db).map (documentHash deps) := by
    unfold HostFactsRepo.hashOf documentOf
    cases hfound : HostFactsRepo.get tenantId hostId doc.source w.db with
    | none => rfl
    | some f => exact congrArg some (h.hashed f hfound)
  -- The hash the document is stored against is that of what is there.
  have hbefore : documentOf tenantId hostId doc.source w.db = previous := by
    have hinjective : Function.Injective (documentHash deps) :=
      fun a b hab => deps.sha256Hex_injective hsha hab
    apply Option.map_injective hinjective
    rw [← hhash, hexpected, hprevious]
  have hmoved : documentOf tenantId hostId doc.source w.db ≠ some doc.factsJson := by
    intro hsame
    apply hnew
    rw [hhash, hsame, hdiffed.hash]
    rfl
  let t : Transition :=
    { before := documentOf tenantId hostId doc.source w.db, after := doc.factsJson }
  have hlog : followed (documentOf tenantId hostId doc.source w.db)
      (documentOf tenantId hostId doc.source
        (HostFactsRepo.storeRows tenantId hostId doc keep w.now w.db)) log = log ++ [t] := by
    rw [hafter]
    exact if_neg hmoved
  have hentry : Transition.entry deps t =
      doc.history.map fun text => (documentHash deps doc.factsJson, some text) := by
    show Transition.entry deps { before := documentOf _ _ _ _, after := _ } = _
    rw [hbefore]
    exact entry_of_diffed hserialize hparse hhistory
  rw [hlog]
  constructor
  · exact HostFactsRepo.factsKeys_storeRows h.keys hhost
  · intro f hf
    have hf : HostFactsRepo.get tenantId hostId doc.source
        (HostFactsRepo.storeRows tenantId hostId doc keep w.now w.db) = some f := hf
    rw [hget] at hf
    cases hf
    exact hdiffed.hash
  · constructor
    · show Linked none (log ++ [t]) (documentOf tenantId hostId doc.source _)
      rw [hafter]
      exact linked_append h.chain.linked rfl
    · intro t' ht'
      rcases List.mem_append.mp ht' with ht' | ht'
      · exact h.chain.parsed t' ht'
      · rw [List.mem_singleton.mp ht']
        exact Option.isSome_iff_exists.mpr ⟨document, hparse⟩
    · show (HostFactsRepo.changes tenantId hostId doc.source _).map _ = _
      have hentries : (HostFactsRepo.changes tenantId hostId doc.source w.db).map
          (fun r => (r.factsHash, some r.changesJson)) =
        (log.filterMap (Transition.entry deps)).rtake keepHistory.toNat := h.chain.entries
      rw [HostFactsRepo.changes_storeRows_self rfl, List.filterMap_append]
      cases htext : doc.history with
      | none =>
          have hnone : [t].filterMap (Transition.entry deps) = [] := by
            rw [List.filterMap_cons, hentry, htext]
            rfl
          rw [hnone, List.append_nil]
          exact hentries
      | some text =>
          have hsome : [t].filterMap (Transition.entry deps) =
              [(documentHash deps doc.factsJson, some text)] := by
            rw [List.filterMap_cons, hentry, htext]
            rfl
          rw [hsome, map_rtake, List.map_append, hentries, hdiffed.keep, rtake_rtake_append,
            ← hdiffed.hash]
          rfl

theorem chained_removed {db : Db} (hkeys : FactsKeys db)
    (hget : HostFactsRepo.get tenantId hostId source db = none)
    (hchanges : HostFactsRepo.changes tenantId hostId source db = []) :
    Chained deps tenantId hostId source
      ({ w with db := db }, followed (documentOf tenantId hostId source w.db)
        (documentOf tenantId hostId source db) log) := by
  have hnone : documentOf tenantId hostId source db = none := by
    unfold documentOf
    rw [hget]
    rfl
  rw [hnone]
  constructor
  · exact hkeys
  · intro f hf
    have hf : HostFactsRepo.get tenantId hostId source db = some f := hf
    rw [hget] at hf
    cases hf
  · constructor
    · exact hnone
    · intro t ht
      cases ht
    · show (HostFactsRepo.changes tenantId hostId source db).map _ = _
      rw [hchanges]
      rfl

theorem chained_exec (hsha : forall a b, deps.sha256 a = deps.sha256 b -> a = b)
    (hserialize : forall e, (deps.historyToString e).isSome = true) {op : Op}
    (hop : Diffs deps tenantId hostId source op) (h : Chained deps tenantId hostId source (w, log))
    :
    Chained deps tenantId hostId source
      ((exec op w).2, followed (documentOf tenantId hostId source w.db)
        (documentOf tenantId hostId source (exec op w).2.db) log) := by
  cases op with
  | query q => exact chained_same h.keys rfl rfl h
  | invalidateHost key => exact chained_same h.keys rfl rfl h
  | bumpCatalog t change => exact chained_same h.keys rfl rfl h
  | statement s =>
      have hkeys : FactsKeys (s.exec w).2.db := @factsKeys_exec (Op.statement s) w h.keys
      rcases statement_exec s w with ⟨e, _, hexec⟩ | ⟨answer, db, htx, hexec⟩
      · have hsame : (exec (Op.statement s) w).2 = w := congrArg Prod.snd hexec
        rw [hsame]
        exact chained_same h.keys rfl rfl h
      · have hafter : (exec (Op.statement s) w).2 = { w with db := db } :=
          congrArg Prod.snd hexec
        rw [hexec] at hkeys
        rw [hafter]
        cases s with
        | deleteFacts t k src =>
            have hdeleted := HostFactsRepo.delete_eq_ok htx
            have hchanges := HostFactsRepo.changes_delete htx
            by_cases hkey : tenantId = t ∧ hostId = k ∧ source = src
            · rcases hkey with ⟨rfl, rfl, rfl⟩
              exact chained_removed hkeys hdeleted.2.2.1 hchanges.1
            · exact chained_same hkeys (hdeleted.2.2.2.1 _ _ _ hkey) (hchanges.2 _ _ _ hkey) h
        | replaceFacts t k doc keep =>
            rcases HostFactsRepo.replace_cases htx with ⟨_, hdb, _⟩ | ⟨_, hdb, _⟩ | ⟨_, hdb, _⟩ |
              ⟨_, hdb, hhost, hnew, hexpected⟩
            · rw [hdb]
              exact chained_same h.keys rfl rfl h
            · rw [hdb]
              exact chained_same h.keys rfl rfl h
            · rw [hdb]
              exact chained_same h.keys rfl rfl h
            · by_cases hkey : tenantId = t ∧ hostId = k ∧ source = doc.source
              · have hdiffed := hop hkey
                rcases hkey with ⟨rfl, rfl, hsource⟩
                rw [hdb]
                exact chained_stored hsha hserialize hsource.symm hdiffed hhost hnew hexpected h
              · rw [hdb] at hkeys ⊢
                exact chained_same hkeys
                  (HostFactsRepo.get_storeRows_other h.keys hhost hkey)
                  (HostFactsRepo.changes_storeRows_other hkey) h
        | _ => cases hop
  | _ => cases hop

theorem readHashed_exec (op : Op) {x : World × List Transition}
    (hx : Chained deps tenantId hostId source x) :
    ReadHashed deps tenantId hostId source op (exec op x.1).1 := by
  cases op with
  | query q =>
      cases q with
      | facts t h s =>
          intro hkey f hf
          rcases hkey with ⟨rfl, rfl, rfl⟩
          exact hx.hashed f (Except.ok.inj hf)
      | _ => trivial
  | _ => trivial

theorem readHashed_fault {op : Op} {r : op.Res} (hr : fault op = some r) :
    ReadHashed deps tenantId hostId source op r := by
  cases op with
  | query q =>
      cases hr
      cases q with
      | facts t h s =>
          intro _ f hf
          cases hf
      | _ => trivial
  | _ => trivial

/-!
# Every interleaving
-/

/-- However storing and removing interleave, and whatever calls fail, the history
of a source is the newest entries of its document's transitions. -/
theorem history_chain (hsha : forall a b, deps.sha256 a = deps.sha256 b -> a = b)
    (hserialize : forall e, (deps.historyToString e).isSome = true)
    (tenantId : Int) (hostId source : String) {w : World} (hkeys : FactsKeys w.db)
    (hnone : documentOf tenantId hostId source w.db = none)
    (hchanges : HostFactsRepo.changes tenantId hostId source w.db = [])
    {q : Pool ((storing deps).observed (transitions deps tenantId hostId source))}
    (hrun : Pool.Run (fun _ _ => True) (Pool.init (w, [])) q) :
    HistoryChain deps tenantId hostId source q.world.2 q.world.1.db ∧
      ((HostFactsRepo.changes tenantId hostId source q.world.1.db).length : Int) ≤ keepHistory ∧
      (documentOf tenantId hostId source q.world.1.db = none ->
        HostFactsRepo.changes tenantId hostId source q.world.1.db = []) := by
  have hstart : Chained deps tenantId hostId source (w, []) := by
    constructor
    · exact hkeys
    · intro f hf
      have hf : HostFactsRepo.get tenantId hostId source w.db = some f := hf
      unfold documentOf at hnone
      rw [hf] at hnone
      cases hnone
    · constructor
      · exact hnone
      · intro t ht
        cases ht
      · show (HostFactsRepo.changes tenantId hostId source w.db).map _ = _
        rw [hchanges]
        rfl
  have hend : Pool.Reliant (fun _ => False) (Chained deps tenantId hostId source)
      (ReadHashed deps tenantId hostId source) (Diffs deps tenantId hostId source) q := by
    apply hrun.reliant _ _ _ _ _ (Pool.reliant_init hstart)
    · exact fun _ call _ => usesGiven_storeProgram call
    · exact fun op x hx => readHashed_exec op hx
    · exact fun op r hr => readHashed_fault hr
    · exact fun p i op _ _ hop hx => chained_exec hsha hserialize (hop not_false) hx
    · exact fun tick x hx => ⟨hx.keys, hx.hashed, hx.chain⟩
  have hchain := hend.world.chain
  have hlength := congrArg List.length hchain.entries
  rw [List.length_map] at hlength
  have hbound := length_rtake_le keepHistory.toNat
    (q.world.2.filterMap (Transition.entry deps))
  have hkeep : (keepHistory.toNat : Int) = keepHistory := rfl
  refine ⟨hchain, ?_, ?_⟩
  · rw [hlength]
    omega
  · intro hgone
    have hlinked := hchain.linked
    rw [hgone] at hlinked
    have hentries := hchain.entries
    rw [log_eq_nil hlinked] at hentries
    exact List.map_eq_nil_iff.mp hentries

/-!
# Two callers at once

Both read that there is no document; the second write is refused, and its caller
diffs again.
-/

def taggedDocument : String :=
  "\x7b\"a\":true\x7d"

/-- Reads the two documents, and prints every entry alike. -/
def chainDeps : Deps :=
  { Deps.sample with
    parseJson := fun text =>
      if text = "{}" then some (Json.object [])
      else if text = taggedDocument then some (Json.object [("a", Json.bool true)])
      else none
    historyToString := fun _ => some "entry" }

def oneHost : World :=
  World.start { sampleDb with hosts := [newHostRow "a" 1 0] } ∅ 0

abbrev ChainPool : Type :=
  Pool ((storing chainDeps).observed (transitions chainDeps 1 "a" "agent"))

def storeTwice : List (Choice ((storing chainDeps).observed
    (transitions chainDeps 1 "a" "agent"))) :=
  [Choice.spawn (StoreCall.store 1 "a" "agent" taggedDocument none),
    Choice.spawn (StoreCall.store 1 "a" "agent" "{}" none),
    Choice.exec 0, Choice.exec 1, Choice.exec 0, Choice.exec 1, Choice.exec 1, Choice.exec 1]

theorem history_chain_storeTwice :
    exists q : ChainPool, HistoryChain chainDeps 1 "a" "agent" q.world.2 q.world.1.db ∧
      q.world.2.map Transition.after = [taggedDocument, "{}"] ∧
      (HostFactsRepo.changes 1 "a" "agent" q.world.1.db).length = 2 := by
  let start : ChainPool := Pool.init (oneHost, [])
  let q := start.after storeTwice (by decide +kernel)
  have hkeys : FactsKeys oneHost.db := by
    constructor
    · decide +kernel
    · decide +kernel
    · intro r hr
      cases hr
  have hrun : Pool.Run (fun _ _ => True) start q :=
    Pool.run_after start storeTwice (by decide +kernel)
  have hchain := (history_chain (fun _ _ h => h) (fun _ => rfl) 1 "a" "agent" hkeys rfl rfl
    hrun).1
  have hlog : q.world.2.map Transition.after = [taggedDocument, "{}"] := by
    decide +kernel
  have hlength : (HostFactsRepo.changes 1 "a" "agent" q.world.1.db).length = 2 := by
    decide +kernel
  clear_value q
  exact ⟨q, hchain, hlog, hlength⟩

end Facts
end FleetServer
