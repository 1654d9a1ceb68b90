import FleetServer.Bundles.Upload
import FleetServer.Concurrency.Alone

/-!
# What a composed bundle holds

Compose writes the manifest and the configuration anew and carries the base bundle's
other files over, of which a request with scripts replaces those under `scripts/`.
Each new script is held against the other scripts, and nothing else is.
-/

namespace FleetServer
namespace Bundles

open FleetServer.Core
open Storage
open Server
open Concurrency

variable (deps : Deps)

def scriptPaths (body : ComposeBody) : List String :=
  (body.scripts.getD []).map ScriptFile.path

/-- The files that every compose makes. -/
def generated : List String :=
  ["bundle.toml", "config.json"]

def written (body : ComposeBody) : List String :=
  generated ++ scriptPaths body

def composedEntries (c : Composed) (body : ComposeBody) (base : List (String × Bytes)) :
    Except Response (List (String × Bytes)) := do
  let carried ← withScripts deps (carriedEntries base) body.scripts
  return ("bundle.toml", utf8 (manifestToml c.name c.version c.template)) ::
    ("config.json", utf8 (deps.jsonToStringPretty body.configJson)) :: carried

/-- No path that the request writes clashes with another entry. -/
def ClashFree (body : ComposeBody) (entries : List (String × Bytes)) : Prop :=
  forall p, p ∈ written body -> pathClash p (entries.map Prod.fst) = none

/-- What compose does not look for: a file of the base outside `scripts/` that clashes
with a path the request writes, and two scripts of the base that clash with one another
and are both kept. -/
def Spares (base : List String) (scripts : List String) : Prop :=
  (forall p, p ∈ generated ++ scripts ->
    pathClash p (base.filter fun n => !isScript n) = none) ∧
  forall p, p ∈ scripts -> p ∈ base -> pathClash p (scripts.filter fun q => q ∈ base) = none

/-!
# Paths that clash
-/

/-- Two paths that cannot sit side by side. -/
def Clashes (path other : String) : Prop :=
  other ≠ path ∧
    (toAsciiLowercase other = toAsciiLowercase path ∨
      isBelow (toAsciiLowercase path) (toAsciiLowercase other) = true ∨
      isBelow (toAsciiLowercase other) (toAsciiLowercase path) = true)

section Paths

variable {p q : String} {paths : List String}

theorem pathClash_eq_none :
    pathClash p paths = none <-> forall q, q ∈ paths -> Not (Clashes p q) := by
  unfold pathClash
  rw [List.find?_eq_none]
  apply forall_congr'
  intro q
  apply forall_congr'
  intro _
  apply not_congr
  unfold Clashes
  simp only [Bool.and_eq_true, Bool.or_eq_true, bne_iff_ne, beq_iff_eq, or_assoc]

theorem clashes_comm (h : Clashes p q) : Clashes q p := by
  rcases h with ⟨hne, hsame | hbelow | habove⟩
  · exact ⟨hne.symm, Or.inl hsame.symm⟩
  · exact ⟨hne.symm, Or.inr (Or.inr hbelow)⟩
  · exact ⟨hne.symm, Or.inr (Or.inl habove)⟩

theorem head_of_below {c : Char} (h : isBelow p q = true) (hp : p.toList.head? = some c) :
    q.toList.head? = some c := by
  rcases List.isPrefixOf_iff_prefix.mp h with ⟨rest, hq⟩
  rw [← hq, List.append_assoc, List.head?_append, hp]
  rfl

theorem head_of_clashes {c d : Char} (h : Clashes p q)
    (hp : (toAsciiLowercase p).toList.head? = some c)
    (hq : (toAsciiLowercase q).toList.head? = some d) : c = d := by
  apply Option.some.inj
  rcases h with ⟨_, hsame | hbelow | habove⟩
  · rw [← hp, ← hq, hsame]
  · rw [← hq, head_of_below hbelow hp]
  · rw [← hp, head_of_below habove hq]

theorem head_of_isScript (h : isScript p = true) :
    (toAsciiLowercase p).toList.head? = some 's' := by
  rcases List.isPrefixOf_iff_prefix.mp h with ⟨rest, hp⟩
  unfold toAsciiLowercase
  rw [String.toList_map, ← hp, List.head?_map, List.head?_append]
  rfl

theorem generated_apart (hp : p ∈ generated) (hq : q ∈ generated ∨ isScript q = true) :
    Not (Clashes p q) := by
  intro hclash
  have hhead : forall r, r ∈ generated -> exists c, (c = 'b' ∨ c = 'c') ∧
      (toAsciiLowercase r).toList.head? = some c := by
    intro r hr
    cases hr with
    | head => exact ⟨'b', Or.inl rfl, by decide +kernel⟩
    | tail _ hr =>
        rw [List.mem_singleton.mp hr]
        exact ⟨'c', Or.inr rfl, by decide +kernel⟩
  cases hq with
  | inr hscript =>
      rcases hhead p hp with ⟨c, hc, hhead⟩
      have heq := head_of_clashes hclash hhead (head_of_isScript hscript)
      rcases hc with rfl | rfl
      · exact absurd heq (by decide)
      · exact absurd heq (by decide)
  | inl hq =>
      have happart : pathClash p generated = none := by
        cases hp with
        | head => decide +kernel
        | tail _ hp =>
            rw [List.mem_singleton.mp hp]
            decide +kernel
      exact pathClash_eq_none.mp happart q hq hclash

theorem isScript_of_valid (h : validScriptPath p = true) : isScript p = true := by
  cases hscript : isScript p with
  | true => rfl
  | false =>
      unfold isScript at hscript
      unfold validScriptPath at h
      rw [hscript] at h
      cases h

end Paths

/-!
# The entries
-/

section Entries

variable {c : Composed} {body : ComposeBody} {base entries carried result : List (String × Bytes)}
  {scripts : List ScriptFile} {p q : String}

theorem decodeScripts_paths :
    forall {scripts : List ScriptFile} {seen : List String} {decoded : List (String × Bytes)},
      decodeScripts deps seen scripts = Except.ok decoded ->
        decoded.map Prod.fst = scripts.map ScriptFile.path
  | [], _, _, h => by
      cases h
      rfl
  | script :: rest, seen, decoded, h => by
      unfold decodeScripts at h
      split at h
      · cases h
      · split at h
        · cases h
        · rename_i data _
          cases hrest : decodeScripts deps (script.path :: seen) rest with
          | error refused =>
              rw [hrest] at h
              cases h
          | ok later =>
              rw [hrest] at h
              cases h
              rw [List.map_cons, List.map_cons, decodeScripts_paths hrest]

structure Replaced (carried : List (String × Bytes)) (paths : List String)
    (result : List (String × Bytes)) : Prop where
  names : result.map Prod.fst =
    (carried.filter fun e => !isScript e.1).map Prod.fst ++ paths
  scripts : forall p, p ∈ paths -> isScript p = true
  checked : forall p, p ∈ paths -> p ∉ carried.map Prod.fst ->
    forall q, q ∈ paths -> Not (Clashes p q)

theorem replaced_of_replaceScripts (h : replaceScripts deps carried scripts = Except.ok result) :
    Replaced carried (scripts.map ScriptFile.path) result := by
  unfold replaceScripts at h
  simp only at h
  split at h
  · cases h
  · split at h
    · cases h
    · rename_i hvalid
      split at h
      · cases h
      · rename_i hclash
        cases hdecoded : decodeScripts deps [] scripts with
        | error refused =>
            rw [hdecoded] at h
            cases h
        | ok decoded =>
            rw [hdecoded] at h
            cases h
            have hkept : forall p, p ∈ ((carried.map Prod.fst).filter isScript).dedup <->
                p ∈ carried.map Prod.fst ∧ isScript p = true := by
              intro p
              rw [List.mem_dedup, List.mem_filter]
            have hnew : forall p, p ∈ scripts.map ScriptFile.path ->
                p ∉ ((carried.map Prod.fst).filter isScript).dedup ->
                  p ∈ (scripts.map ScriptFile.path).filter fun p =>
                    !((carried.map Prod.fst).filter isScript).dedup.contains p := by
              intro p hp hnot
              rw [List.mem_filter]
              simp [hp, hnot]
            constructor
            · rw [List.map_append, decodeScripts_paths deps hdecoded]
            · intro p hp
              by_cases hold : p ∈ ((carried.map Prod.fst).filter isScript).dedup
              · exact ((hkept p).mp hold).2
              · have hok := List.find?_eq_none.mp hvalid p (hnew p hp hold)
                apply isScript_of_valid
                simpa using hok
            · intro p hp hnot q hq
              have hold : p ∉ ((carried.map Prod.fst).filter isScript).dedup :=
                fun hold => hnot ((hkept p).mp hold).1
              have hnone := List.findSome?_eq_none_iff.mp hclash p (hnew p hp hold)
              exact pathClash_eq_none.mp (Option.map_eq_none_iff.mp hnone) q hq

/-- Where the names of the archive come from, and what was checked of them. -/
structure Names (body : ComposeBody) (base names : List String) : Prop where
  generated : forall q, q ∈ generated -> q ∈ names
  carried : forall q, q ∈ base -> isScript q = false -> q ∈ Bundles.generated ∨ q ∈ names
  scripts : forall q, q ∈ scriptPaths body -> q ∈ names ∧ isScript q = true
  only : forall q, q ∈ names -> q ∈ Bundles.generated ∨ (q ∈ base ∧ isScript q = false) ∨
    q ∈ scriptPaths body ∨ (scriptPaths body = [] ∧ isScript q = true)
  checked : forall p, p ∈ scriptPaths body -> p ∉ base ->
    forall q, q ∈ scriptPaths body -> Not (Clashes p q)

theorem mem_carriedEntries :
    q ∈ (carriedEntries base).map Prod.fst <-> q ∈ base.map Prod.fst ∧ q ∉ generated := by
  unfold carriedEntries generated
  simp only [List.mem_map, List.mem_filter, Bool.and_eq_true, bne_iff_ne, List.mem_cons,
    List.not_mem_nil, or_false, not_or]
  constructor
  · intro h
    rcases h with ⟨e, ⟨he, hconfig, hmanifest⟩, rfl⟩
    exact ⟨⟨e, he, rfl⟩, hmanifest, hconfig⟩
  · intro h
    rcases h with ⟨⟨e, he, rfl⟩, hmanifest, hconfig⟩
    exact ⟨e, ⟨he, hconfig, hmanifest⟩, rfl⟩

theorem mem_map_filter :
    q ∈ (carried.filter fun e => !isScript e.1).map Prod.fst <->
      q ∈ carried.map Prod.fst ∧ isScript q = false := by
  simp only [List.mem_map, List.mem_filter, Bool.not_eq_true']
  constructor
  · intro h
    rcases h with ⟨e, ⟨he, hscript⟩, rfl⟩
    exact ⟨⟨e, he, rfl⟩, hscript⟩
  · intro h
    rcases h with ⟨⟨e, he, rfl⟩, hscript⟩
    exact ⟨e, ⟨he, hscript⟩, rfl⟩

theorem names_of_composed (h : composedEntries deps c body base = Except.ok entries) :
    Names body (base.map Prod.fst) (entries.map Prod.fst) := by
  unfold composedEntries at h
  cases hresult : withScripts deps (carriedEntries base) body.scripts with
  | error refused =>
      rw [hresult] at h
      cases h
  | ok result =>
      rw [hresult] at h
      cases h
      have hnames : forall q, q ∈ ("bundle.toml" :: "config.json" :: result.map Prod.fst) <->
          q ∈ generated ∨ q ∈ result.map Prod.fst :=
        fun q => List.mem_append (s := generated) (t := result.map Prod.fst)
      cases hscripts : body.scripts with
      | none =>
          rw [hscripts] at hresult
          cases hresult
          have hnone : scriptPaths body = [] := by
            unfold scriptPaths
            rw [hscripts]
            rfl
          constructor
          · exact fun q hq => (hnames q).mpr (Or.inl hq)
          · intro q hbase _
            by_cases hq : q ∈ generated
            · exact Or.inl hq
            · exact Or.inr ((hnames q).mpr (Or.inr (mem_carriedEntries.mpr ⟨hbase, hq⟩)))
          · intro q hq
            rw [hnone] at hq
            cases hq
          · intro q hq
            cases (hnames q).mp hq with
            | inl hq => exact Or.inl hq
            | inr hq =>
                cases hscript : isScript q with
                | false => exact Or.inr (Or.inl ⟨(mem_carriedEntries.mp hq).1, rfl⟩)
                | true => exact Or.inr (Or.inr (Or.inr ⟨hnone, rfl⟩))
          · intro p hp
            rw [hnone] at hp
            cases hp
      | some scripts =>
          have hpaths : scriptPaths body = scripts.map ScriptFile.path := by
            unfold scriptPaths
            rw [hscripts]
            rfl
          rw [hscripts] at hresult
          have hreplaced := replaced_of_replaceScripts deps hresult
          rw [← hpaths] at hreplaced
          have hresults : forall q, q ∈ result.map Prod.fst <->
              (q ∈ (carriedEntries base).map Prod.fst ∧ isScript q = false) ∨
                q ∈ scriptPaths body := by
            intro q
            rw [hreplaced.names, List.mem_append, mem_map_filter]
          constructor
          · exact fun q hq => (hnames q).mpr (Or.inl hq)
          · intro q hbase hscript
            by_cases hq : q ∈ generated
            · exact Or.inl hq
            · have hcarried := mem_carriedEntries.mpr ⟨hbase, hq⟩
              exact Or.inr ((hnames q).mpr (Or.inr ((hresults q).mpr
                (Or.inl ⟨hcarried, hscript⟩))))
          · intro q hq
            exact ⟨(hnames q).mpr (Or.inr ((hresults q).mpr (Or.inr hq))),
              hreplaced.scripts q hq⟩
          · intro q hq
            rcases (hnames q).mp hq with hq | hq
            · exact Or.inl hq
            · rcases (hresults q).mp hq with ⟨hcarried, hscript⟩ | hq
              · exact Or.inr (Or.inl ⟨(mem_carriedEntries.mp hcarried).1, hscript⟩)
              · exact Or.inr (Or.inr (Or.inl hq))
          · intro p hp hnot
            apply hreplaced.checked p hp
            exact fun hcarried => hnot (mem_carriedEntries.mp hcarried).1

/-- The check of the new scripts is enough exactly when the base spares what it leaves
out. -/
theorem clashFree_of_names {base : List String} (h : Names body base (entries.map Prod.fst)) :
    ClashFree body entries <-> Spares base (scriptPaths body) := by
  have hapart : forall p q, p ∈ written body -> q ∈ generated -> Not (Clashes p q) := by
    intro p q hp hq hclash
    cases List.mem_append.mp hp with
    | inl hp => exact generated_apart hp (Or.inl hq) hclash
    | inr hp => exact generated_apart hq (Or.inr (h.scripts p hp).2) (clashes_comm hclash)
  constructor
  · intro hfree
    constructor
    · intro p hp
      apply pathClash_eq_none.mpr
      intro q hq
      rcases List.mem_filter.mp hq with ⟨hbase, hscript⟩
      cases h.carried q hbase (by simpa using hscript) with
      | inl hq => exact hapart p q hp hq
      | inr hq => exact pathClash_eq_none.mp (hfree p hp) q hq
    · intro p hp _
      apply pathClash_eq_none.mpr
      intro q hq
      exact pathClash_eq_none.mp (hfree p (List.mem_append_right _ hp)) q
        (h.scripts q (List.mem_of_mem_filter hq)).1
  · intro hspares p hp
    apply pathClash_eq_none.mpr
    intro q hq
    rcases h.only q hq with hq | ⟨hbase, hscript⟩ | hq | ⟨hnone, hscript⟩
    · exact hapart p q hp hq
    · apply pathClash_eq_none.mp (hspares.1 p hp)
      exact List.mem_filter.mpr ⟨hbase, by rw [hscript]; rfl⟩
    · cases List.mem_append.mp hp with
      | inl hp => exact generated_apart hp (Or.inr (h.scripts q hq).2)
      | inr hp =>
          by_cases hpbase : p ∈ base
          · by_cases hqbase : q ∈ base
            · apply pathClash_eq_none.mp (hspares.2 p hp hpbase)
              exact List.mem_filter.mpr ⟨hq, decide_eq_true hqbase⟩
            · exact fun hclash => h.checked q hq hqbase p hp (clashes_comm hclash)
          · exact h.checked p hp hpbase q hq
    · cases List.mem_append.mp hp with
      | inl hp => exact generated_apart hp (Or.inr hscript)
      | inr hp =>
          rw [hnone] at hp
          cases hp

end Entries

/-!
# Requests that succeed
-/

def BaseRead (tenantId : Int) (events : List (Event machine)) :
    Option String -> List (String × Bytes) -> Prop
  | none, base => base = []
  | some id, base => exists (u : World) (bytes : Bytes),
      (⟨Op.storeGet tenantId id, u⟩ : Event machine) ∈ events ∧
        u.files.lookup (tenantId, id) = some bytes ∧ readZipEntries deps bytes = Except.ok base

structure ComposedFrom (tenantId : Int) (body : ComposeBody) (events : List (Event machine))
    (base entries : List (String × Bytes)) : Prop where
  read : BaseRead deps tenantId events body.baseBundleId base
  made : exists c, checkCompose body = Except.ok c ∧
    composedEntries deps c body base = Except.ok entries
  stored : exists (now : Int) (u : World) (id : String) (bytes : Bytes),
    deps.buildZip (some now) entries = some bytes ∧
      (⟨Op.storePut tenantId id bytes, u⟩ : Event machine) ∈ events

/-- No refusal tells that something was created. -/
def Refuses {alpha : Type} (check : Except Response alpha) : Prop :=
  forall refused, check = Except.error refused -> refused.status ≠ 201

section Refusals

variable {alpha beta : Type}

theorem refuses_ok (x : alpha) : Refuses (Except.ok x) := by
  intro refused h
  cases h

theorem refuses_error {status : Nat} {message : String} (h : status ≠ 201) :
    Refuses (Except.error (Response.error status message) : Except Response alpha) := by
  intro refused heq
  cases heq
  exact h

theorem refuses_ite {c : Prop} [Decidable c] {x y : Except Response alpha} (hx : Refuses x)
    (hy : Refuses y) : Refuses (if c then x else y) := by
  by_cases hc : c
  · rw [if_pos hc]
    exact hx
  · rw [if_neg hc]
    exact hy

theorem refuses_bind {x : Except Response alpha} {f : alpha -> Except Response beta}
    (hx : Refuses x) (hf : forall y, Refuses (f y)) : Refuses (x >>= f) := by
  cases x with
  | ok y => exact hf y
  | error refused =>
      intro refused' h
      cases h
      exact hx refused rfl

theorem refuses_mayChange (who : AuthedUser) : Refuses (mayChange deps who) := by
  unfold mayChange
  apply refuses_ite (refuses_error (by decide))
  unfold refuseIfManaged
  by_cases hmanaged : deps.config.managedTenant = some who.tenantId
  · rw [if_pos hmanaged]
    exact refuses_error (by decide)
  · rw [if_neg hmanaged]
    exact refuses_ok ()

theorem refuses_composeToken (what s : String) : Refuses (composeToken what s) :=
  refuses_ite (refuses_ok _) (refuses_error (by decide))

theorem refuses_checkCompose (body : ComposeBody) : Refuses (checkCompose body) := by
  apply refuses_bind (refuses_composeToken _ _)
  intro name
  apply refuses_bind (refuses_composeToken _ _)
  intro version
  apply refuses_ite (refuses_error (by decide))
  apply refuses_bind (refuses_ite (refuses_error (by decide)) (refuses_ok _))
  intro template
  exact refuses_ok _

theorem refuses_readBase (bytes : Bytes) : Refuses (readBase deps bytes) := by
  unfold readBase
  cases readZipEntries deps bytes with
  | ok entries => exact refuses_ok _
  | error e => exact refuses_error (by decide)

theorem refuses_decodeScripts :
    forall (scripts : List ScriptFile) (seen : List String),
      Refuses (decodeScripts deps seen scripts)
  | [], _ => refuses_ok _
  | script :: rest, seen => by
      unfold decodeScripts
      apply refuses_ite (refuses_error (by decide))
      cases deps.base64Decode script.contentB64 with
      | none => exact refuses_error (by decide)
      | some data =>
          apply refuses_bind (refuses_decodeScripts rest _)
          intro decoded
          exact refuses_ok _

theorem refuses_withScripts (carried : List (String × Bytes))
    (scripts : Option (List ScriptFile)) : Refuses (withScripts deps carried scripts) := by
  cases scripts with
  | none => exact refuses_ok carried
  | some scripts =>
      show Refuses (replaceScripts deps carried scripts)
      unfold replaceScripts
      apply refuses_ite (refuses_error (by decide))
      split
      · exact refuses_error (by decide)
      · split
        · exact refuses_error (by decide)
        · apply refuses_bind (refuses_decodeScripts deps scripts [])
          intro decoded
          exact refuses_ok _

theorem refuses_composedBytes (now : Int) (c : Composed) (config : Json)
    (carried : List (String × Bytes)) : Refuses (composedBytes deps now c config carried) := by
  unfold composedBytes
  split
  · exact refuses_ok _
  · exact refuses_error (by decide)

end Refusals

section Runs

variable {Others : World -> World -> Prop} {alpha : Type} {w v : World}
  {events : List (Event machine)} {a : Response}

theorem among_guarded {check : Except Response alpha} {next : alpha -> Prog Response}
    (h : Among machine Others (guarded check next) w events a v) (hcheck : Refuses check)
    (ha : a.status = 201) :
    exists x, check = Except.ok x ∧ Among machine Others (next x) w events a v := by
  cases hresult : check with
  | ok x =>
      rw [hresult] at h
      exact ⟨x, rfl, h⟩
  | error refused =>
      rw [hresult] at h
      rw [(among_done h).2] at ha
      exact absurd ha (hcheck refused hresult)

theorem among_askOr {q : Query} {failed : Response} {next : q.Answer -> Prog Response}
    (h : Among machine Others (askOr q failed next) w events a v) (hfailed : failed.status ≠ 201)
    (ha : a.status = 201) :
    exists answer u rest, (forall e, e ∈ rest -> e ∈ events) ∧
      Among machine Others (next answer) u rest a v := by
  rcases among_call h with ⟨u, ⟨rest, hevents, hrest⟩ | ⟨r, hr, hrest⟩⟩
  · refine ⟨_, u, rest, ?_, hrest⟩
    rw [hevents]
    exact fun e he => List.mem_cons_of_mem _ he
  · cases hr
    rw [(among_done hrest).2] at ha
    exact absurd ha hfailed

theorem among_executeOr {s : Statement} {failed : Response} {next : s.Answer -> Prog Response}
    (h : Among machine Others (executeOr s failed next) w events a v)
    (hfailed : failed.status ≠ 201) (ha : a.status = 201) :
    exists answer u rest, (forall e, e ∈ rest -> e ∈ events) ∧
      Among machine Others (next answer) u rest a v := by
  rcases among_call h with ⟨u, ⟨rest, hevents, hrest⟩ | ⟨r, hr, hrest⟩⟩
  · have hmem : forall e, e ∈ rest -> e ∈ events := by
      rw [hevents]
      exact fun e he => List.mem_cons_of_mem _ he
    have hnext : Among machine Others (onOk failed next (s.exec u).1) (s.exec u).2 rest a v :=
      hrest
    cases hresult : (s.exec u).1 with
    | ok answer =>
        rw [hresult] at hnext
        exact ⟨answer, _, rest, hmem, hnext⟩
    | error e =>
        rw [hresult] at hnext
        rw [(among_done hnext).2] at ha
        exact absurd ha hfailed
  · cases hr
    rw [(among_done hrest).2] at ha
    exact absurd ha hfailed

theorem not_created {failed : Response} (hfailed : failed.status ≠ 201)
    (h : Among machine Others (Program.done failed) w events a v) : a.status ≠ 201 := by
  rw [(among_done h).2]
  exact hfailed

theorem stored_of_insertAndStore {request : Nat} {tenantId : Int} {b : NewBundle}
    {signature : String} {answer : BundleRow -> Response}
    (h : Among machine Others (insertAndStore deps request tenantId b signature answer)
      w events a v) (ha : a.status = 201) :
    exists u id, (⟨Op.storePut tenantId id b.bytes, u⟩ : Event machine) ∈ events := by
  rcases among_executeOr h (by decide) ha with ⟨row, u, rest, hmem, hrest⟩
  rcases among_call hrest with ⟨u, ⟨later, hevents, _⟩ | ⟨r, hr, hfailed⟩⟩
  · refine ⟨u, row.id, hmem _ ?_⟩
    rw [hevents]
    exact List.mem_cons_self
  · cases hr
    exact absurd ha (not_created (by decide) hfailed)

theorem stored_of_persistBundle {request : Nat} {tenantId : Int} {b : NewBundle}
    {answer : BundleRow -> Response}
    (h : Among machine Others (persistBundle deps request tenantId b answer) w events a v)
    (ha : a.status = 201) :
    exists u id, (⟨Op.storePut tenantId id b.bytes, u⟩ : Event machine) ∈ events := by
  rcases among_askOr h (by decide) ha with ⟨tenant, _, first, hfirst, htenant⟩
  cases tenant with
  | none => exact absurd ha (not_created (by decide) htenant)
  | some tenant =>
      rcases among_askOr htenant (by decide) ha with ⟨n, _, second, hsecond, hcounted⟩
      split at hcounted
      · exact absurd ha (not_created (by simp) hcounted)
      · split at hcounted
        · exact absurd ha (not_created (by simp [Response.error]) hcounted)
        · rcases among_askOr hcounted (by decide) ha with ⟨secrets, _, third, hthird, hsigned⟩
          cases hkey : loadSigningKey deps tenantId secrets with
          | none =>
              simp only [hkey] at hsigned
              exact absurd ha (not_created (by decide) hsigned)
          | some key =>
              simp only [hkey] at hsigned
              rcases stored_of_insertAndStore deps hsigned ha with ⟨u, id, hput⟩
              exact ⟨u, id, hfirst _ (hsecond _ (hthird _ hput))⟩

theorem read_of_withCarried {tenantId : Int} {baseBundleId : Option String} {name : String}
    {next : List (String × Bytes) -> Prog Response}
    (h : Among machine Others (withCarried deps tenantId baseBundleId name next) w events a v)
    (ha : a.status = 201) :
    exists base u rest, BaseRead deps tenantId events baseBundleId base ∧
      (forall e, e ∈ rest -> e ∈ events) ∧
      Among machine Others (next (carriedEntries base)) u rest a v := by
  cases baseBundleId with
  | none => exact ⟨[], w, events, rfl, fun _ he => he, h⟩
  | some id =>
      rcases among_askOr h (by decide) ha with ⟨base, _, first, hfirst, hfound⟩
      cases base with
      | none => exact absurd ha (not_created (by decide) hfound)
      | some base =>
          simp only at hfound
          split at hfound
          · exact absurd ha (not_created (by simp [editedBundleRenamed, Response.error]) hfound)
          · split at hfound
            · exact absurd ha (not_created (by simp [Response.error]) hfound)
            · rcases among_call hfound with ⟨u, ⟨rest, hevents, hrest⟩ | ⟨r, hr, hfailed⟩⟩
              · have hread : machine.exec (Op.storeGet tenantId id) u =
                    exec (Op.storeGet tenantId id) u := rfl
                rw [hread] at hrest
                unfold exec at hrest
                cases hlookup : u.files.lookup (tenantId, id) with
                | none =>
                    simp only [hlookup] at hrest
                    exact absurd ha (not_created (by decide) hrest)
                | some bytes =>
                    simp only [hlookup] at hrest
                    rcases among_guarded hrest (refuses_readBase deps bytes) ha with
                      ⟨carried, hcarried, hnext⟩
                    unfold readBase at hcarried
                    cases hentries : readZipEntries deps bytes with
                    | error e =>
                        rw [hentries] at hcarried
                        cases hcarried
                    | ok base =>
                        rw [hentries] at hcarried
                        cases hcarried
                        refine ⟨base, u, rest, ⟨u, bytes, hfirst _ ?_, hlookup, hentries⟩,
                          fun e he => hfirst e ?_, hnext⟩
                        · rw [hevents]
                          exact List.mem_cons_self
                        · rw [hevents]
                          exact List.mem_cons_of_mem _ he
              · cases hr
                exact absurd ha (not_created (by decide) hfailed)

theorem composed_of_created {request : Nat} {who : AuthedUser} {body : ComposeBody}
    (h : Among machine Others (compose deps request who body) w events a v)
    (ha : a.status = 201) :
    exists base entries, ComposedFrom deps who.tenantId body events base entries := by
  rcases among_guarded h (refuses_mayChange deps who) ha with ⟨_, _, hallowed⟩
  rcases among_guarded hallowed (refuses_checkCompose body) ha with ⟨c, hc, hchecked⟩
  rcases read_of_withCarried deps hchecked ha with ⟨base, _, rest, hbase, hrest, hread⟩
  rcases among_guarded hread (refuses_withScripts deps _ body.scripts) ha with
    ⟨carried, hcarried, hscripts⟩
  rcases among_call hscripts with ⟨u, ⟨later, hlater, hnow⟩ | ⟨r, hr, _⟩⟩
  · rcases among_guarded hnow (refuses_composedBytes deps _ c body.configJson carried) ha with
      ⟨bytes, hbytes, hbuilt⟩
    rcases stored_of_persistBundle deps hbuilt ha with ⟨u', id, hput⟩
    unfold composedBytes buildComposed at hbytes
    split at hbytes
    · rename_i zip hzip
      cases hbytes
      refine ⟨base, _, ⟨hbase, ⟨c, hc, ?_⟩, ⟨_, u', id, bytes, hzip, hrest _ ?_⟩⟩⟩
      · unfold composedEntries
        rw [hcarried]
        rfl
      · rw [hlater]
        exact List.mem_cons_of_mem _ hput
    · cases hbytes
  · cases hr

/-- A request that succeeds made an archive in which nothing clashes with what it wrote
exactly when its base spares the paths that are not checked. -/
theorem composed_clash_free_iff {request : Nat} {who : AuthedUser} {body : ComposeBody}
    (h : Among machine Others (compose deps request who body) w events a v)
    (ha : a.status = 201) :
    (exists base entries, ComposedFrom deps who.tenantId body events base entries) ∧
      forall base entries, ComposedFrom deps who.tenantId body events base entries ->
        (ClashFree body entries <-> Spares (base.map Prod.fst) (scriptPaths body)) := by
  constructor
  · exact composed_of_created deps h ha
  · intro base entries hfrom
    rcases hfrom.made with ⟨c, _, hentries⟩
    exact clashFree_of_names (names_of_composed deps hentries)

end Runs

/-!
# Over a bundle of one file
-/

def holdingFile (name : String) : Deps :=
  { Deps.sample with
    parseOverrides := fun _ =>
      some { maxHosts := none, minPollIntervalSecs := none, perHostRequestsPerMinute := none,
             maxBundleMb := none, maxBundles := some 2 }
    readZip := fun _ =>
      Except.ok [{ isDir := false, rawName := name, enclosedName := some [name], data := [] }]
    buildZip := fun _ _ => some [80, 75, 3, 4]
    base64Decode := fun text => if text = "" then some [] else none }

def oneFileBundle : World :=
  World.start
    { sampleDb with
      bundles := [{ id := "b1", tenantId := 1, name := "base", version := "1", sha256 := "",
                    sizeBytes := 4, signature := "", uploadedAt := 0,
                    format := EncBundle.formatPlain, keyFingerprint := none }] }
    ((∅ : KeyedMap.Map (Int × String) Bytes).insert (1, "b1") [80, 75, 3, 4]) 0

def composer : AuthedUser :=
  { userId := 1, tenantId := 1, role := Role.owner }

def nextVersion : ComposeBody :=
  { name := "base", version := "2", configJson := Json.object [], baseBundleId := some "b1",
    template := none, scripts := some [{ path := "scripts/run.sh", contentB64 := "" }] }

/-- What the run of `nextVersion` alone made. -/
theorem made_nextVersion {name : String}
    (hname : readZipEntries (holdingFile name) [] = Except.ok [(name, [])])
    (hcreated : ((compose (holdingFile name) 0 composer nextVersion).run machine
      oneFileBundle).1.status = 201) :
    exists events a v entries,
      Alone machine (compose (holdingFile name) 0 composer nextVersion) oneFileBundle events a v ∧
        a.status = 201 ∧
        ComposedFrom (holdingFile name) 1 nextVersion events [(name, [])] entries := by
  rcases alone_run machine (compose (holdingFile name) 0 composer nextVersion) oneFileBundle with
    ⟨events, hrun⟩
  have hamong : Among machine (fun _ _ => False)
      (compose (holdingFile name) 0 composer nextVersion) oneFileBundle events _ _ :=
    among_of_alone hrun
  rcases composed_of_created (holdingFile name) hamong hcreated with ⟨base, entries, hfrom⟩
  have hbase : base = [(name, [])] := by
    rcases hfrom.read with ⟨u, bytes, _, _, hread⟩
    have hsame : readZipEntries (holdingFile name) [] = Except.ok base := hread
    rw [hname] at hsame
    exact (Except.ok.inj hsame).symm
  rw [hbase] at hfrom
  exact ⟨events, _, _, entries, hrun, hcreated, hfrom⟩

/-- Over a bundle with a file of its own, nothing clashes. -/
theorem composed_clash_free_iff_readme :
    exists events entries,
      ComposedFrom (holdingFile "readme.txt") 1 nextVersion events [("readme.txt", [])] entries ∧
        ClashFree nextVersion entries := by
  rcases @made_nextVersion "readme.txt" rfl (by decide +kernel) with
    ⟨events, a, v, entries, hrun, hcreated, hfrom⟩
  have hamong : Among machine (fun _ _ => False)
      (compose (holdingFile "readme.txt") 0 composer nextVersion) oneFileBundle events a v :=
    among_of_alone hrun
  have hiff := composed_clash_free_iff (holdingFile "readme.txt") hamong hcreated
  refine ⟨events, entries, hfrom, (hiff.2 _ _ hfrom).mpr ⟨?_, ?_⟩⟩
  · decide +kernel
  · decide +kernel

/-- Over a bundle that has `Config.json`, the new `config.json` clashes with it. -/
theorem config_beside_its_twin :
    Not (forall (deps : Deps) (request : Nat) (who : AuthedUser) (body : ComposeBody)
      (w v : World) (events : List (Event machine)) (a : Response)
      (base entries : List (String × Bytes)),
        Alone machine (compose deps request who body) w events a v -> a.status = 201 ->
          ComposedFrom deps who.tenantId body events base entries ->
            ClashFree body entries) := by
  intro h
  rcases @made_nextVersion "Config.json" rfl (by decide +kernel) with
    ⟨events, a, v, entries, hrun, hcreated, hfrom⟩
  have hfree := h _ _ _ _ _ _ _ _ _ _ hrun hcreated hfrom
  rcases hfrom.made with ⟨c, _, hentries⟩
  have hspares := (clashFree_of_names (names_of_composed _ hentries)).mp hfree
  have hnone := hspares.1 "config.json" (by decide)
  exact absurd hnone (by decide +kernel)

end Bundles
end FleetServer
