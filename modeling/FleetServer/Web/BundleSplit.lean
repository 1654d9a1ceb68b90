import FleetServer.Core.JsonText
import FleetServer.Web.ZipNames

/-!
# An archive in the browser and on the server

Each side names the entries of an archive and then passes over them once.  Where the
names agree the passes do, up to what either makes of the configuration and of the
manifest; where they do not, an entry is lost, moved or refused.
-/

namespace FleetServer
namespace Web

open FleetServer.Core
open Bundles (isScript carriedEntries BundleContents getConfig contentsStep readZipEntries
  readEntries maxZipEntries maxInflatedTotal emptyContents)
open Server (Deps)

abbrev Entries : Type := List (String × Bytes)

/-!
# One pass
-/

/-- A pass fails where one of its steps does, whatever came before. -/
theorem foldlM_error {sigma beta : Type} {f : sigma -> beta -> Except String sigma}
    {Bad : beta -> Prop} (hbad : forall s b, Bad b -> exists e, f s b = Except.error e) :
    forall (bs : List beta) (s : sigma), (exists b, b ∈ bs ∧ Bad b) ->
      exists e, bs.foldlM f s = Except.error e := by
  intro bs
  induction bs with
  | nil =>
      intro s h
      rcases h with ⟨b, hb, _⟩
      cases hb
  | cons b bs ih =>
      intro s h
      rw [List.foldlM_cons]
      cases hstep : f s b with
      | error e => exact ⟨e, rfl⟩
      | ok next =>
          rcases h with ⟨bad, hmem, hbadness⟩
          cases List.mem_cons.mp hmem with
          | inl hhead =>
              rcases hbad s b (hhead ▸ hbadness) with ⟨e, he⟩
              rw [hstep] at he
              cases he
          | inr htail => exact ih next ⟨bad, htail, hbadness⟩

def lastNamed (name : String) (es : Entries) : Option Bytes :=
  ((es.filter fun e => e.1 == name).getLast?).map Prod.snd

def lastGiven {alpha : Type} (name : String) (read : Bytes -> alpha) (start : alpha)
    (es : Entries) : alpha :=
  es.foldl (fun a e => if e.1 = name then read e.2 else a) start

theorem lastGiven_eq {alpha : Type} (name : String) (read : Bytes -> alpha) (start : alpha)
    (es : Entries) : lastGiven name read start es = ((lastNamed name es).map read).getD start := by
  induction es using List.reverseRecOn with
  | nil => rfl
  | append_singleton es e ih =>
      unfold lastGiven lastNamed at ih ⊢
      rw [List.foldl_append, List.filter_append]
      by_cases hname : e.1 = name
      · have hlast : [e].filter (fun e => e.1 == name) = [e] := by
          simp [hname]
        rw [hlast, List.getLast?_append_of_ne_nil _ (List.cons_ne_nil _ _)]
        exact if_pos hname
      · have hlast : [e].filter (fun e => e.1 == name) = [] := by
          simp [hname]
        rw [hlast, List.append_nil, ← ih]
        exact if_neg hname

theorem lastGiven_congr {alpha : Type} {name : String} {read read' : Bytes -> alpha}
    {start : alpha} {es : Entries} :
    lastGiven name read start es = lastGiven name read' start es <->
      forall data, lastNamed name es = some data -> read data = read' data := by
  rw [lastGiven_eq, lastGiven_eq]
  cases hlast : lastNamed name es with
  | none =>
      constructor
      · intro _ data hdata
        cases hdata
      · intro _
        rfl
  | some data =>
      constructor
      · intro hsame other hother
        cases hother
        exact hsame
      · intro h
        exact h data rfl

/-!
# The page's pass
-/

variable (platform : Platform)

def pageName (rawName : String) : Option String :=
  if (entryName rawName).toList.getLast? = some '/' then none else some (entryName rawName)

def pageEntries (files : Entries) : Entries :=
  files.filterMap fun f => (pageName f.1).map fun name => (name, f.2)

/-- The step of the page's pass, once the entry has its name. -/
def openEntry (o : OpenedBundle) (e : String × Bytes) : Except String OpenedBundle :=
  if e.1 = "config.json" then
    match platform.parseJson (platform.decode e.2) with
    | Except.ok v => Except.ok { o with configJson := v }
    | Except.error err => Except.error ("bundle config.json is invalid JSON: " ++ err)
  else if e.1 = "bundle.toml" then
    Except.ok { o with template := templateFromManifest platform e.2 }
  else if isScript e.1 then Except.ok { o with scripts := o.scripts ++ [e] }
  else Except.ok { o with carried := o.carried ++ [e] }

theorem foldlM_openStep (files : Entries) :
    forall o : OpenedBundle,
      files.foldlM (openStep platform) o = (pageEntries files).foldlM (openEntry platform) o := by
  induction files with
  | nil =>
      intro o
      rfl
  | cons f files ih =>
      intro o
      unfold pageEntries at ih ⊢
      rw [List.foldlM_cons, List.filterMap_cons]
      unfold openStep pageName
      dsimp only
      by_cases hdir : (entryName f.1).toList.getLast? = some '/'
      · rw [if_pos hdir, if_pos hdir]
        exact ih o
      · rw [if_neg hdir, if_neg hdir]
        show _ = ((entryName f.1, f.2) :: _).foldlM (openEntry platform) o
        rw [List.foldlM_cons]
        show openEntry platform o (entryName f.1, f.2) >>= _ = _
        congr 1
        funext next
        exact ih next

def pageJson (data : Bytes) : Option Json :=
  (platform.parseJson (platform.decode data)).toOption

/-- Neither the configuration, nor the manifest, nor a script. -/
def isCarried (e : String × Bytes) : Bool :=
  e.1 != "config.json" && e.1 != "bundle.toml" && !isScript e.1

theorem isScript_config : isScript "config.json" = false := by
  decide

theorem isScript_manifest : isScript "bundle.toml" = false := by
  decide

theorem toOption_of_isSome {alpha : Type} {x : Except String alpha}
    (h : x.toOption.isSome = true) : exists v, x = Except.ok v ∧ x.toOption = some v := by
  cases x with
  | error e => cases h
  | ok v => exact ⟨v, rfl, rfl⟩

variable {platform}

theorem openEntry_pass {es : Entries} :
    forall o : OpenedBundle,
      (forall e, e ∈ es -> e.1 = "config.json" -> (pageJson platform e.2).isSome = true) ->
        es.foldlM (openEntry platform) o =
          Except.ok
            { configJson :=
                lastGiven "config.json" (fun data => (pageJson platform data).getD Json.null)
                  o.configJson es
              scripts := o.scripts ++ es.filter fun e => isScript e.1
              template := lastGiven "bundle.toml" (templateFromManifest platform) o.template es
              carried := o.carried ++ es.filter isCarried } := by
  induction es with
  | nil =>
      intro o _
      simp [lastGiven, pure, Except.pure]
  | cons e es ih =>
      intro o h
      have hrest : forall e, e ∈ es -> e.1 = "config.json" ->
          (pageJson platform e.2).isSome = true :=
        fun e he => h e (List.mem_cons_of_mem _ he)
      rw [List.foldlM_cons]
      unfold openEntry
      by_cases hconfig : e.1 = "config.json"
      · rcases toOption_of_isSome (h e List.mem_cons_self hconfig) with ⟨v, hv, hvalue⟩
        have hnot : isScript e.1 = false ∧ isCarried e = false ∧ e.1 ≠ "bundle.toml" := by
          rw [isCarried, hconfig]
          exact ⟨isScript_config, rfl, by decide⟩
        rw [if_pos hconfig, hv]
        show es.foldlM (openEntry platform) _ = _
        rw [ih _ hrest]
        simp [lastGiven, hconfig, hnot, pageJson, hvalue, isScript_config]
      · rw [if_neg hconfig]
        by_cases hmanifest : e.1 = "bundle.toml"
        · have hnot : isCarried e = false := by
            rw [isCarried, hmanifest]
            rfl
          rw [if_pos hmanifest]
          show es.foldlM (openEntry platform) _ = _
          rw [ih _ hrest]
          simp [lastGiven, hmanifest, hnot, isScript_manifest]
        · rw [if_neg hmanifest]
          cases hscript : isScript e.1 with
          | true =>
              have hnot : isCarried e = false := by
                simp [isCarried, hscript]
              show es.foldlM (openEntry platform) _ = _
              rw [ih _ hrest]
              simp [lastGiven, hconfig, hmanifest, hscript, hnot]
          | false =>
              have hcarried : isCarried e = true := by
                simp [isCarried, hconfig, hmanifest, hscript]
              show es.foldlM (openEntry platform) _ = _
              rw [ih _ hrest]
              simp [lastGiven, hconfig, hmanifest, hscript, hcarried]

theorem openEntry_fails {es : Entries} (o : OpenedBundle)
    (h : exists e, e ∈ es ∧ e.1 = "config.json" ∧ pageJson platform e.2 = none) :
    exists err, es.foldlM (openEntry platform) o = Except.error err := by
  apply foldlM_error _ es o h
  intro o e hbad
  unfold openEntry
  rw [if_pos hbad.1]
  cases hparse : platform.parseJson (platform.decode e.2) with
  | error err => exact ⟨_, rfl⟩
  | ok v =>
      have hnone := hbad.2
      rw [pageJson, hparse] at hnone
      cases hnone

/-!
# The server's pass
-/

variable {deps : Deps}

def serverJson (deps : Deps) (data : Bytes) : Option Json :=
  (deps.parseJsonBytes data).toOption

def isListed (e : String × Bytes) : Bool :=
  isScript e.1 && e.1.toList.getLast? != some '/'

theorem contents_pass {es : Entries} :
    forall c : BundleContents,
      (forall e, e ∈ es -> e.1 = "config.json" -> (serverJson deps e.2).isSome = true) ->
        es.foldlM (contentsStep deps) c =
          Except.ok
            { configJson :=
                lastGiven "config.json" (fun data => (serverJson deps data).getD Json.null)
                  c.configJson es
              scripts := c.scripts ++ (es.filter isListed).map Prod.fst
              template := lastGiven "bundle.toml" Bundles.templateFromManifest c.template es } := by
  induction es with
  | nil =>
      intro c _
      simp [lastGiven, pure, Except.pure]
  | cons e es ih =>
      intro c h
      have hrest : forall e, e ∈ es -> e.1 = "config.json" ->
          (serverJson deps e.2).isSome = true :=
        fun e he => h e (List.mem_cons_of_mem _ he)
      rw [List.foldlM_cons]
      unfold contentsStep
      by_cases hmanifest : e.1 = "bundle.toml"
      · have hnot : isListed e = false := by
          rw [isListed, hmanifest]
          rfl
        rw [if_pos hmanifest]
        show es.foldlM (contentsStep deps) _ = _
        rw [ih _ hrest]
        simp [lastGiven, hmanifest, hnot]
      · rw [if_neg hmanifest]
        by_cases hconfig : e.1 = "config.json"
        · rcases toOption_of_isSome (h e List.mem_cons_self hconfig) with ⟨v, hv, hvalue⟩
          have hnot : isListed e = false := by
            rw [isListed, hconfig]
            rfl
          rw [if_pos hconfig, hv]
          show es.foldlM (contentsStep deps) _ = _
          rw [ih _ hrest]
          simp [lastGiven, hconfig, hnot, serverJson, hvalue]
        · rw [if_neg hconfig]
          cases hlisted : isListed e with
          | true =>
              have hyes : (isScript e.1 && e.1.toList.getLast? != some '/') = true := hlisted
              rw [if_pos hyes]
              show es.foldlM (contentsStep deps) _ = _
              rw [ih _ hrest]
              simp [lastGiven, hconfig, hmanifest, hlisted]
          | false =>
              have hnot : ¬ (isScript e.1 && e.1.toList.getLast? != some '/') = true := by
                intro hyes
                rw [isListed, hyes] at hlisted
                cases hlisted
              rw [if_neg hnot]
              show es.foldlM (contentsStep deps) _ = _
              rw [ih _ hrest]
              simp [lastGiven, hconfig, hmanifest, hlisted]

theorem contents_fails {es : Entries} (c : BundleContents)
    (h : exists e, e ∈ es ∧ e.1 = "config.json" ∧ serverJson deps e.2 = none) :
    exists err, es.foldlM (contentsStep deps) c = Except.error err := by
  apply foldlM_error _ es c h
  intro c e hbad
  have hmanifest : e.1 ≠ "bundle.toml" := by
    rw [hbad.1]
    decide
  unfold contentsStep
  rw [if_neg hmanifest, if_pos hbad.1]
  cases hparse : deps.parseJsonBytes e.2 with
  | error err => exact ⟨_, rfl⟩
  | ok v =>
      have hnone := hbad.2
      rw [serverJson, hparse] at hnone
      cases hnone

/-!
# The entries the server reads
-/

variable {lib : ZipNames}

def servedEntries (lib : ZipNames) (files : Entries) : Entries :=
  files.filterMap fun f => ((servedName lib f.1).getD none).map fun name => (name, f.2)

def inflated (es : Entries) : Nat :=
  es.foldr (fun e n => e.2.length + n) 0

theorem readEntry_refused {f : String × Bytes} (h : servedName lib f.1 = none) (budget : Nat) :
    exists err, Bundles.readEntry deps budget (zipEntry lib f) = Except.error err := by
  unfold servedName at h
  unfold Bundles.readEntry zipEntry
  dsimp only
  split at h
  · cases h
  · rename_i hdir
    rw [if_neg hdir, Option.map_eq_none_iff.mp h]
    exact ⟨_, rfl⟩

theorem readEntry_passed {f : String × Bytes} (h : servedName lib f.1 = some none)
    (budget : Nat) : Bundles.readEntry deps budget (zipEntry lib f) = Except.ok (none, budget) := by
  unfold servedName at h
  unfold Bundles.readEntry zipEntry
  dsimp only
  split at h
  · rename_i hdir
    rw [if_pos hdir]
  · rename_i hdir
    rcases Option.map_eq_some_iff.mp h with ⟨components, henclosed, hname⟩
    rw [if_neg hdir, henclosed]
    dsimp only at hname ⊢
    split at hname
    · rename_i hempty
      rw [if_pos hempty]
    · cases hname

theorem readEntry_read {f : String × Bytes} {name : String}
    (h : servedName lib f.1 = some (some name)) {budget : Nat} (hbudget : f.2.length ≤ budget) :
    Bundles.readEntry deps budget (zipEntry lib f) =
      Except.ok (some (name, f.2), budget - f.2.length) := by
  unfold servedName at h
  unfold Bundles.readEntry zipEntry
  dsimp only
  split at h
  · cases h
  · rename_i hdir
    rcases Option.map_eq_some_iff.mp h with ⟨components, henclosed, hname⟩
    rw [if_neg hdir, henclosed]
    dsimp only at hname ⊢
    split at hname
    · cases hname
    · rename_i hempty
      cases hname
      rw [if_neg hempty, if_neg (Nat.not_lt.mpr hbudget)]

theorem readEntries_files {files : Entries} :
    forall budget : Nat, inflated (servedEntries lib files) ≤ budget ->
      (forall f, f ∈ files -> servedName lib f.1 ≠ none) ->
        readEntries deps budget (files.map (zipEntry lib)) =
          Except.ok (servedEntries lib files) := by
  induction files with
  | nil =>
      intro budget _ _
      rfl
  | cons f files ih =>
      intro budget hbudget h
      have hrest : forall f, f ∈ files -> servedName lib f.1 ≠ none :=
        fun f hf => h f (List.mem_cons_of_mem _ hf)
      unfold servedEntries at hbudget ih ⊢
      rw [List.map_cons, readEntries]
      rw [List.filterMap_cons] at hbudget ⊢
      cases hserved : servedName lib f.1 with
      | none => exact absurd hserved (h f List.mem_cons_self)
      | some served =>
          rw [hserved] at hbudget
          cases served with
          | none =>
              rw [readEntry_passed hserved]
              dsimp only [bind, Except.bind]
              rw [ih budget hbudget hrest]
              rfl
          | some name =>
              have hbudget : f.2.length + inflated (files.filterMap fun f =>
                  ((servedName lib f.1).getD none).map fun name => (name, f.2)) ≤ budget :=
                hbudget
              rw [readEntry_read hserved (by omega)]
              dsimp only [bind, Except.bind]
              rw [ih _ (by omega) hrest]
              rfl

theorem readEntries_refused {files : Entries} :
    forall budget : Nat, (exists f, f ∈ files ∧ servedName lib f.1 = none) ->
      exists err, readEntries deps budget (files.map (zipEntry lib)) = Except.error err := by
  induction files with
  | nil =>
      intro budget h
      rcases h with ⟨f, hf, _⟩
      cases hf
  | cons f files ih =>
      intro budget h
      rw [List.map_cons, readEntries]
      cases hentry : Bundles.readEntry deps budget (zipEntry lib f) with
      | error err => exact ⟨err, rfl⟩
      | ok read =>
          rcases h with ⟨g, hg, hnone⟩
          cases List.mem_cons.mp hg with
          | inl hhead =>
              rw [hhead] at hnone
              rcases @readEntry_refused deps lib f hnone budget with ⟨err, herr⟩
              rw [hentry] at herr
              cases herr
          | inr htail =>
              rcases ih read.2 ⟨g, htail, hnone⟩ with ⟨err, herr⟩
              dsimp only [bind, Except.bind]
              rw [herr]
              exact ⟨err, rfl⟩

/-!
# Both sides
-/

/-- Both libraries yield the entries of the archive, which is within the limits. -/
structure Yields (lib : ZipNames) (platform : Platform) (deps : Deps) (bytes : Bytes)
    (files : Entries) : Prop where
  documented : lib.AsDocumented
  page : platform.unzipSync bytes = Except.ok files
  server : deps.readZip bytes = Except.ok (files.map (zipEntry lib))
  count : files.length ≤ maxZipEntries
  size : inflated (servedEntries lib files) ≤ maxInflatedTotal

structure SameSplit (o : OpenedBundle) (view : BundleContents) (entries : Entries) : Prop where
  config : o.configJson = view.configJson
  template : o.template = view.template
  scriptPaths : (o.scripts.map Prod.fst).Perm view.scripts
  scripts : o.scripts.Perm (entries.filter fun e => isScript e.1)
  carried : forall e, e ∈ o.carried <-> e ∈ carriedEntries entries ∧ isScript e.1 = false

structure SplitAlike (platform : Platform) (deps : Deps) (bytes : Bytes) : Prop where
  opened : forall o, readBundleZip platform bytes = Except.ok o ->
    exists entries view, readZipEntries deps bytes = Except.ok entries ∧
      getConfig deps bytes = Except.ok view ∧ SameSplit o view entries
  read : forall view, getConfig deps bytes = Except.ok view ->
    exists o, readBundleZip platform bytes = Except.ok o

/-- What the JSON parsers make of a number by its spelling, in one way of writing it. -/
structure NumberReaders where
  page : String -> String
  server : String -> String
  /-- `serde_json` refuses a number beyond the largest float. -/
  inRange : String -> Bool

/-- `serde_json` stops at 128 levels and refuses half of a surrogate pair. -/
def NumberReaders.serdeTakes (numbers : NumberReaders) (t : JsonText) : Bool :=
  decide (t.depth < 128) && t.paired && t.numbers.all numbers.inRange

def jsonOf (data : Bytes) : Option JsonText :=
  (Deps.fromUtf8 data).bind fun text => JsonText.read text.toList

/-- `TextDecoder` leaves a byte order mark out of UTF-8, and both parsers read JSON. -/
structure NumberReaders.AsDocumented (numbers : NumberReaders) (platform : Platform)
    (deps : Deps) : Prop where
  decode : forall data text, Deps.fromUtf8 data = some text ->
    (platform.decode data).toList = withoutMark text.toList
  parseJson : forall text, (platform.parseJson text).toOption =
    (JsonText.read text.toList).map fun t => t.value.withNumbers numbers.page
  parseJsonBytes : forall data, (deps.parseJsonBytes data).toOption =
    ((jsonOf data).filter numbers.serdeTakes).map fun t => t.value.withNumbers numbers.server

/-- The text the page has of the bytes is JSON. -/
def PageTakes (platform : Platform) (data : Bytes) : Prop :=
  (JsonText.read (platform.decode data).toList).isSome = true

/-- The bytes are the UTF-8 of JSON within the limits of `serde_json`. -/
def ServerTakes (numbers : NumberReaders) (data : Bytes) : Prop :=
  exists t, jsonOf data = some t ∧ numbers.serdeTakes t = true

def PageRefuses (platform : Platform) (files : Entries) : Prop :=
  exists f, f ∈ files ∧ entryName f.1 = "config.json" ∧ Not (PageTakes platform f.2)

/-- The server finds a name that leads out, or a configuration it does not take. -/
def ServerRefuses (lib : ZipNames) (numbers : NumberReaders) (files : Entries) : Prop :=
  (exists f, f ∈ files ∧ servedName lib f.1 = none) ∨
    exists f, f ∈ files ∧ servedName lib f.1 = some (some "config.json") ∧
      Not (ServerTakes numbers f.2)

/-- No number of the value is another one to the other parser. -/
def NumbersAlike (numbers : NumberReaders) (data : Bytes) : Prop :=
  forall t, jsonOf data = some t -> forall n, n ∈ t.value.numbers ->
    numbers.page n = numbers.server n

/-- The settings of the text are alike; bytes that are no UTF-8 set nothing. -/
def ManifestAlike (platform : Platform) (data : Bytes) : Prop :=
  match Deps.fromUtf8 data with
  | some text => Manifest.SetAlike text.toList
  | none => forall s : Manifest.Setting (platform.decode data).toList, Not s.OnPage

/-- Every name is the same on both sides, every configuration is JSON that the server
takes too, and the last configuration and the last manifest are written as both read
them. -/
structure OpensAlike (lib : ZipNames) (platform : Platform) (numbers : NumberReaders)
    (files : Entries) : Prop where
  names : forall f, f ∈ files -> NameAlike lib f.1
  configs : forall f, f ∈ files -> entryName f.1 = "config.json" -> ServerTakes numbers f.2
  config : forall data, lastNamed "config.json" (pageEntries files) = some data ->
    NumbersAlike numbers data
  manifest : forall data, lastNamed "bundle.toml" (pageEntries files) = some data ->
    ManifestAlike platform data

variable {bytes data : Bytes} {files : Entries} {numbers : NumberReaders}

/-!
# Configurations and manifests by their text
-/

theorem pageJson_eq_none (hdoc : numbers.AsDocumented platform deps) :
    pageJson platform data = none <-> Not (PageTakes platform data) := by
  unfold pageJson PageTakes
  rw [hdoc.parseJson, Option.map_eq_none_iff, Option.isSome_iff_ne_none, not_not]

theorem serverJson_eq_none (hdoc : numbers.AsDocumented platform deps) :
    serverJson deps data = none <-> Not (ServerTakes numbers data) := by
  unfold serverJson ServerTakes
  rw [hdoc.parseJsonBytes, Option.map_eq_none_iff, Option.filter_eq_none_iff]
  constructor
  · intro h htakes
    rcases htakes with ⟨t, ht, htakes⟩
    exact h t ht htakes
  · intro h t ht htakes
    exact h ⟨t, ht, htakes⟩

theorem read_decoded (hdoc : numbers.AsDocumented platform deps) {t : JsonText}
    (h : jsonOf data = some t) : JsonText.read (platform.decode data).toList = some t := by
  rcases Option.bind_eq_some_iff.mp h with ⟨text, htext, hread⟩
  rw [hdoc.decode data text htext]
  unfold withoutMark
  split
  · rename_i rest hmark
    rw [hmark, JsonText.read_mark] at hread
    cases hread
  · exact hread

theorem pageTakes_of_serverTakes (hdoc : numbers.AsDocumented platform deps)
    (h : ServerTakes numbers data) : PageTakes platform data := by
  rcases h with ⟨t, ht, _⟩
  unfold PageTakes
  rw [read_decoded hdoc ht]
  rfl

theorem json_eq_iff (hdoc : numbers.AsDocumented platform deps)
    (h : ServerTakes numbers data) :
    pageJson platform data = serverJson deps data <-> NumbersAlike numbers data := by
  rcases h with ⟨t, ht, htakes⟩
  unfold pageJson serverJson NumbersAlike
  rw [hdoc.parseJson, hdoc.parseJsonBytes, read_decoded hdoc ht, ht,
    Option.filter_some, if_pos htakes, Option.map_some, Option.map_some, Option.some.injEq,
    Json.withNumbers_eq_iff]
  constructor
  · intro hsame t' ht'
    cases ht'
    exact hsame
  · intro hsame
    exact hsame t rfl

theorem manifest_eq_iff (hdoc : numbers.AsDocumented platform deps) :
    templateFromManifest platform data = Bundles.templateFromManifest data <->
      ManifestAlike platform data := by
  have hpage := Manifest.finds_page (platform.decode data).toList
  unfold templateFromManifest Bundles.templateFromManifest ManifestAlike
  cases htext : Deps.fromUtf8 data with
  | none =>
      constructor
      · intro hsame
        exact hpage.nothing hsame
      · intro hnone
        cases hfound : searchTemplate true (platform.decode data).toList with
        | none => rfl
        | some token =>
            rw [hfound] at hpage
            rcases hpage.token _ rfl with ⟨s, hs, _⟩
            exact absurd hs.1 (hnone s)
  | some text =>
      rw [hdoc.decode data text htext, Manifest.search_withoutMark]
      exact Manifest.found_iff_setAlike (Manifest.finds_page _) (Manifest.finds_server _)

theorem mem_pageEntries {name : String} {data : Bytes} :
    (name, data) ∈ pageEntries files <->
      exists f, f ∈ files ∧ pageName f.1 = some name ∧ f.2 = data := by
  unfold pageEntries
  rw [List.mem_filterMap]
  constructor
  · intro h
    rcases h with ⟨f, hf, hname⟩
    rcases Option.map_eq_some_iff.mp hname with ⟨name', hname', heq⟩
    cases heq
    exact ⟨f, hf, hname', rfl⟩
  · intro h
    rcases h with ⟨f, hf, hname, hdata⟩
    exact ⟨f, hf, by rw [hname, ← hdata]; rfl⟩

theorem mem_servedEntries {name : String} {data : Bytes} :
    (name, data) ∈ servedEntries lib files <->
      exists f, f ∈ files ∧ servedName lib f.1 = some (some name) ∧ f.2 = data := by
  unfold servedEntries
  rw [List.mem_filterMap]
  constructor
  · intro h
    rcases h with ⟨f, hf, hname⟩
    rcases Option.map_eq_some_iff.mp hname with ⟨name', hname', heq⟩
    cases heq
    cases hserved : servedName lib f.1 with
    | none =>
        rw [hserved] at hname'
        cases hname'
    | some served =>
        rw [hserved] at hname'
        exact ⟨f, hf, hserved.trans (congrArg some hname'), rfl⟩
  · intro h
    rcases h with ⟨f, hf, hname, hdata⟩
    exact ⟨f, hf, by rw [hname, ← hdata]; rfl⟩

theorem pageName_of_config {rawName : String} (h : entryName rawName = "config.json") :
    pageName rawName = some "config.json" := by
  unfold pageName
  rw [h]
  exact if_neg (by decide)

theorem entryName_of_pageName {rawName name : String} (h : pageName rawName = some name) :
    entryName rawName = name := by
  unfold pageName at h
  split at h
  · cases h
  · cases h
    rfl

/-!
# What each side gives
-/

def pageView (platform : Platform) (files : Entries) : OpenedBundle where
  configJson :=
    lastGiven "config.json" (fun data => (pageJson platform data).getD Json.null)
      (Json.object []) (pageEntries files)
  scripts :=
    ((pageEntries files).filter fun e => isScript e.1).insertionSort fun a b =>
      platform.localeLe a.1 b.1
  template := lastGiven "bundle.toml" (templateFromManifest platform) none (pageEntries files)
  carried := (pageEntries files).filter isCarried

def serverView (deps : Deps) (entries : Entries) : BundleContents where
  configJson :=
    lastGiven "config.json" (fun data => (serverJson deps data).getD Json.null)
      (Json.object []) entries
  scripts := ((entries.filter isListed).map Prod.fst).insertionSort fun a b => a ≤ b
  template := lastGiven "bundle.toml" Bundles.templateFromManifest none entries

theorem page_accepts (hyields : Yields lib platform deps bytes files)
    (hdoc : numbers.AsDocumented platform deps) (h : Not (PageRefuses platform files)) :
    readBundleZip platform bytes = Except.ok (pageView platform files) := by
  have hjson : forall e, e ∈ pageEntries files -> e.1 = "config.json" ->
      (pageJson platform e.2).isSome = true := by
    intro e he hname
    rcases mem_pageEntries.mp he with ⟨f, hf, hpage, hdata⟩
    rw [Option.isSome_iff_ne_none]
    intro hnone
    apply h
    refine ⟨f, hf, ?_, ?_⟩
    · rw [entryName_of_pageName hpage, hname]
    · rw [← pageJson_eq_none hdoc, hdata]
      exact hnone
  unfold readBundleZip
  rw [hyields.page]
  dsimp only
  rw [foldlM_openStep, openEntry_pass _ hjson]
  rfl

theorem page_refuses (hyields : Yields lib platform deps bytes files)
    (hdoc : numbers.AsDocumented platform deps) (h : PageRefuses platform files) :
    exists err, readBundleZip platform bytes = Except.error err := by
  rcases h with ⟨f, hf, hname, hnone⟩
  have hentry : ("config.json", f.2) ∈ pageEntries files :=
    mem_pageEntries.mpr ⟨f, hf, pageName_of_config hname, rfl⟩
  rcases openEntry_fails nothingOpened ⟨_, hentry, rfl, (pageJson_eq_none hdoc).mpr hnone⟩ with
    ⟨err, herr⟩
  unfold readBundleZip
  rw [hyields.page]
  dsimp only
  rw [foldlM_openStep, herr]
  exact ⟨err, rfl⟩

theorem server_reads (hyields : Yields lib platform deps bytes files) :
    readZipEntries deps bytes = readEntries deps maxInflatedTotal (files.map (zipEntry lib)) := by
  have hcount : ¬ maxZipEntries < (files.map (zipEntry lib)).length := by
    rw [List.length_map]
    exact Nat.not_lt.mpr hyields.count
  unfold readZipEntries
  rw [hyields.server]
  dsimp only [bind, Except.bind]
  rw [if_neg hcount]

theorem server_accepts (hyields : Yields lib platform deps bytes files)
    (hdoc : numbers.AsDocumented platform deps) (h : Not (ServerRefuses lib numbers files)) :
    readZipEntries deps bytes = Except.ok (servedEntries lib files) ∧
      getConfig deps bytes = Except.ok (serverView deps (servedEntries lib files)) := by
  have hread : readZipEntries deps bytes = Except.ok (servedEntries lib files) := by
    rw [server_reads hyields]
    apply readEntries_files _ hyields.size
    intro f hf hnone
    exact h (Or.inl ⟨f, hf, hnone⟩)
  have hjson : forall e, e ∈ servedEntries lib files -> e.1 = "config.json" ->
      (serverJson deps e.2).isSome = true := by
    intro e he hname
    rcases mem_servedEntries.mp he with ⟨f, hf, hserved, hdata⟩
    rw [Option.isSome_iff_ne_none]
    intro hnone
    apply h
    refine Or.inr ⟨f, hf, ?_, ?_⟩
    · rw [hserved, hname]
    · rw [← serverJson_eq_none hdoc, hdata]
      exact hnone
  refine ⟨hread, ?_⟩
  unfold getConfig
  rw [hread]
  dsimp only
  rw [contents_pass _ hjson]
  rfl

theorem server_refuses (hyields : Yields lib platform deps bytes files)
    (hdoc : numbers.AsDocumented platform deps) (h : ServerRefuses lib numbers files) :
    exists response, getConfig deps bytes = Except.error response := by
  unfold getConfig
  rw [server_reads hyields]
  by_cases hout : exists f, f ∈ files ∧ servedName lib f.1 = none
  · rcases @readEntries_refused deps lib files maxInflatedTotal hout with ⟨err, herr⟩
    rw [herr]
    exact ⟨_, rfl⟩
  · have hread : readEntries deps maxInflatedTotal (files.map (zipEntry lib)) =
        Except.ok (servedEntries lib files) := by
      apply readEntries_files _ hyields.size
      intro f hf hnone
      exact hout ⟨f, hf, hnone⟩
    cases h with
    | inl hnone => exact absurd hnone hout
    | inr hconfig =>
        rcases hconfig with ⟨f, hf, hserved, hnone⟩
        have hentry : ("config.json", f.2) ∈ servedEntries lib files :=
          mem_servedEntries.mpr ⟨f, hf, hserved, rfl⟩
        rcases contents_fails emptyContents
          ⟨_, hentry, rfl, (serverJson_eq_none hdoc).mpr hnone⟩ with ⟨err, herr⟩
        rw [hread]
        dsimp only
        rw [herr]
        exact ⟨_, rfl⟩

/-!
# Where the names agree
-/

theorem pageName_not_slash {rawName name : String} (h : pageName rawName = some name) :
    name.toList.getLast? ≠ some '/' := by
  unfold pageName at h
  split at h
  · cases h
  · rename_i hlast
    cases h
    exact hlast

theorem servedName_eq_pageName (hlib : lib.AsDocumented) {rawName : String}
    (h : NameAlike lib rawName) : servedName lib rawName = some (pageName rawName) :=
  servedName_of_alike hlib h

theorem servedEntries_eq (hlib : lib.AsDocumented)
    (h : forall f, f ∈ files -> NameAlike lib f.1) :
    servedEntries lib files = pageEntries files := by
  apply List.filterMap_congr
  intro f hf
  rw [servedName_eq_pageName hlib (h f hf)]
  rfl

theorem filter_isListed (files : Entries) :
    (pageEntries files).filter isListed = (pageEntries files).filter fun e => isScript e.1 := by
  apply List.filter_congr
  intro e he
  rcases mem_pageEntries.mp he with ⟨f, _, hname, _⟩
  have hlast : (e.1.toList.getLast? != some '/') = true :=
    bne_iff_ne.mpr (pageName_not_slash hname)
  rw [isListed, hlast, Bool.and_true]

theorem mem_carried {es : Entries} {e : String × Bytes} :
    e ∈ es.filter isCarried <-> e ∈ carriedEntries es ∧ isScript e.1 = false := by
  unfold carriedEntries
  simp only [List.mem_filter, isCarried, Bool.and_eq_true, Bool.not_eq_true', and_assoc]

theorem mem_of_lastNamed {name : String} {data : Bytes} {es : Entries}
    (h : lastNamed name es = some data) : (name, data) ∈ es := by
  unfold lastNamed at h
  rcases Option.map_eq_some_iff.mp h with ⟨e, he, hdata⟩
  have hmem := List.mem_filter.mp (List.mem_of_getLast? he)
  have hname := beq_iff_eq.mp hmem.2
  rw [← hname, ← hdata]
  exact hmem.1

theorem sameSplit_of_alike (hdoc : numbers.AsDocumented platform deps)
    (h : OpensAlike lib platform numbers files) :
    SameSplit (pageView platform files) (serverView deps (pageEntries files))
      (pageEntries files) where
  config := by
    show lastGiven "config.json" (fun data => (pageJson platform data).getD Json.null)
        (Json.object []) (pageEntries files) =
      lastGiven "config.json" (fun data => (serverJson deps data).getD Json.null)
        (Json.object []) (pageEntries files)
    rw [lastGiven_congr]
    intro data hdata
    rcases mem_pageEntries.mp (mem_of_lastNamed hdata) with ⟨f, hf, hname, hsame⟩
    have htakes := h.configs f hf (entryName_of_pageName hname)
    rw [hsame] at htakes
    rw [(json_eq_iff hdoc htakes).mpr (h.config data hdata)]
  template := lastGiven_congr.mpr fun data hdata =>
    (manifest_eq_iff hdoc).mpr (h.manifest data hdata)
  scriptPaths := by
    have hpage := (List.perm_insertionSort (fun a b : String × Bytes =>
      platform.localeLe a.1 b.1 = true) ((pageEntries files).filter fun e => isScript e.1)).map
        Prod.fst
    have hserver := List.perm_insertionSort (fun a b : String => a ≤ b)
      (((pageEntries files).filter isListed).map Prod.fst)
    rw [filter_isListed] at hserver
    unfold serverView
    dsimp only
    rw [filter_isListed]
    exact hpage.trans hserver.symm
  scripts := List.perm_insertionSort _ _
  carried := fun _ => mem_carried

theorem splitAlike_of_alike (hyields : Yields lib platform deps bytes files)
    (hdoc : numbers.AsDocumented platform deps) (h : OpensAlike lib platform numbers files) :
    SplitAlike platform deps bytes := by
  have hentries := servedEntries_eq hyields.documented h.names
  have hpage : Not (PageRefuses platform files) := by
    intro hrefuses
    rcases hrefuses with ⟨f, hf, hname, hnone⟩
    exact hnone (pageTakes_of_serverTakes hdoc (h.configs f hf hname))
  have hserver : Not (ServerRefuses lib numbers files) := by
    intro hrefuses
    cases hrefuses with
    | inl hout =>
        rcases hout with ⟨f, hf, hnone⟩
        rw [servedName_eq_pageName hyields.documented (h.names f hf)] at hnone
        cases hnone
    | inr hconfig =>
        rcases hconfig with ⟨f, hf, hserved, hnone⟩
        rw [servedName_eq_pageName hyields.documented (h.names f hf)] at hserved
        exact hnone (h.configs f hf (entryName_of_pageName (Option.some.inj hserved)))
  have hopened := page_accepts hyields hdoc hpage
  have hread := server_accepts hyields hdoc hserver
  constructor
  · intro o ho
    rw [hopened] at ho
    cases ho
    refine ⟨_, _, hread.1, hread.2, ?_⟩
    rw [hentries]
    exact sameSplit_of_alike hdoc h
  · intro view _
    exact ⟨_, hopened⟩

/-!
# What one split says of the names
-/

theorem mem_split {o : OpenedBundle} {view : BundleContents} {entries : Entries}
    (h : SameSplit o view entries) {e : String × Bytes} (hconfig : e.1 ≠ "config.json")
    (hmanifest : e.1 ≠ "bundle.toml") : e ∈ entries <-> e ∈ o.scripts ∨ e ∈ o.carried := by
  rw [h.scripts.mem_iff, List.mem_filter, h.carried, carriedEntries, List.mem_filter]
  cases isScript e.1 <;> simp [hconfig, hmanifest]

theorem mem_pageView {e : String × Bytes} (hconfig : e.1 ≠ "config.json")
    (hmanifest : e.1 ≠ "bundle.toml") :
    e ∈ pageEntries files <->
      e ∈ (pageView platform files).scripts ∨ e ∈ (pageView platform files).carried := by
  unfold pageView
  dsimp only
  rw [List.mem_insertionSort, List.mem_filter, List.mem_filter, isCarried]
  cases isScript e.1 <;> simp [hconfig, hmanifest]

theorem mem_served_iff_page {view : BundleContents}
    (h : SameSplit (pageView platform files) view (servedEntries lib files))
    {e : String × Bytes} (hconfig : e.1 ≠ "config.json") (hmanifest : e.1 ≠ "bundle.toml") :
    e ∈ servedEntries lib files <-> e ∈ pageEntries files := by
  rw [mem_split h hconfig hmanifest, mem_pageView hconfig hmanifest]

theorem normal_fixed {name : String} (h : name = "config.json" ∨ name = "bundle.toml") :
    NormalPath name.toList ∧ '\\' ∉ name.toList := by
  cases h with
  | inl hconfig =>
      rw [hconfig]
      refine ⟨?_, by decide⟩
      intro s hs
      have hpart : s = "config.json".toList := List.mem_singleton.mp hs
      rw [hpart]
      decide
  | inr hmanifest =>
      rw [hmanifest]
      refine ⟨?_, by decide⟩
      intro s hs
      have hpart : s = "bundle.toml".toList := List.mem_singleton.mp hs
      rw [hpart]
      decide

theorem names_of_sameSplit (hlib : lib.AsDocumented) {view : BundleContents}
    (h : SameSplit (pageView platform files) view (servedEntries lib files))
    (hserved : forall f, f ∈ files -> servedName lib f.1 ≠ none) :
    forall f, f ∈ files -> NameAlike lib f.1 := by
  intro f hf
  by_cases hslash : (entryName f.1).toList.getLast? = some '/'
  · exact Or.inl hslash
  · have hpage : pageName f.1 = some (entryName f.1) := if_neg hslash
    cases hname : servedName lib f.1 with
    | none => exact absurd hname (hserved f hf)
    | some served =>
        apply alike_of_served hlib hname
        · intro name hsome
          by_cases hfixed : name = "config.json" ∨ name = "bundle.toml"
          · exact (normal_fixed hfixed).2
          · rw [not_or] at hfixed
            have hmem : (name, f.2) ∈ servedEntries lib files :=
              mem_servedEntries.mpr ⟨f, hf, by rw [hname, hsome], rfl⟩
            rw [mem_served_iff_page h hfixed.1 hfixed.2] at hmem
            rcases mem_pageEntries.mp hmem with ⟨g, _, hg, _⟩
            rw [← entryName_of_pageName hg]
            exact no_backslash_entryName g.1
        · by_cases hfixed : entryName f.1 = "config.json" ∨ entryName f.1 = "bundle.toml"
          · exact (normal_fixed hfixed).1
          · rw [not_or] at hfixed
            have hmem : (entryName f.1, f.2) ∈ pageEntries files :=
              mem_pageEntries.mpr ⟨f, hf, hpage, rfl⟩
            rw [← mem_served_iff_page h hfixed.1 hfixed.2] at hmem
            rcases mem_servedEntries.mp hmem with ⟨g, _, hg, _⟩
            exact normal_of_served hlib hg

theorem alike_of_splitAlike (hyields : Yields lib platform deps bytes files)
    (hdoc : numbers.AsDocumented platform deps) (h : SplitAlike platform deps bytes)
    (hpage : Not (PageRefuses platform files))
    (hserver : Not (ServerRefuses lib numbers files)) :
    OpensAlike lib platform numbers files := by
  have hread := server_accepts hyields hdoc hserver
  rcases h.opened _ (page_accepts hyields hdoc hpage) with ⟨entries, view, hentries, hview, hsame⟩
  rw [hread.1] at hentries
  cases hentries
  rw [hread.2] at hview
  cases hview
  have hnames := names_of_sameSplit hyields.documented hsame fun f hf hnone =>
    hserver (Or.inl ⟨f, hf, hnone⟩)
  have hconfigs : forall f, f ∈ files -> entryName f.1 = "config.json" ->
      ServerTakes numbers f.2 := by
    intro f hf hname
    by_contra hnone
    apply hserver
    refine Or.inr ⟨f, hf, ?_, hnone⟩
    rw [servedName_eq_pageName hyields.documented (hnames f hf), pageName_of_config hname]
  have heq := servedEntries_eq hyields.documented hnames
  rw [heq] at hsame
  constructor
  · exact hnames
  · exact hconfigs
  · intro data hdata
    rcases mem_pageEntries.mp (mem_of_lastNamed hdata) with ⟨f, hf, hname, hfile⟩
    have htakes := hconfigs f hf (entryName_of_pageName hname)
    rw [hfile] at htakes
    have hgiven : lastGiven "config.json" (fun data => (pageJson platform data).getD Json.null)
          (Json.object []) (pageEntries files) =
        lastGiven "config.json" (fun data => (serverJson deps data).getD Json.null)
          (Json.object []) (pageEntries files) := hsame.config
    have hvalues := lastGiven_congr.mp hgiven data hdata
    rw [← json_eq_iff hdoc htakes]
    cases hp : pageJson platform data with
    | none =>
        exact absurd (pageTakes_of_serverTakes hdoc htakes) ((pageJson_eq_none hdoc).mp hp)
    | some v =>
        cases hs : serverJson deps data with
        | none => exact absurd htakes ((serverJson_eq_none hdoc).mp hs)
        | some u =>
            rw [hp, hs] at hvalues
            exact congrArg some hvalues
  · intro data hdata
    exact (manifest_eq_iff hdoc).mp (lastGiven_congr.mp hsame.template data hdata)

/-- Page and server split an archive alike just when both refuse it, or its names, its
configurations and its manifest are spelled as both read them. -/
theorem split_alike_iff (hyields : Yields lib platform deps bytes files)
    (hdoc : numbers.AsDocumented platform deps) :
    SplitAlike platform deps bytes <->
      (PageRefuses platform files ∧ ServerRefuses lib numbers files) ∨
        OpensAlike lib platform numbers files := by
  constructor
  · intro h
    by_cases hpage : PageRefuses platform files
    · apply Or.inl
      refine ⟨hpage, ?_⟩
      by_contra hserver
      rcases h.read _ (server_accepts hyields hdoc hserver).2 with ⟨o, ho⟩
      rcases page_refuses hyields hdoc hpage with ⟨err, herr⟩
      rw [ho] at herr
      cases herr
    · apply Or.inr
      apply alike_of_splitAlike hyields hdoc h hpage
      intro hserver
      rcases h.opened _ (page_accepts hyields hdoc hpage) with ⟨_, view, _, hview, _⟩
      rcases server_refuses hyields hdoc hserver with ⟨response, hresponse⟩
      rw [hview] at hresponse
      cases hresponse
  · intro h
    cases h with
    | inr halike => exact splitAlike_of_alike hyields hdoc halike
    | inl hrefused =>
        rcases page_refuses hyields hdoc hrefused.1 with ⟨err, herr⟩
        rcases server_refuses hyields hdoc hrefused.2 with ⟨response, hresponse⟩
        constructor
        · intro o ho
          rw [herr] at ho
          cases ho
        · intro view hview
          rw [hresponse] at hview
          cases hview

/-!
# Two archives
-/

/-- The documented library, where a backslash is no separator. -/
def plainNames : ZipNames where
  isDir := fun rawName => (slashes rawName.toList).getLast? == some '/'
  enclosedName := fun rawName => resolve rawName.toList

theorem plainNames_documented : plainNames.AsDocumented where
  isDir := fun _ => beq_iff_eq
  enclosedName := fun _ _ => Or.inl rfl

def plainNumbers : NumberReaders where
  page := id
  server := id
  inRange := fun _ => true

def answering (value : Option Json) : Except String Json :=
  match value with
  | none => Except.error "expected value"
  | some v => Except.ok v

theorem toOption_answering (value : Option Json) : (answering value).toOption = value := by
  cases value with
  | none => rfl
  | some v => rfl

/-- Libraries that yield `files`, and read JSON. -/
def yieldingPage (files : Entries) : Platform where
  unzipSync := fun _ => Except.ok files
  decode := fun data => String.ofList (withoutMark ((Deps.fromUtf8 data).getD "").toList)
  parseJson := fun text => answering
    ((JsonText.read text.toList).map fun t => t.value.withNumbers plainNumbers.page)
  localeLe := fun a b => a ≤ b

def yieldingServer (files : Entries) : Deps :=
  { Deps.sample with
    parseJsonBytes := fun data => answering
      (((jsonOf data).filter plainNumbers.serdeTakes).map fun t =>
        t.value.withNumbers plainNumbers.server)
    readZip := fun _ => Except.ok (files.map (zipEntry plainNames)) }

theorem plainNumbers_documented (files : Entries) :
    plainNumbers.AsDocumented (yieldingPage files) (yieldingServer files) where
  decode := by
    intro data text htext
    show (String.ofList (withoutMark ((Deps.fromUtf8 data).getD "").toList)).toList = _
    rw [htext, String.toList_ofList]
    rfl
  parseJson := fun _ => toOption_answering _
  parseJsonBytes := fun _ => toOption_answering _

theorem yields_small {files : Entries} (hcount : files.length ≤ maxZipEntries)
    (hsize : inflated (servedEntries plainNames files) ≤ maxInflatedTotal) :
    Yields plainNames (yieldingPage files) (yieldingServer files) [] files where
  documented := plainNames_documented
  page := rfl
  server := rfl
  count := hcount
  size := hsize

theorem fromUtf8_utf8 (s : String) : Deps.fromUtf8 (utf8 s) = some s := by
  unfold Deps.fromUtf8 utf8
  rw [Array.toArray_toList]
  show String.fromUTF8? s.toByteArray = some s
  unfold String.fromUTF8?
  rw [dif_pos s.isValidUTF8]
  rfl

def webBundle : Entries :=
  [("config.json", utf8 (String.ofList ['{', '}'])),
    ("bundle.toml", utf8 "template = \"web\"\n"), ("scripts/a", [1])]

theorem split_alike_iff_script :
    SplitAlike (yieldingPage webBundle) (yieldingServer webBundle) [] := by
  have hyields := @yields_small webBundle (by decide) (by decide)
  apply (split_alike_iff hyields (plainNumbers_documented webBundle)).mpr
  apply Or.inr
  have hnormal : forall f, f ∈ webBundle -> NameAlike plainNames f.1 := by
    intro f hf
    refine Or.inr ⟨?_, ?_, ?_, ?_⟩
    · revert f
      decide
    · revert f
      decide
    · intro s hs
      revert s f
      decide
    · revert f
      decide
  have htext : jsonOf (utf8 (String.ofList ['{', '}'])) = some JsonText.emptyObject := by
    unfold jsonOf
    rw [fromUtf8_utf8]
    rfl
  constructor
  · exact hnormal
  · intro f hf hname
    simp only [webBundle, List.mem_cons, List.not_mem_nil, or_false] at hf
    rcases hf with hf | hf | hf
    · rw [hf]
      exact ⟨JsonText.emptyObject, htext, by decide⟩
    · rw [hf] at hname
      exact absurd hname (by decide)
    · rw [hf] at hname
      exact absurd hname (by decide)
  · intro data hdata
    have hlast : lastNamed "config.json" (pageEntries webBundle) =
        some (utf8 (String.ofList ['{', '}'])) := by decide
    rw [hlast] at hdata
    cases hdata
    intro t ht n hn
    rfl
  · intro data hdata
    have hlast : lastNamed "bundle.toml" (pageEntries webBundle) =
        some (utf8 "template = \"web\"\n") := by decide
    rw [hlast] at hdata
    cases hdata
    unfold ManifestAlike
    rw [fromUtf8_utf8]
    apply (Manifest.found_iff_setAlike (Manifest.finds_page _) (Manifest.finds_server _)).mp
    decide

/-- An entry that leads out of the archive is refused on one side and carried along on
the other. -/
theorem leading_out_is_carried :
    Not (forall (lib : ZipNames) (numbers : NumberReaders) (platform : Platform) (deps : Deps)
      (bytes : Bytes) (files : Entries), (files.map Prod.fst).Nodup ->
        Yields lib platform deps bytes files -> numbers.AsDocumented platform deps ->
          SplitAlike platform deps bytes) := by
  intro h
  have hdoc := plainNumbers_documented [("../x", [])]
  have hyields := @yields_small [("../x", [])] (by decide) (by decide)
  have hpage : Not (PageRefuses (yieldingPage [("../x", [])]) [("../x", [])]) := by
    intro hrefuses
    rcases hrefuses with ⟨f, hf, hname, _⟩
    rw [List.mem_singleton.mp hf] at hname
    revert hname
    decide
  have hout : servedName plainNames "../x" = none := by decide
  rcases server_refuses hyields hdoc (Or.inl ⟨_, List.mem_singleton_self _, hout⟩) with
    ⟨response, hresponse⟩
  rcases (h _ _ _ _ _ _ (by decide) hyields hdoc).opened _ (page_accepts hyields hdoc hpage) with
    ⟨_, view, _, hview, _⟩
  rw [hview] at hresponse
  cases hresponse

end Web
end FleetServer
