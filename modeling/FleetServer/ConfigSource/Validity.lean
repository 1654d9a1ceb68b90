import FleetServer.ConfigSource.Layout

/-!
# What a directory that loads is known to hold

Bundle versions and group names are each given once, and a group refers to
bundles of the directory, to none of them twice.
-/

namespace FleetServer
namespace ConfigSource

open FleetServer.Core
open Server
open Hosts (validBundleToken)

variable {deps : Deps}
variable {entries : Entries} {shown : String} {errors seen : List String}

/-!
# Directories of a file system
-/

mutual

/-- No directory has two entries of one name. -/
def Node.distinct : Node -> Bool
  | Node.dir entries => decide (entries.map Prod.fst).Nodup && distinctBelow entries
  | _ => true

def distinctBelow : List (String × Node) -> Bool
  | [] => true
  | (_, node) :: rest => node.distinct && distinctBelow rest

end

theorem distinct_of_lookup {name : String} {node : Node} (h : distinctBelow entries = true)
    (hlookup : entries.lookup name = some node) :
    node.distinct = true := by
  induction entries with
  | nil => cases hlookup
  | cons e rest ih =>
      rcases e with ⟨name', node'⟩
      unfold distinctBelow at h
      rw [Bool.and_eq_true] at h
      rw [List.lookup_cons] at hlookup
      split at hlookup
      · cases hlookup
        exact h.1
      · exact ih h.2 hlookup

theorem nodup_subdir {name : String} (h : (Node.dir entries).distinct = true) :
    (((subdir name entries).getD []).map Prod.fst).Nodup := by
  unfold Node.distinct at h
  rw [Bool.and_eq_true] at h
  unfold subdir
  split
  · rename_i below hlookup
    have hbelow := distinct_of_lookup h.2 hlookup
    unfold Node.distinct at hbelow
    rw [Bool.and_eq_true, decide_eq_true_iff] at hbelow
    exact hbelow.1
  · exact List.nodup_nil

theorem nodup_listDir (h : (entries.map Prod.fst).Nodup) :
    ((listDir entries).map Prod.fst).Nodup := by
  have hperm := (List.perm_insertionSort (fun a b : String × Node => a.1 ≤ b.1)
    (entries.filter fun e => e.1.toList.head? != some '.')).map Prod.fst
  apply hperm.nodup_iff.mpr
  exact (List.filter_sublist.map Prod.fst).nodup h

/-!
# Bundles
-/

theorem checkVersion_eq_ok {seen : List (String × BundleContents)} {v v' : String × BundleContents}
    (h : checkVersion shown seen v = Except.ok v') :
    v' = v ∧ validBundleToken v.1 = true ∧ v.1 ∉ seen.map Prod.fst := by
  unfold checkVersion at h
  split at h
  · cases h
  · rename_i hvalid
    split at h
    · cases h
    · rename_i hseen
      cases h
      refine ⟨rfl, by simpa using hvalid, ?_⟩
      intro hmem
      rcases List.mem_map.mp hmem with ⟨s, hs, hsame⟩
      apply hseen
      rw [List.any_eq_true]
      exact ⟨s, hs, beq_iff_eq.mpr hsame⟩

structure Versions (versions : List (String × BundleContents)) : Prop where
  nodup : (versions.map Prod.fst).Nodup
  valid : forall v, v ∈ versions -> validBundleToken v.1 = true

theorem versions_readVersions {seen : List (String × BundleContents)} (hseen : Versions seen) :
    Versions (readVersions deps shown errors seen entries).2 := by
  induction entries generalizing errors seen with
  | nil => exact hseen
  | cons e rest ih =>
      rcases e with ⟨entry, node⟩
      unfold readVersions
      simp only
      split
      · rename_i v hv
        cases hread : readVersion deps (shown ++ "/" ++ entry) entry node with
        | error e =>
            rw [hread] at hv
            cases hv
        | ok v0 =>
            rw [hread] at hv
            rcases checkVersion_eq_ok hv with ⟨rfl, hvalid, hnew⟩
            apply ih
            constructor
            · rw [List.map_append, List.nodup_append]
              refine ⟨hseen.nodup, List.nodup_singleton _, ?_⟩
              intro a ha b hb
              rw [List.map_singleton, List.mem_singleton] at hb
              rw [hb]
              exact fun hsame => hnew (hsame ▸ ha)
            · intro w hw
              rcases List.mem_append.mp hw with hw | hw
              · exact hseen.valid w hw
              · rw [List.mem_singleton.mp hw]
                exact hvalid
      · exact ih hseen

def BundleSpec.identity (b : BundleSpec) : String × String :=
  (b.name, b.version)

theorem loadBundles_identities (h : (entries.map Prod.fst).Nodup) :
    ((loadBundles deps errors entries).2.map BundleSpec.identity).Nodup ∧
      forall b, b ∈ (loadBundles deps errors entries).2 ->
        b.name ∈ entries.map Prod.fst ∧ validBundleToken b.name = true ∧
          validBundleToken b.version = true := by
  induction entries generalizing errors with
  | nil => exact ⟨List.nodup_nil, fun _ hb => absurd hb List.not_mem_nil⟩
  | cons e rest ih =>
      rcases e with ⟨name, node⟩
      rw [List.map_cons, List.nodup_cons] at h
      have hskip : forall errors',
          ((loadBundles deps errors' rest).2.map BundleSpec.identity).Nodup ∧
            forall b, b ∈ (loadBundles deps errors' rest).2 ->
              b.name ∈ ((name, node) :: rest).map Prod.fst ∧
                validBundleToken b.name = true ∧ validBundleToken b.version = true := by
        intro errors'
        refine ⟨(ih h.2).1, fun b hb => ?_⟩
        rcases (ih h.2).2 b hb with ⟨hname, hvalid⟩
        exact ⟨List.mem_cons_of_mem _ hname, hvalid⟩
      unfold loadBundles
      simp only
      split
      · rename_i below
        split
        · exact hskip _
        · rename_i hvalid
          have hversions : Versions (readVersions deps (bundlesDir ++ "/" ++ name) errors []
              (listDir below)).2 :=
            versions_readVersions ⟨List.nodup_nil, fun _ hv => absurd hv List.not_mem_nil⟩
          generalize readVersions deps (bundlesDir ++ "/" ++ name) errors [] (listDir below) =
            versions at hversions ⊢
          rcases hskip versions.1 with ⟨hothers, hnames⟩
          have hperm := List.perm_insertionSort
            (fun a b : String × BundleContents => a.1 ≤ b.1) versions.2
          constructor
          · rw [List.map_append, List.map_map, List.nodup_append]
            refine ⟨?_, hothers, ?_⟩
            · have hsorted : ((sortByVersion versions.2).map Prod.fst).Nodup :=
                (hperm.map Prod.fst).nodup_iff.mpr hversions.nodup
              have hpair := hsorted.map (fun (a b : String) (hab : (name, a) = (name, b)) =>
                (Prod.mk.inj hab).2)
              rw [List.map_map] at hpair
              exact hpair
            · intro a ha b hb hsame
              rcases List.mem_map.mp ha with ⟨v, _, rfl⟩
              rcases List.mem_map.mp hb with ⟨b', hb', rfl⟩
              have hname : b'.name = name := (congrArg Prod.fst hsame).symm
              exact h.1 (hname ▸ ((ih h.2).2 b' hb').1)
          · intro b hb
            rcases List.mem_append.mp hb with hb | hb
            · rcases List.mem_map.mp hb with ⟨v, hv, rfl⟩
              rw [Bool.not_eq_true', Bool.not_eq_false] at hvalid
              refine ⟨List.mem_cons_self, hvalid, ?_⟩
              exact hversions.valid v (hperm.mem_iff.mp hv)
            · exact hnames b hb
      · exact hskip _

/-!
# Groups
-/

theorem groupSpec_eq_ok {g : GroupFile} {spec : GroupSpec}
    (h : groupSpec deps shown seen g = Except.ok spec) :
    spec.name = trim g.name ∧ spec.name.isEmpty = false ∧ byteLen spec.name ≤ 128 ∧
      spec.name ∉ seen ∧ spec.bundles = g.bundles ∧
      exists s, Selector.fromJson deps.decodeSelector g.selector = Except.ok s ∧
        spec.selectorJson = deps.selectorToString s := by
  unfold groupSpec at h
  simp only at h
  split at h
  · cases h
  · rename_i hname
    rw [Bool.or_eq_true, decide_eq_true_iff, not_or, Bool.not_eq_true, Nat.not_lt] at hname
    split at h
    · cases h
    · rename_i hseen
      split at h
      · cases h
      · rename_i s hs
        cases h
        refine ⟨rfl, hname.1, hname.2, ?_, rfl, s, hs, rfl⟩
        rwa [List.contains_iff_mem] at hseen

theorem repeatedRefs_eq_nil {seen : List (String × String)} {refs : List GroupBundleRef}
    (h : repeatedRefs shown seen refs = []) :
    (refs.map fun r => (r.name, r.version)).Nodup ∧
      forall r, r ∈ refs -> (r.name, r.version) ∉ seen := by
  induction refs generalizing seen with
  | nil => exact ⟨List.nodup_nil, fun _ hr => absurd hr List.not_mem_nil⟩
  | cons r rest ih =>
      unfold repeatedRefs at h
      split at h
      · cases h
      · rename_i hnew
        rw [List.contains_iff_mem] at hnew
        rcases ih h with ⟨hnodup, hrest⟩
        constructor
        · rw [List.map_cons, List.nodup_cons]
          refine ⟨?_, hnodup⟩
          intro hmem
          rcases List.mem_map.mp hmem with ⟨r', hr', hsame⟩
          exact hrest r' hr' (hsame ▸ List.mem_cons_self)
        · intro r' hr'
          rcases List.mem_cons.mp hr' with rfl | hr'
          · exact hnew
          · exact fun hmem => hrest r' hr' (List.mem_cons_of_mem _ hmem)

def GroupSpec.OnceEach (g : GroupSpec) : Prop :=
  (g.bundles.map fun r => (r.name, r.version)).Nodup

theorem loadGroups_errors (h : (loadGroups deps errors seen entries).1 = []) : errors = [] := by
  induction entries generalizing errors seen with
  | nil => exact h
  | cons e rest ih =>
      rcases e with ⟨file, node⟩
      unfold loadGroups at h
      simp only at h
      split at h
      · exact (List.append_eq_nil_iff.mp (ih h)).1
      · split at h
        · exact (List.append_eq_nil_iff.mp (ih h)).1
        · exact (List.append_eq_nil_iff.mp (ih h)).1

theorem loadGroups_names (h : (loadGroups deps errors seen entries).1 = []) :
    ((loadGroups deps errors seen entries).2.map GroupSpec.name).Nodup ∧
      forall g, g ∈ (loadGroups deps errors seen entries).2 -> g.name ∉ seen ∧ g.OnceEach := by
  induction entries generalizing errors seen with
  | nil => exact ⟨List.nodup_nil, fun _ hg => absurd hg List.not_mem_nil⟩
  | cons e rest ih =>
      rcases e with ⟨file, node⟩
      unfold loadGroups at h ⊢
      simp only at h ⊢
      split at h
      · rename_i e he
        exact absurd (loadGroups_errors h) (by simp)
      · rename_i g hg
        split at h
        · rename_i e he
          exact absurd (loadGroups_errors h) (by simp)
        · rename_i spec hspec
          rcases groupSpec_eq_ok hspec with ⟨hname, hne, hlen, hnew, hrefs, _⟩
          have honce := (List.append_eq_nil_iff.mp (loadGroups_errors h)).2
          rcases ih h with ⟨hnodup, hothers⟩
          have hseen : seenAfter seen g = spec.name :: seen := by
            unfold seenAfter
            simp only
            rw [← hname, if_neg]
            simpa [hne] using hlen
          rw [hseen] at hothers hnodup
          constructor
          · rw [List.map_cons, List.nodup_cons, hseen]
            refine ⟨?_, hnodup⟩
            intro hmem
            rcases List.mem_map.mp hmem with ⟨g', hg', hsame⟩
            exact (hothers g' hg').1 (hsame ▸ List.mem_cons_self)
          · intro g' hg'
            rcases List.mem_cons.mp hg' with rfl | hg'
            · refine ⟨hnew, ?_⟩
              unfold GroupSpec.OnceEach
              rw [hrefs]
              exact (repeatedRefs_eq_nil honce).1
            · rw [hseen] at hg'
              rcases hothers g' hg' with ⟨hnew', honce'⟩
              exact ⟨fun hmem => hnew' (List.mem_cons_of_mem _ hmem), honce'⟩

/-!
# load
-/

/-- What is known of a configuration that loaded. -/
structure Spec.Valid (spec : Spec) : Prop where
  identities : (spec.bundles.map BundleSpec.identity).Nodup
  names : (spec.groups.map GroupSpec.name).Nodup
  once : forall g, g ∈ spec.groups -> g.OnceEach
  known : forall g, g ∈ spec.groups -> forall r, r ∈ g.bundles ->
    exists b, b ∈ spec.bundles ∧ b.name = r.name ∧ b.version = r.version

theorem unknownRefs_eq_nil {bundles : List BundleSpec} {g : GroupSpec}
    (h : unknownRefs deps bundles g = []) : forall r, r ∈ g.bundles ->
      exists b, b ∈ bundles ∧ b.name = r.name ∧ b.version = r.version := by
  intro r hr
  unfold unknownRefs at h
  rw [List.map_eq_nil_iff, List.filter_eq_nil_iff] at h
  have hknown := h r hr
  rw [Bool.not_eq_true', Bool.not_eq_false, List.any_eq_true] at hknown
  rcases hknown with ⟨b, hb, hsame⟩
  rw [Bool.and_eq_true, beq_iff_eq, beq_iff_eq] at hsame
  exact ⟨b, hb, hsame⟩

theorem load_eq_ok {dir : Node} {spec : Spec} (h : load deps shown dir = Except.ok spec) :
    exists entries, dir = Node.dir entries ∧
      let b := loadBundles deps [] (listDir ((subdir bundlesDir entries).getD []))
      let g := loadGroups deps b.1 [] (listDir ((subdir groupsDir entries).getD []))
      spec = { bundles := b.2, groups := g.2 } ∧ g.1 = [] ∧
        g.2.flatMap (unknownRefs deps b.2) = [] := by
  unfold load at h
  split at h
  · rename_i entries
    refine ⟨entries, rfl, ?_⟩
    intro b g
    have hloaded : (if (g.1 ++ g.2.flatMap (unknownRefs deps b.2)).isEmpty then
        Except.ok { bundles := b.2, groups := g.2 }
        else Except.error (g.1 ++ g.2.flatMap (unknownRefs deps b.2)) :
          Except (List String) Spec) = Except.ok spec := by
      split at h
      · cases h
      · exact h
    split at hloaded
    · rename_i hempty
      cases hloaded
      rw [List.isEmpty_iff, List.append_eq_nil_iff] at hempty
      exact ⟨rfl, hempty⟩
    · cases hloaded
  · cases h

theorem valid_of_load {dir : Node} {spec : Spec} (hdir : dir.distinct = true)
    (h : load deps shown dir = Except.ok spec) : spec.Valid := by
  rcases load_eq_ok h with ⟨entries, rfl, rfl, herrors, hrefs⟩
  rcases loadGroups_names herrors with ⟨hnames, hgroups⟩
  constructor
  · exact (loadBundles_identities (nodup_listDir (nodup_subdir hdir))).1
  · exact hnames
  · exact fun g hg => (hgroups g hg).2
  · intro g hg
    exact unknownRefs_eq_nil (List.flatMap_eq_nil_iff.mp hrefs g hg)

end ConfigSource
end FleetServer
