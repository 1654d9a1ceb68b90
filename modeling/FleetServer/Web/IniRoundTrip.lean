import FleetServer.Web.IniWriter
import Mathlib.Data.Fintype.EquivFin

/-!
# Saving a configuration that was not edited

The editor shows a configuration as text and saves what the text is read as.  Two
configurations do the same to every document when they have the same values at the
same paths and drop the same settings.
-/

namespace FleetServer
namespace Web

open FleetServer.Core
open Core.Json

variable {config read members : List Member} {path p q s : List String} {k text : String}
variable {v u : Json}

def Renders (doc : Json) (line : Setting) : Prop :=
  exists path v, Leaf doc path v ∧ line = settingOf path v

/-- Merged onto any document, both leave the same lines. -/
def SameEffect (config read : List Member) : Prop :=
  forall (target : Json) (line : Setting),
    Renders (mergePatch target (object config)) line <->
      Renders (mergePatch target (object read)) line

/-- A setting whose line and section header are read back as they are. -/
structure Spellable (path : List String) (text : String) : Prop where
  segments : forall s, s ∈ path.dropLast -> SegmentText s ∧ s ≠ protoKey
  section_end : forall s, path.dropLast.getLast? = some s -> trimEnd s.toList = s.toList
  key : KeyText (lastOf path)
  value : ValueText text

/-- Nothing of the configuration is lost in the text. -/
structure Survives (config : List Member) : Prop where
  settings : forall path v, Leaf (object config) path v -> Spellable path (render v)
  no_removal : forall path, valueAt (object config) path ≠ some null
  no_empty_section : forall path, path ≠ [] -> valueAt (object config) path ≠ some (object [])

/-!
# Probing with a single setting
-/

/-- A document with one setting. -/
def single : List String -> Json -> List Member
  | [], _ => []
  | [k], v => [(k, v)]
  | k :: next :: rest, v => [(k, object (single (next :: rest) v))]

theorem leaf_single (hv : v.isSetting = true) :
    forall {p : List String}, p ≠ [] -> forall {q : List String} {u : Json},
      (Leaf (object (single p v)) q u <-> q = p ∧ u = v) := by
  intro p
  induction p with
  | nil =>
      intro hne
      exact absurd rfl hne
  | cons k p ih =>
      intro _ q u
      cases q with
      | nil =>
          constructor
          · intro h
            exact absurd h leaf_nil
          · rintro ⟨h, _⟩
            cases h
      | cons l q =>
          by_cases hl : l = k
          · subst hl
            cases p with
            | nil =>
                have hk : List.lookup l (single [l] v) = some v := by
                  rw [single, List.lookup_cons, beq_self_eq_true]
                rw [leaf_setting hv hk, List.cons.injEq]
                simp
            | cons j p =>
                have hk : List.lookup l (single (l :: j :: p) v) =
                    some (object (single (j :: p) v)) := by
                  rw [single, List.lookup_cons, beq_self_eq_true]
                rw [leaf_section hk, ih (List.cons_ne_nil _ _), List.cons.injEq]
                simp
          · have hk : List.lookup l (single (k :: p) v) = none := by
              cases p with
              | nil =>
                  rw [single, List.lookup_cons, beq_eq_false_iff_ne.mpr hl]
                  rfl
              | cons j p =>
                  rw [single, List.lookup_cons, beq_eq_false_iff_ne.mpr hl]
                  rfl
            constructor
            · intro h
              exact absurd h (not_leaf_missing hk)
            · rintro ⟨h, _⟩
              exact absurd (List.cons.inj h).1 hl

theorem mergePatch_object (target : Json) (config : List Member) :
    mergePatch target (object config) = object (mergeMembers (membersOf target) config) := by
  rw [mergePatch]

theorem renders_alone (hconfig : distinct (object config) = true) (line : Setting) :
    Renders (mergePatch (object []) (object config)) line <-> Renders (object config) line := by
  unfold Renders
  rw [mergePatch_object]
  constructor
  · rintro ⟨p, u, hleaf, hline⟩
    cases (leaf_merged p hconfig).mp hleaf with
    | inl hown => exact ⟨p, u, hown, hline⟩
    | inr hold => exact absurd hold.2 (not_leaf_empty p u)
  · rintro ⟨p, u, hleaf, hline⟩
    exact ⟨p, u, (leaf_merged p hconfig).mpr (Or.inl hleaf), hline⟩

theorem exists_fresh (xs : List String) : exists x, x ∉ xs := by
  rcases Infinite.exists_notMem_finset xs.toFinset with ⟨x, hx⟩
  exact ⟨x, fun hmem => hx (List.mem_toFinset.mpr hmem)⟩

theorem renders_probe (hconfig : distinct (object config) = true) (hp : p ≠ [])
    (hfresh : text ∉ (leavesBeneath [] config).map LeafEntry.value) :
    Renders (mergePatch (object (single p (Json.string text))) (object config))
        (settingOf p (Json.string text)) <-> misses config p = true := by
  unfold Renders
  rw [mergePatch_object]
  constructor
  · rintro ⟨q, u, hleaf, hline⟩
    cases (leaf_merged q hconfig).mp hleaf with
    | inl hown =>
        have hlisted : { path := q, value := render u } ∈ leavesBeneath [] config :=
          (mem_leavesBeneath_root hconfig).mpr ⟨u, hown, rfl⟩
        have htext : text = render u := congrArg Setting.text hline
        rw [htext] at hfresh
        exact absurd (List.mem_map_of_mem (f := LeafEntry.value) hlisted) hfresh
    | inr hold =>
        have hsame := (leaf_single (v := Json.string text) rfl hp).mp hold.2
        rw [hsame.1] at hold
        exact hold.1
  · intro hmisses
    refine ⟨p, Json.string text, ?_, rfl⟩
    exact (leaf_merged p hconfig).mpr
      (Or.inr ⟨hmisses, (leaf_single (v := Json.string text) rfl hp).mpr ⟨rfl, rfl⟩⟩)

theorem misses_of_sameEffect (hconfig : distinct (object config) = true)
    (hread : distinct (object read) = true) (hsame : SameEffect config read) (hp : p ≠ []) :
    misses config p = true <-> misses read p = true := by
  rcases exists_fresh ((leavesBeneath [] config).map LeafEntry.value ++
    (leavesBeneath [] read).map LeafEntry.value) with ⟨text, hfresh⟩
  rw [List.mem_append, not_or] at hfresh
  rw [← renders_probe hconfig hp hfresh.1, ← renders_probe hread hp hfresh.2]
  exact hsame _ _

theorem value_near (h : forall k, misses members (p ++ [k]) = false) :
    exists t u, t <+: p ∧ nodeAt members t = Node.value u := by
  rcases exists_fresh ((membersAt members p).map Prod.fst) with ⟨k, hk⟩
  have htaken := h k
  have hnot : Not (misses members (p ++ [k]) = true) := by
    rw [htaken]
    intro hfalse
    cases hfalse
  rw [misses_iff (List.append_ne_nil_of_right_ne_nil _ (List.cons_ne_nil _ _))] at hnot
  cases hp : nodeAt members p with
  | value u => exact ⟨p, u, List.prefix_rfl, hp⟩
  | section_ =>
      have hfree : nodeAt members (p ++ [k]) = Node.nothing := by
        rw [nodeAt_append hp]
        exact nodeAt_missing (lookup_eq_none_of_not_mem hk)
      by_contra hnone
      apply hnot
      refine ⟨hfree, ?_⟩
      intro t u habove hvalue
      cases List.prefix_concat_iff.mp habove with
      | inl heq =>
          rw [heq, hfree] at hvalue
          cases hvalue
      | inr habove => exact hnone ⟨t, u, habove, hvalue⟩
  | nothing =>
      have hfree : nodeAt members (p ++ [k]) = Node.nothing := by
        by_contra hsome
        exact node_above (List.prefix_append p [k]) hsome hp
      by_contra hnone
      apply hnot
      refine ⟨hfree, ?_⟩
      intro t u habove hvalue
      cases List.prefix_concat_iff.mp habove with
      | inl heq =>
          rw [heq, hfree] at hvalue
          cases hvalue
      | inr habove => exact hnone ⟨t, u, habove, hvalue⟩

theorem misses_beneath_value (hp : nodeAt members p = Node.value u) (habove : p <+: q) :
    misses members q = false := by
  apply Bool.eq_false_iff.mpr
  intro hmisses
  have hq : q ≠ [] := by
    intro hnil
    rw [hnil] at habove
    rw [List.prefix_nil.mp habove] at hp
    cases hp
  exact ((misses_iff hq).mp hmisses).2 p u habove hp

/-- Two patches say nothing about the same paths. -/
def SameMisses (config read : List Member) : Prop :=
  forall p, p ≠ [] -> (misses config p = true <-> misses read p = true)

theorem value_above_of_misses (hmisses : SameMisses config read)
    (hp : nodeAt config p = Node.value u) :
    exists t w, t <+: p ∧ nodeAt read t = Node.value w := by
  apply value_near
  intro k
  apply Bool.eq_false_iff.mpr
  intro hread
  have hne : p ++ [k] ≠ [] := List.append_ne_nil_of_right_ne_nil _ (List.cons_ne_nil _ _)
  have htaken := misses_beneath_value hp (List.prefix_append p [k])
  rw [(hmisses _ hne).mpr hread] at htaken
  cases htaken

theorem value_of_misses (hmisses : SameMisses config read)
    (hp : nodeAt config p = Node.value u) : exists w, nodeAt read p = Node.value w := by
  rcases value_above_of_misses hmisses hp with ⟨t, w, habove, ht⟩
  have hback : SameMisses read config := fun q hq => (hmisses q hq).symm
  rcases value_above_of_misses hback ht with ⟨t', w', habove', ht'⟩
  -- Nothing is beneath a value, so the way there and back ends where it began.
  have hsame : t' = p := by
    by_contra hne
    rw [nothing_beneath_value (habove'.trans habove) hne ht'] at hp
    cases hp
  rw [hsame] at habove'
  have hequal : t = p := habove.eq_of_length_le habove'.length_le
  rw [hequal] at ht
  exact ⟨w, ht⟩

/-!
# The settings of a configuration
-/

theorem segments_slashFree (h : forall s, s ∈ path -> SegmentText s) : SlashFree path := by
  intro s hs
  have hsegment := h s hs
  constructor
  · intro hempty
    apply hsegment.not_blank
    rw [hempty]
    rfl
  · exact hsegment.no_slash

theorem entry_collected (hconfig : distinct (object config) = true)
    (hsegments : forall path v, Leaf (object config) path v ->
      forall s, s ∈ path.dropLast -> SegmentText s) {section_ key : String} :
    entryIn (collect "" [] config) section_ key = some text <->
      exists path v, Leaf (object config) path v ∧ section_ = sectionOf path.dropLast ∧
        key = lastOf path ∧ text = render v := by
  have hcollect : collect "" [] config = (leavesBeneath [] config).foldl addLeaf [] :=
    collect_eq config [] []
  have hapart : forall l l', l ∈ leavesBeneath [] config -> l' ∈ leavesBeneath [] config ->
      sectionOf l.path.dropLast = sectionOf l'.path.dropLast -> lastOf l.path = lastOf l'.path ->
        l = l' := by
    intro l l' hl hl' hsection hkey
    have hsets := (mem_leavesBeneath_root hconfig).mp hl
    have hsets' := (mem_leavesBeneath_root hconfig).mp hl'
    have hpath : l.path = l'.path := by
      rcases hsets with ⟨v, hleaf, _⟩
      rcases hsets' with ⟨v', hleaf', _⟩
      have hfront := sectionOf_inj_of_slashFree (segments_slashFree (hsegments _ _ hleaf))
        (segments_slashFree (hsegments _ _ hleaf')) hsection
      rw [← dropLast_append_lastOf hleaf.1, ← dropLast_append_lastOf hleaf'.1, hfront, hkey]
    rw [← hpath] at hsets'
    rcases l with ⟨lpath, lvalue⟩
    rcases l' with ⟨lpath', lvalue'⟩
    simp only at hpath hsets hsets'
    rw [hpath, sets_unique hsets hsets']
  rw [hcollect, entryIn_collected hapart]
  constructor
  · rintro ⟨l, hl, hsection, hkey, htext⟩
    rcases (mem_leavesBeneath_root hconfig).mp hl with ⟨v, hleaf, hvalue⟩
    exact ⟨l.path, v, hleaf, hsection, hkey, htext.trans hvalue.symm⟩
  · rintro ⟨path, v, hleaf, hsection, hkey, htext⟩
    exact ⟨{ path := path, value := render v },
      (mem_leavesBeneath_root hconfig).mpr ⟨v, hleaf, rfl⟩, hsection, hkey, htext⟩

theorem section_collected (hconfig : distinct (object config) = true)
    (hsegments : forall path v, Leaf (object config) path v ->
      forall s, s ∈ path.dropLast -> SegmentText s) {section_ : String} :
    section_ ∈ (collect "" [] config).map Prod.fst <->
      exists path v, Leaf (object config) path v ∧ section_ = sectionOf path.dropLast := by
  constructor
  · intro h
    have hcollect : collect "" [] config = (leavesBeneath [] config).foldl addLeaf [] :=
      collect_eq config [] []
    have hentry := h
    rw [hcollect] at hentry
    rcases entry_of_section hentry with ⟨key, text, hentry⟩
    rw [← hcollect] at hentry
    rcases (entry_collected hconfig hsegments).mp hentry with ⟨path, v, hleaf, hsection, _⟩
    exact ⟨path, v, hleaf, hsection⟩
  · rintro ⟨path, v, hleaf, hsection⟩
    exact mem_names_of_entry
      ((entry_collected hconfig hsegments).mpr ⟨path, v, hleaf, hsection, rfl, rfl⟩)

/-- Settings that fit the lines of the format. -/
def Fits (config : List Member) : Prop :=
  forall path v, Leaf (object config) path v ->
    (forall s, s ∈ path.dropLast -> SegmentText s) ∧ KeyText (lastOf path) ∧
      ValueText (render v)

theorem namedPath_sectionOf (h : forall s, s ∈ path -> SegmentText s) :
    namedPath (sectionOf path) = readPath path := by
  have hline : ("[" ++ sectionOf path ++ "]").toList =
      '[' :: ((sectionOf path).toList ++ [']']) := by
    rw [String.toList_append, String.toList_append]
    rfl
  unfold namedPath
  rw [hline, headerSegments_sectionOf h, List.map_map]
  apply List.map_id''
  intro s
  exact String.ofList_toList

theorem one_line_sectionOf (h : forall s, s ∈ path -> SegmentText s) :
    '\n' ∉ (sectionOf path).toList := by
  cases path with
  | nil => decide
  | cons k rest =>
      rw [toList_sectionOf (List.cons_ne_nil _ _)]
      intro hmem
      rcases List.mem_flatMap.mp hmem with ⟨s, hs, hnewline⟩
      cases List.mem_cons.mp hnewline with
      | inl heq => cases heq
      | inr hin => exact (h s hs).one_line hin

theorem readsBack (hconfig : distinct (object config) = true) (hfits : Fits config) :
    ReadsBack (collect "" [] config) := by
  have hsegments : forall path v, Leaf (object config) path v ->
      forall s, s ∈ path.dropLast -> SegmentText s := fun path v hleaf => (hfits path v hleaf).1
  constructor
  · intro section_ hsection
    rcases (section_collected hconfig hsegments).mp hsection with ⟨path, v, hleaf, heq⟩
    rw [heq, namedPath_sectionOf (hsegments path v hleaf)]
    exact itemOf_header (hsegments path v hleaf)
  · intro section_ key text hentry
    rcases (entry_collected hconfig hsegments).mp hentry with ⟨path, v, hleaf, _, hkey, htext⟩
    have hfit := hfits path v hleaf
    rw [hkey, htext]
    exact itemOf_entry hfit.2.1 hfit.2.2
  · intro section_ hsection
    rcases (section_collected hconfig hsegments).mp hsection with ⟨path, v, hleaf, heq⟩
    have hnewline := one_line_sectionOf (hsegments path v hleaf)
    rw [heq]
    constructor
    · rw [String.toList_append, String.toList_append]
      simp [hnewline]
    · rw [String.toList_append]
      show (_ ++ [']']).getLast? ≠ _
      rw [List.getLast?_concat]
      decide
  · intro section_ key text hentry
    rcases (entry_collected hconfig hsegments).mp hentry with ⟨path, v, hleaf, _, hkey, htext⟩
    have hfit := hfits path v hleaf
    rw [← hkey, ← htext] at hfit
    constructor
    · rw [String.toList_append, String.toList_append]
      simp [hfit.2.1.one_line, hfit.2.2.one_line]
    · rw [String.toList_append]
      cases htail : text.toList with
      | nil =>
          rw [List.append_nil, String.toList_append]
          show (_ ++ ['=']).getLast? ≠ _
          rw [List.getLast?_concat]
          decide
      | cons d rest =>
          rw [List.getLast?_append_of_ne_nil _ (List.cons_ne_nil _ _), ← htail]
          intro hreturn
          have hspace := (trimmed_iff.mp hfit.2.2.trimmed).2 _ hreturn
          cases hspace

/-!
# What is read back
-/

theorem readPath_end :
    forall {path : List String} {s : String}, (readPath path).getLast? = some s ->
      trimEnd s.toList = s.toList := by
  intro path
  induction path using readPath.induct with
  | case1 =>
      intro s hs
      cases hs
  | case2 last =>
      intro s hs
      have hsame : String.ofList (trimEnd last.toList) = s := Option.some.inj hs
      rw [← hsame, String.toList_ofList]
      exact List.rdropWhile_idempotent isSpace last.toList
  | case3 segment next rest ih =>
      intro s hs
      apply ih
      rw [readPath, List.getLast?_cons] at hs
      cases hlast : (readPath (next :: rest)).getLast? with
      | none =>
          rw [List.getLast?_eq_none_iff] at hlast
          cases rest with
          | nil => cases hlast
          | cons l rest => cases hlast
      | some last =>
          rw [hlast] at hs
          exact hs

theorem readPath_same :
    forall {path : List String},
      (forall s, path.getLast? = some s -> trimEnd s.toList = s.toList) ->
        readPath path = path := by
  intro path
  induction path using readPath.induct with
  | case1 =>
      intro _
      rfl
  | case2 last =>
      intro h
      rw [readPath, h last rfl, String.ofList_toList]
  | case3 segment next rest ih =>
      intro h
      rw [readPath, ih]
      intro s hs
      apply h
      rw [List.getLast?_cons_cons]
      exact hs

def AllSpellable (config : List Member) : Prop :=
  forall path v, Leaf (object config) path v -> Spellable path (render v)

theorem fits_of_spellable (hspell : AllSpellable config) : Fits config := fun path v hleaf =>
  ⟨fun s hs => ((hspell path v hleaf).segments s hs).1, (hspell path v hleaf).key,
    (hspell path v hleaf).value⟩

theorem namedPath_spellable (hspell : AllSpellable config) {path : List String} {v : Json}
    (hleaf : Leaf (object config) path v) :
    namedPath (sectionOf path.dropLast) = path.dropLast := by
  rw [namedPath_sectionOf ((fits_of_spellable hspell) path v hleaf).1]
  exact readPath_same (hspell path v hleaf).section_end

theorem entries_shown (hconfig : distinct (object config) = true)
    (hspell : AllSpellable config) {p : List String} {t : String} :
    (p, t) ∈ entriesOf [] (shownItems config) <->
      exists v, Leaf (object config) p v ∧ t = render v := by
  have hsegments : forall path v, Leaf (object config) path v ->
      forall s, s ∈ path.dropLast -> SegmentText s :=
    fun path v hleaf => ((fits_of_spellable hspell) path v hleaf).1
  rw [mem_entriesOf_shown]
  constructor
  · rintro ⟨section_, key, hentry, hp⟩
    rcases (entry_collected hconfig hsegments).mp hentry with
      ⟨path, v, hleaf, hsection, hkey, htext⟩
    rw [hsection, namedPath_spellable hspell hleaf, hkey, dropLast_append_lastOf hleaf.1] at hp
    rw [hp]
    exact ⟨v, hleaf, htext⟩
  · rintro ⟨v, hleaf, ht⟩
    refine ⟨sectionOf p.dropLast, lastOf p, ?_, ?_⟩
    · exact (entry_collected hconfig hsegments).mpr ⟨p, v, hleaf, rfl, rfl, ht⟩
    · rw [namedPath_spellable hspell hleaf, dropLast_append_lastOf hleaf.1]

/-- The headers of the text are the sections of the settings. -/
theorem headers_shown (hconfig : distinct (object config) = true)
    (hspell : AllSpellable config) {segments : List String} :
    segments ∈ headersOf (shownItems config) <->
      exists path v, Leaf (object config) path v ∧ segments = path.dropLast := by
  have hsegments : forall path v, Leaf (object config) path v ->
      forall s, s ∈ path.dropLast -> SegmentText s :=
    fun path v hleaf => ((fits_of_spellable hspell) path v hleaf).1
  rw [mem_headersOf_shown]
  constructor
  · rintro ⟨section_, hsection, heq⟩
    rcases (section_collected hconfig hsegments).mp hsection with ⟨path, v, hleaf, hname⟩
    rw [hname, namedPath_spellable hspell hleaf] at heq
    exact ⟨path, v, hleaf, heq⟩
  · rintro ⟨path, v, hleaf, heq⟩
    refine ⟨sectionOf path.dropLast,
      (section_collected hconfig hsegments).mpr ⟨path, v, hleaf, rfl⟩, ?_⟩
    rw [namedPath_spellable hspell hleaf]
    exact heq

/-- Where no section ends in a blank or is `__proto__`, the settings are read back. -/
theorem read_spellable (hconfig : distinct (object config) = true)
    (hspell : AllSpellable config)
    (hok : iniToJson (jsonToIni config) = Except.ok read) :
    (forall p u, nodeAt read p = Node.value u <->
      exists v, Leaf (object config) p v ∧ u = Json.string (render v)) ∧
    forall p, nodeAt read p = Node.section_ <->
      p = [] ∨ exists path v, Leaf (object config) path v ∧ p <+: path.dropLast := by
  rcases iniToJson_iff.mp hok with ⟨items, final, hitems, happly, hdocument⟩
  rw [items_shown (readsBack hconfig (fits_of_spellable hspell))] at hitems
  cases hitems
  have hheaders : forall segments, segments ∈ headersOf (shownItems config) ->
      protoKey ∉ segments := by
    intro segments h hmem
    rcases (headers_shown hconfig hspell).mp h with ⟨path, v, hleaf, heq⟩
    rw [heq] at hmem
    exact ((hspell path v hleaf).segments _ hmem).2 rfl
  have hspec := applyItems_spec inDocument_start hheaders happly
  unfold Effect at hspec
  rw [hdocument] at hspec
  constructor
  · intro p u
    rw [hspec.1 p u]
    constructor
    · rintro (h | ⟨t, hmem, hu⟩)
      · exact absurd h (no_value_at_start p u)
      · rcases (entries_shown hconfig hspell).mp hmem with ⟨v, hleaf, ht⟩
        rw [ht] at hu
        exact ⟨v, hleaf, hu⟩
    · rintro ⟨v, hleaf, hu⟩
      exact Or.inr ⟨_, (entries_shown hconfig hspell).mpr ⟨v, hleaf, rfl⟩, hu⟩
  · intro p
    rw [hspec.2 p]
    constructor
    · rintro (h | ⟨segments, hmem, habove⟩)
      · exact Or.inl (section_start h)
      · rcases (headers_shown hconfig hspell).mp hmem with ⟨path, v, hleaf, heq⟩
        rw [heq] at habove
        exact Or.inr ⟨path, v, hleaf, habove⟩
    · rintro (h | ⟨path, v, hleaf, habove⟩)
      · rw [h]
        exact Or.inl rfl
      · exact Or.inr ⟨_, (headers_shown hconfig hspell).mpr ⟨path, v, hleaf, rfl⟩, habove⟩

/-!
# Values and sections by their paths
-/

theorem node_of_object :
    forall {p : List String} {members : List Member} {m : List Member},
      valueAt (object members) p = some (object m) ->
        nodeAt members p = Node.section_ ∧ membersAt members p = m := by
  intro p
  induction p with
  | nil =>
      intro members m h
      cases h
      exact ⟨rfl, rfl⟩
  | cons k p ih =>
      intro members m h
      rw [valueAt_object] at h
      rcases lookup_cases members k with hk | ⟨n, hk⟩ | ⟨w, hk, hw⟩
      · rw [hk] at h
        cases h
      · rw [hk] at h
        rw [nodeAt_object hk, membersAt_object hk]
        exact ih h
      · rw [hk] at h
        have hbeneath : valueAt w p = some (object m) := h
        cases p with
        | nil =>
            cases hbeneath
            cases hw
        | cons l p =>
            cases w with
            | object n => cases hw
            | null => cases hbeneath
            | bool b => cases hbeneath
            | number t => cases hbeneath
            | string s => cases hbeneath
            | array items => cases hbeneath

theorem object_of_section :
    forall {p : List String} {members : List Member}, nodeAt members p = Node.section_ ->
      valueAt (object members) p = some (object (membersAt members p)) := by
  intro p
  induction p with
  | nil =>
      intro members _
      rfl
  | cons k p ih =>
      intro members h
      rw [valueAt_object]
      rcases lookup_cases members k with hk | ⟨m, hk⟩ | ⟨w, hk, hw⟩
      · rw [nodeAt_missing hk] at h
        cases h
      · rw [nodeAt_object hk] at h
        rw [hk, membersAt_object hk]
        exact ih h
      · rw [nodeAt_value hw hk] at h
        split at h
        · cases h
        · cases h

theorem node_of_null :
    forall {p : List String} {members : List Member}, valueAt (object members) p = some null ->
      nodeAt members p = Node.value null := by
  intro p
  induction p with
  | nil =>
      intro members h
      cases h
  | cons k p ih =>
      intro members h
      rw [valueAt_object] at h
      rcases lookup_cases members k with hk | ⟨m, hk⟩ | ⟨w, hk, hw⟩
      · rw [hk] at h
        cases h
      · rw [hk] at h
        rw [nodeAt_object hk]
        exact ih h
      · rw [hk] at h
        have hbeneath : valueAt w p = some null := h
        rw [nodeAt_value hw hk]
        cases p with
        | nil =>
            cases hbeneath
            exact if_pos rfl
        | cons l p =>
            cases w with
            | object n => cases hw
            | null => cases hbeneath
            | bool b => cases hbeneath
            | number t => cases hbeneath
            | string s => cases hbeneath
            | array items => cases hbeneath

theorem null_of_node :
    forall {p : List String} {members : List Member}, nodeAt members p = Node.value null ->
      valueAt (object members) p = some null := by
  intro p
  induction p with
  | nil =>
      intro members h
      cases h
  | cons k p ih =>
      intro members h
      rw [valueAt_object]
      rcases lookup_cases members k with hk | ⟨m, hk⟩ | ⟨w, hk, hw⟩
      · rw [nodeAt_missing hk] at h
        cases h
      · rw [nodeAt_object hk] at h
        rw [hk]
        exact ih h
      · rw [nodeAt_value hw hk] at h
        split at h
        · rename_i hnil
          cases h
          rw [hk, hnil]
          rfl
        · cases h

theorem setting_of_value (hp : nodeAt members p = Node.value u) (hnull : u ≠ null) :
    u.isSetting = true := by
  have hobject : u.isObject = false := by
    clear hnull
    induction p generalizing members with
    | nil => cases hp
    | cons k p ih =>
        rcases lookup_cases members k with hk | ⟨m, hk⟩ | ⟨w, hk, hw⟩
        · rw [nodeAt_missing hk] at hp
          cases hp
        · rw [nodeAt_object hk] at hp
          exact ih hp
        · rw [nodeAt_value hw hk] at hp
          split at hp
          · cases hp
            exact hw
          · cases hp
  cases u with
  | object m => cases hobject
  | null => exact absurd rfl hnull
  | bool b => rfl
  | number t => rfl
  | string s => rfl
  | array items => rfl

mutual

theorem leaf_in_value :
    forall v : Json, (forall q, valueAt v q ≠ some null) ->
      (forall q, valueAt v q ≠ some (object [])) ->
        exists q u, valueAt v q = some u ∧ u.isSetting = true
  | Json.null, hnull, _ => absurd rfl (hnull [])
  | Json.bool b, _, _ => ⟨[], Json.bool b, rfl, rfl⟩
  | Json.number t, _, _ => ⟨[], Json.number t, rfl, rfl⟩
  | Json.string s, _, _ => ⟨[], Json.string s, rfl, rfl⟩
  | Json.array items, _, _ => ⟨[], Json.array items, rfl, rfl⟩
  | Json.object members, hnull, hempty => by
      rcases leaf_in_members members (fun hnil => hempty [] (by rw [hnil]; rfl)) hnull
        (fun q _ => hempty q) with ⟨q, u, hvalue, hsetting⟩
      exact ⟨q, u, hvalue, hsetting⟩

theorem leaf_in_members :
    forall members : List Member, members ≠ [] ->
      (forall q, valueAt (object members) q ≠ some null) ->
        (forall q, q ≠ [] -> valueAt (object members) q ≠ some (object [])) ->
          exists q u, valueAt (object members) q = some u ∧ u.isSetting = true
  | [], hne, _, _ => absurd rfl hne
  | (k, v) :: rest, _, hnull, hempty => by
      have hstep : forall q, valueAt (object ((k, v) :: rest)) (k :: q) = valueAt v q := by
        intro q
        rw [valueAt_object, List.lookup_cons, beq_self_eq_true]
        rfl
      rcases leaf_in_value v (fun q => by rw [← hstep]; exact hnull _)
        (fun q => by rw [← hstep]; exact hempty _ (List.cons_ne_nil _ _)) with
        ⟨q, u, hvalue, hsetting⟩
      rw [← hstep] at hvalue
      exact ⟨k :: q, u, hvalue, hsetting⟩

end

theorem leaf_beneath (h : Survives config) (hp : p ≠ [])
    (hsection : nodeAt config p = Node.section_) :
    exists path v, Leaf (object config) path v ∧ p <+: path.dropLast := by
  have hobject := object_of_section hsection
  have hbeneath : forall q, valueAt (object (membersAt config p)) q =
      valueAt (object config) (p ++ q) := by
    intro q
    rw [valueAt_append, hobject]
    rfl
  have hne : membersAt config p ≠ [] := by
    intro hnil
    rw [hnil] at hobject
    exact h.no_empty_section p hp hobject
  rcases leaf_in_members (membersAt config p) hne
    (fun q => by rw [hbeneath]; exact h.no_removal _)
    (fun q hq => by
      rw [hbeneath]
      exact h.no_empty_section _ (List.append_ne_nil_of_right_ne_nil _ hq)) with
    ⟨q, u, hvalue, hsetting⟩
  have hq : q ≠ [] := by
    intro hnil
    rw [hnil] at hvalue
    cases hvalue
    cases hsetting
  rw [hbeneath] at hvalue
  refine ⟨p ++ q, u, ⟨List.append_ne_nil_of_right_ne_nil _ hq, hvalue, hsetting⟩, ?_⟩
  rw [List.dropLast_append_of_ne_nil hq]
  exact List.prefix_append _ _

theorem section_of_leaf (hleaf : Leaf (object config) path v) (habove : p <+: path.dropLast) :
    nodeAt config p = Node.section_ := by
  have hnode := (leaf_iff_node.mp hleaf).1
  have hfull : p <+: path := habove.trans (List.dropLast_prefix path)
  have hlength : p ≠ path := by
    intro heq
    rw [heq] at habove
    have hle := habove.length_le
    rw [List.length_dropLast] at hle
    have hpos := List.length_pos_iff.mpr hleaf.1
    omega
  cases hp : nodeAt config p with
  | section_ => rfl
  | nothing =>
      have hsome : nodeAt config path ≠ Node.nothing := by
        rw [hnode]
        intro hnothing
        cases hnothing
      exact absurd hp (node_above hfull hsome)
  | value u =>
      rw [nothing_beneath_value hfull hlength hp] at hnode
      cases hnode

/-!
# The editor
-/

section Lost

variable (hok : iniToJson (jsonToIni config) = Except.ok read)
variable (hmisses : SameMisses config read)

include hok hmisses

theorem segments_of_value (hp : nodeAt config p = Node.value u) :
    forall s, s ∈ p.dropLast -> SegmentText s := by
  rcases value_of_misses hmisses hp with ⟨w, hw⟩
  rcases texts_of_value hok hw with ⟨segments, key, text, hpath, _, hsegments, _⟩
  rw [hpath, List.dropLast_concat]
  exact hsegments

theorem setting_of_sameEffect (hconfig : distinct (object config) = true)
    (hsame : SameEffect config read) (hp : nodeAt config p = Node.value u) :
    u.isSetting = true ∧ KeyText (lastOf p) ∧ ValueText (render u) := by
  have hread : distinct (object read) = true := distinct_of_wellKeyed _ (ownKeys_iniToJson hok)
  rcases value_of_misses hmisses hp with ⟨w, hw⟩
  rcases texts_of_value hok hw with ⟨segments, key, text, hpath, hw', _, hkey, htext⟩
  rw [hw'] at hw
  have hleaf : Leaf (object read) p (Json.string text) := leaf_iff_node.mpr ⟨hw, rfl⟩
  have hshown : Renders (mergePatch (object []) (object config))
      (settingOf p (Json.string text)) := by
    apply (hsame _ _).mpr
    exact (renders_alone hread _).mpr ⟨p, _, hleaf, rfl⟩
  rcases (renders_alone hconfig _).mp hshown with ⟨q, v, hq, hline⟩
  have hqnode := leaf_iff_node.mp hq
  have hfront := sectionOf_inj_of_slashFree (segments_slashFree (segments_of_value hok hmisses hp))
    (segments_slashFree (segments_of_value hok hmisses hqnode.1))
    (congrArg Setting.section_ hline)
  have hlast : lastOf p = lastOf q := congrArg Setting.key hline
  have hpq : p = q := by
    rw [← dropLast_append_lastOf hleaf.1, ← dropLast_append_lastOf hq.1, hfront, hlast]
  rw [← hpq, hp] at hqnode
  cases hqnode.1
  have hrendered : text = render u := congrArg Setting.text hline
  rw [hpath, lastOf_concat, ← hrendered]
  exact ⟨hqnode.2, hkey, htext⟩

/-- The sections that are read were shown, so none of them ends in a blank. -/
theorem spellable_of_fits (hconfig : distinct (object config) = true) (hfits : Fits config)
    (hleaf : Leaf (object config) path v) : Spellable path (render v) := by
  have hsegments : forall path v, Leaf (object config) path v ->
      forall s, s ∈ path.dropLast -> SegmentText s := fun path v hleaf => (hfits path v hleaf).1
  have hfit := hfits path v hleaf
  rcases value_of_misses hmisses (leaf_iff_node.mp hleaf).1 with ⟨w, hw⟩
  rcases opened_of_value (readsBack hconfig hfits) hok hw with ⟨segments, key, hpath, hopened⟩
  have hfront : path.dropLast = segments := by rw [hpath, List.dropLast_concat]
  constructor
  · intro s hs
    refine ⟨hfit.1 s hs, ?_⟩
    rcases texts_of_value hok hw with ⟨_, _, text, _, hw', _⟩
    rw [hw'] at hw
    have hown := allowed_of_leaf (ownKeys_iniToJson hok) (leaf_iff_node.mpr ⟨hw, rfl⟩) s
      (List.dropLast_subset _ hs)
    intro heq
    rw [heq] at hown
    cases hown
  · intro s hs
    rw [hfront] at hs
    cases hopened with
    | inl hroot =>
        rw [hroot] at hs
        cases hs
    | inr hshown =>
        rcases hshown with ⟨section_, hsection, hnamed⟩
        rcases (section_collected hconfig hsegments).mp hsection with ⟨other, v', hother, heq⟩
        rw [hnamed, heq, namedPath_sectionOf (hsegments other v' hother)] at hs
        exact readPath_end hs
  · exact hfit.2.1
  · exact hfit.2.2

/-- An empty section would be missed by the text, and taken in the configuration. -/
theorem no_empty_section_of_spellable (hconfig : distinct (object config) = true)
    (hspell : AllSpellable config) (hp : p ≠ []) :
    valueAt (object config) p ≠ some (object []) := by
  intro hempty
  have hback : SameMisses read config := fun q hq => (hmisses q hq).symm
  have hnode := node_of_object hempty
  have htaken : Not (misses read p = true) := by
    intro h
    have hfree := ((misses_iff hp).mp ((hmisses p hp).mpr h)).1
    rw [hnode.1] at hfree
    cases hfree
  rw [misses_iff hp] at htaken
  have hnovalue : forall t u, t <+: p -> nodeAt read t ≠ Node.value u := by
    intro t u habove ht
    rcases value_of_misses hback ht with ⟨w, hw⟩
    rw [section_above habove hnode.1] at hw
    cases hw
  apply htaken
  refine ⟨?_, hnovalue⟩
  cases hpath : nodeAt read p with
  | nothing => rfl
  | value u => exact absurd hpath (hnovalue p u List.prefix_rfl)
  | section_ =>
      rcases ((read_spellable hconfig hspell hok).2 p).mp hpath with
        hroot | ⟨below, v, hleaf, habove⟩
      · exact absurd hroot hp
      · rcases habove.trans (List.dropLast_prefix below) with ⟨rest, hrest⟩
        have hvalue := (leaf_iff_node.mp hleaf).1
        rw [← hrest, nodeAt_append hnode.1, hnode.2] at hvalue
        cases rest with
        | nil => cases hvalue
        | cons k rest => cases hvalue

end Lost

/-- What is lost shows on some document. -/
theorem survives_of_sameEffect (hconfig : distinct (object config) = true)
    (hok : iniToJson (jsonToIni config) = Except.ok read) (hsame : SameEffect config read) :
    Survives config := by
  have hread : distinct (object read) = true := distinct_of_wellKeyed _ (ownKeys_iniToJson hok)
  have hmisses : SameMisses config read := fun p hp => misses_of_sameEffect hconfig hread hsame hp
  have hfits : Fits config := by
    intro path v hleaf
    have hnode := (leaf_iff_node.mp hleaf).1
    exact ⟨segments_of_value hok hmisses hnode,
      (setting_of_sameEffect hok hmisses hconfig hsame hnode).2⟩
  have hspell : AllSpellable config := fun path v hleaf =>
    spellable_of_fits hok hmisses hconfig hfits hleaf
  constructor
  · exact hspell
  · intro path hnull
    have hnode := node_of_null hnull
    cases (setting_of_sameEffect hok hmisses hconfig hsame hnode).1
  · intro path hne
    exact no_empty_section_of_spellable hok hmisses hconfig hspell hne

structure SameShape (config read : List Member) : Prop where
  values : forall p, (exists u, nodeAt config p = Node.value u) <->
    exists u, nodeAt read p = Node.value u
  sections : forall p, p ≠ [] ->
    (nodeAt config p = Node.section_ <-> nodeAt read p = Node.section_)

theorem SameShape.symm (h : SameShape config read) : SameShape read config :=
  ⟨fun p => (h.values p).symm, fun p hp => (h.sections p hp).symm⟩

theorem misses_of_sameShape (h : SameShape config read) (hp : p ≠ [])
    (hmisses : misses config p = true) : misses read p = true := by
  rw [misses_iff hp] at hmisses ⊢
  constructor
  · cases hother : nodeAt read p with
    | nothing => rfl
    | section_ =>
        rw [(h.sections p hp).mpr hother] at hmisses
        cases hmisses.1
    | value u =>
        rcases (h.values p).mpr ⟨u, hother⟩ with ⟨w, hw⟩
        rw [hw] at hmisses
        cases hmisses.1
  · intro t u habove ht
    rcases (h.values t).mpr ⟨u, ht⟩ with ⟨w, hw⟩
    exact hmisses.2 t w habove hw

theorem sameMisses_of_sameShape (h : SameShape config read) : SameMisses config read :=
  fun _ hp => ⟨misses_of_sameShape h hp, misses_of_sameShape h.symm hp⟩

theorem leaf_read_iff (hconfig : distinct (object config) = true)
    (hok : iniToJson (jsonToIni config) = Except.ok read) (h : Survives config) :
    Leaf (object read) p u <->
      exists v, Leaf (object config) p v ∧ u = Json.string (render v) := by
  rw [leaf_iff_node, (read_spellable hconfig h.settings hok).1]
  constructor
  · rintro ⟨⟨v, hv, hu⟩, _⟩
    exact ⟨v, hv, hu⟩
  · rintro ⟨v, hv, hu⟩
    refine ⟨⟨v, hv, hu⟩, ?_⟩
    rw [hu]
    rfl

theorem sameShape_of_survives (hconfig : distinct (object config) = true)
    (hok : iniToJson (jsonToIni config) = Except.ok read) (h : Survives config) :
    SameShape config read := by
  have hspec := read_spellable hconfig h.settings hok
  constructor
  · intro p
    constructor
    · rintro ⟨u, hu⟩
      have hnull : u ≠ null := by
        intro heq
        rw [heq] at hu
        exact h.no_removal p (null_of_node hu)
      exact ⟨_, (hspec.1 p _).mpr
        ⟨u, leaf_iff_node.mpr ⟨hu, setting_of_value hu hnull⟩, rfl⟩⟩
    · rintro ⟨u, hu⟩
      rcases (hspec.1 p u).mp hu with ⟨v, hv, _⟩
      exact ⟨v, (leaf_iff_node.mp hv).1⟩
  · intro p hp
    rw [hspec.2 p]
    constructor
    · intro hnode
      exact Or.inr (leaf_beneath h hp hnode)
    · rintro (hroot | ⟨path, v, hv, habove⟩)
      · exact absurd hroot hp
      · exact section_of_leaf hv habove

theorem sameEffect_of_survives (hconfig : distinct (object config) = true)
    (hok : iniToJson (jsonToIni config) = Except.ok read) (h : Survives config) :
    SameEffect config read := by
  have hread : distinct (object read) = true := distinct_of_wellKeyed _ (ownKeys_iniToJson hok)
  have hmisses := sameMisses_of_sameShape (sameShape_of_survives hconfig hok h)
  intro target line
  unfold Renders
  rw [mergePatch_object, mergePatch_object]
  constructor
  · rintro ⟨p, u, hmerged, hline⟩
    cases (leaf_merged p hconfig).mp hmerged with
    | inl hown =>
        have hleaf : Leaf (object read) p (Json.string (render u)) :=
          (leaf_read_iff hconfig hok h).mpr ⟨u, hown, rfl⟩
        exact ⟨p, Json.string (render u), (leaf_merged p hread).mpr (Or.inl hleaf), hline⟩
    | inr hold =>
        refine ⟨p, u, ?_, hline⟩
        exact (leaf_merged p hread).mpr (Or.inr ⟨(hmisses p hold.2.1).mp hold.1, hold.2⟩)
  · rintro ⟨p, u, hmerged, hline⟩
    cases (leaf_merged p hread).mp hmerged with
    | inl hown =>
        rcases (leaf_read_iff hconfig hok h).mp hown with ⟨v, hv, hu⟩
        refine ⟨p, v, (leaf_merged p hconfig).mpr (Or.inl hv), ?_⟩
        rw [hline, hu]
        rfl
    | inr hold =>
        refine ⟨p, u, ?_, hline⟩
        exact (leaf_merged p hconfig).mpr (Or.inr ⟨(hmisses p hold.2.1).mpr hold.1, hold.2⟩)

/-- Saved unedited, a configuration keeps its effect on every document just when
nothing of it is lost in the text. -/
theorem unedited_keeps_effect_iff (config : ConfigObject) {read : List Member}
    (hok : iniToJson (jsonToIni config.members) = Except.ok read) :
    SameEffect config.members read <-> Survives config.members := by
  constructor
  · exact survives_of_sameEffect config.distinct hok
  · exact sameEffect_of_survives config.distinct hok

def plainConfig : ConfigObject where
  members := [("modules", object [("CheckDisk", Json.string "enabled")])]
  distinct := by decide

def removingConfig : ConfigObject where
  members := [("a", null)]
  distinct := by decide

/-- A section with one plain setting is saved as it was. -/
theorem unedited_keeps_effect_iff_plain :
    SameEffect plainConfig.members
      [("modules", object [("CheckDisk", Json.string "enabled")])] <->
        Survives plainConfig.members :=
  unedited_keeps_effect_iff plainConfig rfl

/-- A removal is not shown, and is gone once the text is saved. -/
theorem removal_lost_in_editor :
    Not (forall (config : ConfigObject) (read : List Member),
      iniToJson (jsonToIni config.members) = Except.ok read ->
        SameEffect config.members read) := by
  intro h
  have hok : iniToJson (jsonToIni removingConfig.members) = Except.ok [] := rfl
  have hsame := h removingConfig [] hok (object [("a", Json.string "1")])
    { section_ := "/", key := "a", text := "1" }
  have hkept : Renders (mergePatch (object [("a", Json.string "1")]) (object []))
      { section_ := "/", key := "a", text := "1" } :=
    ⟨["a"], Json.string "1", ⟨List.cons_ne_nil _ _, rfl, rfl⟩, rfl⟩
  rcases hsame.mpr hkept with ⟨path, v, hleaf, _⟩
  exact not_leaf_empty path v hleaf

end Web
end FleetServer
