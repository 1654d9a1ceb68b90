import FleetServer.Web.IniScanners

/-!
# Edits of the form and the document

What reading, setting, removing and renaming one key of a text does to the document
that `iniToJson` reads from it.
-/

namespace FleetServer
namespace Web

open FleetServer.Core
open Core.Json

variable {raw keyText valueText target : List Char} {ls before after : List (List Char)}
variable {key newKey value t : String} {p q path : List String} {items items' : List Item}
variable {es fs : List (List String × String)} {old new members : List Member}
variable {text section_ : String}

/-!
# Documents
-/

def settingAt (members : List Member) (p : List String) : Option String :=
  match nodeAt members p with
  | Node.value (Json.string t) => some t
  | _ => none

/-- The setting is there, in sections made where there were none; nothing else changed. -/
def LeafSet (path : List String) (key value : String) (old new : List Member) : Prop :=
  forall q, nodeAt new q =
    if q = path ++ [key] then Node.value (Json.string value)
    else if q <+: path then Node.section_
    else nodeAt old q

/-- The setting is gone, if there was one; nothing else changed. -/
def LeafRemoved (path : List String) (key : String) (old new : List Member) : Prop :=
  forall q, nodeAt new q =
    if q = path ++ [key] ∧ (settingAt old q).isSome then Node.nothing else nodeAt old q

structure LeafRenamed (path : List String) (key newKey : String) (old new : List Member) :
    Prop where
  absent : settingAt old (path ++ [key]) = none -> forall q, nodeAt new q = nodeAt old q
  present : forall t, settingAt old (path ++ [key]) = some t -> forall q, nodeAt new q =
    if q = path ++ [key] then Node.nothing
    else if q = path ++ [newKey] then Node.value (Json.string t)
    else nodeAt old q

structure NoCollision (members : List Member) (path : List String) (key : String) : Prop where
  above : forall q u, q <+: path -> nodeAt members q ≠ Node.value u
  here : nodeAt members (path ++ [key]) ≠ Node.section_

theorem settingAt_eq_some : settingAt members p = some t <->
    nodeAt members p = Node.value (Json.string t) := by
  unfold settingAt
  constructor
  · intro h
    split at h
    · rename_i hnode
      cases h
      exact hnode
    · cases h
  · intro h
    rw [h]

theorem settingAt_iff (hdenotes : Denotes members items) :
    settingAt members p = some t <-> (p, t) ∈ entriesOf [] items := by
  rw [settingAt_eq_some, hdenotes.values p]
  constructor
  · intro h
    rcases h with ⟨t', hmem, hsame⟩
    cases hsame
    exact hmem
  · intro h
    exact ⟨t, h, rfl⟩

/-!
# An entry put among others
-/

theorem nodup_with (h : ((es ++ fs).map Prod.fst).Nodup)
    (hp : forall t, (p, t) ∉ es ++ fs) :
    ((es ++ (p, t) :: fs).map Prod.fst).Nodup := by
  have hperm : (es ++ (p, t) :: fs).map Prod.fst |>.Perm (p :: (es ++ fs).map Prod.fst) :=
    (List.perm_middle.map Prod.fst)
  rw [hperm.nodup_iff, List.nodup_cons]
  constructor
  · intro hmem
    rcases List.mem_map.mp hmem with ⟨e, he, hsame⟩
    apply hp e.2
    rw [← hsame]
    exact he
  · exact h

theorem mem_with : (q, t) ∈ es ++ (p, value) :: fs <->
    (q = p ∧ t = value) ∨ (q, t) ∈ es ++ fs := by
  simp only [List.mem_append, List.mem_cons, Prod.mk.injEq]
  constructor
  · intro h
    rcases h with h | h | h
    · exact Or.inr (Or.inl h)
    · exact Or.inl h
    · exact Or.inr (Or.inr h)
  · intro h
    rcases h with h | h | h
    · exact Or.inr (Or.inl h)
    · exact Or.inl h
    · exact Or.inr (Or.inr h)

theorem wellFormed_with (hentries : entriesOf [] items' = es ++ (p, value) :: fs)
    (hnodup : ((es ++ fs).map Prod.fst).Nodup) (hnew : forall t, (p, t) ∉ es ++ fs)
    (hbeside : forall q t segments, (q, t) ∈ es ++ fs -> segments ∈ headersOf items' ->
      ¬ q <+: segments)
    (hhere : forall segments, segments ∈ headersOf items' -> ¬ p <+: segments) :
    WellFormed items' where
  distinct := by
    rw [hentries]
    exact nodup_with hnodup hnew
  beside q t segments hq hsegments := by
    rw [hentries] at hq
    cases mem_with.mp hq with
    | inl hsame =>
        rw [hsame.1]
        exact hhere segments hsegments
    | inr hin => exact hbeside q t segments hin hsegments

theorem ordinary_with (hentries : entriesOf [] items' = es ++ (p, value) :: fs)
    (hnames : forall q t, (q, t) ∈ es ++ fs -> forall k, k ∈ q -> inherits k = false)
    (hp : forall k, k ∈ p -> inherits k = false)
    (hheaders : forall segments, segments ∈ headersOf items' -> forall k, k ∈ segments ->
      inherits k = false) : OrdinaryNames items' where
  headers := hheaders
  entries q t hq k hk := by
    rw [hentries] at hq
    cases mem_with.mp hq with
    | inl hsame =>
        rw [hsame.1] at hk
        exact hp k hk
    | inr hin => exact hnames q t hin k hk

theorem leafSet_of (hold : Denotes old items) (hnew : Denotes new items')
    (hself : (path ++ [key], value) ∈ entriesOf [] items')
    (hothers : forall q t, q ≠ path ++ [key] ->
      ((q, t) ∈ entriesOf [] items' <-> (q, t) ∈ entriesOf [] items))
    (hmade : path = [] ∨ exists segments, segments ∈ headersOf items' ∧ path <+: segments)
    (hheaders : forall q, ¬ q <+: path ->
      ((exists segments, segments ∈ headersOf items' ∧ q <+: segments) <->
        exists segments, segments ∈ headersOf items ∧ q <+: segments)) :
    LeafSet path key value old new := by
  intro q
  by_cases hq : q = path ++ [key]
  · rw [if_pos hq, hq]
    exact (hnew.values _ _).mpr ⟨value, hself, rfl⟩
  · rw [if_neg hq]
    by_cases habove : q <+: path
    · rw [if_pos habove, hnew.sections]
      cases hmade with
      | inl hroot =>
          rw [hroot] at habove
          exact Or.inl (List.prefix_nil.mp habove)
      | inr hheader =>
          rcases hheader with ⟨segments, hmem, hpath⟩
          exact Or.inr ⟨segments, hmem, habove.trans hpath⟩
    · rw [if_neg habove]
      apply node_ext
      · intro u
        rw [hnew.values, hold.values]
        simp only [hothers q _ hq]
      · rw [hnew.sections, hold.sections, hheaders q habove]

/-!
# Removing
-/

/-- The lines that `removeIniKey` keeps. -/
def keptLines (target keyText form : List Char) (ls : List (List Char)) : List (List Char) :=
  ((scanFrom form ls).filter fun l => !isLineOf target keyText l).map Scanned.raw

theorem keptLines_drop {form : List Char} (hsetting : keySetting raw = some (keyText, valueText))
    (hform : form = target) :
    keptLines target keyText form (raw :: ls) = keptLines target keyText form ls := by
  have hline : isLineOf target keyText { section_ := nextSection form raw, raw := raw } =
      true := by
    apply isLineOf_iff.mpr
    rw [value_of_setting hsetting]
    exact ⟨(nextSection_setting hsetting _).trans hform, hsetting⟩
  unfold keptLines
  rw [scanFrom, List.filter_cons, hline, nextSection_setting hsetting]
  rfl

theorem keptLines_keep {form : List Char}
    (hkeep : forall v, keySetting raw = some (keyText, v) -> form ≠ target) :
    keptLines target keyText form (raw :: ls) =
      raw :: keptLines target keyText (nextSection form raw) ls := by
  have hline : isLineOf target keyText { section_ := nextSection form raw, raw := raw } =
      false := by
    rw [Bool.eq_false_iff]
    intro hyes
    have hparts := isLineOf_iff.mp hyes
    apply hkeep _ hparts.2
    rw [← hparts.1]
    exact (nextSection_setting hparts.2 _).symm
  unfold keptLines
  rw [scanFrom, List.filter_cons, hline]
  rfl

theorem keptLines_append {form : List Char} (ls ms : List (List Char)) :
    keptLines target keyText form (ls ++ ms) =
      keptLines target keyText form ls ++ keptLines target keyText (endSection form ls) ms := by
  unfold keptLines
  rw [scanFrom_append, List.filter_append, List.map_append]

theorem removeIniKey_eq (text section_ key : String) :
    removeIniKey text section_ key = String.ofList (joinLines
      (keptLines (canonicalSection section_.toList) key.toList ['/']
        (splitLines text.toList))) :=
  rfl

theorem mem_keptLines {form line : List Char} (h : line ∈ keptLines target keyText form ls) :
    line ∈ ls := by
  rcases List.mem_map.mp h with ⟨l, hl, hsame⟩
  rw [← map_raw_scanFrom form ls, ← hsame]
  exact List.mem_map_of_mem (List.mem_filter.mp hl).1

theorem dropped_or_kept (target keyText form raw : List Char) :
    (exists v, keySetting raw = some (keyText, v) ∧ form = target) ∨
      forall v, keySetting raw = some (keyText, v) -> form ≠ target := by
  by_cases h : exists v, keySetting raw = some (keyText, v) ∧ form = target
  · exact Or.inl h
  · apply Or.inr
    intro v hsetting hform
    exact h ⟨v, hsetting, hform⟩

theorem items_of_kept (target keyText form : List Char) (current : List String)
    (h : ls.mapM itemOf = some items) :
    exists items', (keptLines target keyText form ls).mapM itemOf = some items' ∧
      headersOf items' = headersOf items ∧
        (entriesOf current items').Sublist (entriesOf current items) ∧
          endSegments current (keptLines target keyText form ls) = endSegments current ls := by
  induction ls generalizing form current items with
  | nil =>
      cases h
      exact ⟨[], rfl, rfl, List.Sublist.refl _, rfl⟩
  | cons raw rest ih =>
      rcases mapM_itemOf_cons h with ⟨item, xs, hitem, hxs, rfl⟩
      cases dropped_or_kept target keyText form raw with
      | inl hdrop =>
          rcases hdrop with ⟨v, hsetting, hform⟩
          rw [keptLines_drop hsetting hform]
          rw [itemOf_of_setting hsetting] at hitem
          cases hitem
          rcases ih form current hxs with ⟨items', hitems', hheaders, hentries, hend⟩
          refine ⟨items', hitems', hheaders, List.Sublist.cons _ hentries, ?_⟩
          rw [hend]
          show _ = endSegments (nextSegments current raw) rest
          rw [nextSegments_entry (itemOf_of_setting hsetting)]
      | inr hkeep =>
          rw [keptLines_keep hkeep]
          have hmapM : forall {items' : List Item},
              (keptLines target keyText (nextSection form raw) rest).mapM itemOf =
                some items' ->
              (raw :: keptLines target keyText (nextSection form raw) rest).mapM itemOf =
                some (item :: items') := by
            intro items' hitems'
            rw [List.mapM_cons, hitem, hitems']
            rfl
          rcases ih (nextSection form raw) (nextSegments current raw) hxs with
            ⟨items', hitems', hheaders, hentries, hend⟩
          refine ⟨item :: items', hmapM hitems', ?_, ?_, hend⟩
          · cases item with
            | blank => exact hheaders
            | header segments => exact congrArg (segments :: ·) hheaders
            | entry k v => exact hheaders
          · cases item with
            | blank =>
                rw [nextSegments_blank hitem] at hentries
                exact hentries
            | header segments =>
                rw [nextSegments_header hitem] at hentries
                exact hentries
            | entry k v =>
                rw [nextSegments_entry hitem] at hentries
                exact List.Sublist.cons_cons _ hentries

/-- The key lines of `key` that are in the section for the form are those that are in it
for `iniToJson`. -/
def SameLines (text section_ key : String) : Prop :=
  forall before raw after v, splitLines text.toList = before ++ raw :: after ->
    keySetting raw = some (key.toList, v) ->
      (endSection ['/'] before = canonicalSection section_.toList <->
        endSegments [] before = sectionPath section_)

theorem entries_of_kept {form : List Char} {current : List String} (q : List String)
    (t : String) (h : ls.mapM itemOf = some items)
    (hkept : (keptLines target keyText form ls).mapM itemOf = some items')
    (hsame : forall before raw after v, ls = before ++ raw :: after ->
      keySetting raw = some (keyText, v) ->
        (endSection form before = target <-> endSegments current before = path)) :
    (q, t) ∈ entriesOf current items' <->
      (q, t) ∈ entriesOf current items ∧ q ≠ path ++ [String.ofList keyText] := by
  induction ls generalizing form current items items' with
  | nil =>
      cases h
      cases hkept
      constructor
      · intro hmem
        cases hmem
      · intro hmem
        exact hmem.1
  | cons raw rest ih =>
      rcases mapM_itemOf_cons h with ⟨item, xs, hitem, hxs, rfl⟩
      have hlater : forall before raw' after v, rest = before ++ raw' :: after ->
          keySetting raw' = some (keyText, v) ->
            (endSection (nextSection form raw) before = target <->
              endSegments (nextSegments current raw) before = path) := by
        intro before raw' after v hrest
        apply hsame (raw :: before) raw' after v
        rw [hrest]
        rfl
      cases dropped_or_kept target keyText form raw with
      | inl hdrop =>
          rcases hdrop with ⟨v, hsetting, hform⟩
          have hcurrent : current = path := (hsame [] raw rest v rfl hsetting).mp hform
          rw [keptLines_drop hsetting hform] at hkept
          rw [nextSection_setting hsetting,
            nextSegments_entry (itemOf_of_setting hsetting)] at hlater
          rw [itemOf_of_setting hsetting] at hitem
          cases hitem
          rw [ih hxs hkept hlater]
          show _ <-> (q, t) ∈ (_, _) :: entriesOf current xs ∧ _
          rw [List.mem_cons, Prod.mk.injEq, hcurrent]
          constructor
          · intro hmem
            exact ⟨Or.inr hmem.1, hmem.2⟩
          · intro hmem
            cases hmem.1 with
            | inl hhead => exact absurd hhead.1 hmem.2
            | inr hin => exact ⟨hin, hmem.2⟩
      | inr hkeep =>
          rw [keptLines_keep hkeep] at hkept
          rcases mapM_itemOf_cons hkept with ⟨item', xs', hitem', hxs', rfl⟩
          rw [hitem] at hitem'
          cases hitem'
          have hrest := ih hxs hxs' hlater
          cases item with
          | blank =>
              rw [nextSegments_blank hitem] at hrest
              exact hrest
          | header segments =>
              rw [nextSegments_header hitem] at hrest
              exact hrest
          | entry k v =>
              rw [nextSegments_entry hitem] at hrest
              have hother : current ++ [k] ≠ path ++ [String.ofList keyText] := by
                intro heq
                have hparts := List.append_inj' heq rfl
                have hkey : k.toList = keyText := by
                  rw [List.singleton_inj.mp hparts.2, String.toList_ofList]
                have hsetting := setting_of_entry hitem
                rw [hkey] at hsetting
                exact hkeep _ hsetting ((hsame [] raw rest _ rfl hsetting).mpr hparts.1)
              show (q, t) ∈ (_, _) :: entriesOf current xs' <->
                (q, t) ∈ (_, _) :: entriesOf current xs ∧ _
              rw [List.mem_cons, List.mem_cons, hrest, Prod.mk.injEq]
              constructor
              · intro hmem
                cases hmem with
                | inl hhead =>
                    constructor
                    · exact Or.inl hhead
                    · rw [hhead.1]
                      exact hother
                | inr hin => exact ⟨Or.inr hin.1, hin.2⟩
              · intro hmem
                cases hmem.1 with
                | inl hhead => exact Or.inl hhead
                | inr hin => exact Or.inr ⟨hin, hmem.2⟩

theorem items_of_joined (hlines : forall line, line ∈ ls -> '\n' ∉ line)
    (h : ls.mapM itemOf = some items) :
    exists items', (splitLines (joinLines ls)).mapM itemOf = some items' ∧
      headersOf items' = headersOf items ∧ entriesOf [] items' = entriesOf [] items := by
  cases ls with
  | nil =>
      cases h
      exact ⟨[Item.blank], rfl, rfl, rfl⟩
  | cons line rest =>
      exact ⟨items, items_of_join hlines (List.cons_ne_nil _ _) h, rfl, rfl⟩

theorem items_of_removed (section_ key : String)
    (hitems : (splitLines text.toList).mapM itemOf = some items) :
    exists kept items', (keptLines (canonicalSection section_.toList) key.toList ['/']
        (splitLines text.toList)).mapM itemOf = some kept ∧
      (splitLines (removeIniKey text section_ key).toList).mapM itemOf = some items' ∧
        headersOf items' = headersOf items ∧ entriesOf [] items' = entriesOf [] kept ∧
          (entriesOf [] items').Sublist (entriesOf [] items) := by
  rcases items_of_kept (canonicalSection section_.toList) key.toList ['/'] [] hitems with ⟨kept, hkept, hheaders, hentries, _⟩
  have hlines : forall line, line ∈ keptLines (canonicalSection section_.toList) key.toList
      ['/'] (splitLines text.toList) -> '\n' ∉ line :=
    fun line hline => (mem_splitLines (mem_keptLines hline)).1
  rcases items_of_joined hlines hkept with ⟨items', hitems', hheaders', hentries'⟩
  refine ⟨kept, items', hkept, ?_, hheaders'.trans hheaders, hentries', ?_⟩
  · rw [removeIniKey_eq, String.toList_ofList]
    exact hitems'
  · rw [hentries']
    exact hentries

theorem wellFormed_fewer (hformed : WellFormed items)
    (hheaders : headersOf items' = headersOf items)
    (hentries : (entriesOf [] items').Sublist (entriesOf [] items)) : WellFormed items' where
  distinct := hformed.distinct.sublist (hentries.map Prod.fst)
  beside p t segments hp hsegments := by
    rw [hheaders] at hsegments
    exact hformed.beside p t segments (hentries.subset hp) hsegments

theorem ordinary_fewer (hnames : OrdinaryNames items)
    (hheaders : headersOf items' = headersOf items)
    (hentries : (entriesOf [] items').Sublist (entriesOf [] items)) : OrdinaryNames items' where
  headers segments hsegments := by
    rw [hheaders] at hsegments
    exact hnames.headers segments hsegments
  entries p t hp := hnames.entries p t (hentries.subset hp)

theorem remove_agrees (hitems : (splitLines text.toList).mapM itemOf = some items)
    (hformed : WellFormed items) (hnames : OrdinaryNames items) (hold : Denotes old items)
    (hsame : SameLines text section_ key) :
    exists new, iniToJson (removeIniKey text section_ key) = Except.ok new ∧
      LeafRemoved (sectionPath section_) key old new := by
  rcases items_of_removed section_ key hitems with
    ⟨kept, items', hkept, hitems', hheaders, hentries, hsub⟩
  rcases accepts_ordinary hitems' (wellFormed_fewer hformed hheaders hsub)
    (ordinary_fewer hnames hheaders hsub) with ⟨new, hok, hnew⟩
  refine ⟨new, hok, ?_⟩
  have hmem : forall q t, (q, t) ∈ entriesOf [] items' <->
      (q, t) ∈ entriesOf [] items ∧ q ≠ sectionPath section_ ++ [key] := by
    intro q t
    have hiff := entries_of_kept q t hitems hkept hsame
    rw [String.ofList_toList] at hiff
    rw [hentries]
    exact hiff
  intro q
  by_cases hq : q = sectionPath section_ ++ [key]
  · cases hset : settingAt old q with
    | some t =>
        rw [if_pos ⟨hq, rfl⟩]
        have hvalue := settingAt_eq_some.mp hset
        apply node_ext
        · intro u
          rw [hnew.values]
          constructor
          · intro h
            rcases h with ⟨t', ht', _⟩
            exact absurd hq ((hmem q t').mp ht').2
          · intro h
            cases h
        · rw [hnew.sections, hheaders, ← hold.sections, hvalue]
          constructor
          · intro h
            cases h
          · intro h
            cases h
    | none =>
        rw [if_neg (by simp)]
        apply node_ext
        · intro u
          rw [hnew.values, hold.values]
          constructor
          · intro h
            rcases h with ⟨t', ht', _⟩
            exact absurd hq ((hmem q t').mp ht').2
          · intro h
            rcases h with ⟨t', ht', _⟩
            rw [(settingAt_iff hold).mpr ht'] at hset
            cases hset
        · rw [hnew.sections, hold.sections, hheaders]
  · rw [if_neg fun h => hq h.1]
    apply node_ext
    · intro u
      rw [hnew.values, hold.values]
      simp only [hmem, ne_eq, hq, not_false_eq_true, and_true]
    · rw [hnew.sections, hold.sections, hheaders]

theorem sameLines_of_remove (hitems : (splitLines text.toList).mapM itemOf = some items)
    (hproto : NoProto items) (hformed : WellFormed items) (hold : Denotes old items)
    (hok : iniToJson (removeIniKey text section_ key) = Except.ok new)
    (hremoved : LeafRemoved (sectionPath section_) key old new) :
    SameLines text section_ key := by
  intro before raw after v hlines hsetting
  rcases items_of_removed section_ key hitems with
    ⟨kept, items', hkept, hitems', hheaders, hentries, hsub⟩
  have hproto' : NoProto items' := by
    intro segments hsegments
    rw [hheaders] at hsegments
    exact hproto segments hsegments
  have hnew := (accepted hok hitems' hproto').2.2
  rw [hlines] at hitems hkept
  rcases entry_of_line hitems hsetting with ⟨xs, ys, hxs, hys, rfl⟩
  rw [String.ofList_toList] at hold hformed hsub
  have hE : entriesOf [] (xs ++ Item.entry key (String.ofList v) :: ys) = _ :=
    entriesOf_entry hxs key (String.ofList v) ys
  have hmem : (endSegments [] before ++ [key], String.ofList v) ∈
      entriesOf [] (xs ++ Item.entry key (String.ofList v) :: ys) := by
    rw [hE]
    exact List.mem_append_right _ List.mem_cons_self
  rcases items_of_kept (canonicalSection section_.toList) key.toList ['/'] [] hxs with ⟨xs', hxs', _, hsubXs, hend⟩
  rw [keptLines_append] at hkept
  constructor
  · intro hform
    by_contra hother
    rw [keptLines_drop hsetting hform] at hkept
    rcases items_of_kept (canonicalSection section_.toList) key.toList
      (endSection ['/'] before) (endSegments [] before) hys with
      ⟨ys', hys', _, hsubYs, _⟩
    rw [mapM_itemOf_append hxs' hys'] at hkept
    cases hkept
    have hstays := hremoved (endSegments [] before ++ [key])
    rw [if_neg fun h => hother (List.append_inj' h.1 rfl).1,
      (hold.values _ _).mpr ⟨_, hmem, rfl⟩, hnew.values] at hstays
    rcases hstays with ⟨t, ht, _⟩
    rw [hentries, entriesOf_behind hxs', hend] at ht
    -- The entry would be there a second time.
    have hnodup := hformed.distinct
    rw [hE] at hnodup
    have hperm : (entriesOf [] xs ++ (endSegments [] before ++ [key], String.ofList v) ::
        entriesOf (endSegments [] before) ys).map Prod.fst |>.Perm
          ((endSegments [] before ++ [key]) ::
            (entriesOf [] xs ++ entriesOf (endSegments [] before) ys).map Prod.fst) :=
      List.perm_middle.map Prod.fst
    rw [hperm.nodup_iff, List.nodup_cons] at hnodup
    apply hnodup.1
    apply List.mem_map.mpr
    exact ⟨_, (hsubXs.append hsubYs).subset ht, rfl⟩
  · intro hpath
    by_contra hform
    rw [keptLines_keep fun _ _ => hform] at hkept
    have hthere := mapM_itemOf_split hkept
    rcases hthere with ⟨first, rest, hfirst, hrest, rfl⟩
    rcases mapM_itemOf_cons hrest with ⟨item, more, hitem, hmore, rfl⟩
    rw [itemOf_of_setting hsetting, String.ofList_toList] at hitem
    cases hitem
    have hkeptEntry : (sectionPath section_ ++ [key], String.ofList v) ∈ entriesOf [] items' := by
      rw [hentries, entriesOf_entry hfirst, hend, hpath]
      exact List.mem_append_right _ List.mem_cons_self
    have hgone := hremoved (sectionPath section_ ++ [key])
    rw [hpath] at hmem
    rw [if_pos, (hnew.values _ _).mpr ⟨_, hkeptEntry, rfl⟩] at hgone
    · cases hgone
    · constructor
      · rfl
      · rw [(settingAt_iff hold).mpr hmem]
        rfl

end Web
end FleetServer
