import FleetServer.Web.Fields
import FleetServer.Web.IniLens

/-!
# Conditional fields follow an edit

A field is shown by what the keys of the fields declared before it say.  The loop
therefore meets each conditional field when nothing that decides about it will change
any more, and leaves its key as the whole text in the end asks for.
-/

namespace FleetServer
namespace Web

open FleetServer.Core
open Bindings

variable {t : BundleTemplate} {f g parent : TemplateField} {ini ini' next section_ key : String}
variable {before after rest : List TemplateField} {p : Place} {wasVisible : List (String × Bool)}

/-!
# Reading one place
-/

def placeOf (section_ key : String) : Place :=
  (canonicalSection section_.toList, key.toList)

def reads (ini : String) (p : Place) : Option (List Char) :=
  (bindings ini.toList).lookup p

theorem getIniValue_reads (ini section_ key : String) :
    getIniValue ini section_ key = (reads ini (placeOf section_ key)).map String.ofList :=
  getIniValue_eq ini section_ key

theorem reads_set (ini : String) {v : String} (hsection : '\n' ∉ section_.toList)
    (hkey : KeyText key) (hvalue : '\n' ∉ v.toList) :
    reads (setIniValue ini section_ key v) (placeOf section_ key) = some (trimChars v.toList) :=
  lookup_put (bindings_setIniValue ini section_ hsection hkey hvalue)

theorem reads_set_other (ini : String) {v : String} (hsection : '\n' ∉ section_.toList)
    (hkey : KeyText key) (hvalue : '\n' ∉ v.toList) (hp : p ≠ placeOf section_ key) :
    reads (setIniValue ini section_ key v) p = reads ini p :=
  lookup_put_other (bindings_setIniValue ini section_ hsection hkey hvalue) hp

theorem reads_remove (ini section_ key : String) :
    reads (removeIniKey ini section_ key) (placeOf section_ key) = none := by
  unfold reads
  rw [bindings_removeIniKey]
  exact lookup_remove _ _

theorem reads_remove_other (ini : String) (hp : p ≠ placeOf section_ key) :
    reads (removeIniKey ini section_ key) p = reads ini p := by
  unfold reads
  rw [bindings_removeIniKey]
  exact lookup_remove_other hp

/-!
# Well-formed templates
-/

def FieldKind.settings : FieldKind -> List (String × String)
  | choice options => options.flatMap fun o => o.settings.map fun s => (s.1, s.2.1)
  | kind => kind.boundTo.toList

def TemplateField.governs (f : TemplateField) : List Place :=
  f.kind.settings.map fun s => placeOf s.1 s.2

def TemplateField.conditional (f : TemplateField) : List Place :=
  match f.when_, f.kind.boundTo with
  | some _, some (section_, key) => [placeOf section_ key]
  | _, _ => []

def FieldKind.defaultText : FieldKind -> Option String
  | text _ _ default_ => default_
  | select _ _ default_ => some default_
  | _ => none

structure FieldKind.OneLine (kind : FieldKind) : Prop where
  names : forall s, s ∈ kind.settings -> '\n' ∉ s.1.toList ∧ KeyText s.2
  default_ : forall d, d ∈ kind.defaultText -> '\n' ∉ d.toList
  options : forall options, kind = FieldKind.choice options ->
    forall o, o ∈ options -> forall s, s ∈ o.settings -> '\n' ∉ s.2.2.toList

structure BundleTemplate.WellFormed (t : BundleTemplate) : Prop where
  ids : (t.fields.map TemplateField.id).Nodup
  /-- Parents are declared before their dependents. -/
  ordered : forall before f after w, t.fields = before ++ f :: after -> f.when_ = some w ->
    forall parent, parent ∈ t.fields -> parent.id = w.field -> parent ∈ before
  one_line : forall f, f ∈ t.fields -> f.kind.OneLine
  disjoint : t.fields.Pairwise fun f g => List.Disjoint f.governs g.governs

theorem settings_bound (h : f.kind.boundTo = some (section_, key)) :
    f.kind.settings = [(section_, key)] := by
  cases hkind : f.kind with
  | choice options =>
      rw [hkind] at h
      cases h
  | text s k d =>
      rw [hkind] at h
      cases h
      rfl
  | bool s k d =>
      rw [hkind] at h
      cases h
      rfl
  | select s k d =>
      rw [hkind] at h
      cases h
      rfl
  | facts =>
      rw [hkind] at h
      cases h
  | table =>
      rw [hkind] at h
      cases h

theorem governs_bound (h : f.kind.boundTo = some (section_, key)) :
    f.governs = [placeOf section_ key] := by
  unfold TemplateField.governs
  rw [settings_bound h]
  rfl

theorem governs_of_conditional (h : p ∈ f.conditional) : p ∈ f.governs := by
  unfold TemplateField.conditional at h
  split at h
  · rename_i hbound
    rw [governs_bound hbound]
    exact h
  · cases h

theorem disjoint_split (ht : t.WellFormed) (hsplit : t.fields = before ++ f :: after) :
    (forall x, x ∈ before -> List.Disjoint x.governs f.governs) ∧
      forall x, x ∈ after -> List.Disjoint f.governs x.governs := by
  have hpairs := ht.disjoint
  rw [hsplit, List.pairwise_append] at hpairs
  constructor
  · intro x hx
    exact hpairs.2.2 x hx f List.mem_cons_self
  · intro x hx
    exact (List.pairwise_cons.mp hpairs.2.1).1 x hx

/-!
# Visibility
-/

theorem fieldValue_congr (h : forall p, p ∈ f.governs -> reads ini p = reads ini' p) :
    fieldValue ini f = fieldValue ini' f := by
  have hget : forall s, s ∈ f.kind.settings -> getIniValue ini s.1 s.2 = getIniValue ini' s.1 s.2 := by
    intro s hs
    rw [getIniValue_reads, getIniValue_reads, h (placeOf s.1 s.2)]
    exact List.mem_map.mpr ⟨s, hs, rfl⟩
  unfold fieldValue
  cases hkind : f.kind with
  | table => rfl
  | facts => rfl
  | choice options =>
      rw [hkind] at hget
      have hmatches : forall o, o ∈ options -> optionMatches ini o = optionMatches ini' o := by
        intro o ho
        unfold optionMatches
        rw [Bool.eq_iff_iff, List.all_eq_true, List.all_eq_true]
        apply forall₂_congr
        intro s hs
        have hsame := hget (s.1, s.2.1)
          (List.mem_flatMap.mpr ⟨o, ho, List.mem_map.mpr ⟨s, hs, rfl⟩⟩)
        show ((getIniValue ini s.1 s.2.1).getD "" == s.2.2) = true <->
          ((getIniValue ini' s.1 s.2.1).getD "" == s.2.2) = true
        rw [hsame]
      have hfound : options.find? (optionMatches ini) = options.find? (optionMatches ini') := by
        clear hget hkind
        induction options with
        | nil => rfl
        | cons o more ih =>
            rw [List.find?_cons, List.find?_cons, hmatches o List.mem_cons_self,
              ih fun x hx => hmatches x (List.mem_cons_of_mem _ hx)]
      simp only [hfound]
  | text s k d =>
      rw [hkind] at hget
      simp only [FieldKind.boundTo, hget (s, k) List.mem_cons_self]
  | bool s k d =>
      rw [hkind] at hget
      simp only [FieldKind.boundTo, hget (s, k) List.mem_cons_self]
  | select s k d =>
      rw [hkind] at hget
      simp only [FieldKind.boundTo, hget (s, k) List.mem_cons_self]

theorem parent_split (ht : t.WellFormed) (hsplit : t.fields = before ++ f :: after)
    {w : FieldWhen} (hwhen : f.when_ = some w)
    (hparent : t.fields.find? (fun x => x.id == w.field) = some parent) :
    exists front back, before = front ++ parent :: back ∧
      t.fields = front ++ parent :: (back ++ f :: after) := by
  have hid := List.find?_some hparent
  rw [beq_iff_eq] at hid
  have hmem := ht.ordered before f after w hsplit hwhen parent
    (List.mem_of_find?_eq_some hparent) hid
  rcases List.append_of_mem hmem with ⟨front, back, hbefore⟩
  exists front, back
  constructor
  · exact hbefore
  · rw [hsplit, hbefore, List.append_assoc]
    rfl

theorem visibleWithin_congr (ht : t.WellFormed) (fuel : Nat) :
    forall {before after : List TemplateField} {f : TemplateField},
      t.fields = before ++ f :: after ->
      (forall x, x ∈ before -> forall p, p ∈ x.governs -> reads ini p = reads ini' p) ->
        visibleWithin ini t fuel f = visibleWithin ini' t fuel f := by
  induction fuel with
  | zero =>
      intro before after f hsplit hsame
      unfold visibleWithin
      rfl
  | succ fuel ih =>
      intro before after f hsplit hsame
      unfold visibleWithin
      cases hwhen : f.when_ with
      | none => rfl
      | some w =>
          cases hparent : t.fields.find? fun x => x.id == w.field with
          | none => simp only [hparent]
          | some parent =>
              rcases parent_split ht hsplit hwhen hparent with ⟨front, back, hbefore, htemplate⟩
              have hfront : forall x, x ∈ front ->
                  forall p, p ∈ x.governs -> reads ini p = reads ini' p := by
                intro x hx
                apply hsame
                rw [hbefore]
                exact List.mem_append_left _ hx
              have hvalue : fieldValue ini parent = fieldValue ini' parent := by
                apply fieldValue_congr
                apply hsame
                rw [hbefore]
                exact List.mem_append_right _ List.mem_cons_self
              simp only [hparent, ih htemplate hfront, hvalue]

theorem fieldVisible_congr (ht : t.WellFormed) (hsplit : t.fields = before ++ f :: after)
    (hsame : forall x, x ∈ before -> forall p, p ∈ x.governs -> reads ini p = reads ini' p) :
    fieldVisible ini t f = fieldVisible ini' t f :=
  visibleWithin_congr ht _ hsplit hsame

theorem visibleWithin_isSome (ht : t.WellFormed) (ini : String) (fuel : Nat) :
    forall {before after : List TemplateField} {f : TemplateField},
      t.fields = before ++ f :: after -> before.length ≤ fuel ->
        (visibleWithin ini t fuel f).isSome = true := by
  induction fuel with
  | zero =>
      intro before after f hsplit hlength
      unfold visibleWithin
      cases hwhen : f.when_ with
      | none => rfl
      | some w =>
          cases hparent : t.fields.find? fun x => x.id == w.field with
          | none =>
              simp only [hparent]
              rfl
          | some parent =>
              rcases parent_split ht hsplit hwhen hparent with ⟨front, back, hbefore, htemplate⟩
              rw [hbefore, List.length_append, List.length_cons] at hlength
              omega
  | succ fuel ih =>
      intro before after f hsplit hlength
      unfold visibleWithin
      cases hwhen : f.when_ with
      | none => rfl
      | some w =>
          cases hparent : t.fields.find? fun x => x.id == w.field with
          | none =>
              simp only [hparent]
              rfl
          | some parent =>
              rcases parent_split ht hsplit hwhen hparent with ⟨front, back, hbefore, htemplate⟩
              rw [hbefore, List.length_append, List.length_cons] at hlength
              have hshown := ih htemplate (by omega)
              rcases Option.isSome_iff_exists.mp hshown with ⟨b, hb⟩
              simp only [hparent, hb]
              cases b with
              | true => rfl
              | false => rfl

theorem fieldVisible_isSome (ht : t.WellFormed) (ini : String) (hf : f ∈ t.fields) :
    exists b, fieldVisible ini t f = some b := by
  rcases List.append_of_mem hf with ⟨before, after, hsplit⟩
  apply Option.isSome_iff_exists.mp
  apply visibleWithin_isSome ht ini _ hsplit
  rw [hsplit, List.length_append]
  exact Nat.le_add_right _ _

/-!
# The loop
-/

/-- What the loop leaves of a conditional field: no key when hidden, and a key when it
appeared and has a default. -/
structure InStep (t : BundleTemplate) (wasVisible : List (String × Bool)) (next : String)
    (g : TemplateField) : Prop where
  hidden : fieldVisible next t g = some false -> forall p, p ∈ g.conditional ->
    reads next p = none
  shown : fieldVisible next t g = some true -> wasVisible.lookup g.id ≠ some true ->
    fieldDefault t g ≠ "" -> forall p, p ∈ g.conditional -> (reads next p).isSome = true

theorem names_bound (ht : t.WellFormed) (hf : f ∈ t.fields)
    (h : f.kind.boundTo = some (section_, key)) : '\n' ∉ section_.toList ∧ KeyText key := by
  apply (ht.one_line f hf).names (section_, key)
  rw [settings_bound h]
  exact List.mem_cons_self

theorem one_line_getIniValue {v : String} (h : getIniValue ini section_ key = some v) :
    '\n' ∉ v.toList := by
  unfold getIniValue at h
  rcases Option.map_eq_some_iff.mp h with ⟨l, hl, rfl⟩
  have hmem : l.raw ∈ (scanLines ini.toList).map Scanned.raw :=
    List.mem_map.mpr ⟨l, List.mem_of_find?_eq_some hl, rfl⟩
  unfold scanLines at hmem
  rw [map_raw_scanFrom] at hmem
  rw [String.toList_ofList]
  intro hnewline
  apply (mem_splitLines hmem).1
  apply mem_of_mem_trimChars
  exact (List.dropWhile_suffix _).subset (List.mem_of_mem_drop (mem_of_mem_trimChars hnewline))

theorem one_line_default (ht : t.WellFormed) (hf : f ∈ t.fields) :
    '\n' ∉ (fieldDefault t f).toList := by
  have hline := (ht.one_line f hf).default_
  unfold fieldDefault
  cases hkind : f.kind with
  | choice options => exact List.not_mem_nil
  | facts => exact List.not_mem_nil
  | table => exact List.not_mem_nil
  | bool s k d =>
      cases d with
      | true =>
          show '\n' ∉ "true".toList
          decide
      | false =>
          show '\n' ∉ "false".toList
          decide
  | select s k d =>
      rw [hkind] at hline
      exact hline d rfl
  | text s k d =>
      rw [hkind] at hline
      cases d with
      | some d => exact hline d rfl
      | none =>
          show '\n' ∉ ((getIniValue t.ini s k).getD "").toList
          cases hget : getIniValue t.ini s k with
          | none => exact List.not_mem_nil
          | some v => exact one_line_getIniValue hget

theorem reconcile_other (h : g.conditional = []) :
    reconcileField t wasVisible next g = some next := by
  unfold TemplateField.conditional at h
  unfold reconcileField
  cases hwhen : g.when_ with
  | none => rfl
  | some w =>
      cases hbound : g.kind.boundTo with
      | none => rfl
      | some place =>
          rw [hwhen, hbound] at h
          cases h

theorem conditional_cases (g : TemplateField) :
    g.conditional = [] ∨ exists w section_ key, g.when_ = some w ∧
      g.kind.boundTo = some (section_, key) ∧ g.conditional = [placeOf section_ key] := by
  unfold TemplateField.conditional
  split
  · rename_i w section_ key hwhen hbound
    exact Or.inr ⟨w, section_, key, hwhen, hbound, rfl⟩
  · exact Or.inl rfl

theorem getIniValue_isSome (n section_ key : String) :
    (getIniValue n section_ key).isSome = (reads n (placeOf section_ key)).isSome := by
  rw [getIniValue_reads, Option.isSome_map]

theorem fieldVisible_of_others (ht : t.WellFormed) (hsplit : t.fields = before ++ g :: after)
    (hbound : g.kind.boundTo = some (section_, key))
    (hother : forall p, p ≠ placeOf section_ key -> reads ini' p = reads ini p) :
    fieldVisible ini' t g = fieldVisible ini t g := by
  apply fieldVisible_congr ht hsplit
  intro x hx p hp
  apply hother
  rintro rfl
  apply (disjoint_split ht hsplit).1 x hx hp
  rw [governs_bound hbound]
  exact List.mem_cons_self

theorem reconcileField_hidden {w : FieldWhen} (hwhen : g.when_ = some w)
    (hbound : g.kind.boundTo = some (section_, key))
    (hvisible : fieldVisible next t g = some false) :
    exists next', reconcileField t wasVisible next g = some next' ∧
      (forall p, p ≠ placeOf section_ key -> reads next' p = reads next p) ∧
      reads next' (placeOf section_ key) = none := by
  unfold reconcileField
  simp only [hwhen, hbound, hvisible, Option.bind_eq_bind, Option.bind_some, getIniValue_isSome]
  cases hread : reads next (placeOf section_ key) with
  | none => exact ⟨next, rfl, fun _ _ => rfl, hread⟩
  | some v =>
      refine ⟨removeIniKey next section_ key, rfl, ?_, ?_⟩
      · intro p hp
        exact reads_remove_other next hp
      · rw [reads_remove]

theorem reconcileField_shown (ht : t.WellFormed) (hg : g ∈ t.fields) {w : FieldWhen}
    (hwhen : g.when_ = some w) (hbound : g.kind.boundTo = some (section_, key))
    (hvisible : fieldVisible next t g = some true) :
    exists next', reconcileField t wasVisible next g = some next' ∧
      (forall p, p ≠ placeOf section_ key -> reads next' p = reads next p) ∧
      (wasVisible.lookup g.id ≠ some true -> fieldDefault t g ≠ "" ->
        (reads next' (placeOf section_ key)).isSome = true) := by
  have hnames := names_bound ht hg hbound
  have hline := one_line_default ht hg
  unfold reconcileField
  simp only [hwhen, hbound, hvisible, Option.bind_eq_bind, Option.bind_some, getIniValue_isSome]
  cases hwas : (wasVisible.lookup g.id).getD false with
  | true =>
      refine ⟨next, rfl, fun _ _ => rfl, ?_⟩
      intro hnot
      cases hlookup : wasVisible.lookup g.id with
      | none =>
          rw [hlookup] at hwas
          cases hwas
      | some b =>
          rw [hlookup] at hwas hnot
          exact absurd (congrArg some hwas) hnot
  | false =>
      cases hread : reads next (placeOf section_ key) with
      | some v => exact ⟨next, rfl, fun _ _ => rfl, fun _ _ => congrArg Option.isSome hread⟩
      | none =>
          by_cases hdefault : fieldDefault t g = ""
          · refine ⟨next, ?_, fun _ _ => rfl, fun _ hne => absurd hdefault hne⟩
            rw [if_pos hdefault]
            rfl
          · refine ⟨setIniValue next section_ key (fieldDefault t g), ?_, ?_, ?_⟩
            · rw [if_neg hdefault]
              rfl
            · intro p hp
              exact reads_set_other next hnames.1 hnames.2 hline hp
            · intro _ _
              rw [reads_set next hnames.1 hnames.2 hline]
              rfl

theorem reconcileField_spec (ht : t.WellFormed) (hsplit : t.fields = before ++ g :: after)
    (wasVisible : List (String × Bool)) (next : String) :
    exists next', reconcileField t wasVisible next g = some next' ∧
      (forall p, p ∉ g.conditional -> reads next' p = reads next p) ∧
      InStep t wasVisible next' g := by
  have hg : g ∈ t.fields := by
    rw [hsplit]
    exact List.mem_append_right _ List.mem_cons_self
  rcases conditional_cases g with hnone | ⟨w, section_, key, hwhen, hbound, hplace⟩
  · refine ⟨next, reconcile_other hnone, fun _ _ => rfl, ?_⟩
    constructor
    · intro _ p hp
      rw [hnone] at hp
      cases hp
    · intro _ _ _ p hp
      rw [hnone] at hp
      cases hp
  · have hone : forall p, p ∈ g.conditional <-> p = placeOf section_ key := by
      intro p
      rw [hplace, List.mem_singleton]
    rcases fieldVisible_isSome ht next hg with ⟨visible, hvisible⟩
    cases visible with
    | false =>
        rcases reconcileField_hidden hwhen hbound hvisible with ⟨next', hstep, hother, hnone⟩
        have hkeeps := fieldVisible_of_others ht hsplit hbound hother
        refine ⟨next', hstep, fun p hp => hother p fun heq => hp ((hone p).mpr heq), ?_⟩
        constructor
        · intro _ p hp
          rw [(hone p).mp hp, hnone]
        · intro hshown
          rw [hkeeps, hvisible] at hshown
          cases hshown
    | true =>
        rcases reconcileField_shown ht hg hwhen hbound hvisible with
          ⟨next', hstep, hother, hpresent⟩
        have hkeeps := fieldVisible_of_others ht hsplit hbound hother
        refine ⟨next', hstep, fun p hp => hother p fun heq => hp ((hone p).mpr heq), ?_⟩
        constructor
        · intro hhidden
          rw [hkeeps, hvisible] at hhidden
          cases hhidden
        · intro _ hwas hdefault p hp
          rw [(hone p).mp hp]
          exact hpresent hwas hdefault

theorem inStep_congr (ht : t.WellFormed) (hsplit : t.fields = before ++ g :: after)
    (hbefore : forall x, x ∈ before -> forall p, p ∈ x.governs -> reads ini p = reads ini' p)
    (hown : forall p, p ∈ g.conditional -> reads ini p = reads ini' p)
    (h : InStep t wasVisible ini g) : InStep t wasVisible ini' g := by
  have hvisible := fieldVisible_congr ht hsplit hbefore
  constructor
  · intro hhidden p hp
    rw [← hown p hp]
    apply h.hidden _ p hp
    rw [hvisible]
    exact hhidden
  · intro hshown hwas hdefault p hp
    rw [← hown p hp]
    apply h.shown _ hwas hdefault p hp
    rw [hvisible]
    exact hshown

theorem reconcile_spec (ht : t.WellFormed) (wasVisible : List (String × Bool)) :
    forall (rest before : List TemplateField) (next : String), t.fields = before ++ rest ->
      exists next', rest.foldlM (reconcileField t wasVisible) next = some next' ∧
        (forall p, (forall g, g ∈ rest -> p ∉ g.conditional) -> reads next' p = reads next p) ∧
        forall g, g ∈ rest -> InStep t wasVisible next' g := by
  intro rest
  induction rest with
  | nil =>
      intro before next hsplit
      exists next
      constructor
      · rfl
      · constructor
        · intro p hp
          rfl
        · intro g hg
          cases hg
  | cons g rest ih =>
      intro before next hsplit
      rcases reconcileField_spec ht hsplit wasVisible next with ⟨mid, hstep, hframe, hinStep⟩
      have hsplit' : t.fields = (before ++ [g]) ++ rest := by
        rw [hsplit, List.append_assoc]
        rfl
      rcases ih (before ++ [g]) mid hsplit' with ⟨next', hloop, hloopFrame, hall⟩
      have hdisjoint := disjoint_split ht hsplit
      exists next'
      constructor
      · rw [List.foldlM_cons, hstep]
        exact hloop
      · constructor
        · intro p hp
          rw [hloopFrame p fun x hx => hp x (List.mem_cons_of_mem _ hx),
            hframe p (hp g List.mem_cons_self)]
        · intro x hx
          cases List.mem_cons.mp hx with
          | inr hrest => exact hall x hrest
          | inl heq =>
              subst heq
              apply inStep_congr ht hsplit _ _ hinStep
              · intro y hy p hp
                symm
                apply hloopFrame
                intro z hz hmem
                have hpair := ht.disjoint
                rw [hsplit, List.pairwise_append] at hpair
                exact hpair.2.2 y hy z (List.mem_cons_of_mem _ hz) hp
                  (governs_of_conditional hmem)
              · intro p hp
                symm
                apply hloopFrame
                intro z hz hmem
                exact hdisjoint.2 z hz (governs_of_conditional hp) (governs_of_conditional hmem)

/-!
# The edit
-/

theorem writeOption_other (settings : List (String × String × String))
    (hline : forall s, s ∈ settings ->
      ('\n' ∉ s.1.toList ∧ KeyText s.2.1) ∧ '\n' ∉ s.2.2.toList)
    (hp : forall s, s ∈ settings -> p ≠ placeOf s.1 s.2.1) (ini : String) :
    reads (settings.foldl (fun next s => setIniValue next s.1 s.2.1 s.2.2) ini) p =
      reads ini p := by
  induction settings generalizing ini with
  | nil => rfl
  | cons s rest ih =>
      have hs := hline s List.mem_cons_self
      rw [List.foldl_cons, ih (fun x hx => hline x (List.mem_cons_of_mem _ hx))
        (fun x hx => hp x (List.mem_cons_of_mem _ hx)),
        reads_set_other ini hs.1.1 hs.1.2 hs.2 (hp s List.mem_cons_self)]

theorem writeField_other (ht : t.WellFormed) (hf : f ∈ t.fields) {value : String}
    (hvalue : '\n' ∉ value.toList) (ini : String) (hp : p ∉ f.governs) :
    reads (writeField ini f value) p = reads ini p := by
  have hbound : forall {section_ key}, f.kind.boundTo = some (section_, key) ->
      p ≠ placeOf section_ key ∧ '\n' ∉ section_.toList ∧ KeyText key := by
    intro section_ key hbound
    constructor
    · rintro rfl
      apply hp
      rw [governs_bound hbound]
      exact List.mem_cons_self
    · exact names_bound ht hf hbound
  unfold writeField
  cases hkind : f.kind with
  | table => rfl
  | facts => rfl
  | bool s k d =>
      rw [hkind] at hbound
      have h := hbound rfl
      exact reads_set_other ini h.2.1 h.2.2 hvalue h.1
  | text s k d =>
      rw [hkind] at hbound
      have h := hbound rfl
      show reads (if trim value = "" then removeIniKey ini s k else setIniValue ini s k value) p = _
      split
      · exact reads_remove_other ini h.1
      · exact reads_set_other ini h.2.1 h.2.2 hvalue h.1
  | select s k d =>
      rw [hkind] at hbound
      have h := hbound rfl
      show reads (if trim value = "" then removeIniKey ini s k else setIniValue ini s k value) p = _
      split
      · exact reads_remove_other ini h.1
      · exact reads_set_other ini h.2.1 h.2.2 hvalue h.1
  | choice options =>
      cases hfind : options.find? fun o => o.value == value with
      | none => simp only [hfind]
      | some o =>
          have ho := List.mem_of_find?_eq_some hfind
          have hone := ht.one_line f hf
          simp only [hfind]
          apply writeOption_other o.settings
          · intro s hs
            constructor
            · apply hone.names (s.1, s.2.1)
              rw [hkind]
              exact List.mem_flatMap.mpr ⟨o, ho, List.mem_map.mpr ⟨s, hs, rfl⟩⟩
            · exact hone.options options hkind o ho s hs
          · rintro s hs rfl
            apply hp
            unfold TemplateField.governs
            rw [hkind]
            apply List.mem_map.mpr
            exact ⟨(s.1, s.2.1),
              List.mem_flatMap.mpr ⟨o, ho, List.mem_map.mpr ⟨s, hs, rfl⟩⟩, rfl⟩

theorem lookup_newMap {beta : Type} {k : String} {v : beta} {entries : List (String × beta)}
    (hnodup : (entries.map Prod.fst).Nodup) (hmem : (k, v) ∈ entries) :
    (newMap entries).lookup k = some v := by
  have hkeep : forall (es rows : List (String × beta)), k ∉ es.map Prod.fst ->
      (es.foldl (fun rows e => mapSet e.1 e.2 rows) rows).lookup k = rows.lookup k := by
    intro es
    induction es with
    | nil =>
        intro rows hk
        rfl
    | cons e rest ih =>
        intro rows hk
        rw [List.map_cons, List.mem_cons, not_or] at hk
        rw [List.foldl_cons, ih _ hk.2, lookup_mapSet, if_neg hk.1]
  rcases List.append_of_mem hmem with ⟨front, back, rfl⟩
  rw [List.map_append, List.map_cons, List.nodup_append, List.nodup_cons] at hnodup
  unfold newMap
  rw [List.foldl_append, List.foldl_cons, hkeep back _ hnodup.2.1.1, lookup_mapSet, if_pos rfl]

theorem mapM_visible (ht : t.WellFormed) (ini : String) (fields : List TemplateField)
    (hfields : forall x, x ∈ fields -> x ∈ t.fields) :
    exists visible, fields.mapM (fun x => (fieldVisible ini t x).map fun v => (x.id, v)) =
        some visible ∧ visible.map Prod.fst = fields.map TemplateField.id ∧
      forall x, x ∈ fields -> forall b, fieldVisible ini t x = some b -> (x.id, b) ∈ visible := by
  induction fields with
  | nil =>
      exists []
      constructor
      · rfl
      · constructor
        · rfl
        · intro x hx
          cases hx
  | cons x rest ih =>
      rcases ih fun y hy => hfields y (List.mem_cons_of_mem _ hy) with
        ⟨visible, hmap, hids, hmem⟩
      rcases fieldVisible_isSome ht ini (hfields x List.mem_cons_self) with ⟨b, hb⟩
      exists (x.id, b) :: visible
      constructor
      · rw [List.mapM_cons, hb, hmap]
        rfl
      · constructor
        · rw [List.map_cons, List.map_cons, hids]
        · intro y hy c hc
          cases List.mem_cons.mp hy with
          | inl heq =>
              subst heq
              rw [hb] at hc
              cases hc
              exact List.mem_cons_self
          | inr hrest => exact List.mem_cons_of_mem _ (hmem y hrest c hc)

/-- After an edit the keys of conditional fields follow what is shown, and no other key
changes than those of the field that was edited. -/
theorem applyFieldChange_in_step (t : BundleTemplate) (ht : t.WellFormed) (ini : String)
    (f : TemplateField) (hf : f ∈ t.fields)
    (hkind : f.kind ≠ FieldKind.facts ∧ f.kind ≠ FieldKind.table) (value : String)
    (hvalue : '\n' ∉ value.toList) :
    exists next, applyFieldChange ini t f value = some next ∧
      (forall g, g ∈ t.fields -> forall w section_ key, g.when_ = some w ->
        g.kind.boundTo = some (section_, key) ->
          (fieldVisible next t g = some false ∧ getIniValue next section_ key = none) ∨
          (fieldVisible next t g = some true ∧
            (fieldVisible ini t g = some false -> fieldDefault t g ≠ "" ->
              getIniValue next section_ key ≠ none))) ∧
      forall section_ key, placeOf section_ key ∉ f.governs ->
        (forall g, g ∈ t.fields -> placeOf section_ key ∉ g.conditional) ->
          getIniValue next section_ key = getIniValue ini section_ key := by
  rcases mapM_visible ht ini t.fields (fun _ hx => hx) with ⟨visible, hmap, hids, hmem⟩
  rcases reconcile_spec ht (newMap visible) t.fields [] (writeField ini f value) rfl with
    ⟨next, hloop, hframe, hstep⟩
  have happly : applyFieldChange ini t f value =
      t.fields.foldlM (reconcileField t (newMap visible)) (writeField ini f value) := by
    unfold applyFieldChange
    rw [hmap]
    cases hcases : f.kind with
    | facts => exact absurd hcases hkind.1
    | table => exact absurd hcases hkind.2
    | text s k d => rfl
    | bool s k d => rfl
    | select s k d => rfl
    | choice options => rfl
  exists next
  constructor
  · rw [happly, hloop]
  · constructor
    · intro g hg w section_ key hwhen hbound
      have hplace : placeOf section_ key ∈ g.conditional := by
        unfold TemplateField.conditional
        rw [hwhen, hbound]
        exact List.mem_cons_self
      rcases fieldVisible_isSome ht next hg with ⟨b, hb⟩
      cases b with
      | false =>
          left
          constructor
          · exact hb
          · rw [getIniValue_reads, (hstep g hg).hidden hb _ hplace]
            rfl
      | true =>
          right
          constructor
          · exact hb
          · intro hwas hdefault hnone
            have hnodup : (visible.map Prod.fst).Nodup := by
              rw [hids]
              exact ht.ids
            have hlookup := lookup_newMap hnodup (hmem g hg false hwas)
            have hpresent := (hstep g hg).shown hb (by rw [hlookup]; decide) hdefault _ hplace
            rw [getIniValue_reads, Option.map_eq_none_iff] at hnone
            rw [hnone] at hpresent
            cases hpresent
    · intro section_ key hgoverns hconditional
      rw [getIniValue_reads, getIniValue_reads, hframe _ hconditional,
        writeField_other ht hf hvalue ini hgoverns]

def modeField : TemplateField :=
  { id := "mode", kind := FieldKind.select "/net" "mode" "off", when_ := none }

def portField : TemplateField :=
  { id := "port", kind := FieldKind.text "/net" "port" (some "80")
    when_ := some { field := "mode", in_ := some ["tcp"], notEmpty := false } }

def portTemplate : BundleTemplate where
  fields := [modeField, portField]
  ini := ""

theorem portTemplate_wellFormed : portTemplate.WellFormed where
  ids := by decide
  ordered := by
    intro before f after w hsplit hwhen parent hparent hid
    unfold portTemplate at hsplit hparent
    simp only at hsplit hparent
    cases before with
    | nil =>
        injection hsplit with hfirst hrest
        subst hfirst
        cases hwhen
    | cons x more =>
        injection hsplit with hfirst hrest
        subst hfirst
        cases more with
        | nil =>
            injection hrest with hsecond hrest
            subst hsecond
            cases hwhen
            cases List.mem_cons.mp hparent with
            | inl heq =>
                rw [heq]
                exact List.mem_cons_self
            | inr hport =>
                rw [List.mem_singleton.mp hport] at hid
                exact absurd hid (by decide)
        | cons y more =>
            injection hrest with hsecond hrest
            cases more with
            | nil => cases hrest
            | cons z more => cases hrest
  one_line := by
    intro f hf
    have hmode : KeyText "mode" :=
      plain_keyText (c := 'm') rfl (by decide) (by decide) (by decide) (by decide)
    have hport : KeyText "port" :=
      plain_keyText (c := 'p') rfl (by decide) (by decide) (by decide) (by decide)
    cases List.mem_cons.mp hf with
    | inl heq =>
        subst heq
        constructor
        · intro s hs
          rw [List.mem_singleton.mp hs]
          exact ⟨by decide, hmode⟩
        · intro d hd
          cases hd
          decide
        · intro options hoptions
          cases hoptions
    | inr hrest =>
        rw [List.mem_singleton] at hrest
        subst hrest
        constructor
        · intro s hs
          rw [List.mem_singleton.mp hs]
          exact ⟨by decide, hport⟩
        · intro d hd
          cases hd
          decide
        · intro options hoptions
          cases hoptions
  disjoint := by
    apply List.Pairwise.cons
    · intro g hg
      rw [List.mem_singleton.mp hg]
      intro p hp hq
      rw [List.mem_singleton.mp hp] at hq
      exact absurd (List.mem_singleton.mp hq) (by decide)
    · exact List.pairwise_singleton _ _

/-- The mode that shows the port also puts its default into the configuration. -/
theorem applyFieldChange_in_step_port :
    exists next, applyFieldChange "[/net]\nmode = off\n" portTemplate modeField "tcp" = some next ∧
      getIniValue next "/net" "port" ≠ none ∧ getIniValue next "/other" "x" = none := by
  rcases applyFieldChange_in_step portTemplate portTemplate_wellFormed "[/net]\nmode = off\n"
    modeField List.mem_cons_self ⟨FieldKind.noConfusion, FieldKind.noConfusion⟩ "tcp"
    (by decide) with ⟨next, hnext, hstep, hframe⟩
  have hshown : ((applyFieldChange "[/net]\nmode = off\n" portTemplate modeField "tcp").bind
      fun next => fieldVisible next portTemplate portField) = some true := by
    decide +kernel
  rw [hnext, Option.bind_some] at hshown
  exists next
  refine ⟨hnext, ?_, ?_⟩
  · rcases hstep portField (List.mem_cons_of_mem _ List.mem_cons_self) _ "/net" "port" rfl rfl with
      ⟨hhidden, _⟩ | ⟨_, hpresent⟩
    · rw [hhidden] at hshown
      cases hshown
    · exact hpresent (by decide +kernel) (by decide)
  · rw [hframe "/other" "x" (by decide) (by decide)]
    decide

end Web
end FleetServer
