import FleetServer.Web.Layers

/-!
# Section paths of plain keys

A section is spelled by its segments with a `/` in front of each.  Keys that are
not empty and hold no `/` can be told apart again.
-/

namespace FleetServer
namespace Web

variable {p path q : List String}

/-- A key that takes one segment of a section path. -/
def PlainKey (k : String) : Prop :=
  k ≠ "" ∧ '/' ∉ k.toList ∧ '\x00' ∉ k.toList

def PlainPath (path : List String) : Prop :=
  forall k, k ∈ path -> PlainKey k

def spelledSection (path : List String) : List Char :=
  path.flatMap fun k => '/' :: k.toList

theorem toList_sectionOf (h : path ≠ []) :
    (sectionOf path).toList = spelledSection path := by
  unfold sectionOf
  rw [String.toList_append]
  show '/' :: (String.intercalate "/" path).toList = _
  induction path with
  | nil => exact absurd rfl h
  | cons k rest ih =>
      cases rest with
      | nil =>
          rw [String.intercalate_singleton]
          show '/' :: k.toList = ('/' :: k.toList) ++ []
          rw [List.append_nil]
      | cons l rest =>
          rw [String.intercalate_cons_cons, String.toList_append, String.toList_append,
            List.append_assoc]
          show '/' :: (k.toList ++ '/' :: (String.intercalate "/" (l :: rest)).toList) = _
          rw [ih (List.cons_ne_nil _ _)]
          rfl

theorem head_spelledSection {c : Char} (h : (spelledSection path).head? = some c) : c = '/' := by
  cases path with
  | nil => cases h
  | cons k rest =>
      cases h
      rfl

/-- A key ends where the next `/` is, or with the text. -/
theorem key_split :
    forall {xs ys us vs : List Char}, '/' ∉ xs -> '/' ∉ ys ->
      (forall c, us.head? = some c -> c = '/') -> (forall c, vs.head? = some c -> c = '/') ->
        xs ++ us = ys ++ vs -> xs = ys ∧ us = vs := by
  intro xs
  induction xs with
  | nil =>
      intro ys us vs _ hys hus _ h
      cases ys with
      | nil => exact ⟨rfl, h⟩
      | cons y ys =>
          have hslash : y = '/' := by
            apply hus
            show ([] ++ us).head? = some y
            rw [h]
            rfl
          rw [hslash] at hys
          exact absurd List.mem_cons_self hys
  | cons x xs ih =>
      intro ys us vs hxs hys hus hvs h
      cases ys with
      | nil =>
          have hslash : x = '/' := by
            apply hvs
            show ([] ++ vs).head? = some x
            rw [← h]
            rfl
          rw [hslash] at hxs
          exact absurd List.mem_cons_self hxs
      | cons y ys =>
          have hxs : '/' ∉ xs := fun hmem => hxs (List.mem_cons_of_mem _ hmem)
          have hys : '/' ∉ ys := fun hmem => hys (List.mem_cons_of_mem _ hmem)
          have hparts := List.cons.inj h
          rcases ih hxs hys hus hvs hparts.2 with ⟨hsame, htail⟩
          rw [hparts.1, hsame]
          exact ⟨rfl, htail⟩

/-- Keys that a section path can be split at. -/
def SlashFree (path : List String) : Prop :=
  forall k, k ∈ path -> k ≠ "" ∧ '/' ∉ k.toList

theorem slashFree_of_plain (h : PlainPath path) : SlashFree path :=
  fun k hk => ⟨(h k hk).1, (h k hk).2.1⟩

theorem spelledSection_inj :
    forall {q : List String}, SlashFree p -> SlashFree q ->
      spelledSection p = spelledSection q -> p = q := by
  induction p with
  | nil =>
      intro q _ _ h
      cases q with
      | nil => rfl
      | cons l q => cases h
  | cons k p ih =>
      intro q hp hq h
      cases q with
      | nil => cases h
      | cons l q =>
          have hk := hp k List.mem_cons_self
          have hl := hq l List.mem_cons_self
          have hrest : k.toList ++ spelledSection p = l.toList ++ spelledSection q :=
            (List.cons.inj h).2
          rcases key_split hk.2 hl.2 (fun c => head_spelledSection)
            (fun c => head_spelledSection) hrest with ⟨hkey, htail⟩
          rw [String.toList_inj.mp hkey,
            ih (fun j hj => hp j (List.mem_cons_of_mem _ hj))
              (fun j hj => hq j (List.mem_cons_of_mem _ hj)) htail]

theorem sectionOf_inj_of_slashFree (hp : SlashFree p) (hq : SlashFree q)
    (h : sectionOf p = sectionOf q) : p = q := by
  have hroot : forall {r : List String}, SlashFree r -> sectionOf r = "/" -> r = [] := by
    intro r hr heq
    cases r with
    | nil => rfl
    | cons k rest =>
        have hchars := congrArg String.toList heq
        rw [toList_sectionOf (List.cons_ne_nil _ _)] at hchars
        have hk := hr k List.mem_cons_self
        have htail : k.toList ++ spelledSection rest = [] := (List.cons.inj hchars).2
        exact absurd (String.toList_eq_nil_iff.mp (List.append_eq_nil_iff.mp htail).1) hk.1
  cases p with
  | nil => exact (hroot hq h.symm).symm
  | cons k p =>
      cases q with
      | nil => exact hroot hp h
      | cons l q =>
          have hchars := congrArg String.toList h
          rw [toList_sectionOf (List.cons_ne_nil _ _), toList_sectionOf (List.cons_ne_nil _ _)]
            at hchars
          exact spelledSection_inj hp hq hchars

theorem sectionOf_inj (hp : PlainPath p) (hq : PlainPath q) (h : sectionOf p = sectionOf q) :
    p = q :=
  sectionOf_inj_of_slashFree (slashFree_of_plain hp) (slashFree_of_plain hq) h

/-- Sections whose spelling starts like another one's, up to a `/`, are beneath it. -/
theorem prefix_of_spelled :
    forall {q : List String}, PlainPath p -> PlainPath q ->
      spelledSection p ++ ['/'] <+: spelledSection q -> p <+: q := by
  induction p with
  | nil =>
      intro q _ _ _
      exact List.nil_prefix
  | cons k p ih =>
      intro q hp hq h
      cases q with
      | nil =>
          have hlength := h.length_le
          simp only [List.length_append, List.length_cons, List.length_nil] at hlength
          have hnil : (spelledSection ([] : List String)).length = 0 := rfl
          omega
      | cons l q =>
          rcases h with ⟨more, hmore⟩
          have hk := hp k List.mem_cons_self
          have hl := hq l List.mem_cons_self
          have hrest : k.toList ++ (spelledSection p ++ ['/'] ++ more)
              = l.toList ++ spelledSection q := by
            have htail : (k.toList ++ spelledSection p) ++ ['/'] ++ more
                = l.toList ++ spelledSection q := (List.cons.inj hmore).2
            rw [← htail, List.append_assoc, List.append_assoc, List.append_assoc]
          have hslash : forall c, (spelledSection p ++ ['/'] ++ more).head? = some c ->
              c = '/' := by
            intro c hc
            cases p with
            | nil =>
                cases hc
                rfl
            | cons j p =>
                cases hc
                rfl
          rcases key_split hk.2.1 hl.2.1 hslash (fun c => head_spelledSection) hrest with
            ⟨hkey, htail⟩
          rw [String.toList_inj.mp hkey, List.cons_prefix_cons]
          refine ⟨rfl, ih (fun j hj => hp j (List.mem_cons_of_mem _ hj))
            (fun j hj => hq j (List.mem_cons_of_mem _ hj)) ?_⟩
          exact ⟨more, htail⟩

theorem dropLast_plain (h : PlainPath path) : PlainPath path.dropLast :=
  fun k hk => h k (List.dropLast_subset _ hk)

theorem dropLast_append_lastOf (h : path ≠ []) :
    path.dropLast ++ [lastOf path] = path := by
  unfold lastOf
  rw [List.getLast?_eq_some_getLast h]
  exact List.dropLast_append_getLast h

theorem path_eq_of_row (hp : PlainPath p) (hq : PlainPath q) (hpne : p ≠ []) (hqne : q ≠ [])
    (hsection : sectionOf p.dropLast = sectionOf q.dropLast) (hkey : lastOf p = lastOf q) :
    p = q := by
  rw [← dropLast_append_lastOf hpne, ← dropLast_append_lastOf hqne, hkey,
    sectionOf_inj (dropLast_plain hp) (dropLast_plain hq) hsection]

theorem not_mem_sectionOf (h : PlainPath path) :
    '\x00' ∉ (sectionOf path).toList := by
  cases path with
  | nil => decide
  | cons k rest =>
      rw [toList_sectionOf (List.cons_ne_nil _ _)]
      intro hmem
      rcases List.mem_flatMap.mp hmem with ⟨l, hl, hnul⟩
      rcases List.mem_cons.mp hnul with hnul | hnul
      · revert hnul
        decide
      · exact (h l hl).2.2 hnul

theorem nul_split :
    forall {xs ys us vs : List Char}, '\x00' ∉ xs -> '\x00' ∉ ys ->
      xs ++ '\x00' :: us = ys ++ '\x00' :: vs -> xs = ys ∧ us = vs := by
  intro xs
  induction xs with
  | nil =>
      intro ys us vs _ hys h
      cases ys with
      | nil => exact ⟨rfl, (List.cons.inj h).2⟩
      | cons y ys =>
          rw [← (List.cons.inj h).1] at hys
          exact absurd List.mem_cons_self hys
  | cons x xs ih =>
      intro ys us vs hxs hys h
      cases ys with
      | nil =>
          rw [(List.cons.inj h).1] at hxs
          exact absurd List.mem_cons_self hxs
      | cons y ys =>
          have hparts := List.cons.inj h
          rcases ih (fun hmem => hxs (List.mem_cons_of_mem _ hmem))
            (fun hmem => hys (List.mem_cons_of_mem _ hmem)) hparts.2 with ⟨hsame, htail⟩
          rw [hparts.1, hsame]
          exact ⟨rfl, htail⟩

theorem toList_rowId (section_ key : String) :
    (rowId section_ key).toList = section_.toList ++ '\x00' :: key.toList := by
  unfold rowId
  rw [String.toList_append, String.toList_append, List.append_assoc]
  rfl

theorem rowId_inj {k l : String} (hp : PlainPath p) (hq : PlainPath q)
    (h : rowId (sectionOf p) k = rowId (sectionOf q) l) :
    sectionOf p = sectionOf q ∧ k = l := by
  have hchars := congrArg String.toList h
  rw [toList_rowId, toList_rowId] at hchars
  rcases nul_split (not_mem_sectionOf hp) (not_mem_sectionOf hq) hchars with ⟨hsection, hkey⟩
  exact ⟨String.toList_inj.mp hsection, String.toList_inj.mp hkey⟩

theorem prefix_of_hit (hp : PlainPath p) (hq : PlainPath q) (hpne : p ≠ []) (hqne : q ≠ [])
    (h : hit p (sectionOf q.dropLast) (lastOf q) = true) : p <+: q := by
  unfold hit at h
  simp only [Bool.or_eq_true, Bool.and_eq_true, beq_iff_eq] at h
  rcases h with (⟨hsection, hkey⟩ | hsection) | hbeneath
  · have hsame := path_eq_of_row hq hp hqne hpne hsection hkey
    subst hsame
    exact List.prefix_refl _
  · rw [← sectionOf_inj (dropLast_plain hq) hp hsection]
    exact List.dropLast_prefix q
  · unfold startsWith at hbeneath
    have habove := List.isPrefixOf_iff_prefix.mp hbeneath
    rw [String.toList_append, toList_sectionOf hpne] at habove
    by_cases htop : q.dropLast = []
    · rw [htop] at habove
      have hlength := habove.length_le
      have hroot : (sectionOf []).toList.length = 1 := by decide
      cases p with
      | nil => exact absurd rfl hpne
      | cons k rest =>
          have hspelled : (spelledSection (k :: rest)).length
              = (k.toList ++ spelledSection rest).length + 1 := rfl
          rw [hroot, List.length_append, hspelled] at hlength
          have hslash : ("/" : String).toList.length = 1 := by decide
          omega
    · rw [toList_sectionOf htop] at habove
      have hbelow := prefix_of_spelled hp (dropLast_plain hq) habove
      exact hbelow.trans (List.dropLast_prefix q)

end Web
end FleetServer
