import FleetServer.Core.Canonical
import FleetServer.Data.Replay

/-!
# Merge patches

RFC 7396 as `merge.rs` applies it, and what a patch does to the settings of a
document: the values that are not sections.
-/

namespace FleetServer
namespace Core
namespace Json

variable {w : Write} {ws : List Write} {before : List String × Json -> Prop}

/-- Set a key; a new one goes in front of the first key it comes before. -/
def insertBy (before : String -> String -> Bool) (k : String) (v : Json) :
    List Member -> List Member
  | [] => [(k, v)]
  | (l, u) :: rest =>
      if k = l then (k, v) :: rest
      else if before k l then (k, v) :: (l, u) :: rest
      else (l, u) :: insertBy before k v rest

def insertKey (k : String) (v : Json) (members : List Member) : List Member :=
  insertBy (fun k l => decide (k < l)) k v members

def removeKey (k : String) (members : List Member) : List Member :=
  members.filter fun m => m.1 != k

/-- The members a merge starts from; anything but an object is replaced by one. -/
def membersOf : Json -> List Member
  | object members => members
  | _ => []

mutual

def stripNulls : Json -> Json
  | object members => object (stripMembers [] members)
  | other => other

def stripMembers (cleaned : List Member) : List Member -> List Member
  | [] => cleaned
  | (k, v) :: rest =>
      stripMembers (if v.isNull then cleaned else insertKey k (stripNulls v) cleaned) rest

end

mutual

def mergePatch (target : Json) : Json -> Json
  | object patch => object (mergeMembers (membersOf target) patch)
  | other => other

def mergeMembers (target : List Member) : List Member -> List Member
  | [] => target
  | (k, v) :: rest =>
      mergeMembers
        (if v.isNull then removeKey k target
        else
          match target.lookup k with
          | some existing => insertKey k (mergePatch existing v) target
          | none => insertKey k (stripNulls v) target) rest

end

theorem lookup_insertBy (before : String -> String -> Bool) (k l : String) (v : Json)
    (members : List Member) :
    (insertBy before k v members).lookup l = if l = k then some v else members.lookup l := by
  induction members with
  | nil =>
      unfold insertBy
      rw [List.lookup_cons]
      split
      · rename_i h
        rw [if_pos (beq_iff_eq.mp h)]
      · rename_i h
        rw [if_neg (beq_eq_false_iff_ne.mp h)]
  | cons m rest ih =>
      rcases m with ⟨j, u⟩
      unfold insertBy
      split
      · rename_i hkj
        subst hkj
        rw [List.lookup_cons, List.lookup_cons]
        split
        · rename_i h
          rw [if_pos (beq_iff_eq.mp h)]
        · rename_i h
          rw [if_neg (beq_eq_false_iff_ne.mp h)]
      · rename_i hkj
        split
        · rw [List.lookup_cons]
          split
          · rename_i h
            rw [if_pos (beq_iff_eq.mp h)]
          · rename_i h
            rw [if_neg (beq_eq_false_iff_ne.mp h)]
        · rw [List.lookup_cons, List.lookup_cons, ih]
          split
          · rename_i h
            have hlj := beq_iff_eq.mp h
            have hlk : l ≠ k := by
              intro heq
              exact hkj (heq.symm.trans hlj)
            rw [if_neg hlk]
          · rfl

theorem lookup_insertKey (k l : String) (v : Json) (members : List Member) :
    (insertKey k v members).lookup l = if l = k then some v else members.lookup l :=
  lookup_insertBy _ k l v members

theorem lookup_removeKey (k l : String) (members : List Member) :
    (removeKey k members).lookup l = if l = k then none else members.lookup l := by
  induction members with
  | nil =>
      show none = _
      split <;> rfl
  | cons m rest ih =>
      rcases m with ⟨j, u⟩
      unfold removeKey at ih ⊢
      rw [List.filter_cons]
      split
      · rename_i hjk
        have hjk := bne_iff_ne.mp hjk
        rw [List.lookup_cons, List.lookup_cons, ih]
        split
        · rename_i h
          have hlj := beq_iff_eq.mp h
          have hlk : l ≠ k := by
            intro heq
            exact hjk (hlj.symm.trans heq)
          rw [if_neg hlk]
        · rfl
      · rename_i hjk
        have hjk : j = k := by
          by_contra hne
          exact hjk (bne_iff_ne.mpr hne)
        rw [ih, List.lookup_cons]
        split
        · rfl
        · rename_i hlk
          have hlj : (l == j) = false := by
            rw [hjk]
            exact beq_eq_false_iff_ne.mpr hlk
          rw [hlj]

/-!
# Settings
-/

/-- Neither a section nor a removal. -/
def isSetting : Json -> Bool
  | null => false
  | object _ => false
  | _ => true

def valueAt (v : Json) : List String -> Option Json
  | [] => some v
  | k :: rest => (v.get k).bind fun u => valueAt u rest

/-- A value of a document that is not a section, with the keys that lead to it. -/
def Leaf (doc : Json) (path : List String) (v : Json) : Prop :=
  path ≠ [] ∧ valueAt doc path = some v ∧ v.isSetting = true

/-- What a document does to the one it patches, one value after the other. -/
inductive Write where
  | set (path : List String) (v : Json)
  | remove (path : List String)
  /-- A section, whatever it holds. -/
  | enter (path : List String)

namespace Write

def path : Write -> List String
  | set p _ => p
  | remove p => p
  | enter p => p

/-- The same write in the section `k`. -/
def under (k : String) : Write -> Write
  | set p v => set (k :: p) v
  | remove p => remove (k :: p)
  | enter p => enter (k :: p)

def gives : Write -> List String × Json -> Prop
  | set p v, a => a = (p, v)
  | remove _, _ => False
  | enter _, _ => False

def loses : Write -> List String × Json -> Prop
  | set p _, a => p <+: a.1 ∨ a.1 <+: p
  | remove p, a => p <+: a.1
  | enter p, a => a.1 <+: p

end Write

mutual

def writesAt (k : String) : Json -> List Write
  | null => [Write.remove [k]]
  | object members => Write.enter [k] :: (writes members).map (Write.under k)
  | v => [Write.set [k] v]

/-- The writes of a document, in the order of its keys. -/
def writes : List Member -> List Write
  | [] => []
  | (k, v) :: rest => writesAt k v ++ writes rest

end

mutual

def distinct : Json -> Bool
  | object members => decide ((members.map Prod.fst).Nodup) && distinctMembers members
  | array items => distinctItems items
  | _ => true

def distinctItems : List Json -> Bool
  | [] => true
  | v :: rest => distinct v && distinctItems rest

def distinctMembers : List Member -> Bool
  | [] => true
  | (_, v) :: rest => distinct v && distinctMembers rest

end

/-!
# Settings in a section
-/

variable {o : List Member} {k : String} {path r : List String} {v u : Json}

theorem leaf_nil {doc : Json} : Not (Leaf doc [] v) := by
  intro h
  exact h.1 rfl

theorem valueAt_object (o : List Member) (k : String) (r : List String) :
    valueAt (object o) (k :: r) = (o.lookup k).bind fun u => valueAt u r :=
  rfl

/-- Beneath a section are the section's own settings. -/
theorem leaf_section {m : List Member} (hm : o.lookup k = some (object m)) :
    Leaf (object o) (k :: r) v <-> Leaf (object m) r v := by
  unfold Leaf
  rw [valueAt_object, hm]
  constructor
  · rintro ⟨_, hvalue, hsetting⟩
    have hne : r ≠ [] := by
      rintro rfl
      cases hvalue
      cases hsetting
    exact ⟨hne, hvalue, hsetting⟩
  · rintro ⟨_, hvalue, hsetting⟩
    exact ⟨List.cons_ne_nil _ _, hvalue, hsetting⟩

theorem leaf_setting (hu : u.isSetting = true) (hk : o.lookup k = some u) :
    Leaf (object o) (k :: r) v <-> r = [] ∧ v = u := by
  unfold Leaf
  rw [valueAt_object, hk]
  constructor
  · rintro ⟨_, hvalue, _⟩
    cases r with
    | nil =>
        cases hvalue
        exact ⟨rfl, rfl⟩
    | cons l rest =>
        have hget : u.get l = none := by
          cases u with
          | object members => cases hu
          | null => rfl
          | bool b => rfl
          | number t => rfl
          | string s => rfl
          | array items => rfl
        have hnone : (u.get l).bind (fun w => valueAt w rest) = some v := hvalue
        rw [hget] at hnone
        cases hnone
  · rintro ⟨rfl, rfl⟩
    exact ⟨List.cons_ne_nil _ _, rfl, hu⟩

theorem not_leaf_missing (hk : o.lookup k = none) : Not (Leaf (object o) (k :: r) v) := by
  rintro ⟨_, hvalue, _⟩
  rw [valueAt_object, hk] at hvalue
  cases hvalue

/-- Only the value under the first key matters. -/
theorem leaf_congr {o' : List Member} (h : o.lookup k = o'.lookup k) :
    Leaf (object o) (k :: r) v <-> Leaf (object o') (k :: r) v := by
  unfold Leaf
  rw [valueAt_object, valueAt_object, h]

/-- Beneath what a merge starts from. -/
theorem leaf_membersOf (hne : r ≠ []) :
    Leaf (object (membersOf ((o.lookup k).getD null))) r v <-> Leaf (object o) (k :: r) v := by
  have hempty : forall u : Json, u.isObject = false -> u.isSetting = true ∨ u = null := by
    intro u hu
    cases u with
    | object members => cases hu
    | null => exact Or.inr rfl
    | bool b => exact Or.inl rfl
    | number t => exact Or.inl rfl
    | string s => exact Or.inl rfl
    | array items => exact Or.inl rfl
  have hnone : Not (Leaf (object []) r v) := by
    rintro ⟨_, hvalue, _⟩
    cases r with
    | nil => exact hne rfl
    | cons l rest => cases hvalue
  cases hk : o.lookup k with
  | none => exact ⟨fun h => absurd h hnone, fun h => absurd h (not_leaf_missing hk)⟩
  | some u =>
      cases hobject : u.isObject with
      | true =>
          cases u with
          | object members => exact (leaf_section hk).symm
          | null => cases hobject
          | bool b => cases hobject
          | number t => cases hobject
          | string s => cases hobject
          | array items => cases hobject
      | false =>
          have hmembers : membersOf ((some u).getD null) = [] := by
            cases u with
            | object members => cases hobject
            | null => rfl
            | bool b => rfl
            | number t => rfl
            | string s => rfl
            | array items => rfl
          rw [hmembers]
          constructor
          · intro h
            exact absurd h hnone
          · intro h
            rcases hempty u hobject with hu | rfl
            · exact absurd ((leaf_setting hu hk).mp h).1 hne
            · rcases h with ⟨_, hvalue, hsetting⟩
              rw [valueAt_object, hk] at hvalue
              cases r with
              | nil => exact absurd rfl hne
              | cons l rest => cases hvalue

/-!
# Writes under a key
-/

open Write
open Replay

theorem gives_under :
    (w.under k).gives (k :: r, v) <-> w.gives (r, v) := by
  cases w with
  | set p u =>
      show (k :: r, v) = (k :: p, u) <-> (r, v) = (p, u)
      constructor
      · intro h
        cases h
        rfl
      · intro h
        cases h
        rfl
  | remove p => exact Iff.rfl
  | enter p => exact Iff.rfl

theorem loses_under :
    (w.under k).loses (k :: r, v) <-> w.loses (r, v) := by
  cases w with
  | set p u =>
      show (k :: p <+: k :: r ∨ k :: r <+: k :: p) <-> (p <+: r ∨ r <+: p)
      rw [List.cons_prefix_cons, List.cons_prefix_cons]
      simp only [true_and]
  | remove p =>
      show (k :: p <+: k :: r) <-> (p <+: r)
      rw [List.cons_prefix_cons]
      simp only [true_and]
  | enter p =>
      show (k :: r <+: k :: p) <-> (r <+: p)
      rw [List.cons_prefix_cons]
      simp only [true_and]

theorem replay_under :
    replay gives loses (ws.map (under k)) before (k :: r, v) <->
      replay gives loses ws (fun a => before (k :: a.1, a.2)) (r, v) := by
  induction ws generalizing before with
  | nil => exact Iff.rfl
  | cons w rest ih =>
      show replay gives loses (rest.map (under k))
          (fun a => (w.under k).gives a ∨ (before a ∧ Not ((w.under k).loses a))) (k :: r, v) <->
        replay gives loses rest
          (fun a => w.gives a ∨ (before (k :: a.1, a.2) ∧ Not (w.loses a))) (r, v)
      rw [ih]
      apply replay_congr
      rintro ⟨p, u⟩
      rw [gives_under, loses_under]

theorem replay_elsewhere {l : String} (hl : l ≠ k) :
    replay gives loses (ws.map (under k)) before (l :: r, v) <-> before (l :: r, v) := by
  have hgives : forall w : Write, Not ((w.under k).gives (l :: r, v)) := by
    intro w hw
    cases w with
    | set p u =>
        cases hw
        exact hl rfl
    | remove p => exact hw
    | enter p => exact hw
  have hloses : forall w : Write, Not ((w.under k).loses (l :: r, v)) := by
    intro w hw
    cases w with
    | set p u =>
        rcases hw with hw | hw
        · exact hl (List.cons_prefix_cons.mp hw).1.symm
        · exact hl (List.cons_prefix_cons.mp hw).1
    | remove p => exact hl (List.cons_prefix_cons.mp hw).1.symm
    | enter p => exact hl (List.cons_prefix_cons.mp hw).1
  induction ws generalizing before with
  | nil => exact Iff.rfl
  | cons w rest ih =>
      show replay gives loses (rest.map (under k))
          (fun a => (w.under k).gives a ∨ (before a ∧ Not ((w.under k).loses a))) (l :: r, v) <->
        before (l :: r, v)
      apply ih.trans
      constructor
      · rintro (h | h)
        · exact absurd h (hgives w)
        · exact h.1
      · intro h
        exact Or.inr ⟨h, hloses w⟩

theorem path_of_mem_writesAt (h : w ∈ writesAt k v) :
    exists p, w.path = k :: p := by
  have hunder : forall x : Write, exists p, (x.under k).path = k :: p := by
    intro x
    cases x <;> exact ⟨_, rfl⟩
  cases v with
  | object members =>
      rcases List.mem_cons.mp h with rfl | h
      · exact ⟨[], rfl⟩
      · rcases List.mem_map.mp h with ⟨x, _, rfl⟩
        exact hunder x
  | null => rw [List.mem_singleton.mp h]; exact ⟨[], rfl⟩
  | bool b => rw [List.mem_singleton.mp h]; exact ⟨[], rfl⟩
  | number t => rw [List.mem_singleton.mp h]; exact ⟨[], rfl⟩
  | string s => rw [List.mem_singleton.mp h]; exact ⟨[], rfl⟩
  | array items => rw [List.mem_singleton.mp h]; exact ⟨[], rfl⟩

theorem path_ne_nil_of_mem_writes {members : List Member} (h : w ∈ writes members) :
    w.path ≠ [] := by
  induction members with
  | nil => cases h
  | cons m rest ih =>
      rcases m with ⟨k, u⟩
      rcases List.mem_append.mp h with h | h
      · rcases path_of_mem_writesAt h with ⟨p, hp⟩
        rw [hp]
        exact List.cons_ne_nil _ _
      · exact ih h

/-!
# What a merge does to the settings
-/

theorem not_replay_nil (hpaths : forall w, w ∈ ws -> w.path ≠ []) (hbefore : Not (before ([], v))) :
    Not (replay gives loses ws before ([], v)) := by
  apply not_replay _ hbefore
  intro w hw hgives
  have hpath := hpaths w hw
  cases w with
  | set p u =>
      cases hgives
      exact hpath rfl
  | remove p => exact hgives
  | enter p => exact hgives

theorem path_under_ne_nil (h : w ∈ ws.map (under k)) :
    w.path ≠ [] := by
  rcases List.mem_map.mp h with ⟨x, _, rfl⟩
  cases x <;> exact List.cons_ne_nil _ _

/-- The settings of the section that replaces what is under a key, when the
section's own come from writes to what was there. -/
theorem replay_enter {m o' : List Member}
    (hm : forall r v, Leaf (object m) r v <-> replay gives loses ws
      (fun a => Leaf (object (membersOf ((o.lookup k).getD null))) a.1 a.2) (r, v))
    (ho' : forall l, o'.lookup l = if l = k then some (object m) else o.lookup l) (q : List String)
    (v : Json) :
    Leaf (object o') q v <->
      replay gives loses (Write.enter [k] :: ws.map (under k))
        (fun a => Leaf (object o) a.1 a.2) (q, v) := by
  show _ <-> replay gives loses (ws.map (under k))
    (fun a => False ∨ (Leaf (object o) a.1 a.2 ∧ Not (a.1 <+: [k]))) (q, v)
  cases q with
  | nil =>
      constructor
      · intro h
        exact absurd h leaf_nil
      · intro h
        apply absurd h
        apply not_replay_nil
        · intro w hw
          exact path_under_ne_nil hw
        · rintro (h | h)
          · exact h
          · exact leaf_nil h.1
  | cons l r =>
      by_cases hl : l = k
      · subst hl
        rw [replay_under, leaf_section (by rw [ho', if_pos rfl]), hm]
        apply replay_congr
        rintro ⟨p, u⟩
        cases p with
        | nil =>
            constructor
            · intro h
              exact absurd h leaf_nil
            · rintro (h | h)
              · exact False.elim h
              · exact absurd (List.prefix_refl _) h.2
        | cons j rest =>
            show Leaf _ (j :: rest) u <->
              False ∨ (Leaf (object o) (l :: j :: rest) u ∧ Not (l :: j :: rest <+: [l]))
            rw [leaf_membersOf (List.cons_ne_nil _ _)]
            constructor
            · intro h
              refine Or.inr ⟨h, ?_⟩
              intro habove
              have hlength := habove.length_le
              simp only [List.length_cons, List.length_nil] at hlength
              omega
            · rintro (h | h)
              · exact False.elim h
              · exact h.1
      · rw [replay_elsewhere hl]
        have hsame : o'.lookup l = o.lookup l := by rw [ho', if_neg hl]
        rw [leaf_congr hsame]
        constructor
        · intro h
          refine Or.inr ⟨h, ?_⟩
          intro habove
          exact hl (List.cons_prefix_cons.mp habove).1
        · rintro (h | h)
          · exact False.elim h
          · exact h.1

theorem prefix_singleton {r : List String} (hr : r ≠ []) {l : String} :
    (r <+: [l]) <-> r = [l] := by
  constructor
  · intro h
    cases r with
    | nil => exact absurd rfl hr
    | cons j rest =>
        rcases List.cons_prefix_cons.mp h with ⟨rfl, hrest⟩
        rw [List.prefix_nil.mp hrest]
  · rintro rfl
    exact List.prefix_refl _

theorem leaf_remove (q : List String) (v : Json) :
    Leaf (object (removeKey k o)) q v <->
      replay gives loses [Write.remove [k]] (fun a => Leaf (object o) a.1 a.2) (q, v) := by
  show _ <-> (False ∨ (Leaf (object o) q v ∧ Not ([k] <+: q)))
  cases q with
  | nil =>
      constructor
      · intro h
        exact absurd h leaf_nil
      · rintro (h | h)
        · exact False.elim h
        · exact absurd h.1 leaf_nil
  | cons l r =>
      rw [List.cons_prefix_cons]
      simp only [List.nil_prefix, and_true, false_or]
      have hlookup := lookup_removeKey k l o
      by_cases hl : l = k
      · subst hl
        rw [if_pos rfl] at hlookup
        constructor
        · intro h
          exact absurd h (not_leaf_missing hlookup)
        · intro h
          exact absurd rfl h.2
      · rw [if_neg hl] at hlookup
        rw [leaf_congr hlookup]
        constructor
        · intro h
          exact ⟨h, fun heq => hl heq.symm⟩
        · intro h
          exact h.1

theorem leaf_set (hu : u.isSetting = true) (q : List String) (v : Json) :
    Leaf (object (insertKey k u o)) q v <->
      replay gives loses [Write.set [k] u] (fun a => Leaf (object o) a.1 a.2) (q, v) := by
  show _ <-> ((q, v) = ([k], u) ∨
    (Leaf (object o) q v ∧ Not ([k] <+: q ∨ q <+: [k])))
  cases q with
  | nil =>
      constructor
      · intro h
        exact absurd h leaf_nil
      · rintro (h | h)
        · cases h
        · exact absurd h.1 leaf_nil
  | cons l r =>
      rw [prefix_singleton (List.cons_ne_nil _ _), List.cons_prefix_cons]
      simp only [List.nil_prefix, and_true]
      have hlookup := lookup_insertKey k l u o
      by_cases hl : l = k
      · subst hl
        rw [if_pos rfl] at hlookup
        rw [leaf_setting hu hlookup]
        constructor
        · rintro ⟨rfl, rfl⟩
          exact Or.inl rfl
        · rintro (h | h)
          · cases h
            exact ⟨rfl, rfl⟩
          · exact absurd (Or.inl rfl) h.2
      · rw [if_neg hl] at hlookup
        rw [leaf_congr hlookup]
        constructor
        · intro h
          refine Or.inr ⟨h, ?_⟩
          rintro (heq | heq)
          · exact hl heq.symm
          · exact hl (List.cons.inj heq).1
        · rintro (h | h)
          · cases h
            exact absurd rfl hl
          · exact h.1

theorem not_leaf_empty (q : List String) (v : Json) : Not (Leaf (object []) q v) := by
  rintro ⟨hne, hvalue, _⟩
  cases q with
  | nil => exact hne rfl
  | cons l r => cases hvalue

theorem eq_null_of_isNull (h : v.isNull = true) : v = null := by
  cases v with
  | null => rfl
  | bool b => cases h
  | number t => cases h
  | string s => cases h
  | array items => cases h
  | object members => cases h

mutual

theorem leaf_stripNulls :
    forall v : Json, v.distinct = true -> forall (o : List Member) (k : String),
      v.isNull = false -> o.lookup k = none -> forall q u,
        Leaf (object (insertKey k (stripNulls v) o)) q u <->
          replay gives loses (writesAt k v) (fun a => Leaf (object o) a.1 a.2) (q, u)
  | null, _, _, _, hnull, _, _, _ => by cases hnull
  | bool b, _, _, _, _, _, q, u => leaf_set rfl q u
  | number t, _, _, _, _, _, q, u => leaf_set rfl q u
  | string s, _, _, _, _, _, q, u => leaf_set rfl q u
  | array items, _, _, _, _, _, q, u => leaf_set rfl q u
  | object members, hdistinct, o, k, _, hk, q, u => by
      unfold distinct at hdistinct
      have hparts := Bool.and_eq_true_iff.mp hdistinct
      have hstrip := leaf_stripMembers members hparts.2 (of_decide_eq_true hparts.1) []
        (fun _ _ => rfl)
      have ho : (object (membersOf ((o.lookup k).getD null))) = object [] := by
        rw [hk]
        rfl
      have hm : forall r v, Leaf (object (stripMembers [] members)) r v <->
          replay gives loses (writes members)
            (fun a => Leaf (object (membersOf ((o.lookup k).getD null))) a.1 a.2) (r, v) := by
        rw [ho]
        exact hstrip
      exact replay_enter hm (fun l => lookup_insertKey k l _ o) q u

theorem leaf_stripMembers :
    forall members : List Member, distinctMembers members = true ->
      (members.map Prod.fst).Nodup -> forall cleaned : List Member,
        (forall m, m ∈ members -> cleaned.lookup m.1 = none) -> forall q u,
          Leaf (object (stripMembers cleaned members)) q u <->
            replay gives loses (writes members)
              (fun a => Leaf (object cleaned) a.1 a.2) (q, u)
  | [], _, _, _, _, _, _ => Iff.rfl
  | (k, v) :: rest, hdistinct, hnodup, cleaned, hnew, q, u => by
      unfold distinctMembers at hdistinct
      have hparts := Bool.and_eq_true_iff.mp hdistinct
      have hk : cleaned.lookup k = none := hnew (k, v) List.mem_cons_self
      have hfresh := (List.nodup_cons.mp hnodup).1
      have hrest : forall m, m ∈ rest -> cleaned.lookup m.1 = none := fun m hm =>
        hnew m (List.mem_cons_of_mem _ hm)
      show Leaf (object (stripMembers _ rest)) q u <->
        replay gives loses (writesAt k v ++ writes rest) _ (q, u)
      rw [replay_append]
      cases hnull : v.isNull with
      | true =>
          cases eq_null_of_isNull hnull
          have htail := leaf_stripMembers rest hparts.2 (List.nodup_cons.mp hnodup).2 cleaned
            hrest q u
          apply htail.trans
          apply replay_congr
          rintro ⟨p, w⟩
          show _ <-> (False ∨ (Leaf (object cleaned) p w ∧ Not ([k] <+: p)))
          constructor
          · intro h
            refine Or.inr ⟨h, ?_⟩
            intro habove
            cases p with
            | nil => exact leaf_nil h
            | cons l r =>
                rw [(List.cons_prefix_cons.mp habove).1] at hk
                exact not_leaf_missing hk h
          · rintro (h | h)
            · exact False.elim h
            · exact h.1
      | false =>
          have hhead := leaf_stripNulls v hparts.1 cleaned k hnull hk
          have hinserted : forall m, m ∈ rest ->
              (insertKey k (stripNulls v) cleaned).lookup m.1 = none := by
            intro m hm
            have hne : m.1 ≠ k := by
              intro heq
              apply hfresh
              rw [← heq]
              exact List.mem_map.mpr ⟨m, hm, rfl⟩
            rw [lookup_insertKey, if_neg hne]
            exact hrest m hm
          have htail := leaf_stripMembers rest hparts.2 (List.nodup_cons.mp hnodup).2 _
            hinserted q u
          apply htail.trans
          apply replay_congr
          rintro ⟨p, w⟩
          exact hhead p w

end

theorem leaf_stripped {v : Json} (hdistinct : v.distinct = true) (hnull : v.isNull = false)
    (hk : o.lookup k = none) (q : List String) (u : Json) :
    Leaf (object (insertKey k (stripNulls v) o)) q u <->
      replay gives loses (writesAt k v) (fun a => Leaf (object o) a.1 a.2) (q, u) :=
  leaf_stripNulls v hdistinct o k hnull hk q u

mutual

theorem leaf_mergePatch :
    forall v : Json, v.distinct = true -> forall (o : List Member) (k : String) (existing : Json),
      v.isNull = false -> o.lookup k = some existing -> forall q u,
        Leaf (object (insertKey k (mergePatch existing v) o)) q u <->
          replay gives loses (writesAt k v) (fun a => Leaf (object o) a.1 a.2) (q, u)
  | null, _, _, _, _, hnull, _, _, _ => by cases hnull
  | bool b, _, _, _, _, _, _, q, u => leaf_set rfl q u
  | number t, _, _, _, _, _, _, q, u => leaf_set rfl q u
  | string s, _, _, _, _, _, _, q, u => leaf_set rfl q u
  | array items, _, _, _, _, _, _, q, u => leaf_set rfl q u
  | object members, hdistinct, o, k, existing, _, hk, q, u => by
      unfold distinct at hdistinct
      have hparts := Bool.and_eq_true_iff.mp hdistinct
      have hmerge := leaf_mergeMembers members hparts.2 (membersOf existing)
      have ho : membersOf ((o.lookup k).getD null) = membersOf existing := by
        rw [hk]
        rfl
      have hm : forall r v, Leaf (object (mergeMembers (membersOf existing) members)) r v <->
          replay gives loses (writes members)
            (fun a => Leaf (object (membersOf ((o.lookup k).getD null))) a.1 a.2) (r, v) := by
        rw [ho]
        exact hmerge
      exact replay_enter hm (fun l => lookup_insertKey k l _ o) q u

/-- The settings of a patched document are what the patch's writes leave of the
ones it had. -/
theorem leaf_mergeMembers :
    forall members : List Member, distinctMembers members = true ->
      forall (o : List Member) (q : List String) (u : Json),
        Leaf (object (mergeMembers o members)) q u <->
          replay gives loses (writes members) (fun a => Leaf (object o) a.1 a.2) (q, u)
  | [], _, _, _, _ => Iff.rfl
  | (k, v) :: rest, hdistinct, o, q, u => by
      unfold distinctMembers at hdistinct
      have hparts := Bool.and_eq_true_iff.mp hdistinct
      show Leaf (object (mergeMembers _ rest)) q u <->
        replay gives loses (writesAt k v ++ writes rest) _ (q, u)
      rw [replay_append]
      cases hnull : v.isNull with
      | true =>
          cases eq_null_of_isNull hnull
          apply (leaf_mergeMembers rest hparts.2 (removeKey k o) q u).trans
          apply replay_congr
          rintro ⟨p, w⟩
          exact leaf_remove p w
      | false =>
          cases hk : o.lookup k with
          | some existing =>
              apply (leaf_mergeMembers rest hparts.2 _ q u).trans
              apply replay_congr
              rintro ⟨p, w⟩
              exact leaf_mergePatch v hparts.1 o k existing hnull hk p w
          | none =>
              apply (leaf_mergeMembers rest hparts.2 _ q u).trans
              apply replay_congr
              rintro ⟨p, w⟩
              exact leaf_stripped hparts.1 hnull hk p w

end

def mergeAll (layers : List (List Member)) : Json :=
  layers.foldl (fun doc layer => mergePatch doc (object layer)) (object [])

/-- The settings of the merged document are the ones that stand in the writes of
all its layers. -/
theorem leaf_mergeAll {layers : List (List Member)}
    (hdistinct : forall layer, layer ∈ layers -> distinctMembers layer = true)
    (q : List String) (u : Json) :
    Leaf (mergeAll layers) q u <-> Stands gives loses (layers.flatMap writes) (q, u) := by
  have hfold : forall (layers : List (List Member)) (o : List Member),
      (forall layer, layer ∈ layers -> distinctMembers layer = true) ->
        (Leaf (layers.foldl (fun doc layer => mergePatch doc (object layer)) (object o)) q u <->
          replay gives loses (layers.flatMap writes) (fun a => Leaf (object o) a.1 a.2)
            (q, u)) := by
    intro layers
    induction layers with
    | nil =>
        intro o _
        exact Iff.rfl
    | cons layer rest ih =>
        intro o h
        rw [List.foldl_cons, List.flatMap_cons, replay_append]
        apply (ih (mergeMembers o layer) fun l hl => h l (List.mem_cons_of_mem _ hl)).trans
        apply replay_congr
        rintro ⟨p, w⟩
        exact leaf_mergeMembers layer (h layer List.mem_cons_self) o p w
  rw [← replay_none]
  apply (hfold layers [] hdistinct).trans
  apply replay_congr
  rintro ⟨p, w⟩
  constructor
  · exact not_leaf_empty p w
  · exact False.elim

end Json
end Core
end FleetServer
