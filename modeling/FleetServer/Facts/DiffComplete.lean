import FleetServer.Data.Table
import FleetServer.Facts.Places

/-!
# Differences are complete

What a diff would list without a cap does not depend on the cap: the cap only cuts
the list and counts the rest.  That list is empty when the documents are equivalent
and every key and id on the way can be spelled, and not otherwise.
-/

namespace FleetServer
namespace Facts

open FleetServer.Core
open Core.FactPath

/-- Equal, maps with equivalent entries, or lists of records with equivalent records
in any order. -/
inductive Equivalent : Json -> Json -> Prop where
  | equal {v w : Json} (h : v.same w = true) : Equivalent v w
  | maps {o n : List (String × Json)}
      (hkeys : forall k, (o.lookup k).isSome = (n.lookup k).isSome)
      (hentries : forall k v w, o.lookup k = some v -> n.lookup k = some w -> Equivalent v w) :
      Equivalent (Json.object o) (Json.object n)
  | records {o n : List Json} {oi ni : List String} (ho : recordIds o = some oi)
      (hn : recordIds n = some ni) (hids : forall id, id ∈ oi <-> id ∈ ni)
      (hrecords : forall v w, v ∈ o -> w ∈ n -> recordId v = recordId w -> Equivalent v w) :
      Equivalent (Json.array o) (Json.array n)

def comparesInside : Json -> Json -> Bool
  | Json.object _, Json.object _ => true
  | Json.array o, Json.array n => (recordIds o).isSome && (recordIds n).isSome
  | _, _ => false

theorem comparesInside_lists (o n : List Json) :
    comparesInside (Json.array o) (Json.array n) =
      ((recordIds o).isSome && (recordIds n).isSome) :=
  rfl

/-- Every key and id on the way of a comparison from `path` can be spelled. -/
inductive Spellable : String -> Json -> Json -> Prop where
  | values {path : String} {v w : Json} (h : comparesInside v w = false) : Spellable path v w
  | maps {path : String} {o n : List (String × Json)}
      (hkeys : forall k, (o.lookup k).isSome ∨ (n.lookup k).isSome ->
        (child path k false).isSome)
      (hbeneath : forall k p v w, child path k false = some p -> o.lookup k = some v ->
        n.lookup k = some w -> Spellable p v w) :
      Spellable path (Json.object o) (Json.object n)
  | records {path : String} {o n : List Json} {oi ni : List String}
      (ho : recordIds o = some oi) (hn : recordIds n = some ni)
      (hids : forall id, id ∈ ni -> (pickPath path id).isSome)
      (hbeneath : forall id p v w, pickPath path id = some p -> v ∈ o -> w ∈ n ->
        recordId v = some id -> recordId w = some id -> Spellable p v w) :
      Spellable path (Json.array o) (Json.array n)

def capTo (maxChanges : Nat) (all : List FactChange) : FactsDiff :=
  { changes := all.take maxChanges, truncated := all.length - maxChanges }

/-!
# Equality
-/

theorem same_of_sameOption {v w : Option Json} (h : sameOption v w = true) :
    (v = none ∧ w = none) ∨ exists a b, v = some a ∧ w = some b ∧ a.same b = true := by
  cases v with
  | none =>
      cases w with
      | none => exact Or.inl ⟨rfl, rfl⟩
      | some w => cases h
  | some v =>
      cases w with
      | none => cases h
      | some w => exact Or.inr ⟨v, w, rfl, rfl, h⟩

theorem lookup_of_sameMembers (k : String) : forall {o n : List (String × Json)},
    Json.sameMembers o n = true -> sameOption (o.lookup k) (n.lookup k) = true
  | [], [], _ => rfl
  | (l, v) :: o, (m, w) :: n, h => by
      rw [Json.sameMembers, Bool.and_eq_true, Bool.and_eq_true, beq_iff_eq] at h
      rw [List.lookup_cons, List.lookup_cons, h.1.1]
      cases k == m with
      | true => exact h.1.2
      | false => exact lookup_of_sameMembers k h.2

theorem asString_of_same {v w : Json} (h : v.same w = true) : v.asString = w.asString := by
  cases v <;> cases w <;> first | rfl | cases h | exact congrArg some (beq_iff_eq.mp h)

theorem recordId_of_same {v w : Json} (h : v.same w = true) : recordId v = recordId w := by
  cases v with
  | object o =>
      cases w with
      | object n =>
          have hid := lookup_of_sameMembers "id" h
          show (o.lookup "id").bind Json.asString = (n.lookup "id").bind Json.asString
          rcases same_of_sameOption hid with ⟨ho, hn⟩ | ⟨a, b, ho, hn, hsame⟩
          · rw [ho, hn]
          · rw [ho, hn]
            exact asString_of_same hsame
      | _ => cases h
  | _ => cases w <;> first | rfl | cases h

theorem mapM_recordId_of_same : forall {o n : List Json}, Json.sameItems o n = true ->
    o.mapM recordId = n.mapM recordId
  | [], [], _ => rfl
  | v :: o, w :: n, h => by
      rw [Json.sameItems, Bool.and_eq_true] at h
      rw [List.mapM_cons, List.mapM_cons, recordId_of_same h.1, mapM_recordId_of_same h.2]

theorem mem_zip_of_same {id : String} {w : Json} : forall {ids : List String} {o n : List Json},
    Json.sameItems o n = true -> (id, w) ∈ ids.zip n ->
      exists v, (id, v) ∈ ids.zip o ∧ v.same w = true
  | [], _, _, _, hmem => by cases hmem
  | _ :: _, [], [], _, hmem => by cases hmem
  | i :: ids, v :: o, u :: n, h, hmem => by
      rw [Json.sameItems, Bool.and_eq_true] at h
      cases List.mem_cons.mp hmem with
      | inl hhead =>
          cases hhead
          exact ⟨v, List.mem_cons_self, h.1⟩
      | inr htail =>
          rcases mem_zip_of_same h.2 htail with ⟨v', hv, hsame⟩
          exact ⟨v', List.mem_cons_of_mem _ hv, hsame⟩

/-!
# What a part of the walk reports
-/

structure Reports (walk : Differ -> Differ) (ps : List String) (added : List FactChange)
    (ps' : List String) : Prop where
  parents : forall d, d.atParent = ps -> (walk d).atParent = ps'
  cap : forall d, (walk d).max = d.max
  out : forall d all, d.atParent = ps -> d.out = capTo d.max all ->
    (walk d).out = capTo d.max (all ++ added)

/-- A part of the walk over something: it reports nothing at all only of what is `Fine`,
and of what is `Quiet` it does report nothing. -/
def Tells (walk : Differ -> Differ) (Fine Quiet : Prop) : Prop :=
  forall ps, exists added ps', Reports walk ps added ps' ∧
    (ps = [] -> added = [] -> ps' = [] ∧ Fine) ∧ (Quiet -> added = [] ∧ ps' = ps)

section Walks

variable {walk walk' : Differ -> Differ} {Fine Fine' Quiet Quiet' : Prop} {path : String}

theorem tells_mono (h : Tells walk Fine Quiet) (hfine : Fine -> Fine')
    (hquiet : Quiet' -> Quiet) : Tells walk Fine' Quiet' := by
  intro ps
  rcases h ps with ⟨added, ps', hreports, honly, hnone⟩
  refine ⟨added, ps', hreports, ?_, fun h => hnone (hquiet h)⟩
  intro hps hadded
  rcases honly hps hadded with ⟨hps', hfound⟩
  exact ⟨hps', hfine hfound⟩

theorem tells_skip (hfine : Fine) : Tells (fun d => d) Fine Quiet := by
  intro ps
  refine ⟨[], ps, ⟨fun _ h => h, fun _ => rfl, ?_⟩, fun hps _ => ⟨hps, hfine⟩,
    fun _ => ⟨rfl, rfl⟩⟩
  intro d all _ hout
  rw [List.append_nil]
  exact hout

theorem out_push {d : Differ} {all : List FactChange} {kind : ChangeKind} {old new : Option Json}
    (h : d.out = capTo d.max all) :
    (d.push path kind old new).out = capTo d.max (all ++ [changeAt path kind old new]) := by
  unfold Differ.push
  simp only [h, capTo, List.length_take]
  split
  · rename_i hfull
    have hlong : d.max ≤ all.length := by omega
    rw [List.take_append_of_le_length hlong, List.length_append, List.length_singleton]
    have hleft : all.length - d.max + 1 = all.length + 1 - d.max := by omega
    rw [hleft]
  · rename_i hroom
    have hshort : all.length < d.max := by omega
    rw [List.take_of_length_le (Nat.le_of_lt hshort), List.take_of_length_le]
    · rw [List.length_append, List.length_singleton]
      have hleft : all.length - d.max = all.length + 1 - d.max := by omega
      rw [hleft]
      rfl
    · rw [List.length_append, List.length_singleton]
      omega

theorem max_push (d : Differ) (kind : ChangeKind) (old new : Option Json) :
    (d.push path kind old new).max = d.max := by
  unfold Differ.push
  split <;> rfl

theorem tells_push {kind : ChangeKind} {old new : Option Json} (hquiet : Not Quiet) :
    Tells (fun d => d.push path kind old new) Fine Quiet := by
  intro ps
  refine ⟨[changeAt path kind old new], ps, ⟨?_, ?_, ?_⟩, ?_, fun h => absurd h hquiet⟩
  · intro d hd
    rw [push_atParent]
    exact hd
  · exact fun d => max_push d kind old new
  · exact fun d all _ hout => out_push hout
  · intro _ hadded
    cases hadded

theorem tells_changedBeneath (hquiet : Not Quiet) :
    Tells (fun d => d.changedBeneath path) Fine Quiet := by
  intro ps
  cases hseen : ps.contains path with
  | true =>
      refine ⟨[], ps, ⟨?_, ?_, ?_⟩, ?_, fun h => absurd h hquiet⟩
      · intro d hd
        unfold Differ.changedBeneath
        rw [hd, if_pos hseen]
        exact hd
      · intro d
        unfold Differ.changedBeneath
        split
        · rfl
        · exact max_push _ _ _ _
      · intro d all hd hout
        unfold Differ.changedBeneath
        rw [hd, if_pos hseen, List.append_nil]
        exact hout
      · intro hps
        rw [hps] at hseen
        cases hseen
  | false =>
      refine ⟨[changeAt path ChangeKind.changed none none], path :: ps, ⟨?_, ?_, ?_⟩, ?_,
        fun h => absurd h hquiet⟩
      · intro d hd
        unfold Differ.changedBeneath
        rw [hd, hseen, if_neg Bool.false_ne_true, push_atParent]
      · intro d
        unfold Differ.changedBeneath
        split
        · rfl
        · exact max_push _ _ _ _
      · intro d all hd hout
        unfold Differ.changedBeneath
        rw [hd, hseen, if_neg Bool.false_ne_true]
        exact @out_push path { d with atParent := path :: ps } all _ none none hout
      · intro _ hadded
        cases hadded

theorem tells_then (h : Tells walk Fine Quiet) (h' : Tells walk' Fine' Quiet') :
    Tells (fun d => walk' (walk d)) (Fine ∧ Fine') (Quiet ∧ Quiet') := by
  intro ps
  rcases h ps with ⟨added, mid, hreports, honly, hnone⟩
  rcases h' mid with ⟨added', ps', hreports', honly', hnone'⟩
  refine ⟨added ++ added', ps', ⟨?_, ?_, ?_⟩, ?_, ?_⟩
  · exact fun d hd => hreports'.parents _ (hreports.parents d hd)
  · intro d
    rw [hreports'.cap, hreports.cap]
  · intro d all hd hout
    have hfirst := hreports.out d all hd hout
    rw [← hreports.cap d] at hfirst
    rw [hreports'.out _ _ (hreports.parents d hd) hfirst, hreports.cap, List.append_assoc]
  · intro hps hadded
    rcases List.append_eq_nil_iff.mp hadded with ⟨hadded, hadded'⟩
    rcases honly hps hadded with ⟨hmid, hfine⟩
    rcases honly' hmid hadded' with ⟨hps', hfine'⟩
    exact ⟨hps', hfine, hfine'⟩
  · intro hquiet
    rcases hnone hquiet.1 with ⟨hadded, hmid⟩
    rcases hnone' hquiet.2 with ⟨hadded', hps'⟩
    rw [hadded, hadded', hps', hmid]
    exact ⟨rfl, rfl⟩

theorem tells_foldl {alpha : Type} {report : Differ -> alpha -> Differ}
    {fine quiet : alpha -> Prop} :
    forall {items : List alpha},
      (forall item, item ∈ items -> Tells (fun d => report d item) (fine item) (quiet item)) ->
        Tells (fun d => items.foldl report d) (forall item, item ∈ items -> fine item)
          (forall item, item ∈ items -> quiet item) := by
  intro items
  induction items with
  | nil =>
      intro _
      apply tells_skip
      intro item hitem
      cases hitem
  | cons item items ih =>
      intro h
      have hrest := ih fun other hother => h other (List.mem_cons_of_mem _ hother)
      apply tells_mono (tells_then (h item List.mem_cons_self) hrest)
      · intro hall other hother
        cases List.mem_cons.mp hother with
        | inl heq =>
            rw [heq]
            exact hall.1
        | inr hother => exact hall.2 other hother
      · intro hall
        exact ⟨hall item List.mem_cons_self,
          fun other hother => hall other (List.mem_cons_of_mem _ hother)⟩

end Walks

/-!
# Keys
-/

/-- The comparison of two values that are not nested deeper than the fuel. -/
def WalkTells (fuel : Nat) : Prop :=
  forall (path : String) (v w : Json), v.depth < fuel ->
    Tells (fun d => diffValue fuel path v w d) (Equivalent v w)
      (Equivalent v w ∧ Spellable path v w)

section Keys

variable {fuel : Nat} {path : String} {o n : List (String × Json)}

/-- Neither map has the key, or both have it and equivalent entries. -/
def KeyFine (o n : List (String × Json)) (k : String) : Prop :=
  (o.lookup k = none ∧ n.lookup k = none) ∨
    exists v w, o.lookup k = some v ∧ n.lookup k = some w ∧ Equivalent v w

def KeyQuiet (path : String) (o n : List (String × Json)) (k : String) : Prop :=
  KeyFine o n k ∧ exists p, child path k false = some p ∧
    forall v w, o.lookup k = some v -> n.lookup k = some w -> Spellable p v w

theorem keyFine_of_same {k : String} (h : sameOption (o.lookup k) (n.lookup k) = true) :
    KeyFine o n k := by
  rcases same_of_sameOption h with hnone | ⟨v, w, hv, hw, hsame⟩
  · exact Or.inl hnone
  · exact Or.inr ⟨v, w, hv, hw, Equivalent.equal hsame⟩

theorem tells_reportKey (ih : WalkTells fuel) (hdepth : Json.depthMembers o < fuel)
    (k : String) :
    Tells (fun d => reportKey fuel path o n d k) (KeyFine o n k) (KeyQuiet path o n k) := by
  unfold reportKey
  cases hchild : child path k false with
  | none =>
      have hquiet : Not (KeyQuiet path o n k) := by
        intro hquiet
        rcases hquiet.2 with ⟨p, hp, _⟩
        rw [hchild] at hp
        cases hp
      cases hsame : sameOption (o.lookup k) (n.lookup k) with
      | true => exact tells_skip (keyFine_of_same hsame)
      | false => exact tells_changedBeneath hquiet
  | some p =>
      cases ho : o.lookup k with
      | none =>
          cases hn : n.lookup k with
          | none => exact tells_skip (Or.inl ⟨ho, hn⟩)
          | some w =>
              apply tells_push
              intro hquiet
              rcases hquiet.1 with ⟨_, hnone⟩ | ⟨v, _, hv, _⟩
              · rw [hn] at hnone
                cases hnone
              · rw [ho] at hv
                cases hv
      | some v =>
          cases hn : n.lookup k with
          | none =>
              apply tells_push
              intro hquiet
              rcases hquiet.1 with ⟨hnone, _⟩ | ⟨_, w, _, hw, _⟩
              · rw [ho] at hnone
                cases hnone
              · rw [hn] at hw
                cases hw
          | some w =>
              have hless := Nat.lt_of_le_of_lt (depth_le_of_lookup ho) hdepth
              apply tells_mono (ih p v w hless)
              · intro hequivalent
                exact Or.inr ⟨v, w, ho, hn, hequivalent⟩
              · intro hquiet
                rcases hquiet with ⟨hfine, q, hq, hspellable⟩
                rw [hchild] at hq
                cases hq
                refine ⟨?_, hspellable v w ho hn⟩
                rcases hfine with ⟨hnone, _⟩ | ⟨v', w', hv, hw, hequivalent⟩
                · rw [ho] at hnone
                  cases hnone
                · rw [ho] at hv
                  rw [hn] at hw
                  cases hv
                  cases hw
                  exact hequivalent

theorem lookup_none {k : String} (h : k ∉ o.map Prod.fst) : o.lookup k = none := by
  apply List.lookup_eq_none_iff.mpr
  intro e he
  rw [bne_iff_ne]
  intro heq
  exact h (List.mem_map.mpr ⟨e, he, heq.symm⟩)

theorem equivalent_maps
    (h : forall k, k ∈ sortedSet (o.map Prod.fst ++ n.map Prod.fst) -> KeyFine o n k) :
    Equivalent (Json.object o) (Json.object n) := by
  have hall : forall k, KeyFine o n k := by
    intro k
    by_cases hk : k ∈ o.map Prod.fst ++ n.map Prod.fst
    · exact h k (mem_sortedSet.mpr hk)
    · rw [List.mem_append, not_or] at hk
      exact Or.inl ⟨lookup_none hk.1, lookup_none hk.2⟩
  apply Equivalent.maps
  · intro k
    rcases hall k with ⟨ho, hn⟩ | ⟨v, w, ho, hn, _⟩
    · rw [ho, hn]
    · rw [ho, hn]
      rfl
  · intro k v w ho hn
    rcases hall k with ⟨hnone, _⟩ | ⟨v', w', hv, hw, hequivalent⟩
    · rw [ho] at hnone
      cases hnone
    · rw [ho] at hv
      rw [hn] at hw
      cases hv
      cases hw
      exact hequivalent

theorem keyFine_of_equivalent (h : Equivalent (Json.object o) (Json.object n)) (k : String) :
    KeyFine o n k := by
  cases h with
  | equal hsame => exact keyFine_of_same (lookup_of_sameMembers k hsame)
  | maps hkeys hentries =>
      have hsome := hkeys k
      cases ho : o.lookup k with
      | none =>
          rw [ho] at hsome
          exact Or.inl ⟨ho, Option.isNone_iff_eq_none.mp (by simpa using hsome.symm)⟩
      | some v =>
          rw [ho] at hsome
          rcases Option.isSome_iff_exists.mp hsome.symm with ⟨w, hn⟩
          exact Or.inr ⟨v, w, ho, hn, hentries k v w ho hn⟩

theorem isSome_lookup_of_mem {k : String} (h : k ∈ o.map Prod.fst) : (o.lookup k).isSome := by
  cases ho : o.lookup k with
  | some v => rfl
  | none =>
      rcases List.mem_map.mp h with ⟨e, he, hk⟩
      have hne := List.lookup_eq_none_iff.mp ho e he
      rw [hk, bne_self_eq_false] at hne
      cases hne

theorem keyQuiet_of_equivalent {k : String} (h : Equivalent (Json.object o) (Json.object n))
    (hspellable : Spellable path (Json.object o) (Json.object n))
    (hk : k ∈ sortedSet (o.map Prod.fst ++ n.map Prod.fst)) : KeyQuiet path o n k := by
  refine ⟨keyFine_of_equivalent h k, ?_⟩
  cases hspellable with
  | values hinside => cases hinside
  | maps hkeys hbeneath =>
      have hsome : (o.lookup k).isSome ∨ (n.lookup k).isSome := by
        cases List.mem_append.mp (mem_sortedSet.mp hk) with
        | inl hold => exact Or.inl (isSome_lookup_of_mem hold)
        | inr hnew => exact Or.inr (isSome_lookup_of_mem hnew)
      rcases Option.isSome_iff_exists.mp (hkeys k hsome) with ⟨p, hp⟩
      exact ⟨p, hp, fun v w ho hn => hbeneath k p v w hp ho hn⟩

theorem tells_maps (ih : WalkTells fuel) (hdepth : Json.depthMembers o < fuel) :
    Tells (fun d => (sortedSet (o.map Prod.fst ++ n.map Prod.fst)).foldl
        (reportKey fuel path o n) d)
      (Equivalent (Json.object o) (Json.object n))
      (Equivalent (Json.object o) (Json.object n) ∧
        Spellable path (Json.object o) (Json.object n)) := by
  apply tells_mono (tells_foldl fun k _ => tells_reportKey ih hdepth k)
  · exact equivalent_maps
  · exact fun h k hk => keyQuiet_of_equivalent h.1 h.2 hk

end Keys

/-!
# Records
-/

section Records

variable {fuel : Nat} {path id : String} {items o n : List Json} {ids oi ni : List String}
  {v w : Json}

theorem recordId_of_zip :
    forall {items : List Json} {ids : List String}, items.mapM recordId = some ids ->
      (id, v) ∈ ids.zip items -> recordId v = some id := by
  intro items
  induction items with
  | nil =>
      intro ids _ hmem
      rw [List.zip_nil_right] at hmem
      cases hmem
  | cons first items ih =>
      intro ids hids hmem
      rcases mapM_recordId_cons hids with ⟨firstId, rest, rfl, hfirst, hrest⟩
      rcases List.mem_cons.mp hmem with hmem | hmem
      · cases hmem
        exact hfirst
      · exact ih hrest hmem

theorem zip_of_mem :
    forall {items : List Json} {ids : List String}, items.mapM recordId = some ids ->
      v ∈ items -> exists id, (id, v) ∈ ids.zip items := by
  intro items
  induction items with
  | nil =>
      intro ids _ hmem
      cases hmem
  | cons first items ih =>
      intro ids hids hmem
      rcases mapM_recordId_cons hids with ⟨firstId, rest, rfl, hfirst, hrest⟩
      rcases List.mem_cons.mp hmem with rfl | hmem
      · exact ⟨firstId, List.mem_cons_self⟩
      · rcases ih hrest hmem with ⟨id, hid⟩
        exact ⟨id, List.mem_cons_of_mem _ hid⟩

theorem byId_of_mem (hids : recordIds items = some ids) (hmem : (id, v) ∈ ids.zip items) :
    byId ids items id = some v := by
  apply Table.lookup_of_mem
  · rw [List.map_reverse, List.nodup_reverse, zip_recordIds hids]
    exact (recordIds_eq_some hids).2
  · exact List.mem_reverse.mpr hmem

theorem mem_zip_of_id (hids : recordIds items = some ids) (hid : id ∈ ids) :
    exists v, (id, v) ∈ ids.zip items := by
  rw [← zip_recordIds hids] at hid
  rcases List.mem_map.mp hid with ⟨⟨_, v⟩, hmem, rfl⟩
  exact ⟨v, hmem⟩

def RecordFine (oi : List String) (o : List Json) (r : String × Json) : Prop :=
  exists v, byId oi o r.1 = some v ∧ Equivalent v r.2

def RecordQuiet (path : String) (oi : List String) (o : List Json) (r : String × Json) : Prop :=
  RecordFine oi o r ∧ exists p, pickPath path r.1 = some p ∧
    forall v, byId oi o r.1 = some v -> Spellable p v r.2

theorem tells_removedRecord (r : String × Json) :
    Tells (fun d => removedRecord path d r) False False := by
  unfold removedRecord
  cases pickPath path r.1 with
  | none => exact tells_changedBeneath (fun h => h)
  | some p => exact tells_push (fun h => h)

theorem tells_reportRecord (ih : WalkTells fuel) (hdepth : Json.depthItems o < fuel)
    (r : String × Json) :
    Tells (fun d => reportRecord fuel path oi o d r) (RecordFine oi o r)
      (RecordQuiet path oi o r) := by
  unfold reportRecord
  cases hpick : pickPath path r.1 with
  | none =>
      have hquiet : Not (RecordQuiet path oi o r) := by
        intro hquiet
        rcases hquiet.2 with ⟨p, hp, _⟩
        rw [hpick] at hp
        cases hp
      cases hsame : sameOption (byId oi o r.1) (some r.2) with
      | true =>
          apply tells_skip
          rcases same_of_sameOption hsame with ⟨_, hnone⟩ | ⟨v, w, hv, hw, heq⟩
          · cases hnone
          · cases hw
            exact ⟨v, hv, Equivalent.equal heq⟩
      | false => exact tells_changedBeneath hquiet
  | some p =>
      cases hby : byId oi o r.1 with
      | none =>
          apply tells_push
          intro hquiet
          rcases hquiet.1 with ⟨v, hv, _⟩
          rw [hby] at hv
          cases hv
      | some v =>
          have hless := Nat.lt_of_le_of_lt
            (depth_le_of_mem (List.of_mem_zip (byId_mem hby)).2) hdepth
          apply tells_mono (ih p v r.2 hless)
          · exact fun hequivalent => ⟨v, hby, hequivalent⟩
          · intro hquiet
            rcases hquiet with ⟨⟨v', hv, hequivalent⟩, q, hq, hspellable⟩
            rw [hby] at hv
            rw [hpick] at hq
            cases hv
            cases hq
            exact ⟨hequivalent, hspellable v hby⟩

theorem equivalent_records (ho : recordIds o = some oi) (hn : recordIds n = some ni)
    (hgone : forall r, r ∈ (oi.zip o).filter (fun r => !ni.contains r.1) -> False)
    (hfine : forall r, r ∈ ni.zip n -> RecordFine oi o r) :
    Equivalent (Json.array o) (Json.array n) := by
  have hold := (recordIds_eq_some ho).1
  have hnew := (recordIds_eq_some hn).1
  apply Equivalent.records ho hn
  · intro id
    constructor
    · intro hid
      rcases mem_zip_of_id ho hid with ⟨v, hv⟩
      by_contra hnot
      apply hgone (id, v)
      rw [List.mem_filter]
      exact ⟨hv, by simpa using hnot⟩
    · intro hid
      rcases mem_zip_of_id hn hid with ⟨w, hw⟩
      rcases hfine (id, w) hw with ⟨v, hv, _⟩
      exact (List.of_mem_zip (byId_mem hv)).1
  · intro v w hv hw hsame
    rcases zip_of_mem hnew hw with ⟨id, hid⟩
    rcases hfine (id, w) hid with ⟨v', hv', hequivalent⟩
    rcases zip_of_mem hold hv with ⟨id', hid'⟩
    rw [recordId_of_zip hold hid', recordId_of_zip hnew hid] at hsame
    cases hsame
    have hby := byId_of_mem ho hid'
    rw [hv'] at hby
    cases hby
    exact hequivalent

theorem records_of_equivalent (h : Equivalent (Json.array o) (Json.array n))
    (ho : recordIds o = some oi) (hn : recordIds n = some ni) :
    (forall id, id ∈ oi <-> id ∈ ni) ∧
      forall r, r ∈ ni.zip n -> RecordFine oi o r := by
  have hold := (recordIds_eq_some ho).1
  have hnew := (recordIds_eq_some hn).1
  cases h with
  | equal hsame =>
      have hids : oi = ni := by
        have hmap := mapM_recordId_of_same hsame
        rw [hold, hnew] at hmap
        exact Option.some.inj hmap
      subst hids
      refine ⟨fun _ => Iff.rfl, ?_⟩
      intro r hr
      rcases mem_zip_of_same hsame hr with ⟨v, hv, heq⟩
      exact ⟨v, byId_of_mem ho hv, Equivalent.equal heq⟩
  | records ho' hn' hids hrecords =>
      rw [ho] at ho'
      rw [hn] at hn'
      cases ho'
      cases hn'
      refine ⟨hids, ?_⟩
      intro r hr
      rcases mem_zip_of_id ho ((hids r.1).mpr (List.of_mem_zip hr).1) with ⟨v, hv⟩
      refine ⟨v, byId_of_mem ho hv, hrecords v r.2 (List.of_mem_zip hv).2
        (List.of_mem_zip hr).2 ?_⟩
      rw [recordId_of_zip hold hv, recordId_of_zip hnew hr]

theorem recordQuiet_of_equivalent (h : Equivalent (Json.array o) (Json.array n))
    (hspellable : Spellable path (Json.array o) (Json.array n))
    (ho : recordIds o = some oi) (hn : recordIds n = some ni) {r : String × Json}
    (hr : r ∈ ni.zip n) : RecordQuiet path oi o r := by
  refine ⟨(records_of_equivalent h ho hn).2 r hr, ?_⟩
  cases hspellable with
  | values hinside =>
      rw [comparesInside_lists, ho, hn] at hinside
      cases hinside
  | records ho' hn' hids hbeneath =>
      rw [ho] at ho'
      rw [hn] at hn'
      cases ho'
      cases hn'
      rcases Option.isSome_iff_exists.mp (hids r.1 (List.of_mem_zip hr).1) with ⟨p, hp⟩
      refine ⟨p, hp, ?_⟩
      intro v hv
      have hold := byId_mem hv
      exact hbeneath r.1 p v r.2 hp (List.of_mem_zip hold).2 (List.of_mem_zip hr).2
        (recordId_of_zip (recordIds_eq_some ho).1 hold)
        (recordId_of_zip (recordIds_eq_some hn).1 hr)

theorem tells_records (ih : WalkTells fuel) (hdepth : Json.depthItems o < fuel)
    (ho : recordIds o = some oi) (hn : recordIds n = some ni) :
    Tells (fun d => reportRecords fuel path oi ni o n d)
      (Equivalent (Json.array o) (Json.array n))
      (Equivalent (Json.array o) (Json.array n) ∧
        Spellable path (Json.array o) (Json.array n)) := by
  unfold reportRecords
  apply tells_mono (tells_then
    (tells_foldl fun r _ => tells_removedRecord r)
    (tells_foldl fun r _ => tells_reportRecord ih hdepth r))
  · exact fun h => equivalent_records ho hn h.1 h.2
  · intro h
    constructor
    · intro r hr
      rcases List.mem_filter.mp hr with ⟨hold, hnot⟩
      have hid := ((records_of_equivalent h.1 ho hn).1 r.1).mp (List.of_mem_zip hold).1
      rw [List.contains_iff_mem.mpr hid] at hnot
      cases hnot
    · exact fun r hr => recordQuiet_of_equivalent h.1 h.2 ho hn hr

end Records

/-!
# The whole comparison
-/

section Values

variable {fuel : Nat} {path : String} {v w : Json}

theorem comparesInside_cases (h : comparesInside v w = true) :
    (exists o n, v = Json.object o ∧ w = Json.object n) ∨
      exists o n oi ni, v = Json.array o ∧ w = Json.array n ∧ recordIds o = some oi ∧
        recordIds n = some ni := by
  unfold comparesInside at h
  split at h
  · exact Or.inl ⟨_, _, rfl, rfl⟩
  · rename_i o n
    rw [Bool.and_eq_true] at h
    rcases Option.isSome_iff_exists.mp h.1 with ⟨oi, ho⟩
    rcases Option.isSome_iff_exists.mp h.2 with ⟨ni, hn⟩
    exact Or.inr ⟨o, n, oi, ni, rfl, rfl, ho, hn⟩
  · cases h

theorem diffValue_whole (h : comparesInside v w = false) (d : Differ) :
    diffValue (fuel + 1) path v w d =
      if v.same w then d else d.push path ChangeKind.changed (some v) (some w) := by
  unfold diffValue
  split
  · cases h
  · rename_i o n
    cases ho : recordIds o with
    | none => rfl
    | some oi =>
        cases hn : recordIds n with
        | none => rfl
        | some ni =>
            rw [comparesInside_lists, ho, hn] at h
            cases h
  · rfl

theorem same_of_equivalent (h : Equivalent v w) (hwhole : comparesInside v w = false) :
    v.same w = true := by
  cases h with
  | equal hsame => exact hsame
  | maps hkeys hentries => cases hwhole
  | records ho hn hids hrecords =>
      rw [comparesInside_lists, ho, hn] at hwhole
      cases hwhole

theorem tells_whole (h : comparesInside v w = false) :
    Tells (fun d => diffValue (fuel + 1) path v w d) (Equivalent v w)
      (Equivalent v w ∧ Spellable path v w) := by
  have hwalk : (fun d => diffValue (fuel + 1) path v w d) = fun d =>
      if v.same w then d else d.push path ChangeKind.changed (some v) (some w) :=
    funext fun d => diffValue_whole h d
  rw [hwalk]
  cases hsame : v.same w with
  | true => exact tells_skip (Equivalent.equal hsame)
  | false =>
      apply tells_push
      intro hquiet
      rw [same_of_equivalent hquiet.1 h] at hsame
      cases hsame

theorem walkTells (fuel : Nat) : WalkTells fuel := by
  induction fuel with
  | zero =>
      intro path v w hdepth
      exact absurd hdepth (Nat.not_lt_zero _)
  | succ fuel ih =>
      intro path v w hdepth
      cases hinside : comparesInside v w with
      | false => exact tells_whole hinside
      | true =>
          rcases comparesInside_cases hinside with
            ⟨o, n, rfl, rfl⟩ | ⟨o, n, oi, ni, rfl, rfl, ho, hn⟩
          · rw [Json.depth] at hdepth
            exact tells_maps ih (by omega)
          · rw [Json.depth] at hdepth
            have hwalk : (fun d => diffValue (fuel + 1) path (Json.array o) (Json.array n) d) =
                fun d => reportRecords fuel path oi ni o n d := by
              funext d
              simp only [diffValue, ho, hn]
              rfl
            rw [hwalk]
            exact tells_records ih (by omega) ho hn

end Values

/-- One list of changes, of which every cap lists the first and counts the rest: it is
empty only for equivalent documents, and for all whose keys and ids can be spelled. -/
theorem diff_complete (old new : Json) :
    exists all, (forall maxChanges, diff old new maxChanges = capTo maxChanges all) ∧
      (all = [] -> Equivalent old new) ∧
      (Equivalent old new -> Spellable "" old new -> all = []) := by
  rcases walkTells (old.depth + 1) "" old new (Nat.lt_succ_self _) [] with
    ⟨all, ps', hreports, honly, hnone⟩
  refine ⟨all, ?_, fun hempty => (honly rfl hempty).2, fun h hs => (hnone ⟨h, hs⟩).1⟩
  intro maxChanges
  apply hreports.out
    { out := { changes := [], truncated := 0 }, max := maxChanges, atParent := [] } [] rfl
  unfold capTo
  rw [List.take_nil, List.length_nil, Nat.zero_sub]

end Facts
end FleetServer
