import FleetServer.Core.Spelling

/-!
# Differences name places

Every change a diff lists is at a path that reads back as a walk to one value of
each document the change is about.  The walk over the two documents enters each
step beneath a place once, so no path is listed twice.
-/

namespace FleetServer
namespace Facts

open FleetServer.Core
open Core.FactPath

variable {id : String} {items n o : List Json} {ids ni oi : List String} {kind : ChangeKind}
variable {new old : Option Json} {fuel : Nat}

/-!
# Lists of records
-/

def recordId (v : Json) : Option String :=
  if v.isObject then (v.get "id").bind Json.asString else none

theorem get_of_recordId {v : Json} (h : recordId v = some id) :
    (v.get "id").bind Json.asString = some id := by
  unfold recordId at h
  split at h
  · exact h
  · cases h

theorem recordIds_eq_some (h : recordIds items = some ids) :
    items.mapM recordId = some ids ∧ ids.Nodup := by
  have hbind : (items.mapM recordId).bind (fun ids => if ids.Nodup then some ids else none)
      = some ids := h
  rcases Option.bind_eq_some_iff.mp hbind with ⟨found, hfound, hids⟩
  split at hids
  · rename_i hnodup
    cases hids
    exact ⟨hfound, hnodup⟩
  · cases hids

theorem mapM_recordId_cons {v : Json} (h : (v :: items).mapM recordId = some ids) :
    exists id rest, ids = id :: rest ∧ recordId v = some id ∧
      items.mapM recordId = some rest := by
  rw [List.mapM_cons] at h
  rcases Option.bind_eq_some_iff.mp h with ⟨id, hid, htail⟩
  rcases Option.bind_eq_some_iff.mp htail with ⟨rest, hrest, hids⟩
  cases hids
  exact ⟨id, rest, rfl, hid, hrest⟩

theorem id_mem_of_record {v : Json} :
    forall {items : List Json} {ids : List String},
      items.mapM recordId = some ids -> v ∈ items ->
        (v.get "id").bind Json.asString = some id -> id ∈ ids := by
  intro items
  induction items with
  | nil =>
      intro ids hids hv
      cases hv
  | cons first items ih =>
      intro ids hids hv hid
      rcases mapM_recordId_cons hids with ⟨firstId, rest, rfl, hfirst, hrest⟩
      rcases List.mem_cons.mp hv with rfl | hv
      · have hget := get_of_recordId hfirst
        rw [hid] at hget
        cases hget
        exact List.mem_cons_self
      · exact List.mem_cons_of_mem _ (ih hrest hv hid)

theorem pick_record {v : Json} :
    forall {items : List Json} {ids : List String},
      items.mapM recordId = some ids -> ids.Nodup -> (id, v) ∈ ids.zip items ->
        pick (Json.array items) id = [v] := by
  intro items
  induction items with
  | nil =>
      intro ids hids hnodup hmem
      rw [List.zip_nil_right] at hmem
      cases hmem
  | cons first items ih =>
      intro ids hids hnodup hmem
      rcases mapM_recordId_cons hids with ⟨firstId, rest, rfl, hfirst, hrest⟩
      have hget := get_of_recordId hfirst
      have hfresh := (List.nodup_cons.mp hnodup).1
      show (first :: items).filter
        (fun i => (i.get "id").bind Json.asString == some id) = [v]
      rw [List.filter_cons, hget]
      rcases List.mem_cons.mp hmem with hmem | hmem
      · cases hmem
        have hnone : items.filter
            (fun i => (i.get "id").bind Json.asString == some id) = [] := by
          apply List.filter_eq_nil_iff.mpr
          intro i hi heq
          have hid : (i.get "id").bind Json.asString = some id := beq_iff_eq.mp heq
          exact hfresh (id_mem_of_record hrest hi hid)
        rw [hnone, beq_self_eq_true]
        rfl
      · have hne : firstId ≠ id := by
          intro heq
          rw [heq] at hfresh
          exact hfresh (List.of_mem_zip hmem).1
        have hbeq : (some firstId == some id) = false := by
          apply beq_eq_false_iff_ne.mpr
          intro heq
          exact hne (Option.some.inj heq)
        rw [hbeq]
        exact ih hrest (List.nodup_cons.mp hnodup).2 hmem

theorem byId_mem {v : Json} (h : byId ids items id = some v) : (id, v) ∈ ids.zip items := by
  rcases List.lookup_eq_some_iff.mp h with ⟨before, after, hrows, _⟩
  apply List.mem_reverse.mp
  rw [hrows]
  exact List.mem_append_right _ List.mem_cons_self

/-!
# What a change says about its place
-/

/-- What a change shows of the one value its path reaches in each document it is
about.  A change of something beneath a map or a list of records, which has no
path of its own, shows nothing. -/
inductive NamesPlace (before after : Json) (c : FactChange) (p : FactPath) : Prop where
  | added (v : Json) (hkind : c.kind = ChangeKind.added) (hafter : p.resolve after = [v])
      (hold : c.old = none) (hnew : c.new = shown v)
  | removed (v : Json) (hkind : c.kind = ChangeKind.removed) (hbefore : p.resolve before = [v])
      (hold : c.old = shown v) (hnew : c.new = none)
  | changed (v w : Json) (hkind : c.kind = ChangeKind.changed)
      (hbefore : p.resolve before = [v]) (hafter : p.resolve after = [w])
      (hold : c.old = shown v) (hnew : c.new = shown w)
  | beneath (v w : Json) (hkind : c.kind = ChangeKind.changed)
      (hbefore : p.resolve before = [v]) (hafter : p.resolve after = [w])
      (hscalars : isScalar v = false ∧ isScalar w = false)
      (hold : c.old = none) (hnew : c.new = none)

variable {before after : Json}

/-- A change whose path, unless it is the document itself, reads back. -/
def Named (before after : Json) (c : FactChange) : Prop :=
  c.path ≠ "" -> byteLen c.path ≤ maxFactPathLen ∧
    exists p, parse c.path = Except.ok p ∧ NamesPlace before after c p

/-- The two values a walk leads to, and the path that spells it. -/
structure Place (before after : Json) (path : String) (walked : List FactStep)
    (v w : Json) : Prop where
  spells : Spells path walked
  before : FactStep.walk walked [before] = [v]
  after : FactStep.walk walked [after] = [w]
  limit : byteLen path ≤ maxFactPathLen

theorem named_of_walk {c : FactChange} {walked : List FactStep} (hspells : Spells c.path walked)
    (hlimit : byteLen c.path ≤ maxFactPathLen)
    (hnames : forall p : FactPath, p.steps = walked -> NamesPlace before after c p) :
    Named before after c := by
  intro hne
  rcases hspells.parse hne with ⟨p, hparse, hsteps⟩
  exact ⟨hlimit, p, hparse, hnames p hsteps⟩

theorem resolve_of_walk {p : FactPath} {walked : List FactStep} {doc v : Json}
    (hsteps : p.steps = walked) (hwalk : FactStep.walk walked [doc] = [v]) :
    p.resolve doc = [v] := by
  rw [resolve_eq_walk, hsteps]
  exact hwalk

/-!
# What a walk adds to the changes
-/

def Under (walked : List FactStep) (path : String) : Prop :=
  exists more, Spells path (walked ++ more)

theorem Under.at_ {path : String} {walked : List FactStep} (h : Spells path walked) :
    Under walked path :=
  ⟨[], by rw [List.append_nil]; exact h⟩

theorem Under.up {path : String} {walked : List FactStep} {step : FactStep}
    (h : Under (walked ++ [step]) path) : Under walked path := by
  rcases h with ⟨more, hspells⟩
  rw [List.append_assoc] at hspells
  exact ⟨step :: more, hspells⟩

theorem not_under_of_spells {path : String} {walked : List FactStep} {step : FactStep}
    (h : Spells path walked) : ¬ Under (walked ++ [step]) path := by
  rintro ⟨more, hspells⟩
  have hlength := congrArg List.length (h.unique hspells)
  simp only [List.length_append, List.length_cons, List.length_nil] at hlength
  omega

theorem not_under_other {path : String} {walked : List FactStep} {step other : FactStep}
    (hne : step ≠ other) (h : Under (walked ++ [step]) path) :
    ¬ Under (walked ++ [other]) path := by
  rcases h with ⟨more, hspells⟩
  rintro ⟨more', hspells'⟩
  have hsame := hspells.unique hspells'
  rw [List.append_assoc, List.append_assoc] at hsame
  have htail := List.append_cancel_left hsame
  exact hne (List.cons.inj htail).1

/-- Nothing is reported at or beneath a place yet. -/
structure Fresh (walked : List FactStep) (d : Differ) : Prop where
  changes : forall c, c ∈ d.out.changes -> ¬ Under walked c.path
  parents : forall q, q ∈ d.atParent -> ¬ Under walked q

/-- What was reported between two states is at or beneath a place, once. -/
structure Adds (before after : Json) (walked : List FactStep) (d d' : Differ) : Prop where
  changes : forall c, c ∈ d'.out.changes ->
    c ∈ d.out.changes ∨ (Named before after c ∧ Under walked c.path)
  parents : forall q, q ∈ d'.atParent -> q ∈ d.atParent ∨ Under walked q
  kept : forall q, q ∈ d.atParent -> q ∈ d'.atParent
  nodup : (d.out.changes.map FactChange.path).Nodup ->
    (d'.out.changes.map FactChange.path).Nodup

/-- What was reported since the walk came to a place, with some of the steps
beneath it entered. -/
structure Walked (before after : Json) (path : String) (walked entered : List FactStep)
    (d d' : Differ) : Prop where
  changes : forall c, c ∈ d'.out.changes -> c ∈ d.out.changes ∨
    (Named before after c ∧ ((c.path = path ∧ path ∈ d'.atParent) ∨
      exists step, step ∈ entered ∧ Under (walked ++ [step]) c.path))
  parents : forall q, q ∈ d'.atParent -> q ∈ d.atParent ∨ q = path ∨
    exists step, step ∈ entered ∧ Under (walked ++ [step]) q
  kept : forall q, q ∈ d.atParent -> q ∈ d'.atParent
  nodup : (d.out.changes.map FactChange.path).Nodup ->
    (d'.out.changes.map FactChange.path).Nodup

theorem Adds.refl (walked : List FactStep) (d : Differ) : Adds before after walked d d where
  changes := fun _ hc => Or.inl hc
  parents := fun _ hq => Or.inl hq
  kept := fun _ hq => hq
  nodup := fun h => h

variable {path : String} {walked entered : List FactStep} {d d' d'' : Differ} {step : FactStep}

theorem Walked.start : Walked before after path walked [] d d where
  changes := fun _ hc => Or.inl hc
  parents := fun _ hq => Or.inl hq
  kept := fun _ hq => hq
  nodup := fun h => h

theorem Walked.adds (h : Walked before after path walked entered d d')
    (hspells : Spells path walked) : Adds before after walked d d' where
  changes := by
    intro c hc
    rcases h.changes c hc with hc | ⟨hnamed, ⟨hpath, _⟩ | ⟨step, _, hunder⟩⟩
    · exact Or.inl hc
    · exact Or.inr ⟨hnamed, hpath ▸ Under.at_ hspells⟩
    · exact Or.inr ⟨hnamed, hunder.up⟩
  parents := by
    intro q hq
    rcases h.parents q hq with hq | rfl | ⟨step, _, hunder⟩
    · exact Or.inl hq
    · exact Or.inr (Under.at_ hspells)
    · exact Or.inr hunder.up
  kept := h.kept
  nodup := h.nodup

theorem Walked.fresh (h : Walked before after path walked entered d d')
    (hfresh : Fresh walked d) (hspells : Spells path walked) (hstep : step ∉ entered) :
    Fresh (walked ++ [step]) d' where
  changes := by
    intro c hc hunder
    rcases h.changes c hc with hc | ⟨_, ⟨hpath, _⟩ | ⟨other, hother, hbeneath⟩⟩
    · exact hfresh.changes c hc hunder.up
    · rw [hpath] at hunder
      exact not_under_of_spells hspells hunder
    · have hne : other ≠ step := fun heq => hstep (heq ▸ hother)
      exact not_under_other hne hbeneath hunder
  parents := by
    intro q hq hunder
    rcases h.parents q hq with hq | rfl | ⟨other, hother, hbeneath⟩
    · exact hfresh.parents q hq hunder.up
    · exact not_under_of_spells hspells hunder
    · have hne : other ≠ step := fun heq => hstep (heq ▸ hother)
      exact not_under_other hne hbeneath hunder

theorem Walked.enter (h : Walked before after path walked entered d d')
    (hadds : Adds before after (walked ++ [step]) d' d'') :
    Walked before after path walked (entered ++ [step]) d d'' where
  changes := by
    intro c hc
    rcases hadds.changes c hc with hc | ⟨hnamed, hunder⟩
    · rcases h.changes c hc with hc | ⟨hnamed, ⟨hpath, hparent⟩ | ⟨other, hother, hbeneath⟩⟩
      · exact Or.inl hc
      · exact Or.inr ⟨hnamed, Or.inl ⟨hpath, hadds.kept _ hparent⟩⟩
      · exact Or.inr ⟨hnamed, Or.inr ⟨other, List.mem_append_left _ hother, hbeneath⟩⟩
    · exact Or.inr ⟨hnamed, Or.inr ⟨step, List.mem_append_right _ List.mem_cons_self, hunder⟩⟩
  parents := by
    intro q hq
    rcases hadds.parents q hq with hq | hunder
    · rcases h.parents q hq with hq | hq | ⟨other, hother, hbeneath⟩
      · exact Or.inl hq
      · exact Or.inr (Or.inl hq)
      · exact Or.inr (Or.inr ⟨other, List.mem_append_left _ hother, hbeneath⟩)
    · exact Or.inr (Or.inr ⟨step, List.mem_append_right _ List.mem_cons_self, hunder⟩)
  kept := fun q hq => hadds.kept q (h.kept q hq)
  nodup := fun hnodup => hadds.nodup (h.nodup hnodup)

/-!
# Reporting
-/

def changeAt (path : String) (kind : ChangeKind) (old new : Option Json) : FactChange :=
  { path := path, kind := kind, old := old.bind shown, new := new.bind shown }

theorem push_changes (d : Differ) (path : String) (kind : ChangeKind) (old new : Option Json) :
    (d.push path kind old new).out.changes = d.out.changes ∨
      (d.push path kind old new).out.changes
        = d.out.changes ++ [changeAt path kind old new] := by
  unfold Differ.push
  split
  · exact Or.inl rfl
  · exact Or.inr rfl

@[simp] theorem push_atParent (d : Differ) (path : String) (kind : ChangeKind)
    (old new : Option Json) : (d.push path kind old new).atParent = d.atParent := by
  unfold Differ.push
  split <;> rfl

theorem mem_push {c : FactChange} (h : c ∈ (d.push path kind old new).out.changes) :
    c ∈ d.out.changes ∨ c = changeAt path kind old new := by
  rcases push_changes d path kind old new with hpush | hpush
  · rw [hpush] at h
    exact Or.inl h
  · rw [hpush] at h
    rcases List.mem_append.mp h with h | h
    · exact Or.inl h
    · exact Or.inr (List.mem_singleton.mp h)

theorem nodup_push (hnodup : (d.out.changes.map FactChange.path).Nodup)
    (hfresh : forall c, c ∈ d.out.changes -> c.path ≠ path) :
    ((d.push path kind old new).out.changes.map FactChange.path).Nodup := by
  rcases push_changes d path kind old new with hpush | hpush
  · rw [hpush]
    exact hnodup
  · rw [hpush, List.map_append]
    apply List.Nodup.append hnodup (List.nodup_singleton _)
    intro q hq hpath
    rcases List.mem_map.mp hq with ⟨c, hc, rfl⟩
    exact hfresh c hc (List.mem_singleton.mp hpath)

theorem push_adds (hspells : Spells path walked)
    (hnamed : Named before after (changeAt path kind old new)) (hfresh : Fresh walked d) :
    Adds before after walked d (d.push path kind old new) where
  changes := by
    intro c hc
    rcases mem_push hc with hc | rfl
    · exact Or.inl hc
    · exact Or.inr ⟨hnamed, Under.at_ hspells⟩
  parents := by
    intro q hq
    rw [push_atParent] at hq
    exact Or.inl hq
  kept := by
    intro q hq
    rw [push_atParent]
    exact hq
  nodup := by
    intro hnodup
    apply nodup_push hnodup
    intro c hc hpath
    exact hfresh.changes c hc (hpath ▸ Under.at_ hspells)

variable {v w : Json}

theorem Place.added (hspells : Spells path walked) (hlimit : byteLen path ≤ maxFactPathLen)
    (hafter : FactStep.walk walked [after] = [w]) :
    Named before after (changeAt path ChangeKind.added none (some w)) := by
  apply named_of_walk hspells hlimit
  intro p hsteps
  exact NamesPlace.added w rfl (resolve_of_walk hsteps hafter) rfl rfl

theorem Place.removed (hspells : Spells path walked) (hlimit : byteLen path ≤ maxFactPathLen)
    (hbefore : FactStep.walk walked [before] = [v]) :
    Named before after (changeAt path ChangeKind.removed (some v) none) := by
  apply named_of_walk hspells hlimit
  intro p hsteps
  exact NamesPlace.removed v rfl (resolve_of_walk hsteps hbefore) rfl rfl

theorem Place.changed (h : Place before after path walked v w) :
    Named before after (changeAt path ChangeKind.changed (some v) (some w)) := by
  apply named_of_walk h.spells h.limit
  intro p hsteps
  exact NamesPlace.changed v w rfl (resolve_of_walk hsteps h.before)
    (resolve_of_walk hsteps h.after) rfl rfl

theorem Place.beneath (h : Place before after path walked v w)
    (hscalars : isScalar v = false ∧ isScalar w = false) :
    Named before after (changeAt path ChangeKind.changed none none) := by
  apply named_of_walk h.spells h.limit
  intro p hsteps
  exact NamesPlace.beneath v w rfl (resolve_of_walk hsteps h.before)
    (resolve_of_walk hsteps h.after) hscalars rfl rfl

/-- Enter a step that has no path of its own: the place itself is reported, once. -/
theorem Walked.beneath (h : Walked before after path walked entered d d')
    (hplace : Place before after path walked v w)
    (hscalars : isScalar v = false ∧ isScalar w = false) (hfresh : Fresh walked d) :
    Walked before after path walked entered d (d'.changedBeneath path) := by
  unfold Differ.changedBeneath
  split
  · exact h
  · rename_i hnew
    have hnew : path ∉ d'.atParent := fun hmem => hnew (List.contains_iff_mem.mpr hmem)
    constructor
    case changes =>
      intro c hc
      rw [push_atParent]
      rcases mem_push hc with hc | rfl
      · rcases h.changes c hc with hc | ⟨hnamed, ⟨hpath, hparent⟩ | hbeneath⟩
        · exact Or.inl hc
        · exact Or.inr ⟨hnamed, Or.inl ⟨hpath, List.mem_cons_of_mem _ hparent⟩⟩
        · exact Or.inr ⟨hnamed, Or.inr hbeneath⟩
      · exact Or.inr ⟨hplace.beneath hscalars, Or.inl ⟨rfl, List.mem_cons_self⟩⟩
    case parents =>
      intro q hq
      rw [push_atParent] at hq
      rcases List.mem_cons.mp hq with hq | hq
      · exact Or.inr (Or.inl hq)
      · exact h.parents q hq
    case kept =>
      intro q hq
      rw [push_atParent]
      exact List.mem_cons_of_mem _ (h.kept q hq)
    case nodup =>
      intro hnodup
      let marked : Differ := { d' with atParent := path :: d'.atParent }
      have hmarked : (marked.out.changes.map FactChange.path).Nodup := h.nodup hnodup
      apply nodup_push hmarked
      intro c hc hpath
      -- The place itself is listed only once it is among the reported parents.
      rcases h.changes c hc with hc | ⟨_, ⟨_, hparent⟩ | ⟨step, _, hbeneath⟩⟩
      · exact hfresh.changes c hc (hpath ▸ Under.at_ hplace.spells)
      · exact hnew hparent
      · rw [hpath] at hbeneath
        exact not_under_of_spells hplace.spells hbeneath

/-- Enter steps one after the other, each of them once. -/
theorem Walked.foldl {alpha : Type} {report : Differ -> alpha -> Differ}
    {stepOf : alpha -> FactStep} :
    forall {items : List alpha} {entered : List FactStep} {d' : Differ},
      (forall item, item ∈ items -> forall (entered : List FactStep) (d' : Differ),
        stepOf item ∉ entered -> Walked before after path walked entered d d' ->
          Walked before after path walked (entered ++ [stepOf item]) d (report d' item)) ->
      (entered ++ items.map stepOf).Nodup ->
      Walked before after path walked entered d d' ->
        Walked before after path walked (entered ++ items.map stepOf) d
          (items.foldl report d') := by
  intro items
  induction items with
  | nil =>
      intro entered d' hreport hnodup h
      rw [List.map_nil, List.append_nil]
      exact h
  | cons item items ih =>
      intro entered d' hreport hnodup h
      have hsplit : entered ++ (item :: items).map stepOf
          = (entered ++ [stepOf item]) ++ items.map stepOf := by
        rw [List.map_cons, List.append_assoc]
        rfl
      rw [hsplit] at hnodup ⊢
      have hitem : stepOf item ∉ entered := by
        intro hmem
        have hhead := (List.nodup_append.mp hnodup).1
        exact (List.nodup_append.mp hhead).2.2 _ hmem _ List.mem_cons_self rfl
      apply ih (fun item' hmem => hreport item' (List.mem_cons_of_mem _ hmem)) hnodup
      exact hreport item List.mem_cons_self entered d' hitem h

/-!
# The walk over two documents
-/

theorem Walked.skip (h : Walked before after path walked entered d d') (step : FactStep) :
    Walked before after path walked (entered ++ [step]) d d' :=
  h.enter (Adds.refl _ _)

theorem Place.child {o n : List (String × Json)} {key p : String}
    (h : Place before after path walked (Json.object o) (Json.object n))
    (hpath : child path key false = some p) (ho : o.lookup key = some v)
    (hn : n.lookup key = some w) :
    Place before after p (walked ++ [keyStep key]) v w where
  spells := (child_spells h.spells hpath).1
  before := by
    rw [FactStep.walk_one h.before, values_keyStep, ho]
    rfl
  after := by
    rw [FactStep.walk_one h.after, values_keyStep, hn]
    rfl
  limit := (child_spells h.spells hpath).2

def reportKey (fuel : Nat) (path : String) (o n : List (String × Json)) (d : Differ)
    (k : String) : Differ :=
  match FactPath.child path k false with
  | none => if sameOption (o.lookup k) (n.lookup k) then d else d.changedBeneath path
  | some p =>
      match o.lookup k, n.lookup k with
      | some ov, some nv => diffValue fuel p ov nv d
      | some ov, none => d.push p ChangeKind.removed (some ov) none
      | none, some nv => d.push p ChangeKind.added none (some nv)
      | none, none => d

def reportRecord (fuel : Nat) (path : String) (oi : List String) (o : List Json) (d : Differ)
    (r : String × Json) : Differ :=
  match FactPath.pickPath path r.1 with
  | none => if sameOption (byId oi o r.1) (some r.2) then d else d.changedBeneath path
  | some p =>
      match byId oi o r.1 with
      | some ov => diffValue fuel p ov r.2 d
      | none => d.push p ChangeKind.added none (some r.2)

def reportRecords (fuel : Nat) (path : String) (oi ni : List String) (o n : List Json)
    (d : Differ) : Differ :=
  (ni.zip n).foldl (reportRecord fuel path oi o)
    (((oi.zip o).filter fun r => !ni.contains r.1).foldl (removedRecord path) d)

def WalkAdds (before after : Json) (fuel : Nat) : Prop :=
  forall (path : String) (walked : List FactStep) (v w : Json) (d : Differ),
    Place before after path walked v w -> Fresh walked d ->
      Adds before after walked d (diffValue fuel path v w d)

theorem Walked.reportKey {o n : List (String × Json)} (ih : WalkAdds before after fuel)
    (hplace : Place before after path walked (Json.object o) (Json.object n))
    (hfresh : Fresh walked d) (key : String) (hkey : keyStep key ∉ entered)
    (h : Walked before after path walked entered d d') :
    Walked before after path walked (entered ++ [keyStep key]) d
      (reportKey fuel path o n d' key) := by
  unfold Facts.reportKey
  have hstep := h.fresh hfresh hplace.spells hkey
  cases hchild : FactPath.child path key false with
  | none =>
      show Walked _ _ _ _ _ _ (if sameOption _ _ then d' else d'.changedBeneath path)
      split
      · exact h.skip _
      · exact (h.beneath hplace ⟨rfl, rfl⟩ hfresh).skip _
  | some p =>
      have hspells := child_spells hplace.spells hchild
      cases ho : o.lookup key with
      | some ov =>
          have hbefore : FactStep.walk (walked ++ [keyStep key]) [before] = [ov] := by
            rw [FactStep.walk_one hplace.before, values_keyStep, ho]
            rfl
          cases hn : n.lookup key with
          | some nv => exact h.enter (ih p _ ov nv d' (hplace.child hchild ho hn) hstep)
          | none =>
              exact h.enter (push_adds hspells.1
                (Place.removed hspells.1 hspells.2 hbefore) hstep)
      | none =>
          cases hn : n.lookup key with
          | some nv =>
              have hafter : FactStep.walk (walked ++ [keyStep key]) [after] = [nv] := by
                rw [FactStep.walk_one hplace.after, values_keyStep, hn]
                rfl
              exact h.enter (push_adds hspells.1
                (Place.added hspells.1 hspells.2 hafter) hstep)
          | none => exact h.skip _

theorem Walked.removedRecord (hplace : Place before after path walked (Json.array o) (Json.array n))
    (hids : recordIds o = some oi) (hfresh : Fresh walked d) (r : String × Json) (hr : r ∈ oi.zip o)
    (hid : FactStep.pick r.1 ∉ entered) (h : Walked before after path walked entered d d') :
    Walked before after path walked (entered ++ [FactStep.pick r.1]) d
      (removedRecord path d' r) := by
  unfold Core.removedRecord
  have hstep := h.fresh hfresh hplace.spells hid
  cases hpick : FactPath.pickPath path r.1 with
  | none => exact (h.beneath hplace ⟨rfl, rfl⟩ hfresh).skip _
  | some p =>
      have hspells := pickPath_spells hplace.spells hpick
      have hrecords := recordIds_eq_some hids
      have hbefore : FactStep.walk (walked ++ [FactStep.pick r.1]) [before] = [r.2] := by
        rw [FactStep.walk_one hplace.before]
        exact pick_record hrecords.1 hrecords.2 hr
      exact h.enter (push_adds hspells.1 (Place.removed hspells.1 hspells.2 hbefore) hstep)

theorem Walked.reportRecord (ih : WalkAdds before after fuel)
    (hplace : Place before after path walked (Json.array o) (Json.array n))
    (ho : recordIds o = some oi) (hn : recordIds n = some ni) (hfresh : Fresh walked d)
    (r : String × Json) (hr : r ∈ ni.zip n) (hid : FactStep.pick r.1 ∉ entered)
    (h : Walked before after path walked entered d d') :
    Walked before after path walked (entered ++ [FactStep.pick r.1]) d
      (reportRecord fuel path oi o d' r) := by
  unfold Facts.reportRecord
  have hstep := h.fresh hfresh hplace.spells hid
  cases hpick : FactPath.pickPath path r.1 with
  | none =>
      show Walked _ _ _ _ _ _ (if sameOption _ _ then d' else d'.changedBeneath path)
      split
      · exact h.skip _
      · exact (h.beneath hplace ⟨rfl, rfl⟩ hfresh).skip _
  | some p =>
      have hspells := pickPath_spells hplace.spells hpick
      have hnew := recordIds_eq_some hn
      have hafter : FactStep.walk (walked ++ [FactStep.pick r.1]) [after] = [r.2] := by
        rw [FactStep.walk_one hplace.after]
        exact pick_record hnew.1 hnew.2 hr
      cases hby : byId oi o r.1 with
      | none =>
          exact h.enter (push_adds hspells.1 (Place.added hspells.1 hspells.2 hafter) hstep)
      | some ov =>
          have hold := recordIds_eq_some ho
          have hbefore : FactStep.walk (walked ++ [FactStep.pick r.1]) [before] = [ov] := by
            rw [FactStep.walk_one hplace.before]
            exact pick_record hold.1 hold.2 (byId_mem hby)
          exact h.enter (ih p _ ov r.2 d' ⟨hspells.1, hbefore, hafter, hspells.2⟩ hstep)

theorem nodup_sortedSet (xs : List String) : (sortedSet xs).Nodup := by
  unfold sortedSet
  exact (List.perm_insertionSort _ _).nodup_iff.mpr (List.nodup_dedup xs)

theorem nodup_map_keyStep {keys : List String} (h : keys.Nodup) : (keys.map keyStep).Nodup :=
  h.map fun _ _ heq => keyStep_inj heq

theorem zip_recordIds (h : recordIds items = some ids) :
    (ids.zip items).map Prod.fst = ids := by
  have hlength : forall {items : List Json} {ids : List String},
      items.mapM recordId = some ids -> ids.length = items.length := by
    intro items
    induction items with
    | nil =>
        intro ids hids
        cases hids
        rfl
    | cons first items ih =>
        intro ids hids
        rcases mapM_recordId_cons hids with ⟨id, rest, rfl, _, hrest⟩
        rw [List.length_cons, List.length_cons, ih hrest]
  exact List.map_fst_zip (Nat.le_of_eq (hlength (recordIds_eq_some h).1))

/-- The ids entered over two lists of records: the ones that are gone, then the
ones of the new list. -/
theorem nodup_records (ho : recordIds o = some oi) (hn : recordIds n = some ni) :
    ((((oi.zip o).filter fun r => !ni.contains r.1).map fun r => FactStep.pick r.1)
      ++ (ni.zip n).map fun r => FactStep.pick r.1).Nodup := by
  have hpick : forall rows : List (String × Json), rows.map (fun r => FactStep.pick r.1)
      = (rows.map Prod.fst).map FactStep.pick := by
    intro rows
    rw [List.map_map]
    rfl
  have hinj : Function.Injective FactStep.pick := by
    intro a b heq
    cases heq
    rfl
  rw [hpick, hpick, ← List.map_append]
  apply List.Nodup.map hinj
  rw [zip_recordIds hn]
  apply List.Nodup.append
  · have hold := (recordIds_eq_some ho).2
    rw [← zip_recordIds ho] at hold
    exact hold.sublist (List.filter_sublist.map _)
  · exact (recordIds_eq_some hn).2
  · intro id hgone hid
    rcases List.mem_map.mp hgone with ⟨r, hr, rfl⟩
    have hnot := (List.mem_filter.mp hr).2
    rw [List.contains_iff_mem.mpr hid] at hnot
    cases hnot

theorem WalkAdds.objects (ih : WalkAdds before after fuel) {o n : List (String × Json)}
    (hplace : Place before after path walked (Json.object o) (Json.object n))
    (hfresh : Fresh walked d) :
    Adds before after walked d
      ((sortedSet (o.map Prod.fst ++ n.map Prod.fst)).foldl
        (Facts.reportKey fuel path o n) d) := by
  have hkeys := nodup_map_keyStep (nodup_sortedSet (o.map Prod.fst ++ n.map Prod.fst))
  have hwalked := Walked.foldl
    (fun key _ _ _ hkey h => Walked.reportKey ih hplace hfresh key hkey h)
    hkeys (Walked.start : Walked before after path walked [] d d)
  exact hwalked.adds hplace.spells

theorem WalkAdds.records (ih : WalkAdds before after fuel)
    (hplace : Place before after path walked (Json.array o) (Json.array n))
    (ho : recordIds o = some oi) (hn : recordIds n = some ni) (hfresh : Fresh walked d) :
    Adds before after walked d (reportRecords fuel path oi ni o n d) := by
  have hnodup := nodup_records ho hn
  have hgone := Walked.foldl
    (fun r hr _ _ hid h =>
      Walked.removedRecord hplace ho hfresh r (List.mem_filter.mp hr).1 hid h)
    (List.nodup_append.mp hnodup).1 (Walked.start : Walked before after path walked [] d d)
  have hall := Walked.foldl
    (fun r hr _ _ hid h => Walked.reportRecord ih hplace ho hn hfresh r hr hid h)
    hnodup hgone
  exact hall.adds hplace.spells

theorem push_changed_adds (hplace : Place before after path walked v w)
    (hfresh : Fresh walked d) :
    Adds before after walked d (if v.same w then d
      else d.push path ChangeKind.changed (some v) (some w)) := by
  split
  · exact Adds.refl _ _
  · exact push_adds hplace.spells hplace.changed hfresh

theorem diffValue_adds (fuel : Nat) : WalkAdds before after fuel := by
  induction fuel with
  | zero =>
      intro path walked v w d hplace hfresh
      exact Adds.refl _ _
  | succ fuel ih =>
      intro path walked v w d hplace hfresh
      unfold diffValue
      split
      · exact ih.objects hplace hfresh
      · rename_i o n
        cases ho : recordIds o with
        | none => exact push_changed_adds hplace hfresh
        | some oi =>
            cases hn : recordIds n with
            | none => exact push_changed_adds hplace hfresh
            | some ni => exact ih.records hplace ho hn hfresh
      · exact push_changed_adds hplace hfresh

/-!
# Deep enough
-/

theorem depth_le_of_mem {v : Json} :
    forall {items : List Json}, v ∈ items -> v.depth ≤ Json.depthItems items := by
  intro items
  induction items with
  | nil => intro h; cases h
  | cons first rest ih =>
      intro h
      rw [Json.depthItems]
      rcases List.mem_cons.mp h with rfl | h
      · exact Nat.le_max_left _ _
      · exact Nat.le_trans (ih h) (Nat.le_max_right _ _)

theorem depth_le_of_lookup {v : Json} {key : String} :
    forall {members : List (String × Json)}, members.lookup key = some v ->
      v.depth ≤ Json.depthMembers members := by
  intro members
  induction members with
  | nil => intro h; cases h
  | cons first rest ih =>
      intro h
      rcases first with ⟨k, u⟩
      rw [Json.depthMembers]
      rw [List.lookup_cons] at h
      split at h
      · cases h
        exact Nat.le_max_left _ _
      · exact Nat.le_trans (ih h) (Nat.le_max_right _ _)

/-!
# Every listed change names its place
-/

theorem place_top (old new : Json) : Place old new "" [] old new where
  spells := Spells.top
  before := rfl
  after := rfl
  limit := Nat.zero_le _

/-- Whatever the documents and the cap: no path is listed twice, and a path that
is not the whole document can be stored in a selector, reads back, and reaches
the one value the change is about in each document. -/
theorem diff_names_places (old new : Json) (maxChanges : Nat) :
    ((diff old new maxChanges).changes.map FactChange.path).Nodup ∧
      forall c, c ∈ (diff old new maxChanges).changes -> c.path ≠ "" ->
        byteLen c.path ≤ maxFactPathLen ∧
          exists p, parse c.path = Except.ok p ∧ NamesPlace old new c p := by
  let start : Differ :=
    { out := { changes := [], truncated := 0 }, max := maxChanges, atParent := [] }
  have hfresh : Fresh [] start := by
    constructor
    · intro c hc
      cases hc
    · intro q hq
      cases hq
  have hadds := diffValue_adds (old.depth + 1) "" [] old new start (place_top old new) hfresh
  constructor
  · exact hadds.nodup List.nodup_nil
  · intro c hc hne
    rcases hadds.changes c hc with hnone | ⟨hnamed, _⟩
    · cases hnone
    · exact hnamed hne

def diskDocument (free : String) : Json :=
  Json.object [("disks", Json.array [Json.object [("free", Json.number free),
    ("id", Json.string "c:")]])]

/-- A field of a record, named through the list that holds it. -/
theorem diff_names_places_record :
    exists p, parse "disks[c:].free" = Except.ok p ∧
      NamesPlace (diskDocument "10") (diskDocument "7")
        (changeAt "disks[c:].free" ChangeKind.changed (some (Json.number "10"))
          (some (Json.number "7"))) p := by
  have hmem : changeAt "disks[c:].free" ChangeKind.changed (some (Json.number "10"))
      (some (Json.number "7")) ∈ (diff (diskDocument "10") (diskDocument "7") 200).changes := by
    have hchanges : (diff (diskDocument "10") (diskDocument "7") 200).changes
        = [changeAt "disks[c:].free" ChangeKind.changed (some (Json.number "10"))
          (some (Json.number "7"))] := rfl
    rw [hchanges]
    exact List.mem_cons_self
  exact ((diff_names_places (diskDocument "10") (diskDocument "7") 200).2 _ hmem
    (by decide)).2

end Facts
end FleetServer
