import FleetServer.Core.Spelling
import Mathlib.Data.List.TakeWhile

/-!
# Built paths read back

A path that parses spells the walk it is read as.  So what `FactPath.child` and
`FactPath.pickPath` add to such a path is one more step of that walk.
-/

namespace FleetServer
namespace Core
namespace FactPath

open FactStep

/-!
# What is read is a spelling
-/

theorem toList_ne_nil_of_isEmpty {xs : List Char} (h : xs.isEmpty = false) :
    String.ofList xs ≠ "" := by
  intro heq
  have hnil := String.toList_eq_nil_iff.mpr heq
  rw [String.toList_ofList] at hnil
  rw [hnil] at h
  cases h

theorem plain_pick {id : List Char} (hne : id.isEmpty = false)
    (hclose : forall c, c ∈ id -> (c != ']') = true) :
    (FactStep.pick (String.ofList id)).Plain := by
  constructor
  · exact toList_ne_nil_of_isEmpty hne
  · rw [String.toList_ofList, Bool.eq_false_iff]
    intro hcontains
    have hbefore := hclose ']' (List.contains_iff_mem.mp hcontains)
    cases hbefore

theorem plain_key {key : List Char} (hne : key.isEmpty = false)
    (hend : forall c, c ∈ key -> (!isKeyEnd c) = true) :
    (FactStep.key (String.ofList key)).Plain := by
  constructor
  · exact toList_ne_nil_of_isEmpty hne
  · rw [String.toList_ofList, List.any_eq_false]
    intro c hc
    have hplain := hend c hc
    intro heq
    rw [heq] at hplain
    cases hplain

theorem of_mem_takeWhile (q : Char -> Bool) (xs : List Char) :
    forall c, c ∈ xs.takeWhile q -> q c = true := by
  intro c hc
  exact List.mem_takeWhile_imp hc

theorem spellAll_pick (id : String) (rest : List FactStep) :
    spellAll (FactStep.pick id :: rest) = '[' :: (id.toList ++ ']' :: spellAll rest) := by
  show '[' :: (id.toList ++ [']']) ++ spellAll rest = _
  rw [List.cons_append, List.append_assoc, List.singleton_append]

theorem spelled_of_parseIds {fuel : Nat} :
    forall {text rest : List Char} {ids : List String},
      parseIds fuel text = Except.ok (ids, rest) ->
        text = spellAll (ids.map FactStep.pick) ++ rest ∧
          forall id, id ∈ ids -> (FactStep.pick id).Plain := by
  induction fuel with
  | zero =>
      intro text rest ids h
      have hpair : (([] : List String), text) = (ids, rest) := by
        cases text <;> exact Except.ok.inj h
      cases hpair
      exact ⟨rfl, fun id hid => absurd hid List.not_mem_nil⟩
  | succ fuel ih =>
      intro text rest ids h
      unfold parseIds at h
      split at h
      · rename_i fuel' after heq
        cases heq
        have hsplit := List.takeWhile_append_dropWhile (p := fun c => c != ']') (l := after)
        have hbefore := of_mem_takeWhile (fun c => c != ']') after
        cases hdrop : after.dropWhile (fun c => c != ']') with
        | nil =>
            rw [hdrop] at h
            cases h
        | cons close behind =>
            have hclose : close = ']' := by
              have hhead := List.head_dropWhile_not (fun c => c != ']')
                (by rw [hdrop]; exact List.cons_ne_nil _ _)
              simp only [hdrop, List.head_cons] at hhead
              simpa using hhead
            rw [hclose] at hdrop
            rw [hdrop] at h
            simp only at h
            cases hempty : (after.takeWhile fun c => c != ']').isEmpty with
            | true =>
                rw [hempty] at h
                cases h
            | false =>
                rw [hempty] at h
                cases hparse : parseIds fuel behind with
                | error e =>
                    rw [hparse] at h
                    cases h
                | ok read =>
                    rw [hparse] at h
                    cases h
                    rcases ih hparse with ⟨hbehind, hplain⟩
                    constructor
                    · rw [List.map_cons, spellAll_pick, String.toList_ofList, List.cons_append,
                        List.append_assoc, List.cons_append, ← hbehind, ← hdrop, hsplit]
                    · intro id hid
                      cases List.mem_cons.mp hid with
                      | inl hhead =>
                          rw [hhead]
                          exact plain_pick hempty hbefore
                      | inr htail => exact hplain id htail
      · cases h
        exact ⟨rfl, fun id hid => absurd hid List.not_mem_nil⟩

theorem spelled_of_parseSegments {fuel : Nat} :
    forall {text : List Char} {segments : List Segment},
      parseSegments fuel text = Except.ok segments ->
        exists (k : String) (more : List FactStep),
          text = k.toList ++ spellAll more ∧
            segments.flatMap segmentSteps = FactStep.key k :: more ∧
            forall step, step ∈ FactStep.key k :: more -> step.Plain := by
  induction fuel with
  | zero =>
      intro text segments h
      cases h
  | succ fuel ih =>
      intro text segments h
      unfold parseSegments at h
      have hsplit := List.takeWhile_append_dropWhile (p := fun c => !isKeyEnd c) (l := text)
      have hbefore := of_mem_takeWhile (fun c => !isKeyEnd c) text
      simp only at h
      cases hempty : (text.takeWhile fun c => !isKeyEnd c).isEmpty with
      | true =>
          rw [hempty] at h
          cases h
      | false =>
          rw [hempty] at h
          cases hids : parseIds text.length (text.dropWhile fun c => !isKeyEnd c) with
          | error e =>
              rw [hids] at h
              cases h
          | ok read =>
              rw [hids] at h
              cases read with
              | mk ids rest =>
                  rcases spelled_of_parseIds hids with ⟨hrest, hplain⟩
                  have hkey : (FactStep.key (String.ofList
                      (text.takeWhile fun c => !isKeyEnd c))).Plain := plain_key hempty hbefore
                  rw [if_neg Bool.false_ne_true] at h
                  dsimp only [bind, Except.bind] at h
                  -- The text, read up to `rest`, and the steps of the segment so far.
                  have htext : forall more : List FactStep, rest = spellAll more ->
                      text = (String.ofList (text.takeWhile fun c => !isKeyEnd c)).toList
                        ++ spellAll (ids.map FactStep.pick ++ more) := by
                    intro more hmore
                    rw [String.toList_ofList, spellAll_append, ← hmore, ← hrest, hsplit]
                  have hsteps : forall more : List FactStep,
                      (forall step, step ∈ more -> step.Plain) ->
                        forall step, step ∈ FactStep.key
                            (String.ofList (text.takeWhile fun c => !isKeyEnd c))
                              :: (ids.map FactStep.pick ++ more) -> step.Plain := by
                    intro more hmore step hstep
                    simp only [List.mem_cons, List.mem_append, List.mem_map] at hstep
                    rcases hstep with rfl | ⟨id, hid, rfl⟩ | hstep
                    · exact hkey
                    · exact hplain id hid
                    · exact hmore step hstep
                  split at h
                  · rename_i behind
                    cases hmore : parseSegments fuel behind with
                    | error e =>
                        rw [hmore] at h
                        cases h
                    | ok others =>
                        rw [hmore] at h
                        cases h
                        rcases ih hmore with ⟨k, more, hbehind, hothers, hall⟩
                        refine ⟨_, ids.map FactStep.pick ++ FactStep.key k :: more,
                          htext _ (congrArg ('.' :: ·) hbehind), ?_, hsteps _ hall⟩
                        rw [List.flatMap_cons, hothers]
                        rfl
                  · cases h
                    refine ⟨_, ids.map FactStep.pick ++ [], htext [] rfl, ?_,
                      hsteps [] (fun step hstep => absurd hstep List.not_mem_nil)⟩
                    rw [List.flatMap_cons, List.flatMap_nil]
                    rfl
                  · cases h

theorem spells_of_parse {p : String} {path : FactPath} (h : parse p = Except.ok path) :
    Spells p path.steps := by
  unfold parse at h
  split at h
  · cases h
  · cases hsegments : parseSegments (p.length + 1) p.toList with
    | error e =>
        rw [hsegments] at h
        cases h
    | ok segments =>
        rw [hsegments] at h
        cases h
        rcases spelled_of_parseSegments hsegments with ⟨k, more, htext, hsteps, hplain⟩
        show Spells p (segments.flatMap segmentSteps)
        rw [hsteps]
        exact Spells.beneath p k more htext hplain

/-!
# What a path reaches
-/

/-- What the text of a path reaches, if it parses; the empty one is the document. -/
def reached (doc : Json) (p : String) : Option (List Json) :=
  if p = "" then some [doc]
  else
    match parse p with
    | Except.ok path => some (path.resolve doc)
    | Except.error _ => none

theorem reached_of_spells {p : String} {walked : List FactStep} (h : Spells p walked)
    (doc : Json) : reached doc p = some (walk walked [doc]) := by
  unfold reached
  by_cases hp : p = ""
  · have hnil : walked = [] := by
      by_contra hne
      exact h.ne_nil hne hp
    rw [if_pos hp, hnil]
    rfl
  · rcases h.parse hp with ⟨path, hparse, hsteps⟩
    rw [if_neg hp, hparse, ← hsteps, ← resolve_eq_walk]

theorem spells_of_reached {doc : Json} {p : String} {vs : List Json}
    (h : reached doc p = some vs) : exists walked, Spells p walked ∧ walk walked [doc] = vs := by
  unfold reached at h
  by_cases hp : p = ""
  · rw [if_pos hp] at h
    cases h
    rw [hp]
    exact ⟨[], Spells.top, rfl⟩
  · rw [if_neg hp] at h
    cases hparse : parse p with
    | error e =>
        rw [hparse] at h
        cases h
    | ok path =>
        rw [hparse] at h
        cases h
        exact ⟨path.steps, spells_of_parse hparse, (resolve_eq_walk path doc).symm⟩

theorem reached_step {doc : Json} {p q : String} {vs : List Json} {step : FactStep}
    (h : reached doc p = some vs)
    (hq : forall walked, Spells p walked -> Spells q (walked ++ [step])) :
    reached doc q = some (vs.flatMap step.values) := by
  rcases spells_of_reached h with ⟨walked, hspells, hvalues⟩
  rw [reached_of_spells (hq walked hspells), walk_append, hvalues]
  rfl

theorem child_in_record {p k q : String} (h : child p k true = some q) :
    child p k false = some q ∧ keyStep k = FactStep.key k := by
  unfold child at h ⊢
  unfold keyStep
  split at h
  · cases h
  · rename_i hkey
    rw [if_neg hkey]
    split at h
    · simp only [Bool.or_true, Bool.true_or, if_true] at h
      cases h
    · rename_i hend
      rw [if_neg hend, if_neg hend]
      exact ⟨h, rfl⟩

theorem spells_child {p k q : String} {b : Bool} (h : child p k b = some q) :
    child p k false = some q := by
  cases b with
  | false => exact h
  | true => exact (child_in_record h).1

/-!
# Maps and records
-/

/-- The entries of a map. -/
abbrev Members : Type := List (String × Json)

theorem flatMap_keyStep (k : String) (maps : List Members) :
    (maps.map Json.object).flatMap (keyStep k).values = maps.filterMap (·.lookup k) := by
  induction maps with
  | nil => rfl
  | cons m maps ih =>
      rw [List.map_cons, List.flatMap_cons, ih, values_keyStep, List.filterMap_cons]
      cases m.lookup k <;> rfl

def ofRecords (records : List Members) : Json :=
  Json.array (records.map Json.object)

theorem flatMap_stepKey (k : String) (lists : List (List Members)) :
    (lists.map ofRecords).flatMap (FactStep.key k).values
      = lists.flatMap fun records => records.filterMap (·.lookup k) := by
  rw [List.flatMap_map]
  congr
  funext records
  show (records.map Json.object).filterMap _ = _
  rw [List.filterMap_map]
  rfl

def hasId (id : String) (record : Members) : Bool :=
  (record.lookup "id").bind Json.asString == some id

theorem flatMap_pick (id : String) (lists : List (List Members)) :
    (lists.map ofRecords).flatMap (FactStep.pick id).values
      = lists.flatMap fun records => (records.filter (hasId id)).map Json.object := by
  rw [List.flatMap_map]
  congr
  funext records
  show (records.map Json.object).filter _ = _
  rw [List.filter_map]
  rfl

/-- A text that parses as a path and is short enough to be stored. -/
def Storable (q : String) : Prop :=
  (exists path, parse q = Except.ok path) ∧ byteLen q ≤ 512

theorem storable_of_spells {q : String} {walked : List FactStep} {step : FactStep}
    (h : Spells q (walked ++ [step]) ∧ byteLen q ≤ maxFactPathLen) : Storable q := by
  have hne : q ≠ "" := h.1.ne_nil (List.append_ne_nil_of_right_ne_nil _ (List.cons_ne_nil _ _))
  rcases h.1.parse hne with ⟨path, hparse, _⟩
  exact ⟨⟨path, hparse⟩, h.2⟩

/-- What `child` and `pick` write under a path that is read is read in turn, and
reaches the entries of the maps, the fields of the records and the records that
the path before it reaches. -/
theorem built_paths_read_back {doc : Json} {p : String} {vs : List Json}
    (hp : reached doc p = some vs) (k id : String) :
    (forall b q, child p k b = some q -> Storable q) ∧
      (forall q, pickPath p id = some q -> Storable q) ∧
      (forall (maps : List Members) q, vs = maps.map Json.object -> child p k false = some q ->
        reached doc q = some (maps.filterMap (·.lookup k))) ∧
      (forall (lists : List (List Members)) q, vs = lists.map ofRecords -> child p k true = some q ->
        reached doc q =
          some (lists.flatMap fun records => records.filterMap (·.lookup k))) ∧
      (forall (lists : List (List Members)) q, vs = lists.map ofRecords -> pickPath p id = some q ->
        reached doc q =
          some (lists.flatMap fun records => (records.filter (hasId id)).map Json.object)) := by
  rcases spells_of_reached hp with ⟨walked, hspells, _⟩
  refine ⟨?_, ?_, ?_, ?_, ?_⟩
  · intro b q hq
    exact storable_of_spells (child_spells hspells (spells_child hq))
  · intro q hq
    exact storable_of_spells (pickPath_spells hspells hq)
  · intro maps q hmaps hq
    rw [reached_step hp fun _ h => (child_spells h hq).1, hmaps, flatMap_keyStep]
  · intro lists q hlists hq
    rcases child_in_record hq with ⟨hchild, hstep⟩
    rw [reached_step hp fun _ h => (child_spells h hchild).1, hstep, hlists, flatMap_stepKey]
  · intro lists q hlists hq
    rw [reached_step hp fun _ h => (pickPath_spells h hq).1, hlists, flatMap_pick]

def services : Json :=
  Json.object [("s", Json.object [("a.b", Json.string "x")])]

theorem built_paths_read_back_services :
    reached services "s[a.b]" = some [Json.string "x"] := by
  have hp : reached services "s" = some [Json.object [("a.b", Json.string "x")]] := rfl
  exact (built_paths_read_back hp "a.b" "").2.2.1 [[("a.b", Json.string "x")]] "s[a.b]" rfl
    (by decide)

end FactPath
end Core
end FleetServer
