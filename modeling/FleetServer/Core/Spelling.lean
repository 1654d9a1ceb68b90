import FleetServer.Core.Facts
import FleetServer.Core.Split

/-!
# Walks and their spelling

A path of the selector grammar is a walk from the top of a document: the field
of a map, or the entry an `[id]` picks.  A walk that is spelled with
`FactPath.child` and `FactPath.pickPath` reads back as the same walk.
-/

namespace FleetServer
namespace Core

inductive FactStep where
  | key (key : String)
  | pick (id : String)
deriving DecidableEq

namespace FactStep

def values : FactStep -> Json -> List Json
  | key k, v => FactPath.stepKey k v
  | pick id, v => FactPath.pick v id

def walk (steps : List FactStep) (current : List Json) : List Json :=
  steps.foldl (fun current step => current.flatMap step.values) current

def spell : FactStep -> List Char
  | key k => '.' :: k.toList
  | pick id => '[' :: (id.toList ++ [']'])

def spellAll (steps : List FactStep) : List Char :=
  steps.flatMap spell

def Plain : FactStep -> Prop
  | key k => k ≠ "" ∧ k.toList.any FactPath.isKeyEnd = false
  | pick id => id ≠ "" ∧ id.toList.contains ']' = false

/-- The ids picked at the front of a walk. -/
def picked : List FactStep -> List String
  | pick id :: rest => id :: picked rest
  | _ => []

def afterPicks : List FactStep -> List FactStep
  | pick _ :: rest => afterPicks rest
  | steps => steps

variable {p path : String} {walked : List FactStep}

theorem walk_append (steps more : List FactStep) (current : List Json) :
    walk (steps ++ more) current = walk more (walk steps current) := by
  unfold walk
  rw [List.foldl_append]

theorem walk_one {steps : List FactStep} {current : List Json} {v : Json}
    (h : walk steps current = [v]) (step : FactStep) :
    walk (steps ++ [step]) current = step.values v := by
  rw [walk_append, h]
  simp only [walk, List.foldl_cons, List.foldl_nil, List.flatMap_cons, List.flatMap_nil,
    List.append_nil]

theorem spellAll_append (steps more : List FactStep) :
    spellAll (steps ++ more) = spellAll steps ++ spellAll more := by
  unfold spellAll
  rw [List.flatMap_append]

theorem spellAll_one (step : FactStep) : spellAll [step] = step.spell := by
  unfold spellAll
  rw [List.flatMap_cons, List.flatMap_nil, List.append_nil]

theorem picked_append_afterPicks :
    forall steps : List FactStep, (picked steps).map pick ++ afterPicks steps = steps
  | [] => rfl
  | key _ :: _ => rfl
  | pick id :: rest => by
      show pick id :: ((picked rest).map pick ++ afterPicks rest) = pick id :: rest
      rw [picked_append_afterPicks rest]

theorem length_spellAll_afterPicks :
    forall steps : List FactStep, (spellAll (afterPicks steps)).length ≤ (spellAll steps).length
  | [] => Nat.le_refl _
  | key _ :: _ => Nat.le_refl _
  | pick id :: rest => by
      have hrest := length_spellAll_afterPicks rest
      have hcons : spellAll (pick id :: rest) = (pick id).spell ++ spellAll rest := rfl
      have hafter : afterPicks (pick id :: rest) = afterPicks rest := rfl
      rw [hcons, hafter, List.length_append]
      omega

theorem afterPicks_cases :
    forall steps : List FactStep,
      afterPicks steps = [] ∨ exists k rest, afterPicks steps = key k :: rest
  | [] => Or.inl rfl
  | key k :: rest => Or.inr ⟨k, rest, rfl⟩
  | pick _ :: rest => afterPicks_cases rest

theorem mem_of_mem_afterPicks {step : FactStep} {steps : List FactStep}
    (h : step ∈ afterPicks steps) : step ∈ steps := by
  rw [← picked_append_afterPicks steps]
  exact List.mem_append_right _ h

end FactStep

/-!
# A path as a walk
-/

namespace FactPath

open FactStep

def segmentSteps (seg : Segment) : List FactStep :=
  FactStep.key seg.key :: seg.ids.map FactStep.pick

def steps (p : FactPath) : List FactStep :=
  p.segments.flatMap segmentSteps

theorem resolveSegment_eq_walk (seg : Segment) (current : List Json) :
    resolveSegment seg current = walk (segmentSteps seg) current := by
  show _ = (seg.ids.map FactStep.pick).foldl _ (current.flatMap (stepKey seg.key))
  rw [List.foldl_map]
  rfl

theorem resolve_eq_walk (p : FactPath) (doc : Json) :
    p.resolve doc = walk p.steps [doc] := by
  have hsegments : forall (segments : List Segment) (current : List Json),
      segments.foldl (fun current seg => resolveSegment seg current) current
        = walk (segments.flatMap segmentSteps) current := by
    intro segments
    induction segments with
    | nil => intro current; rfl
    | cons seg rest ih =>
        intro current
        rw [List.foldl_cons, ih, resolveSegment_eq_walk, ← walk_append]
        rfl
  exact hsegments p.segments [doc]

/-!
# Reading a spelling
-/

theorem parseIds_key (fuel : Nat) (k : String) (rest : List FactStep) :
    parseIds fuel (spellAll (FactStep.key k :: rest))
      = Except.ok ([], spellAll (FactStep.key k :: rest)) := by
  cases fuel <;> rfl

theorem parseIds_nil (fuel : Nat) : parseIds fuel [] = Except.ok ([], []) := by
  cases fuel <;> rfl

theorem parseIds_pick (fuel : Nat) {id : String} (hid : (FactStep.pick id).Plain)
    (rest : List Char) :
    parseIds (fuel + 1) ((FactStep.pick id).spell ++ rest)
      = (parseIds fuel rest).map fun r => (id :: r.1, r.2) := by
  have hbefore : forall c, c ∈ id.toList -> (c != ']') = true := by
    intro c hc
    apply bne_iff_ne.mpr
    intro heq
    have hcontains : id.toList.contains ']' = true := List.contains_iff_mem.mpr (heq ▸ hc)
    rw [hid.2] at hcontains
    cases hcontains
  have hstop : forall c, (']' :: rest).head? = some c -> (c != ']') = false := by
    intro c hc
    cases hc
    rfl
  have htake := takeWhile_until hbefore hstop
  have hne : id.toList.isEmpty = false := by
    cases hlist : id.toList with
    | nil => exact absurd (String.toList_eq_nil_iff.mp hlist) hid.1
    | cons c cs => rfl
  have hspell : (FactStep.pick id).spell ++ rest = '[' :: (id.toList ++ ']' :: rest) := by
    show ('[' :: (id.toList ++ [']'])) ++ rest = _
    rw [List.cons_append, List.append_assoc]
    rfl
  rw [hspell, parseIds]
  simp only [htake.1, htake.2, hne, String.ofList_toList]
  cases parseIds fuel rest <;> rfl

theorem parseIds_spell :
    forall (steps : List FactStep) (fuel : Nat), (spellAll steps).length ≤ fuel ->
      (forall step, step ∈ steps -> step.Plain) ->
        parseIds fuel (spellAll steps) = Except.ok (picked steps, spellAll (afterPicks steps))
  | [], fuel, _, _ => parseIds_nil fuel
  | FactStep.key k :: rest, fuel, _, _ => parseIds_key fuel k rest
  | FactStep.pick id :: rest, fuel, hfuel, hplain => by
      have hcons : spellAll (FactStep.pick id :: rest)
          = (FactStep.pick id).spell ++ spellAll rest := rfl
      have hlength : 0 < (FactStep.pick id).spell.length := Nat.succ_pos _
      rw [hcons, List.length_append] at hfuel
      cases fuel with
      | zero => omega
      | succ fuel =>
          have hrest := parseIds_spell rest fuel (by omega)
            (fun step hstep => hplain step (List.mem_cons_of_mem _ hstep))
          rw [hcons, parseIds_pick fuel (hplain _ List.mem_cons_self), hrest]
          rfl

theorem head_spellAll {steps : List FactStep} {c : Char}
    (h : (spellAll steps).head? = some c) : isKeyEnd c = true := by
  cases steps with
  | nil => cases h
  | cons step rest =>
      cases step with
      | key k =>
          cases h
          rfl
      | pick id =>
          cases h
          rfl

theorem parseSegments_spell :
    forall (fuel : Nat) (k : String) (rest : List FactStep),
      (k.toList ++ spellAll rest).length < fuel ->
      (forall step, step ∈ FactStep.key k :: rest -> step.Plain) ->
        exists segments, parseSegments fuel (k.toList ++ spellAll rest) = Except.ok segments ∧
          segments.flatMap segmentSteps = FactStep.key k :: rest := by
  intro fuel
  induction fuel with
  | zero =>
      intro k rest hfuel
      exact absurd hfuel (Nat.not_lt_zero _)
  | succ fuel ih =>
      intro k rest hfuel hplain
      have hk : (FactStep.key k).Plain := hplain _ List.mem_cons_self
      have hrest : forall step, step ∈ rest -> step.Plain := fun step hstep =>
        hplain step (List.mem_cons_of_mem _ hstep)
      have hbefore : forall c, c ∈ k.toList -> (!isKeyEnd c) = true := by
        intro c hc
        have hnot := List.any_eq_false.mp hk.2 c hc
        rw [Bool.eq_false_of_not_eq_true hnot]
        rfl
      have hstop : forall c, (spellAll rest).head? = some c -> (!isKeyEnd c) = false := by
        intro c hc
        rw [head_spellAll hc]
        rfl
      have htake := takeWhile_until hbefore hstop
      have hne : k.toList.isEmpty = false := by
        cases hlist : k.toList with
        | nil => exact absurd (String.toList_eq_nil_iff.mp hlist) hk.1
        | cons c cs => rfl
      have hids : parseIds (k.toList ++ spellAll rest).length (spellAll rest)
          = Except.ok (picked rest, spellAll (afterPicks rest)) := by
        apply parseIds_spell rest _ _ hrest
        rw [List.length_append]
        omega
      have hafter := length_spellAll_afterPicks rest
      have hsegment : segmentSteps { key := k, ids := picked rest } ++ afterPicks rest
          = FactStep.key k :: rest := by
        show FactStep.key k :: ((picked rest).map FactStep.pick ++ afterPicks rest) = _
        rw [picked_append_afterPicks]
      rw [List.length_append] at hfuel
      rcases afterPicks_cases rest with hend | ⟨k', more, hmore⟩
      · refine ⟨[{ key := k, ids := picked rest }], ?_, ?_⟩
        · unfold parseSegments
          simp only [htake.1, htake.2, hne, hids, hend, String.ofList_toList]
          rfl
        · rw [List.flatMap_cons, List.flatMap_nil, ← hsegment, hend]
      · rw [hmore] at hafter
        have hspell : spellAll (FactStep.key k' :: more)
            = '.' :: (k'.toList ++ spellAll more) := rfl
        rw [hspell, List.length_cons] at hafter
        have htail : forall step, step ∈ FactStep.key k' :: more -> step.Plain := by
          intro step hstep
          exact hrest step (mem_of_mem_afterPicks (hmore ▸ hstep))
        rcases ih k' more (by omega) htail with ⟨segments, hparse, hsteps⟩
        refine ⟨{ key := k, ids := picked rest } :: segments, ?_, ?_⟩
        · unfold parseSegments
          simp only [htake.1, htake.2, hne, hids, hmore, hspell, String.ofList_toList]
          show (do
            let more ← parseSegments fuel (k'.toList ++ spellAll more)
            pure (({ key := k, ids := picked rest } : Segment) :: more)) = _
          rw [hparse]
          rfl
        · rw [List.flatMap_cons, hsteps, ← hmore, hsegment]

/-!
# Spelled walks
-/

/-- `path` spells a walk; the empty path is the document itself. -/
inductive Spells : String -> List FactStep -> Prop where
  | top : Spells "" []
  | beneath (path k : String) (rest : List FactStep)
      (hchars : path.toList = k.toList ++ spellAll rest)
      (hplain : forall step, step ∈ FactStep.key k :: rest -> step.Plain) :
      Spells path (FactStep.key k :: rest)

theorem Spells.parse (h : Spells path walked) (hne : path ≠ "") :
    exists p, parse path = Except.ok p ∧ p.steps = walked := by
  cases h with
  | top => exact absurd rfl hne
  | beneath _ k rest hchars hplain =>
      have hlength : (k.toList ++ spellAll rest).length < path.length + 1 := by
        rw [← hchars, String.length_toList]
        exact Nat.lt_succ_self _
      rcases parseSegments_spell (path.length + 1) k rest hlength hplain with
        ⟨segments, hsegments, hsteps⟩
      rw [← hchars] at hsegments
      have hempty : path.isEmpty = false := by
        rw [Bool.eq_false_iff]
        intro h
        exact hne (String.isEmpty_iff.mp h)
      refine ⟨{ raw := path, segments := segments }, ?_, hsteps⟩
      unfold FactPath.parse
      rw [hempty, hsegments]
      rfl

theorem Spells.ne_nil (h : Spells path walked) (hne : walked ≠ []) : path ≠ "" := by
  cases h with
  | top => exact absurd rfl hne
  | beneath _ k rest hchars hplain =>
      have hk : (FactStep.key k).Plain := hplain _ List.mem_cons_self
      intro hpath
      rw [hpath] at hchars
      have hnil := (List.append_eq_nil_iff.mp hchars.symm).1
      exact hk.1 (String.toList_eq_nil_iff.mp hnil)

theorem Spells.unique {other : List FactStep} (h : Spells path walked) (h' : Spells path other) :
    walked = other := by
  by_cases hpath : path = ""
  · have hnil : forall {steps : List FactStep}, Spells path steps -> steps = [] := by
      intro steps hsteps
      by_contra hne
      exact hsteps.ne_nil hne hpath
    rw [hnil h, hnil h']
  · rcases h.parse hpath with ⟨p, hp, rfl⟩
    rcases h'.parse hpath with ⟨p', hp', rfl⟩
    rw [hp] at hp'
    cases hp'
    rfl

theorem Spells.extend {more : String} {step : FactStep} (h : Spells path walked) (hpath : path ≠ "")
    (hstep : step.Plain) (hmore : more.toList = path.toList ++ step.spell) :
    Spells more (walked ++ [step]) := by
  cases h with
  | top => exact absurd rfl hpath
  | beneath _ k rest hchars hplain =>
      apply Spells.beneath more k (rest ++ [step])
      · rw [hmore, hchars, spellAll_append, spellAll_one, List.append_assoc]
      · intro x hx
        rcases List.mem_cons.mp hx with hx | hx
        · exact hplain x (hx ▸ List.mem_cons_self)
        · rcases List.mem_append.mp hx with hx | hx
          · exact hplain x (List.mem_cons_of_mem _ hx)
          · rw [List.mem_singleton.mp hx]
            exact hstep

theorem withinLimit_eq_some (h : withinLimit path = some p) :
    p = path ∧ byteLen p ≤ maxFactPathLen := by
  unfold withinLimit at h
  split at h
  · rename_i hle
    cases h
    exact ⟨rfl, hle⟩
  · cases h

/-- The step that leads to a key of a map, as `child` spells it. -/
def keyStep (key : String) : FactStep :=
  if key.toList.any isKeyEnd then FactStep.pick key else FactStep.key key

theorem keyStep_inj {key other : String} (h : keyStep key = keyStep other) : key = other := by
  unfold keyStep at h
  split at h
  · split at h
    · cases h
      rfl
    · cases h
  · split at h
    · cases h
    · cases h
      rfl

theorem values_keyStep (key : String) (members : List (String × Json)) :
    (keyStep key).values (Json.object members) = (members.lookup key).toList := by
  unfold keyStep
  split <;> rfl

theorem ne_empty {s : String} (h : ¬ s.isEmpty = true) : s ≠ "" := by
  intro hs
  exact h (String.isEmpty_iff.mpr hs)

theorem child_spells {parent key : String} (hparent : Spells parent walked)
    (h : child parent key false = some p) :
    Spells p (walked ++ [keyStep key]) ∧ byteLen p ≤ maxFactPathLen := by
  unfold child at h
  split at h
  · cases h
  · rename_i hkey
    have hkey := ne_empty hkey
    split at h
    · rename_i hend
      split at h
      · cases h
      · rename_i hrefused
        simp only [Bool.or_eq_true, not_or, Bool.not_eq_true] at hrefused
        have hp := withinLimit_eq_some h
        have hparentNe : parent ≠ "" := by
          intro heq
          have hempty : parent.isEmpty = true := String.isEmpty_iff.mpr heq
          rw [hrefused.1.1] at hempty
          cases hempty
        have hstep : keyStep key = FactStep.pick key := if_pos hend
        constructor
        · rw [hstep]
          have hplain : (FactStep.pick key).Plain := ⟨hkey, hrefused.2⟩
          apply hparent.extend hparentNe hplain
          rw [hp.1]
          simp only [String.toList_append, List.append_assoc]
          rfl
        · exact hp.2
    · rename_i hplain
      have hplain : key.toList.any isKeyEnd = false := Bool.eq_false_of_not_eq_true hplain
      have hstep : keyStep key = FactStep.key key := by
        unfold keyStep
        rw [hplain]
        rfl
      split at h
      · rename_i hempty
        have hp := withinLimit_eq_some h
        have hwalked : walked = [] := by
          by_contra hne
          exact hparent.ne_nil hne (String.isEmpty_iff.mp hempty)
        constructor
        · rw [hstep, hwalked]
          apply Spells.beneath p key []
          · rw [hp.1]
            exact (List.append_nil _).symm
          · intro step hmem
            rw [List.mem_singleton.mp hmem]
            exact ⟨hkey, hplain⟩
        · exact hp.2
      · rename_i hnonempty
        have hp := withinLimit_eq_some h
        constructor
        · rw [hstep]
          have hplain : (FactStep.key key).Plain := ⟨hkey, hplain⟩
          apply hparent.extend (ne_empty hnonempty) hplain
          rw [hp.1]
          simp only [String.toList_append, List.append_assoc]
          rfl
        · exact hp.2

theorem pickPath_spells {parent id : String} (hparent : Spells parent walked)
    (h : pickPath parent id = some p) :
    Spells p (walked ++ [FactStep.pick id]) ∧ byteLen p ≤ maxFactPathLen := by
  unfold pickPath at h
  split at h
  · cases h
  · rename_i hrefused
    simp only [Bool.or_eq_true, not_or, Bool.not_eq_true] at hrefused
    have hp := withinLimit_eq_some h
    have hne : forall {s : String}, s.isEmpty = false -> s ≠ "" := by
      intro s hs
      apply ne_empty
      rw [hs]
      exact Bool.false_ne_true
    constructor
    · have hplain : (FactStep.pick id).Plain := ⟨hne hrefused.1.2, hrefused.2⟩
      apply hparent.extend (hne hrefused.1.1) hplain
      rw [hp.1]
      simp only [String.toList_append, List.append_assoc]
      rfl
    · exact hp.2

end FactPath
end Core
end FleetServer
