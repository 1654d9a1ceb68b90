import FleetServer.Web.Objects

/-!
# Values put where nothing is yet

What a document holds at each path once values have been put into it one by one.
A put never replaces anything, makes the sections on its way, and stops at a value
or at a key that every object inherits.
-/

namespace FleetServer
namespace Web

open FleetServer.Core
open Core.Json

/-- A key under which every object has something. -/
def inherits (k : String) : Bool :=
  k == protoKey || objectMethods.contains k

def Clean (path : List String) : Prop :=
  forall k, k ∈ path -> inherits k = false

instance (path : List String) : Decidable (Clean path) :=
  inferInstanceAs (Decidable (forall k, k ∈ path -> inherits k = false))

def putTree : List Member -> List String -> Json -> List Member
  | members, [], _ => members
  | members, k :: rest, v =>
      match members.lookup k with
      | none =>
          if inherits k then members
          else insertOwn k (if rest.isEmpty then v else object (putTree [] rest v)) members
      | some (object m) => replaceOwn k (object (putTree m rest v)) members
      | some _ => members

inductive Node where
  | nothing
  | value (v : Json)
  | section_

/-- What a document has at a path. -/
def nodeAt (members : List Member) : List String -> Node
  | [] => Node.section_
  | k :: rest =>
      match members.lookup k with
      | none => Node.nothing
      | some (object m) => nodeAt m rest
      | some v => if rest = [] then Node.value v else Node.nothing

/-- Whether the way along a path is free. -/
def reaches (members : List Member) : List String -> Bool
  | [] => true
  | k :: rest =>
      match members.lookup k with
      | none => (k :: rest).all fun s => !inherits s
      | some (object m) => reaches m rest
      | some _ => false

variable {members m : List Member} {k : String} {p q s rest : List String} {v u : Json}

theorem clean_nil : Clean [] := by
  intro k hk
  cases hk

theorem clean_cons : Clean (k :: rest) <-> inherits k = false ∧ Clean rest := by
  constructor
  · intro h
    exact ⟨h k List.mem_cons_self, fun l hl => h l (List.mem_cons_of_mem _ hl)⟩
  · intro h l hl
    cases List.mem_cons.mp hl with
    | inl heq =>
        rw [heq]
        exact h.1
    | inr hmem => exact h.2 l hmem

theorem clean_above (h : p <+: q) (hq : Clean q) : Clean p :=
  fun k hk => hq k (h.subset hk)

theorem clean_of_all (h : (p.all fun s => !inherits s) = true) : Clean p := by
  intro k hk
  have hkey := List.all_eq_true.mp h k hk
  cases hin : inherits k with
  | false => rfl
  | true =>
      rw [hin] at hkey
      cases hkey

theorem all_of_clean (h : Clean p) : (p.all fun s => !inherits s) = true := by
  apply List.all_eq_true.mpr
  intro k hk
  rw [h k hk]
  rfl

/-- Nothing, a section or a value. -/
theorem lookup_cases (members : List Member) (k : String) :
    members.lookup k = none ∨ (exists m, members.lookup k = some (object m)) ∨
      (exists v, members.lookup k = some v ∧ v.isObject = false) := by
  cases hk : members.lookup k with
  | none => exact Or.inl rfl
  | some v =>
      cases hobject : v.isObject with
      | false => exact Or.inr (Or.inr ⟨v, rfl, hobject⟩)
      | true =>
          cases v with
          | object m => exact Or.inr (Or.inl ⟨m, rfl⟩)
          | null => cases hobject
          | bool b => cases hobject
          | number t => cases hobject
          | string s => cases hobject
          | array items => cases hobject

/-!
# One step along a path
-/

theorem nodeAt_missing (h : members.lookup k = none) :
    nodeAt members (k :: rest) = Node.nothing := by
  rw [nodeAt, h]

theorem nodeAt_object (h : members.lookup k = some (object m)) :
    nodeAt members (k :: rest) = nodeAt m rest := by
  rw [nodeAt, h]

theorem nodeAt_value (hv : v.isObject = false) (h : members.lookup k = some v) :
    nodeAt members (k :: rest) = if rest = [] then Node.value v else Node.nothing := by
  rw [nodeAt, h]
  cases v with
  | object m => cases hv
  | null => rfl
  | bool b => rfl
  | number t => rfl
  | string s => rfl
  | array items => rfl

theorem nodeAt_congr {members' : List Member} (h : members.lookup k = members'.lookup k) :
    nodeAt members (k :: rest) = nodeAt members' (k :: rest) := by
  rw [nodeAt, nodeAt, h]

theorem reaches_missing (h : members.lookup k = none) :
    reaches members (k :: rest) = (k :: rest).all fun s => !inherits s := by
  rw [reaches, h]

theorem reaches_object (h : members.lookup k = some (object m)) :
    reaches members (k :: rest) = reaches m rest := by
  rw [reaches, h]

theorem reaches_value (hv : v.isObject = false) (h : members.lookup k = some v) :
    reaches members (k :: rest) = false := by
  rw [reaches, h]
  cases v with
  | object m => cases hv
  | null => rfl
  | bool b => rfl
  | number t => rfl
  | string s => rfl
  | array items => rfl

theorem putTree_inherited (h : members.lookup k = none) (hk : inherits k = true) :
    putTree members (k :: rest) v = members := by
  rw [putTree, h]
  exact if_pos hk

theorem putTree_missing (h : members.lookup k = none) (hk : inherits k = false) :
    putTree members (k :: rest) v
      = insertOwn k (if rest.isEmpty then v else object (putTree [] rest v)) members := by
  rw [putTree, h]
  exact if_neg (Bool.eq_false_iff.mp hk)

theorem putTree_object (h : members.lookup k = some (object m)) :
    putTree members (k :: rest) v = replaceOwn k (object (putTree m rest v)) members := by
  rw [putTree, h]

theorem putTree_value (hu : u.isObject = false) (h : members.lookup k = some u) :
    putTree members (k :: rest) v = members := by
  rw [putTree, h]
  cases u with
  | object m => cases hu
  | null => rfl
  | bool b => rfl
  | number t => rfl
  | string s => rfl
  | array items => rfl

theorem lookup_putTree_object (h : members.lookup k = some (object m)) :
    (putTree members (k :: rest) v).lookup k = some (object (putTree m rest v)) := by
  have hsome : (members.lookup k).isSome = true := by
    rw [h]
    rfl
  rw [putTree_object h, lookup_replaceOwn hsome]
  exact if_pos rfl

theorem lookup_putTree_missing (h : members.lookup k = none) (hk : inherits k = false) :
    (putTree members (k :: rest) v).lookup k
      = some (if rest.isEmpty then v else object (putTree [] rest v)) := by
  rw [putTree_missing h hk, lookup_insertOwn]
  exact if_pos rfl

theorem lookup_putTree_other {l : String} (hl : l ≠ k) :
    (putTree members (k :: rest) v).lookup l = members.lookup l := by
  rcases lookup_cases members k with h | ⟨m, h⟩ | ⟨u, h, hu⟩
  · cases hk : inherits k with
    | true => rw [putTree_inherited h hk]
    | false =>
        rw [putTree_missing h hk, lookup_insertOwn]
        exact if_neg hl
  · have hsome : (members.lookup k).isSome = true := by
      rw [h]
      rfl
    rw [putTree_object h, lookup_replaceOwn hsome]
    exact if_neg hl
  · rw [putTree_value hu h]

theorem nodeAt_nil (s : List String) (h : s ≠ []) : nodeAt [] s = Node.nothing := by
  cases s with
  | nil => exact absurd rfl h
  | cons k rest => rfl

theorem nothing_beneath_value :
    forall {p : List String} {members : List Member}, p <+: s -> p ≠ s ->
      nodeAt members p = Node.value u -> nodeAt members s = Node.nothing := by
  induction s with
  | nil =>
      intro p members habove hne _
      exact absurd (List.prefix_nil.mp habove) hne
  | cons k s ih =>
      intro p members habove hne hvalue
      cases p with
      | nil => cases hvalue
      | cons l p =>
          rcases List.cons_prefix_cons.mp habove with ⟨hkey, hrest⟩
          subst hkey
          have hne : p ≠ s := fun heq => hne (by rw [heq])
          rcases lookup_cases members l with h | ⟨m, h⟩ | ⟨w, h, hw⟩
          · exact nodeAt_missing h
          · rw [nodeAt_object h] at hvalue ⊢
            exact ih hrest hne hvalue
          · rw [nodeAt_value hw h]
            apply if_neg
            intro hnil
            rw [hnil] at hrest hne
            exact hne (List.prefix_nil.mp hrest)

/-!
# One put
-/

theorem putTree_keeps :
    forall {p : List String} {members : List Member} {s : List String},
      nodeAt members s ≠ Node.nothing -> nodeAt (putTree members p v) s = nodeAt members s := by
  intro p
  induction p with
  | nil =>
      intro members s _
      rfl
  | cons k p ih =>
      intro members s hs
      cases s with
      | nil => rfl
      | cons l s =>
          by_cases hl : l = k
          · subst hl
            rcases lookup_cases members l with h | ⟨m, h⟩ | ⟨u, h, hu⟩
            · exact absurd (nodeAt_missing h) hs
            · rw [nodeAt_object h] at hs
              rw [nodeAt_object (lookup_putTree_object h), nodeAt_object h]
              exact ih hs
            · rw [putTree_value hu h]
          · exact nodeAt_congr (lookup_putTree_other hl)

theorem putTree_makes (hv : v.isObject = false) :
    forall {p : List String} {members : List Member} {s : List String},
      nodeAt members s = Node.nothing -> s <+: p -> reaches members s = true ->
        nodeAt (putTree members p v) s = if s = p then Node.value v else Node.section_ := by
  intro p
  induction p with
  | nil =>
      intro members s hs habove _
      rw [List.prefix_nil.mp habove] at hs
      cases hs
  | cons k p ih =>
      intro members s hs habove hreaches
      cases s with
      | nil => cases hs
      | cons l s =>
          rcases List.cons_prefix_cons.mp habove with ⟨hkey, hrest⟩
          subst hkey
          have hsame : (l :: s = l :: p) = (s = p) := by
            rw [List.cons.injEq]
            exact propext (and_iff_right rfl)
          rw [if_congr (Iff.of_eq hsame) rfl rfl]
          rcases lookup_cases members l with h | ⟨m, h⟩ | ⟨u, h, hu⟩
          · rw [reaches_missing h] at hreaches
            have hclean := clean_cons.mp (clean_of_all hreaches)
            have hlookup := @lookup_putTree_missing members l p v h hclean.1
            cases p with
            | nil =>
                have hnil : s = [] := List.prefix_nil.mp hrest
                rw [nodeAt_value hv hlookup, if_pos hnil, if_pos hnil]
            | cons j p =>
                rw [nodeAt_object hlookup]
                cases s with
                | nil => exact (if_neg (List.cons_ne_nil _ _).symm).symm
                | cons i s =>
                    apply ih (nodeAt_nil _ (List.cons_ne_nil _ _)) hrest
                    exact all_of_clean hclean.2
          · rw [nodeAt_object h] at hs
            rw [reaches_object h] at hreaches
            rw [nodeAt_object (lookup_putTree_object h)]
            exact ih hs hrest hreaches
          · rw [reaches_value hu h] at hreaches
            cases hreaches

theorem putTree_elsewhere (hv : v.isObject = false) :
    forall {p : List String} {members : List Member} {s : List String},
      nodeAt members s = Node.nothing -> Not (s <+: p ∧ reaches members s = true) ->
        nodeAt (putTree members p v) s = Node.nothing := by
  intro p
  induction p with
  | nil =>
      intro members s hs _
      exact hs
  | cons k p ih =>
      intro members s hs hnot
      cases s with
      | nil => cases hs
      | cons l s =>
          by_cases hl : l = k
          · subst hl
            rcases lookup_cases members l with h | ⟨m, h⟩ | ⟨u, h, hu⟩
            · cases hk : inherits l with
              | true => rw [putTree_inherited h hk, hs]
              | false =>
                  have hlookup := @lookup_putTree_missing members l p v h hk
                  have hreach : Clean s -> reaches members (l :: s) = true := by
                    intro hs
                    rw [reaches_missing h]
                    exact all_of_clean (clean_cons.mpr ⟨hk, hs⟩)
                  cases s with
                  | nil =>
                      exact absurd ⟨List.cons_prefix_cons.mpr ⟨rfl, List.nil_prefix⟩,
                        hreach clean_nil⟩ hnot
                  | cons i s =>
                      cases p with
                      | nil => exact (nodeAt_value hv hlookup).trans (if_neg (List.cons_ne_nil _ _))
                      | cons j p =>
                          rw [nodeAt_object hlookup]
                          apply ih (nodeAt_nil _ (List.cons_ne_nil _ _))
                          intro hboth
                          exact hnot ⟨List.cons_prefix_cons.mpr ⟨rfl, hboth.1⟩,
                            hreach (clean_of_all hboth.2)⟩
            · rw [nodeAt_object h] at hs
              rw [nodeAt_object (lookup_putTree_object h)]
              apply ih hs
              intro hboth
              apply hnot
              rw [reaches_object h]
              exact ⟨List.cons_prefix_cons.mpr ⟨rfl, hboth.1⟩, hboth.2⟩
            · rw [putTree_value hu h, hs]
          · rw [nodeAt_congr (lookup_putTree_other hl), hs]

/-- Every path that leads to something is free of inherited keys. -/
def Tidy (members : List Member) : Prop :=
  forall s, nodeAt members s ≠ Node.nothing -> Clean s

theorem tidy_nil : Tidy [] := by
  intro s hs
  cases s with
  | nil => exact clean_nil
  | cons k s => exact absurd rfl hs

theorem clean_of_reaches :
    forall {s : List String} {members : List Member}, Tidy members ->
      reaches members s = true -> Clean s := by
  intro s
  induction s with
  | nil =>
      intro _ _ _
      exact clean_nil
  | cons k s ih =>
      intro members htidy hreaches
      rcases lookup_cases members k with h | ⟨m, h⟩ | ⟨u, h, hu⟩
      · rw [reaches_missing h] at hreaches
        exact clean_of_all hreaches
      · rw [reaches_object h] at hreaches
        have hnode : forall t, nodeAt m t ≠ Node.nothing -> Clean (k :: t) := by
          intro t ht
          apply htidy
          rw [nodeAt_object h]
          exact ht
        have hm : Tidy m := fun t ht => (clean_cons.mp (hnode t ht)).2
        have hk : inherits k = false := by
          apply (clean_cons.mp (hnode [] _)).1
          intro hnothing
          cases hnothing
        exact clean_cons.mpr ⟨hk, ih hm hreaches⟩
      · rw [reaches_value hu h] at hreaches
        cases hreaches

theorem tidy_putTree (hv : v.isObject = false) (h : Tidy members) : Tidy (putTree members p v) := by
  intro s hs
  by_cases hbefore : nodeAt members s = Node.nothing
  · by_cases hway : s <+: p ∧ reaches members s = true
    · exact clean_of_reaches h hway.2
    · exact absurd (putTree_elsewhere hv hbefore hway) hs
  · exact h s hbefore

/-- A section at the path, or a value on the way. -/
def Settled (members : List Member) (s : List String) : Prop :=
  nodeAt members s = Node.section_ ∨ exists t u, t <+: s ∧ nodeAt members t = Node.value u

theorem settled_of_node (h : nodeAt members s ≠ Node.nothing) : Settled members s := by
  cases hs : nodeAt members s with
  | nothing => exact absurd hs h
  | value u => exact Or.inr ⟨s, u, List.prefix_rfl, hs⟩
  | section_ => exact Or.inl hs

theorem blocked_by_value :
    forall {s : List String} {members : List Member}, Clean s -> reaches members s = false ->
      exists t u, t <+: s ∧ nodeAt members t = Node.value u := by
  intro s
  induction s with
  | nil =>
      intro _ _ hreaches
      cases hreaches
  | cons k s ih =>
      intro members hclean hreaches
      rcases lookup_cases members k with h | ⟨m, h⟩ | ⟨u, h, hu⟩
      · rw [reaches_missing h, all_of_clean hclean] at hreaches
        cases hreaches
      · rw [reaches_object h] at hreaches
        rcases ih (clean_cons.mp hclean).2 hreaches with ⟨t, u, habove, hvalue⟩
        have hnode : nodeAt members (k :: t) = Node.value u := by
          rw [nodeAt_object h]
          exact hvalue
        exact ⟨k :: t, u, List.cons_prefix_cons.mpr ⟨rfl, habove⟩, hnode⟩
      · have hnode : nodeAt members [k] = Node.value u :=
          (nodeAt_value hu h).trans (if_pos rfl)
        exact ⟨[k], u, List.cons_prefix_cons.mpr ⟨rfl, List.nil_prefix⟩, hnode⟩

theorem settled_putTree (hv : v.isObject = false) (habove : s <+: p) (hclean : Clean s) :
    Settled (putTree members p v) s := by
  by_cases hbefore : nodeAt members s = Node.nothing
  · cases hreaches : reaches members s with
    | true =>
        apply settled_of_node
        rw [putTree_makes hv hbefore habove hreaches]
        intro hnothing
        split at hnothing
        · cases hnothing
        · cases hnothing
    | false =>
        rcases blocked_by_value hclean hreaches with ⟨t, u, ht, hvalue⟩
        have hkept : nodeAt (putTree members p v) t = Node.value u := by
          rw [putTree_keeps (by rw [hvalue]; intro hnothing; cases hnothing)]
          exact hvalue
        exact Or.inr ⟨t, u, ht, hkept⟩
  · apply settled_of_node
    rw [putTree_keeps hbefore]
    exact hbefore

/-!
# Many puts
-/

def putAll (members : List Member) (ps : List (List String × Json)) : List Member :=
  ps.foldl (fun m p => putTree m p.1 p.2) members

variable {ps : List (List String × Json)}

theorem putAll_keeps :
    forall {ps : List (List String × Json)} {members : List Member},
      nodeAt members s ≠ Node.nothing -> nodeAt (putAll members ps) s = nodeAt members s := by
  intro ps
  induction ps with
  | nil =>
      intro _ _
      rfl
  | cons p ps ih =>
      intro members hs
      have hstep := putTree_keeps (p := p.1) (v := p.2) hs
      show nodeAt (putAll (putTree members p.1 p.2) ps) s = _
      rw [ih (by rw [hstep]; exact hs), hstep]

theorem settled_putAll_of_settled (h : Settled members s) : Settled (putAll members ps) s := by
  cases h with
  | inl hsection =>
      apply Or.inl
      rw [putAll_keeps (by rw [hsection]; intro hnothing; cases hnothing)]
      exact hsection
  | inr hvalue =>
      rcases hvalue with ⟨t, u, habove, hvalue⟩
      apply Or.inr
      exists t, u
      constructor
      · exact habove
      · rw [putAll_keeps (by rw [hvalue]; intro hnothing; cases hnothing)]
        exact hvalue

theorem putAll_value :
    forall {ps : List (List String × Json)} {members : List Member},
      (forall p, p ∈ ps -> p.2.isObject = false) ->
        nodeAt (putAll members ps) s = Node.value u ->
          nodeAt members s = Node.value u ∨ (s, u) ∈ ps := by
  intro ps
  induction ps with
  | nil =>
      intro members _ h
      exact Or.inl h
  | cons p ps ih =>
      intro members hvalues h
      have hp := hvalues p List.mem_cons_self
      cases ih (fun q hq => hvalues q (List.mem_cons_of_mem _ hq)) h with
      | inr hmem => exact Or.inr (List.mem_cons_of_mem _ hmem)
      | inl hnode =>
          by_cases hbefore : nodeAt members s = Node.nothing
          · by_cases hway : s <+: p.1 ∧ reaches members s = true
            · rw [putTree_makes hp hbefore hway.1 hway.2] at hnode
              split at hnode
              · rename_i hs
                cases hnode
                rw [hs]
                exact Or.inr List.mem_cons_self
              · cases hnode
            · rw [putTree_elsewhere hp hbefore hway] at hnode
              cases hnode
          · rw [putTree_keeps hbefore] at hnode
            exact Or.inl hnode

theorem putAll_section :
    forall {ps : List (List String × Json)} {members : List Member},
      (forall p, p ∈ ps -> p.2.isObject = false) ->
        nodeAt (putAll members ps) s = Node.section_ ->
          nodeAt members s = Node.section_ ∨ exists p, p ∈ ps ∧ s <+: p.1 ∧ s ≠ p.1 := by
  intro ps
  induction ps with
  | nil =>
      intro members _ h
      exact Or.inl h
  | cons p ps ih =>
      intro members hvalues h
      have hp := hvalues p List.mem_cons_self
      cases ih (fun q hq => hvalues q (List.mem_cons_of_mem _ hq)) h with
      | inr hmem =>
          rcases hmem with ⟨q, hq, habove⟩
          exact Or.inr ⟨q, List.mem_cons_of_mem _ hq, habove⟩
      | inl hnode =>
          by_cases hbefore : nodeAt members s = Node.nothing
          · by_cases hway : s <+: p.1 ∧ reaches members s = true
            · rw [putTree_makes hp hbefore hway.1 hway.2] at hnode
              split at hnode
              · cases hnode
              · rename_i hs
                exact Or.inr ⟨p, List.mem_cons_self, hway.1, hs⟩
            · rw [putTree_elsewhere hp hbefore hway] at hnode
              cases hnode
          · rw [putTree_keeps hbefore] at hnode
            exact Or.inl hnode

theorem tidy_putAll :
    forall {ps : List (List String × Json)} {members : List Member},
      (forall p, p ∈ ps -> p.2.isObject = false) -> Tidy members -> Tidy (putAll members ps) := by
  intro ps
  induction ps with
  | nil =>
      intro members _ h
      exact h
  | cons p ps ih =>
      intro members hvalues h
      apply ih (fun q hq => hvalues q (List.mem_cons_of_mem _ hq))
      exact tidy_putTree (hvalues p List.mem_cons_self) h

/-- A clean path that was put leads to something, or a value is in the way. -/
theorem settled_putAll :
    forall {ps : List (List String × Json)} {members : List Member},
      (forall p, p ∈ ps -> p.2.isObject = false) ->
        forall {p : List String × Json}, p ∈ ps -> s <+: p.1 -> Clean s ->
          Settled (putAll members ps) s := by
  intro ps
  induction ps with
  | nil =>
      intro _ _ p hp _ _
      cases hp
  | cons q ps ih =>
      intro members hvalues p hp habove hclean
      cases List.mem_cons.mp hp with
      | inl heq =>
          subst heq
          show Settled (putAll (putTree members p.1 p.2) ps) s
          apply settled_putAll_of_settled
          exact settled_putTree (hvalues p List.mem_cons_self) habove hclean
      | inr hmem =>
          exact ih (fun q hq => hvalues q (List.mem_cons_of_mem _ hq)) hmem habove hclean

theorem putAll_append (members : List Member) (ps qs : List (List String × Json)) :
    putAll members (ps ++ qs) = putAll (putAll members ps) qs :=
  List.foldl_append

end Web
end FleetServer
