import FleetServer.Web.Pruning

/-!
# Documents of the host editor

What the documents that rows, a text or a patch give have in common: no key is
inherited or listed twice, no removal is beneath another, and a row id stands for
one setting.
-/

namespace FleetServer
namespace Web

open FleetServer.Core
open Core.Json

variable {allowed : String -> Bool} {members m : List Member} {k : String}
variable {p q s t path rest : List String} {v u : Json} {h : Heap} {r : Ref}
variable {line : Nat} {state state' : IniState}

/-!
# Writes
-/

theorem valueOf_defined (r : Ref) (k : String) (v : Json) :
    Heap.valueOf r k v ≠ JsValue.undefined := by
  intro hundefined
  cases v with
  | null => cases hundefined
  | object m => cases hundefined
  | bool b => cases hundefined
  | number t => cases hundefined
  | string s => cases hundefined
  | array items => cases hundefined

theorem not_inherited_of_undefined (hread : h.read r k = JsValue.undefined) :
    inherits k = false := by
  unfold Heap.read at hread
  split at hread
  · exact absurd hread (valueOf_defined _ _ _)
  · split at hread
    · split at hread
      · cases hread
      · cases hread
    · rename_i hproto
      unfold Heap.inherited at hread
      split at hread
      · exact absurd hread (valueOf_defined _ _ _)
      · split at hread
        · cases hread
        · rename_i hmethods
          unfold inherits
          rw [beq_eq_false_iff_ne.mpr hproto, Bool.eq_false_iff.mpr hmethods]
          rfl

theorem wellKeyed_write (hdoc : wellKeyed allowed (object h.document) = true)
    (hk : k ≠ protoKey -> allowed k = true) (hv : wellKeyed allowed v = true) :
    wellKeyed allowed (object (h.write r k v).document) = true := by
  unfold Heap.write
  split
  · exact hdoc
  · rename_i hproto
    split
    · apply wellKeyed_updateAt _ hdoc
      intro m hm
      exact wellKeyed_insertOwn hm (hk hproto) hv
    · exact hdoc

/-!
# A document read from text
-/

/-- Nothing in the document is inherited by every object. -/
def OwnKeys (members : List Member) : Prop :=
  wellKeyed (fun k => !inherits k) (object members) = true

theorem ownKeys_write (hdoc : OwnKeys h.document) (hread : h.read r k = JsValue.undefined)
    (hv : wellKeyed (fun k => !inherits k) v = true) : OwnKeys (h.write r k v).document := by
  apply wellKeyed_write hdoc _ hv
  intro _
  rw [not_inherited_of_undefined hread]
  rfl

theorem ownKeys_sectionObject :
    forall {path : List String} {h : Heap} {r : Ref} {h' : Heap} {r' : Ref},
      OwnKeys h.document -> sectionObject line h r path = Except.ok (h', r') ->
        OwnKeys h'.document := by
  intro path
  induction path with
  | nil =>
      intro h r h' r' hdoc hok
      cases hok
      exact hdoc
  | cons k path ih =>
      intro h r h' r' hdoc hok
      unfold sectionObject at hok
      split at hok
      · rename_i hread
        exact ih (ownKeys_write hdoc hread rfl) hok
      · exact ih hdoc hok
      · cases hok

theorem ownKeys_readHeader {text : List Char} (hdoc : OwnKeys state.heap.document)
    (hok : readHeader line text state = Except.ok state') :
    OwnKeys state'.heap.document := by
  unfold readHeader at hok
  split at hok
  · cases hok
  · split at hok
    · cases hok
    · simp only at hok
      split at hok
      · cases hok
      · rename_i heap ref hsection
        cases hok
        exact ownKeys_sectionObject hdoc hsection

theorem ownKeys_setKey {key value : String} (hdoc : OwnKeys h.document)
    (hok : setKey line key value state h r = Except.ok state') :
    OwnKeys state'.heap.document := by
  unfold setKey at hok
  split at hok
  · cases hok
  · rename_i hread
    cases hok
    exact ownKeys_write hdoc hread rfl
  · cases hok

theorem ownKeys_readEntry {text : List Char} (hdoc : OwnKeys state.heap.document)
    (hok : readEntry line text state = Except.ok state') :
    OwnKeys state'.heap.document := by
  unfold readEntry at hok
  simp only at hok
  split at hok
  · cases hok
  · split at hok
    · cases hok
    · split at hok
      · cases hok
      · rename_i heap target hsection
        exact ownKeys_setKey (ownKeys_sectionObject hdoc hsection) hok

theorem ownKeys_readLine {raw : List Char} (hdoc : OwnKeys state.heap.document)
    (hok : readLine line raw state = Except.ok state') :
    OwnKeys state'.heap.document := by
  unfold readLine at hok
  simp only at hok
  split at hok
  · cases hok
    exact hdoc
  · split at hok
    · exact ownKeys_readHeader hdoc hok
    · exact ownKeys_readEntry hdoc hok

theorem ownKeys_readLines :
    forall {lines : List (List Char)} {line : Nat} {state state' : IniState},
      OwnKeys state.heap.document -> readLines line lines state = Except.ok state' ->
        OwnKeys state'.heap.document := by
  intro lines
  induction lines with
  | nil =>
      intro line state state' hdoc hok
      cases hok
      exact hdoc
  | cons raw lines ih =>
      intro line state state' hdoc hok
      unfold readLines at hok
      split at hok
      · cases hok
      · rename_i next hline
        exact ih (ownKeys_readLine hdoc hline) hok

/-- The document a text spells has no inherited key. -/
theorem ownKeys_iniToJson {text : String} (hok : iniToJson text = Except.ok members) :
    OwnKeys members := by
  unfold iniToJson at hok
  split at hok
  · cases hok
  · rename_i state hlines
    cases hok
    have hempty : OwnKeys emptyHeap.document := wellKeyed_empty
    exact ownKeys_readLines hempty hlines

/-!
# A document of rows
-/

def notProto (k : String) : Bool :=
  k != protoKey

theorem notProto_write (hdoc : wellKeyed notProto (object h.document) = true)
    (hv : wellKeyed notProto v = true) :
    wellKeyed notProto (object (h.write r k v).document) = true := by
  apply wellKeyed_write hdoc _ hv
  intro hk
  exact bne_iff_ne.mpr hk

theorem notProto_makePath :
    forall {path : List String} {h : Heap} {r : Ref} {h' : Heap} {r' : Ref},
      wellKeyed notProto (object h.document) = true -> makePath h r path = some (h', r') ->
        wellKeyed notProto (object h'.document) = true := by
  intro path
  induction path with
  | nil =>
      intro h r h' r' hdoc hok
      cases hok
      exact hdoc
  | cons k path ih =>
      intro h r h' r' hdoc hok
      unfold makePath at hok
      split at hok
      · exact ih hdoc hok
      · split at hok
        · cases hok
        · exact ih (notProto_write hdoc wellKeyed_empty) hok

theorem notProto_putRow {row : EffectiveRow} {h' : Heap}
    (hdoc : wellKeyed notProto (object h.document) = true) (hok : putRow h row = some h') :
    wellKeyed notProto (object h'.document) = true := by
  unfold putRow at hok
  split at hok
  · cases hok
    exact hdoc
  · rcases Option.map_eq_some_iff.mp hok with ⟨made, hmade, hwritten⟩
    rw [← hwritten]
    exact notProto_write (notProto_makePath hdoc hmade) rfl

theorem notProto_putRows :
    forall {rows : List EffectiveRow} {h h' : Heap},
      wellKeyed notProto (object h.document) = true -> rows.foldlM putRow h = some h' ->
        wellKeyed notProto (object h'.document) = true := by
  intro rows
  induction rows with
  | nil =>
      intro h h' hdoc hok
      cases hok
      exact hdoc
  | cons row rows ih =>
      intro h h' hdoc hok
      rw [List.foldlM_cons] at hok
      rcases Option.bind_eq_some_iff.mp hok with ⟨next, hrow, hrest⟩
      exact ih (notProto_putRow hdoc hrow) hrest

theorem notProto_configFromRows {rows : List EffectiveRow}
    (hok : configFromRows rows = some members) :
    wellKeyed notProto (object members) = true := by
  rcases Option.map_eq_some_iff.mp hok with ⟨heap, hrows, hdocument⟩
  rw [← hdocument]
  exact notProto_putRows wellKeyed_empty hrows

/-!
# Removals of a patch
-/

theorem valueAt_append (q : List String) :
    forall (p : List String) (v : Json),
      valueAt v (p ++ q) = (valueAt v p).bind fun u => valueAt u q
  | [], _ => rfl
  | k :: p, v => by
      show (v.get k).bind (fun u => valueAt u (p ++ q))
        = ((v.get k).bind fun u => valueAt u p).bind _
      cases v.get k with
      | none => rfl
      | some u => exact valueAt_append q p u

mutual

theorem null_of_removalsAt (path : List String) (k : String) {r : Removal} :
    forall v : Json, distinct v = true -> r ∈ removalsAt path k v ->
      exists q, r = path ++ k :: q ∧ valueAt v q = some null
  | Json.null, _, h => by
      rw [removalsAt] at h
      exact ⟨[], List.mem_singleton.mp h, rfl⟩
  | Json.object members, hdistinct, h => by
      rw [removalsAt] at h
      rcases null_of_removalsBeneath (path ++ [k]) members hdistinct h with ⟨q, hq, hnull⟩
      rw [List.append_assoc] at hq
      exact ⟨q, hq, hnull⟩
  | Json.bool _, _, h => by
      rw [removalsAt] at h
      · cases h
      · intro hv; cases hv
      · intro m hv; cases hv
  | Json.number _, _, h => by
      rw [removalsAt] at h
      · cases h
      · intro hv; cases hv
      · intro m hv; cases hv
  | Json.string _, _, h => by
      rw [removalsAt] at h
      · cases h
      · intro hv; cases hv
      · intro m hv; cases hv
  | Json.array _, _, h => by
      rw [removalsAt] at h
      · cases h
      · intro hv; cases hv
      · intro m hv; cases hv

theorem null_of_removalsBeneath (path : List String) {r : Removal} :
    forall members : List Member, distinct (object members) = true ->
      r ∈ removalsBeneath path members ->
        exists q, r = path ++ q ∧ valueAt (object members) q = some null
  | [], _, h => by
      rw [removalsBeneath] at h
      cases h
  | (k, v) :: rest, hdistinct, h => by
      have hparts := distinct_object hdistinct
      have hnodup := List.nodup_cons.mp hparts.1
      have hdistinct : distinct v = true ∧ distinctMembers rest = true := by
        rw [← Bool.and_eq_true]
        exact hparts.2
      rw [removalsBeneath] at h
      cases List.mem_append.mp h with
      | inl hhere =>
          rcases null_of_removalsAt path k v hdistinct.1 hhere with ⟨q, hq, hnull⟩
          exists k :: q
          constructor
          · exact hq
          · rw [valueAt_object, List.lookup_cons, beq_self_eq_true]
            exact hnull
      | inr hrest =>
          have hobject : distinct (object rest) = true := by
            show (decide ((rest.map Prod.fst).Nodup) && distinctMembers rest) = true
            rw [Bool.and_eq_true, decide_eq_true_iff]
            exact ⟨hnodup.2, hdistinct.2⟩
          rcases null_of_removalsBeneath path rest hobject hrest with ⟨q, hq, hnull⟩
          exists q
          constructor
          · exact hq
          · cases q with
            | nil => cases hnull
            | cons l q =>
                rw [valueAt_object] at hnull ⊢
                have hl : l ≠ k := by
                  intro heq
                  rw [heq, lookup_eq_none_of_not_mem hnodup.1] at hnull
                  cases hnull
                rw [List.lookup_cons, beq_eq_false_iff_ne.mpr hl]
                exact hnull

end

theorem removal_prefix {patch : ConfigObject} {r r' : Removal} (hr : r ∈ removalsOf patch)
    (hr' : r' ∈ removalsOf patch) (habove : r <+: r') : r = r' := by
  rcases null_of_removalsBeneath [] patch.members patch.distinct hr with ⟨q, hq, hnull⟩
  rcases null_of_removalsBeneath [] patch.members patch.distinct hr' with ⟨q', hq', hnull'⟩
  rw [List.nil_append] at hq hq'
  rw [hq, hq'] at habove ⊢
  rcases habove with ⟨more, hmore⟩
  rw [← hmore, valueAt_append, hnull] at hnull'
  cases more with
  | nil => exact (List.append_nil q).symm.trans hmore
  | cons k more => cases hnull'

end Web
end FleetServer
