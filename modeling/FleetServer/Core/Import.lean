import FleetServer.Core.Facts
import FleetServer.Data.KeyedMap

/-!
# Matching imported rows to hosts

Key targets, the normalization both sides of a comparison go through, the index
of every host's values, and the resolution of a list of rows.
-/

namespace FleetServer
namespace Core

open KeyedMap

def maxImportRows : Nat := 10000
def maxImportKeys : Nat := 4
def maxTagKeyLen : Nat := 128
def importSourcePrefix : String := "import:"

inductive HostField where
  | id
  | hostname
deriving DecidableEq

inductive KeyTarget where
  | host (field : HostField)
  | tag (key : String)
  | fact (source : String) (path : FactPath)
deriving DecidableEq

/-- Why a target cannot be used, if it cannot. -/
def KeyTarget.validate (debug : String -> String) : KeyTarget -> Except String Unit
  | host _ => Except.ok ()
  | tag key =>
      if (trim key).isEmpty ∨ maxTagKeyLen < byteLen key then Except.error "invalid tag key"
      else Except.ok ()
  | fact source _ =>
      if validSource source then Except.ok ()
      else Except.error ("invalid facts source " ++ debug source)

structure Normalize where
  trim : Bool
  caseInsensitive : Bool
  shortHostname : Bool
deriving DecidableEq

/-- A value as it is compared; `lower` is `str::to_lowercase`. -/
def Normalize.apply (n : Normalize) (lower : String -> String) (s : String) : String :=
  let s := if n.trim then Core.trim s else s
  let s := if n.shortHostname then String.ofList (s.toList.takeWhile fun c => c != '.') else s
  if n.caseInsensitive then lower s else s

def factKeyValues (path : FactPath) (doc : Json) : List String :=
  (path.resolve doc).flatMap fun
    | Json.array items => items.filterMap scalarText
    | other => (scalarText other).toList

def importSource (name : String) : String :=
  importSourcePrefix ++ name

def validImportName (name : String) : Bool :=
  !name.isEmpty && name != agentSource && !name.toList.contains ':' &&
    validSource (importSource name)

/-!
# The index
-/

/-- Per target, the hosts holding each normalized value, ascending. -/
structure KeyIndex where
  normalize : Normalize
  lower : String -> String
  targets : List (Map String (List Nat))

namespace KeyIndex

def new (targets : Nat) (normalize : Normalize) (lower : String -> String) : KeyIndex :=
  { normalize := normalize, lower := lower, targets := List.replicate targets ∅ }

def insertHost (host : Nat) : List Nat -> List Nat
  | [] => [host]
  | h :: rest =>
      if host < h then host :: h :: rest
      else if host = h then h :: rest
      else h :: insertHost host rest

def add (index : KeyIndex) (target host : Nat) (value : String) : KeyIndex :=
  let v := index.normalize.apply index.lower value
  if v.isEmpty then index
  else
    { index with
      targets := index.targets.modify target fun m =>
        m.insert v (insertHost host ((m.lookup v).getD [])) }

/-- The hosts holding one key of a row; an empty one is held by none. -/
def hostsFor (index : KeyIndex) (target : Map String (List Nat)) (key : String) :
    List Nat :=
  let k := index.normalize.apply index.lower key
  if k.isEmpty then [] else (target.lookup k).getD []

/-- The hosts matching every key of a row, ascending. -/
def lookup (index : KeyIndex) (keys : List String) : List Nat :=
  if keys.length ≠ index.targets.length then []
  else
    match (index.targets.zip keys).map fun t => index.hostsFor t.1 t.2 with
    | [] => []
    | first :: rest => rest.foldl (fun hosts other => hosts.filter other.contains) first

end KeyIndex

/-!
# Rows
-/

inductive RowKey where
  | keys (values : List String)
  | host (index : Option Nat)
  | skipped
deriving DecidableEq

inductive Resolution where
  | matched (host : Nat)
  | ambiguous (hosts : List Nat)
  | unmatched
  | duplicate (host of : Nat)
  | skipped
deriving DecidableEq

def targetOf (index : KeyIndex) : RowKey -> Except Resolution Nat
  | RowKey.skipped => Except.error Resolution.skipped
  | RowKey.host none => Except.error Resolution.unmatched
  | RowKey.host (some h) => Except.ok h
  | RowKey.keys values =>
      match index.lookup values with
      | [] => Except.error Resolution.unmatched
      | [h] => Except.ok h
      | hosts => Except.error (Resolution.ambiguous hosts)

def resolveFrom (index : KeyIndex) (i : Nat) (first : Map Nat Nat) :
    List RowKey -> List Resolution
  | [] => []
  | row :: rest =>
      match targetOf index row with
      | Except.error r => r :: resolveFrom index (i + 1) first rest
      | Except.ok host =>
          match first.lookup host with
          | some of => Resolution.duplicate host of :: resolveFrom index (i + 1) first rest
          | none =>
              Resolution.matched host ::
                resolveFrom index (i + 1) (first.insert host i) rest

def resolveRows (index : KeyIndex) (rows : List RowKey) : List Resolution :=
  resolveFrom index 0 ∅ rows

/-!
# One row for every host
-/

def Resolution.matchedHost : Resolution -> Option Nat
  | Resolution.matched host => some host
  | _ => none

/-- Every host is matched by at most one row, and a duplicate names the earlier
row that keeps its host. -/
structure MatchedOnce (resolved : List Resolution) : Prop where
  once : forall i j host : Nat, resolved[i]? = some (Resolution.matched host) ->
    resolved[j]? = some (Resolution.matched host) -> i = j
  duplicate : forall i host of : Nat, resolved[i]? = some (Resolution.duplicate host of) ->
    of < i ∧ resolved[of]? = some (Resolution.matched host)

section Resolve

variable {index : KeyIndex}

theorem targetOf_error {row : RowKey} {r : Resolution} (h : targetOf index row = Except.error r) :
    r.matchedHost = none ∧ forall host of, r ≠ Resolution.duplicate host of := by
  cases row with
  | skipped =>
      cases h
      exact ⟨rfl, fun _ _ h => by cases h⟩
  | host i =>
      cases i with
      | none =>
          cases h
          exact ⟨rfl, fun _ _ h => by cases h⟩
      | some i => cases h
  | keys values =>
      unfold targetOf at h
      simp only at h
      split at h
      · cases h
        exact ⟨rfl, fun _ _ h => by cases h⟩
      · cases h
      · cases h
        exact ⟨rfl, fun _ _ h => by cases h⟩

theorem targetOf_skipped {row : RowKey} :
    targetOf index row = Except.error Resolution.skipped <-> row = RowKey.skipped := by
  constructor
  · intro h
    cases row with
    | skipped => rfl
    | host i =>
        cases i with
        | none => cases h
        | some i => cases h
    | keys values =>
        unfold targetOf at h
        simp only at h
        split at h
        · cases h
        · cases h
        · cases h
  · intro h
    rw [h]
    rfl

theorem skipped_resolveFrom (rows : List RowKey) :
    forall (i : Nat) (first : Map Nat Nat) (k : Nat),
      (resolveFrom index i first rows)[k]? = some Resolution.skipped <->
        rows[k]? = some RowKey.skipped := by
  induction rows with
  | nil =>
      intro i first k
      constructor
      · intro h
        cases h
      · intro h
        cases h
  | cons row rest ih =>
      intro i first k
      unfold resolveFrom
      cases htarget : targetOf index row with
      | error r =>
          cases k with
          | succ k => exact ih (i + 1) first k
          | zero =>
              show some r = some _ <-> some row = some _
              rw [Option.some.injEq, Option.some.injEq, ← targetOf_skipped, htarget,
                Except.error.injEq]
      | ok host =>
          have hnot : row ≠ RowKey.skipped := by
            intro hrow
            rw [← targetOf_skipped, htarget] at hrow
            cases hrow
          simp only
          cases k with
          | succ k =>
              cases first.lookup host with
              | some of => exact ih (i + 1) first k
              | none => exact ih (i + 1) (first.insert host i) k
          | zero =>
              cases first.lookup host with
              | some of =>
                  constructor
                  · intro h
                    cases h
                  · intro h
                    cases h
                    exact absurd rfl hnot
              | none =>
                  constructor
                  · intro h
                    cases h
                  · intro h
                    cases h
                    exact absurd rfl hnot

theorem length_resolveFrom (rows : List RowKey) :
    forall (i : Nat) (first : Map Nat Nat),
      (resolveFrom index i first rows).length = rows.length := by
  induction rows with
  | nil =>
      intro i first
      rfl
  | cons row rest ih =>
      intro i first
      unfold resolveFrom
      split
      · rw [List.length_cons, List.length_cons, ih]
      · split
        · rw [List.length_cons, List.length_cons, ih]
        · rw [List.length_cons, List.length_cons, ih]

/-- What is matched among the rows from number `i` on was not taken before. -/
theorem matched_resolveFrom (rows : List RowKey) :
    forall (i : Nat) (first : Map Nat Nat),
      ((resolveFrom index i first rows).filterMap Resolution.matchedHost).Nodup ∧
        forall host, host ∈ (resolveFrom index i first rows).filterMap Resolution.matchedHost ->
          first.lookup host = none := by
  induction rows with
  | nil =>
      intro i first
      exact ⟨List.nodup_nil, fun host h => absurd h List.not_mem_nil⟩
  | cons row rest ih =>
      intro i first
      unfold resolveFrom
      split
      · rename_i r hr
        rw [List.filterMap_cons, (targetOf_error hr).1]
        exact ih (i + 1) first
      · rename_i host hhost
        split
        · exact ih (i + 1) first
        · rename_i hfree
          have hrest := ih (i + 1) (first.insert host i)
          rw [List.filterMap_cons]
          show (host :: _).Nodup ∧ forall h, h ∈ host :: _ -> _
          constructor
          · rw [List.nodup_cons]
            refine ⟨?_, hrest.1⟩
            intro hmem
            have hnone := hrest.2 host hmem
            rw [AList.lookup_insert] at hnone
            cases hnone
          · intro h hh
            rcases List.mem_cons.mp hh with hh | hh
            · rw [hh]
              exact hfree
            · have hnone := hrest.2 h hh
              by_cases hsame : h = host
              · rw [hsame]
                exact hfree
              · rw [AList.lookup_insert_ne hsame] at hnone
                exact hnone

theorem duplicate_resolveFrom (rows : List RowKey) :
    forall (i : Nat) (first : Map Nat Nat) (k host of : Nat),
      (resolveFrom index i first rows)[k]? = some (Resolution.duplicate host of) ->
        first.lookup host = some of ∨
          exists j, j < k ∧ of = i + j ∧
            (resolveFrom index i first rows)[j]? = some (Resolution.matched host) := by
  induction rows with
  | nil =>
      intro i first k host of h
      cases h
  | cons row rest ih =>
      intro i first k host of h
      -- What a row after this one names, seen from here.
      have hlater : forall {r : Resolution} {first' : Map Nat Nat} {k' : Nat},
          (first'.lookup host = some of ->
            first.lookup host = some of ∨ (of = i ∧ r = Resolution.matched host)) ->
          (resolveFrom index (i + 1) first' rest)[k']? = some (Resolution.duplicate host of) ->
          first.lookup host = some of ∨
            exists j, j < k' + 1 ∧ of = i + j ∧
              (r :: resolveFrom index (i + 1) first' rest)[j]? =
                some (Resolution.matched host) := by
        intro r first' k' hfirst hk
        rcases ih (i + 1) first' k' host of hk with hnoted | ⟨j, hj, hof, hget⟩
        · rcases hfirst hnoted with hbefore | ⟨hof, hr⟩
          · exact Or.inl hbefore
          · refine Or.inr ⟨0, by omega, by omega, ?_⟩
            rw [hr]
            rfl
        · exact Or.inr ⟨j + 1, by omega, by omega, hget⟩
      unfold resolveFrom at h ⊢
      split at h
      · rename_i r hr
        cases k with
        | zero =>
            cases h
            exact absurd rfl ((targetOf_error hr).2 host of)
        | succ k => exact hlater Or.inl h
      · rename_i other hother
        split at h
        · rename_i row' hrow'
          cases k with
          | zero =>
              cases h
              exact Or.inl hrow'
          | succ k => exact hlater Or.inl h
        · rename_i hfree
          cases k with
          | zero => cases h
          | succ k =>
              apply hlater _ h
              intro hnoted
              by_cases hsame : host = other
              · rw [hsame, AList.lookup_insert] at hnoted
                cases hnoted
                rw [hsame]
                exact Or.inr ⟨rfl, rfl⟩
              · rw [AList.lookup_insert_ne hsame] at hnoted
                exact Or.inl hnoted

theorem matchedOnce_resolveRows (rows : List RowKey) : MatchedOnce (resolveRows index rows) := by
  constructor
  · have hnodup : ((resolveRows index rows).filterMap Resolution.matchedHost).Nodup :=
      (matched_resolveFrom rows 0 ∅).1
    have hpairs := List.pairwise_filterMap.mp hnodup
    have hlt : forall i j host : Nat, i < j ->
        (resolveRows index rows)[i]? = some (Resolution.matched host) ->
        (resolveRows index rows)[j]? ≠ some (Resolution.matched host) := by
      intro i j host hij hi hj
      rcases List.getElem?_eq_some_iff.mp hi with ⟨hilt, hi⟩
      rcases List.getElem?_eq_some_iff.mp hj with ⟨hjlt, hj⟩
      have hne := List.pairwise_iff_getElem.mp hpairs i j hilt hjlt hij
      exact hne host (congrArg Resolution.matchedHost hi) host
        (congrArg Resolution.matchedHost hj) rfl
    intro i j host hi hj
    rcases Nat.lt_trichotomy i j with hij | hij | hij
    · exact absurd hj (hlt i j host hij hi)
    · exact hij
    · exact absurd hi (hlt j i host hij hj)
  · intro i host of h
    rcases duplicate_resolveFrom rows 0 ∅ i host of h with hnone | ⟨j, hj, hof, hget⟩
    · cases hnone
    · rw [Nat.zero_add] at hof
      rw [hof]
      exact ⟨hj, hget⟩

end Resolve

end Core
end FleetServer
