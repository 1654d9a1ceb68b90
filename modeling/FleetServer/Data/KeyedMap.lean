import Mathlib.Data.List.AList

/-!
# Keeping part of a keyed map

Association lists with unique keys come with insertion, erasure and lookup.
This module adds the operations that drop every entry failing a test and that
change every value.
-/

namespace FleetServer
namespace KeyedMap

variable {alpha beta : Type} [DecidableEq alpha]

abbrev Map (alpha beta : Type) : Type := AList (fun _ : alpha => beta)

def size (m : Map alpha beta) : Nat :=
  m.entries.length

/-- Drop the entries whose value fails `keep`. -/
def retain (keep : beta -> Bool) (m : Map alpha beta) : Map alpha beta where
  entries := m.entries.filter (fun e => keep e.2)
  nodupKeys := m.nodupKeys.sublist List.filter_sublist

theorem lookup_retain {keep : beta -> Bool} {m : Map alpha beta} {a : alpha} :
    (retain keep m).lookup a = (m.lookup a).filter keep := by
  apply Option.ext
  intro b
  simp only [Option.filter_eq_some_iff]
  rw [show (retain keep m).lookup a = some b <-> b ∈ (retain keep m).lookup a from Iff.rfl,
    show m.lookup a = some b <-> b ∈ m.lookup a from Iff.rfl,
    AList.mem_lookup_iff, AList.mem_lookup_iff]
  simp only [retain, List.mem_filter]

omit [DecidableEq alpha] in
/-- A sweep that drops nothing leaves the map as it was. -/
theorem retain_eq_of_size {keep : beta -> Bool} {m : Map alpha beta}
    (h : size m ≤ size (retain keep m)) : retain keep m = m :=
  AList.ext (List.filter_sublist.eq_of_length_le h)

/-!
# Changing every value
-/

omit [DecidableEq alpha] in
theorem keys_map (f : beta -> beta) (entries : List (Sigma fun _ : alpha => beta)) :
    (entries.map fun e => (⟨e.1, f e.2⟩ : Sigma fun _ : alpha => beta)).keys =
      entries.keys := by
  unfold List.keys
  rw [List.map_map]
  rfl

def mapValues (f : beta -> beta) (m : Map alpha beta) : Map alpha beta where
  entries := m.entries.map fun e => ⟨e.1, f e.2⟩
  nodupKeys := by
    show (List.keys _).Nodup
    rw [keys_map]
    exact m.nodupKeys

theorem lookup_mapValues {f : beta -> beta} {m : Map alpha beta} {a : alpha} :
    (mapValues f m).lookup a = (m.lookup a).map f := by
  apply Option.ext
  intro b
  rw [show (mapValues f m).lookup a = some b <-> b ∈ (mapValues f m).lookup a from Iff.rfl,
    AList.mem_lookup_iff, Option.map_eq_some_iff]
  constructor
  · intro h
    rcases List.mem_map.mp h with ⟨e, he, heq⟩
    cases heq
    exact ⟨e.2, AList.mem_lookup_iff.mpr he, rfl⟩
  · intro h
    rcases h with ⟨c, hc, hb⟩
    rw [← hb]
    have hmem : c ∈ m.lookup a := hc
    exact List.mem_map.mpr ⟨⟨a, c⟩, AList.mem_lookup_iff.mp hmem, rfl⟩

end KeyedMap
end FleetServer
