import FleetServer.Core.Import

/-!
# The index and the plain search

What `add` records, call by call, and the hosts a lookup finds: those that hold a
value equal to every key once both are normalized.
-/

namespace FleetServer
namespace Core

open KeyedMap

namespace KeyIndex

structure Added (n : Nat) where
  target : Fin n
  host : Nat
  value : String

def build (n : Nat) (normalize : Normalize) (lower : String -> String) (adds : List (Added n)) :
    KeyIndex :=
  adds.foldl (fun index a => index.add a.target a.host a.value) (new n normalize lower)

/-- The plain search: the host was added, and under every target it has a value with
the key's normalization, which is not empty. -/
def Matches {n : Nat} (normalize : Normalize) (lower : String -> String) (adds : List (Added n))
    (keys : List String) (host : Nat) : Prop :=
  (exists a, a ∈ adds ∧ a.host = host) ∧
    forall i, i < n ∨ i < keys.length ->
      exists key a, keys[i]? = some key ∧ a ∈ adds ∧ a.target.val = i ∧ a.host = host ∧
        normalize.apply lower a.value = normalize.apply lower key ∧
        normalize.apply lower key ≠ ""

def holders (index : KeyIndex) (i : Nat) (v : String) : List Nat :=
  ((index.targets[i]?).bind fun m => m.lookup v).getD []

variable {index : KeyIndex} {host h i n : Nat} {v key value : String} {hosts : List Nat}
variable {normalize : Normalize} {lower : String -> String}

/-!
# Ascending hosts
-/

theorem mem_insertHost : h ∈ insertHost host hosts <-> h = host ∨ h ∈ hosts := by
  induction hosts with
  | nil => exact List.mem_cons
  | cons first rest ih =>
      unfold insertHost
      split
      · exact List.mem_cons
      · split
        · rename_i heq
          rw [List.mem_cons, heq]
          constructor
          · intro hmem
            exact Or.inr hmem
          · intro hmem
            cases hmem with
            | inl hfirst => exact Or.inl hfirst
            | inr hrest => exact hrest
        · rw [List.mem_cons, List.mem_cons, ih]
          constructor
          · intro hmem
            rcases hmem with hfirst | hnew | hrest
            · exact Or.inr (Or.inl hfirst)
            · exact Or.inl hnew
            · exact Or.inr (Or.inr hrest)
          · intro hmem
            rcases hmem with hnew | hfirst | hrest
            · exact Or.inr (Or.inl hnew)
            · exact Or.inl hfirst
            · exact Or.inr (Or.inr hrest)

theorem pairwise_insertHost (hasc : hosts.Pairwise (· < ·)) :
    (insertHost host hosts).Pairwise (· < ·) := by
  induction hosts with
  | nil => exact List.pairwise_singleton _ _
  | cons first rest ih =>
      have hparts := List.pairwise_cons.mp hasc
      unfold insertHost
      split
      · rename_i hlt
        apply List.pairwise_cons.mpr
        constructor
        · intro x hx
          cases List.mem_cons.mp hx with
          | inl heq => omega
          | inr hmem =>
              have hfirst := hparts.1 x hmem
              omega
        · exact hasc
      · split
        · exact hasc
        · apply List.pairwise_cons.mpr
          constructor
          · intro x hx
            cases mem_insertHost.mp hx with
            | inl heq => omega
            | inr hmem => exact hparts.1 x hmem
          · exact ih hparts.2

/-!
# What a call records
-/

theorem length_add (index : KeyIndex) (target host : Nat) (value : String) :
    (index.add target host value).targets.length = index.targets.length := by
  unfold add
  simp only
  split
  · rfl
  · exact List.length_modify _ _ _

theorem settings_add (index : KeyIndex) (target host : Nat) (value : String) :
    (index.add target host value).normalize = index.normalize ∧
      (index.add target host value).lower = index.lower := by
  unfold add
  simp only
  split
  · exact ⟨rfl, rfl⟩
  · exact ⟨rfl, rfl⟩

theorem mem_holders_add {target : Nat} (htarget : target < index.targets.length) :
    h ∈ holders (index.add target host value) i v <->
      h ∈ holders index i v ∨
        (h = host ∧ i = target ∧ index.normalize.apply index.lower value = v ∧ v ≠ "") := by
  unfold add
  simp only
  split
  · rename_i hempty
    have hempty := String.isEmpty_iff.mp hempty
    constructor
    · intro hmem
      exact Or.inl hmem
    · intro hmem
      cases hmem with
      | inl hold => exact hold
      | inr hnew => exact absurd (hnew.2.2.1.symm.trans hempty) hnew.2.2.2
  · rename_i hvalue
    have hvalue : index.normalize.apply index.lower value ≠ "" := by
      intro heq
      exact hvalue (String.isEmpty_iff.mpr heq)
    unfold holders
    simp only [List.getElem?_modify, Option.map_eq_map]
    by_cases hi : target = i
    · subst hi
      rw [List.getElem?_eq_getElem htarget]
      simp only [Option.map_some, if_true, Option.bind_some]
      by_cases hv : v = index.normalize.apply index.lower value
      · subst hv
        rw [AList.lookup_insert]
        show h ∈ insertHost host _ <-> _
        rw [mem_insertHost]
        constructor
        · intro hmem
          cases hmem with
          | inl heq => exact Or.inr ⟨heq, trivial, rfl, hvalue⟩
          | inr hold => exact Or.inl hold
        · intro hmem
          cases hmem with
          | inl hold => exact Or.inr hold
          | inr hnew => exact Or.inl hnew.1
      · rw [AList.lookup_insert_ne hv]
        constructor
        · intro hmem
          exact Or.inl hmem
        · intro hmem
          cases hmem with
          | inl hold => exact hold
          | inr hnew => exact absurd hnew.2.2.1.symm hv
    · simp only [if_neg hi, Option.map_id']
      constructor
      · intro hmem
        apply Or.inl
        exact hmem
      · intro hmem
        cases hmem with
        | inl hold => exact hold
        | inr hnew => exact absurd hnew.2.1.symm hi

structure Records {n : Nat} (normalize : Normalize) (lower : String -> String)
    (adds : List (Added n)) (index : KeyIndex) : Prop where
  normalize : index.normalize = normalize
  lower : index.lower = lower
  length : index.targets.length = n
  ascending : forall i v, (holders index i v).Pairwise (· < ·)
  mem : forall h i v, h ∈ holders index i v <->
    exists a, a ∈ adds ∧ a.target.val = i ∧ a.host = h ∧
      index.normalize.apply index.lower a.value = v ∧ v ≠ ""

theorem ascending_add {target : Nat}
    (hasc : forall i v, (holders index i v).Pairwise (· < ·)) (i : Nat) (v : String) :
    (holders (index.add target host value) i v).Pairwise (· < ·) := by
  have hi := hasc i v
  unfold add
  simp only
  split
  · exact hi
  · unfold holders at hi ⊢
    simp only [List.getElem?_modify, Option.map_eq_map]
    cases hget : index.targets[i]? with
    | none => exact List.Pairwise.nil
    | some m =>
        rw [hget] at hi
        simp only [Option.map_some, Option.bind_some] at hi ⊢
        split
        · by_cases hv : v = index.normalize.apply index.lower value
          · subst hv
            rw [AList.lookup_insert]
            exact pairwise_insertHost hi
          · rw [AList.lookup_insert_ne hv]
            exact hi
        · exact hi

theorem records_new (n : Nat) (normalize : Normalize) (lower : String -> String) :
    Records normalize lower ([] : List (Added n)) (new n normalize lower) := by
  have hnone : forall i v, holders (new n normalize lower) i v = [] := by
    intro i v
    unfold holders new
    simp only [List.getElem?_replicate]
    split
    · rfl
    · rfl
  constructor
  · rfl
  · rfl
  · exact List.length_replicate
  · intro i v
    rw [hnone]
    exact List.Pairwise.nil
  · intro h i v
    rw [hnone]
    constructor
    · intro hmem
      cases hmem
    · intro hadded
      rcases hadded with ⟨a, ha, _⟩
      cases ha

theorem records_add {adds : List (Added n)} (hrecords : Records normalize lower adds index)
    (a : Added n) :
    Records normalize lower (adds ++ [a]) (index.add a.target a.host a.value) := by
  have hsettings := settings_add index a.target a.host a.value
  have htarget : a.target.val < index.targets.length := by
    rw [hrecords.length]
    exact a.target.isLt
  constructor
  · rw [hsettings.1, hrecords.normalize]
  · rw [hsettings.2, hrecords.lower]
  · rw [length_add, hrecords.length]
  · exact ascending_add hrecords.ascending
  · intro h i v
    rw [mem_holders_add htarget, hrecords.mem, hsettings.1, hsettings.2]
    constructor
    · intro hmem
      rcases hmem with ⟨b, hb, hparts⟩ | ⟨hhost, hi, hvalue⟩
      · exact ⟨b, List.mem_append_left _ hb, hparts⟩
      · exact ⟨a, List.mem_append_right _ List.mem_cons_self, hi.symm, hhost.symm, hvalue⟩
    · intro hmem
      rcases hmem with ⟨b, hb, hi, hhost, hvalue⟩
      cases List.mem_append.mp hb with
      | inl hold => exact Or.inl ⟨b, hold, hi, hhost, hvalue⟩
      | inr hnew =>
          rw [List.mem_singleton.mp hnew] at hi hhost hvalue
          exact Or.inr ⟨hhost.symm, hi.symm, hvalue⟩

theorem records_foldl :
    forall {later adds : List (Added n)} {index : KeyIndex},
      Records normalize lower adds index ->
        Records normalize lower (adds ++ later)
          (later.foldl (fun index a => index.add a.target a.host a.value) index) := by
  intro later
  induction later with
  | nil =>
      intro adds index hrecords
      rw [List.append_nil]
      exact hrecords
  | cons a later ih =>
      intro adds index hrecords
      rw [List.append_cons]
      exact ih (records_add hrecords a)

theorem records_build (n : Nat) (normalize : Normalize) (lower : String -> String)
    (adds : List (Added n)) : Records normalize lower adds (build n normalize lower adds) :=
  records_foldl (records_new n normalize lower)

/-!
# What a lookup finds
-/

theorem mem_foldl_filter {first : List Nat} {rest : List (List Nat)} :
    h ∈ rest.foldl (fun hosts other => hosts.filter other.contains) first <->
      h ∈ first ∧ forall other, other ∈ rest -> h ∈ other := by
  induction rest generalizing first with
  | nil =>
      constructor
      · intro hmem
        constructor
        · exact hmem
        · intro other hother
          cases hother
      · intro hmem
        exact hmem.1
  | cons next rest ih =>
      rw [List.foldl_cons, ih, List.mem_filter, List.contains_iff_mem, List.forall_mem_cons,
        and_assoc]

theorem sublist_foldl_filter (first : List Nat) (rest : List (List Nat)) :
    (rest.foldl (fun hosts other => hosts.filter other.contains) first).Sublist first := by
  induction rest generalizing first with
  | nil => exact List.Sublist.refl _
  | cons next rest ih =>
      rw [List.foldl_cons]
      exact (ih (first.filter next.contains)).trans List.filter_sublist

theorem hostsFor_eq (i : Nat) (hi : i < index.targets.length) (key : String) :
    index.hostsFor index.targets[i] key =
      if (index.normalize.apply index.lower key).isEmpty then []
      else holders index i (index.normalize.apply index.lower key) := by
  unfold hostsFor holders
  simp only
  rw [List.getElem?_eq_getElem hi]
  rfl

theorem ascending_hostsFor {adds : List (Added n)} (hrecords : Records normalize lower adds index)
    (i : Nat) (hi : i < index.targets.length) (key : String) :
    (index.hostsFor index.targets[i] key).Pairwise (· < ·) := by
  rw [hostsFor_eq i hi]
  split
  · exact List.Pairwise.nil
  · exact hrecords.ascending _ _

theorem mem_hostsFor {adds : List (Added n)} (hrecords : Records normalize lower adds index)
    (i : Nat) (hi : i < index.targets.length) (key : String) :
    h ∈ index.hostsFor index.targets[i] key <->
      exists a, a ∈ adds ∧ a.target.val = i ∧ a.host = h ∧
        normalize.apply lower a.value = normalize.apply lower key ∧
        normalize.apply lower key ≠ "" := by
  rw [hostsFor_eq i hi, hrecords.normalize, hrecords.lower]
  split
  · rename_i hempty
    have hempty := String.isEmpty_iff.mp hempty
    constructor
    · intro hmem
      cases hmem
    · intro hadded
      rcases hadded with ⟨a, _, _, _, _, hkey⟩
      exact absurd hempty hkey
  · rw [hrecords.mem, hrecords.normalize, hrecords.lower]

def keyHosts (index : KeyIndex) (keys : List String) : List (List Nat) :=
  (index.targets.zip keys).map fun t => index.hostsFor t.1 t.2

theorem lookup_eq (keys : List String) (hlength : keys.length = index.targets.length)
    {first : List Nat} {rest : List (List Nat)} (hlists : keyHosts index keys = first :: rest) :
    index.lookup keys = rest.foldl (fun hosts other => hosts.filter other.contains) first := by
  have hlists : (index.targets.zip keys).map (fun t => index.hostsFor t.1 t.2) = first :: rest :=
    hlists
  unfold lookup
  rw [if_neg (not_not_intro hlength), hlists]

theorem lookup_none (keys : List String)
    (h : keys.length ≠ index.targets.length ∨ keyHosts index keys = []) :
    index.lookup keys = [] := by
  unfold lookup
  cases h with
  | inl hlength => rw [if_pos hlength]
  | inr hlists =>
      have hlists : (index.targets.zip keys).map (fun t => index.hostsFor t.1 t.2) = [] := hlists
      rw [hlists]
      split
      · rfl
      · rfl

theorem mem_keyHosts {keys : List String} (hlength : keys.length = index.targets.length)
    {hosts : List Nat} :
    hosts ∈ keyHosts index keys <->
      exists i, exists hi : i < index.targets.length, exists key, keys[i]? = some key ∧
        hosts = index.hostsFor index.targets[i] key := by
  unfold keyHosts
  rw [List.mem_map]
  constructor
  · intro hmem
    rcases hmem with ⟨t, ht, heq⟩
    rcases List.mem_iff_getElem.mp ht with ⟨i, hi, hget⟩
    have hzip : i < index.targets.length ∧ i < keys.length := by
      rw [List.length_zip] at hi
      omega
    rw [List.getElem_zip] at hget
    exists i, hzip.1, keys[i]
    constructor
    · exact List.getElem?_eq_getElem hzip.2
    · rw [← heq, ← hget]
  · intro hmem
    rcases hmem with ⟨i, hi, key, hkey, heq⟩
    have hkeys : i < keys.length := by omega
    have hzip : i < (index.targets.zip keys).length := by
      rw [List.length_zip]
      omega
    exists (index.targets.zip keys)[i]
    constructor
    · exact List.getElem_mem hzip
    · rw [List.getElem?_eq_getElem hkeys] at hkey
      rw [heq, List.getElem_zip, Option.some.inj hkey]

/-- The index finds the hosts of the plain search, each once and in ascending order,
whatever was added and in whatever order. -/
theorem lookup_agrees (n : Nat) (normalize : Normalize) (lower : String -> String)
    (adds : List (Added n)) (keys : List String) :
    ((build n normalize lower adds).lookup keys).Pairwise (· < ·) ∧
      forall host, host ∈ (build n normalize lower adds).lookup keys <->
        Matches normalize lower adds keys host := by
  have hrecords := records_build n normalize lower adds
  generalize build n normalize lower adds = index at hrecords
  have hn := hrecords.length
  by_cases hlength : keys.length = index.targets.length
  · cases hlists : keyHosts index keys with
    | nil =>
        rw [lookup_none keys (Or.inr hlists)]
        constructor
        · exact List.Pairwise.nil
        · intro host
          constructor
          · intro hmem
            cases hmem
          · intro hmatches
            -- Without a target nothing can have been added.
            rcases hmatches.1 with ⟨a, _, _⟩
            have ha : a.target.val < index.targets.length := by
              rw [hn]
              exact a.target.isLt
            have hkey : a.target.val < keys.length := by omega
            have hfound := (mem_keyHosts hlength).mpr
              ⟨a.target.val, ha, keys[a.target.val], List.getElem?_eq_getElem hkey, rfl⟩
            rw [hlists] at hfound
            cases hfound
    | cons first rest =>
        have hfirst : first ∈ keyHosts index keys := by
          rw [hlists]
          exact List.mem_cons_self
        have hall : forall host, host ∈ index.lookup keys <->
            forall hosts, hosts ∈ keyHosts index keys -> host ∈ hosts := by
          intro host
          rw [lookup_eq keys hlength hlists, mem_foldl_filter, hlists, List.forall_mem_cons]
        constructor
        · rw [lookup_eq keys hlength hlists]
          apply List.Pairwise.sublist (sublist_foldl_filter first rest)
          rcases (mem_keyHosts hlength).mp hfirst with ⟨i, hi, key, _, heq⟩
          rw [heq]
          exact ascending_hostsFor hrecords i hi key
        · intro host
          rw [hall host]
          constructor
          · intro hmem
            constructor
            · rcases (mem_keyHosts hlength).mp hfirst with ⟨i, hi, key, _, heq⟩
              have hhost := hmem first hfirst
              rw [heq, mem_hostsFor hrecords i hi key] at hhost
              rcases hhost with ⟨a, ha, _, hhost, _⟩
              exact ⟨a, ha, hhost⟩
            · intro i hi
              have hi : i < index.targets.length := by omega
              have hkeys : i < keys.length := by omega
              have hfound := hmem _ ((mem_keyHosts hlength).mpr
                ⟨i, hi, keys[i], List.getElem?_eq_getElem hkeys, rfl⟩)
              rw [mem_hostsFor hrecords i hi] at hfound
              rcases hfound with ⟨a, hparts⟩
              exact ⟨keys[i], a, List.getElem?_eq_getElem hkeys, hparts⟩
          · intro hmatches hosts hhosts
            rcases (mem_keyHosts hlength).mp hhosts with ⟨i, hi, key, hkey, heq⟩
            rw [heq, mem_hostsFor hrecords i hi key]
            have hin : i < n := by omega
            rcases hmatches.2 i (Or.inl hin) with ⟨other, a, hother, hparts⟩
            rw [hkey] at hother
            cases hother
            exact ⟨a, hparts⟩
  · rw [lookup_none keys (Or.inl hlength)]
    constructor
    · exact List.Pairwise.nil
    · intro host
      constructor
      · intro hmem
        cases hmem
      · intro hmatches
        -- A missing key matches nothing, and nothing was added under a target too many.
        by_cases hless : keys.length < n
        · rcases hmatches.2 keys.length (Or.inl hless) with ⟨key, a, hkey, _⟩
          rw [List.getElem?_eq_none (Nat.le_refl _)] at hkey
          cases hkey
        · have hmore : n < keys.length := by omega
          rcases hmatches.2 n (Or.inr hmore) with ⟨key, a, _, _, htarget, _⟩
          have hbound := a.target.isLt
          omega

end KeyIndex

end Core
end FleetServer
