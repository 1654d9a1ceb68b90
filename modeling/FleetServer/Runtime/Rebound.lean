import FleetServer.Runtime.Rebind
import FleetServer.Web.Sealing

/-!
# What the walk over old ciphertexts leaves

Secrets that can be read stay readable, now under their own purpose, and nothing
else changes.
-/

namespace FleetServer
namespace Runtime
namespace Rebind

open FleetServer.Core
open Storage
open Table
open Server
open Concurrency

variable {deps : Deps}

/-!
# An ideal cipher
-/

/-- A ciphertext opens only under the associated data it was sealed with. -/
structure IdealAead (deps : Deps) : Prop where
  opens : forall nonce aad text,
    deps.aeadOpen nonce aad (deps.aeadSeal nonce aad text) = some text
  only : forall nonce aad aad' text text',
    deps.aeadOpen nonce aad' (deps.aeadSeal nonce aad text) = some text' -> aad' = aad
  tag : forall nonce aad text, text.length + 16 ≤ (deps.aeadSeal nonce aad text).length
  nonce : forall n k, (deps.aeadNonce n k).length = 12

inductive Readable (deps : Deps) (purpose : Purpose) (plain : Bytes) : Bytes -> Prop where
  | bound {nonce : Bytes} (hnonce : nonce.length = 12) :
      Readable deps purpose plain (nonce ++ deps.aeadSeal nonce purpose.aad plain)
  | legacy {nonce : Bytes} (hnonce : nonce.length = 12) :
      Readable deps purpose plain (nonce ++ deps.aeadSeal nonce [] plain)

/-- Opens under neither binding. -/
def Unreadable (deps : Deps) (purpose : Purpose) (blob : Bytes) : Prop :=
  (forall plain, deps.decrypt purpose blob ≠ Except.ok plain) ∧
    forall plain, decryptUnbound deps blob ≠ Except.ok plain

section Cipher

variable {purpose : Purpose} {nonce plain blob : Bytes}

theorem aad_ne_nil (purpose : Purpose) : purpose.aad ≠ [] := by
  cases purpose with
  | tenantCaKey tenantId => exact List.append_ne_nil_of_right_ne_nil _ (List.cons_ne_nil _ _)
  | tenantBundleSigningKey tenantId =>
      exact List.append_ne_nil_of_right_ne_nil _ (List.cons_ne_nil _ _)
  | hostOverride tenantId hostId =>
      exact List.append_ne_nil_of_right_ne_nil _ (List.cons_ne_nil _ _)

theorem opened_sealed (hideal : IdealAead deps) (hnonce : nonce.length = 12)
    (aad aad' plain : Bytes) :
    Not ((nonce ++ deps.aeadSeal nonce aad plain).length < 12 + 16) ∧
      deps.aeadOpen ((nonce ++ deps.aeadSeal nonce aad plain).take 12) aad'
          ((nonce ++ deps.aeadSeal nonce aad plain).drop 12) =
        deps.aeadOpen nonce aad' (deps.aeadSeal nonce aad plain) := by
  constructor
  · have htag := hideal.tag nonce aad plain
    rw [List.length_append]
    omega
  · rw [← hnonce, List.take_left, List.drop_left]

theorem decrypt_bound (hideal : IdealAead deps) (hnonce : nonce.length = 12) :
    deps.decrypt purpose (nonce ++ deps.aeadSeal nonce purpose.aad plain) =
      Except.ok plain := by
  rcases opened_sealed hideal hnonce purpose.aad purpose.aad plain with
    ⟨hlength, hopened⟩
  unfold Deps.decrypt
  rw [if_neg hlength, hopened, hideal.opens]

theorem decryptUnbound_legacy (hideal : IdealAead deps) (hnonce : nonce.length = 12) :
    decryptUnbound deps (nonce ++ deps.aeadSeal nonce [] plain) = Except.ok plain := by
  rcases opened_sealed hideal hnonce [] [] plain with ⟨hlength, hopened⟩
  unfold decryptUnbound
  rw [if_neg hlength, hopened, hideal.opens]

theorem isBound_bound (hideal : IdealAead deps) (hnonce : nonce.length = 12) :
    isBound deps purpose (nonce ++ deps.aeadSeal nonce purpose.aad plain) = true := by
  unfold isBound
  rw [decrypt_bound hideal hnonce]
  rfl

theorem isBound_legacy (hideal : IdealAead deps) (hnonce : nonce.length = 12) :
    isBound deps purpose (nonce ++ deps.aeadSeal nonce [] plain) = false := by
  rcases opened_sealed hideal hnonce [] purpose.aad plain with ⟨hlength, hopened⟩
  unfold isBound Deps.decrypt
  rw [if_neg hlength, hopened]
  cases hother : deps.aeadOpen nonce purpose.aad (deps.aeadSeal nonce [] plain) with
  | none => rfl
  | some text => exact absurd (hideal.only nonce [] purpose.aad plain text hother) (aad_ne_nil _)

theorem decrypt_of_isBound (h : isBound deps purpose blob = true) :
    exists plain, deps.decrypt purpose blob = Except.ok plain := by
  unfold isBound at h
  cases hdecrypt : deps.decrypt purpose blob with
  | error e =>
      rw [hdecrypt] at h
      cases h
  | ok plain => exact ⟨plain, rfl⟩

theorem openEither_of_readable (hideal : IdealAead deps) (h : Readable deps purpose plain blob) :
    openEither deps purpose blob = Except.ok plain := by
  unfold openEither
  cases h with
  | bound hnonce =>
      rw [if_pos (isBound_bound hideal hnonce)]
      exact decrypt_bound hideal hnonce
  | legacy hnonce =>
      rw [isBound_legacy hideal hnonce]
      exact decryptUnbound_legacy hideal hnonce

theorem openEither_of_unreadable (h : Unreadable deps purpose blob) :
    isBound deps purpose blob = false ∧
      exists e, openEither deps purpose blob = Except.error e := by
  have hbound : isBound deps purpose blob = false := by
    rw [Bool.eq_false_iff]
    intro hbound
    rcases decrypt_of_isBound hbound with ⟨plain, hplain⟩
    exact h.1 plain hplain
  constructor
  · exact hbound
  · unfold openEither
    rw [hbound]
    cases hunbound : decryptUnbound deps blob with
    | error e => exact ⟨e, rfl⟩
    | ok plain => exact absurd hunbound (h.2 plain)

theorem decrypt_of_readable (hideal : IdealAead deps) (h : Readable deps purpose plain blob)
    (hbound : isBound deps purpose blob = true) :
    deps.decrypt purpose blob = Except.ok plain := by
  have hopened := openEither_of_readable hideal h
  unfold openEither at hopened
  rw [if_pos hbound] at hopened
  exact hopened

end Cipher

/-!
# Rows before and after
-/

/-- A tenant's two keys after the walk: both are bound if both can be read, and
otherwise the row is as it was. -/
structure ReboundKeys (deps : Deps) (r r' : TenantSecretsRow) : Prop where
  frame : r' = { r with
    caKeyEncrypted := r'.caKeyEncrypted
    bundleSigningKeyEncrypted := r'.bundleSigningKeyEncrypted }
  readable : forall caPlain signPlain,
    Readable deps (Purpose.tenantCaKey r.tenantId) caPlain r.caKeyEncrypted ->
    Readable deps (Purpose.tenantBundleSigningKey r.tenantId) signPlain
      r.bundleSigningKeyEncrypted ->
      deps.decrypt (Purpose.tenantCaKey r.tenantId) r'.caKeyEncrypted = Except.ok caPlain ∧
        deps.decrypt (Purpose.tenantBundleSigningKey r.tenantId)
          r'.bundleSigningKeyEncrypted = Except.ok signPlain
  unreadable :
    Unreadable deps (Purpose.tenantCaKey r.tenantId) r.caKeyEncrypted ∨
      Unreadable deps (Purpose.tenantBundleSigningKey r.tenantId)
        r.bundleSigningKeyEncrypted ->
      r' = r

structure ReboundPatch (deps : Deps) (r r' : HostOverrideRow) : Prop where
  frame : r' = { r with patchEncrypted := r'.patchEncrypted }
  readable : forall plain,
    Readable deps (Purpose.hostOverride r.tenantId r.hostId) plain r.patchEncrypted ->
      deps.decrypt (Purpose.hostOverride r.tenantId r.hostId) r'.patchEncrypted =
        Except.ok plain
  unreadable : Unreadable deps (Purpose.hostOverride r.tenantId r.hostId) r.patchEncrypted ->
    r' = r

structure Rebound (deps : Deps) (u v : Db) : Prop where
  keys : List.Forall₂ (ReboundKeys deps) u.tenantSecrets v.tenantSecrets
  patches : List.Forall₂ (ReboundPatch deps) u.hostOverrides v.hostOverrides
  others : v = { u with tenantSecrets := v.tenantSecrets, hostOverrides := v.hostOverrides }

inductive AfterKeys (deps : Deps) (r : TenantSecretsRow) : TenantSecretsRow -> Prop where
  | left (h : keysToBind deps r.tenantId r = none) : AfterKeys deps r r
  | bound {caPlain signPlain nonce nonce' : Bytes}
      (h : keysToBind deps r.tenantId r = some (caPlain, signPlain))
      (hnonce : nonce.length = 12) (hnonce' : nonce'.length = 12) :
      AfterKeys deps r { r with
        caKeyEncrypted := encryptWith deps nonce (Purpose.tenantCaKey r.tenantId) caPlain
        bundleSigningKeyEncrypted :=
          encryptWith deps nonce' (Purpose.tenantBundleSigningKey r.tenantId) signPlain }

inductive AfterPatch (deps : Deps) (r : HostOverrideRow) : HostOverrideRow -> Prop where
  | left (h : patchToBind deps (Purpose.hostOverride r.tenantId r.hostId) r.patchEncrypted =
      none) : AfterPatch deps r r
  | bound {plain nonce : Bytes}
      (h : patchToBind deps (Purpose.hostOverride r.tenantId r.hostId) r.patchEncrypted =
        some plain)
      (hnonce : nonce.length = 12) :
      AfterPatch deps r { r with
        patchEncrypted :=
          encryptWith deps nonce (Purpose.hostOverride r.tenantId r.hostId) plain }

theorem AfterKeys.tenantId {r r' : TenantSecretsRow} (h : AfterKeys deps r r') :
    r'.tenantId = r.tenantId := by
  cases h with
  | left h => rfl
  | bound h hnonce hnonce' => rfl

theorem AfterPatch.ids {r r' : HostOverrideRow} (h : AfterPatch deps r r') :
    r'.tenantId = r.tenantId ∧ r'.hostId = r.hostId := by
  cases h with
  | left h => exact ⟨rfl, rfl⟩
  | bound h hnonce => exact ⟨rfl, rfl⟩

/-!
## What is to be written back
-/

section Decision

variable {tenantId : Int} {r : TenantSecretsRow} {caPlain signPlain : Bytes}

theorem keysToBind_of_bound
    (hca : isBound deps (Purpose.tenantCaKey tenantId) r.caKeyEncrypted = true)
    (hsign : isBound deps (Purpose.tenantBundleSigningKey tenantId)
      r.bundleSigningKeyEncrypted = true) : keysToBind deps tenantId r = none := by
  unfold keysToBind
  rw [hca, hsign]
  rfl

theorem keysToBind_of_unreadable
    (h : Unreadable deps (Purpose.tenantCaKey tenantId) r.caKeyEncrypted ∨
      Unreadable deps (Purpose.tenantBundleSigningKey tenantId) r.bundleSigningKeyEncrypted) :
    keysToBind deps tenantId r = none := by
  unfold keysToBind
  cases h with
  | inl hca =>
      rcases openEither_of_unreadable hca with ⟨hbound, e, herror⟩
      rw [hbound, herror]
      rfl
  | inr hsign =>
      rcases openEither_of_unreadable hsign with ⟨hbound, e, herror⟩
      rw [hbound, Bool.and_false, herror]
      cases openEither deps (Purpose.tenantCaKey tenantId) r.caKeyEncrypted with
      | error e => rfl
      | ok caPlain => rfl

theorem keysToBind_of_readable (hideal : IdealAead deps)
    (hca : Readable deps (Purpose.tenantCaKey tenantId) caPlain r.caKeyEncrypted)
    (hsign : Readable deps (Purpose.tenantBundleSigningKey tenantId) signPlain
      r.bundleSigningKeyEncrypted) :
    (keysToBind deps tenantId r = none ∧
      isBound deps (Purpose.tenantCaKey tenantId) r.caKeyEncrypted = true ∧
      isBound deps (Purpose.tenantBundleSigningKey tenantId) r.bundleSigningKeyEncrypted = true) ∨
      keysToBind deps tenantId r = some (caPlain, signPlain) := by
  unfold keysToBind
  split
  · rename_i hbound
    rw [Bool.and_eq_true] at hbound
    exact Or.inl ⟨rfl, hbound⟩
  · rw [openEither_of_readable hideal hca, openEither_of_readable hideal hsign]
    exact Or.inr rfl

variable {purpose : Purpose} {blob plain : Bytes}

theorem patchToBind_of_bound (h : isBound deps purpose blob = true) :
    patchToBind deps purpose blob = none := by
  unfold patchToBind
  rw [h]
  rfl

theorem patchToBind_of_unreadable (h : Unreadable deps purpose blob) :
    patchToBind deps purpose blob = none := by
  unfold patchToBind
  rw [(openEither_of_unreadable h).1]
  cases hunbound : decryptUnbound deps blob with
  | error e => rfl
  | ok plain => exact absurd hunbound (h.2 plain)

theorem patchToBind_of_readable (hideal : IdealAead deps)
    (h : Readable deps purpose plain blob) :
    (patchToBind deps purpose blob = none ∧ isBound deps purpose blob = true) ∨
      patchToBind deps purpose blob = some plain := by
  cases h with
  | bound hnonce =>
      exact Or.inl ⟨patchToBind_of_bound (isBound_bound hideal hnonce),
        isBound_bound hideal hnonce⟩
  | legacy hnonce =>
      unfold patchToBind
      rw [isBound_legacy hideal hnonce, decryptUnbound_legacy hideal hnonce]
      exact Or.inr rfl

end Decision

theorem reboundKeys_of_after (hideal : IdealAead deps) {r r' : TenantSecretsRow}
    (h : AfterKeys deps r r') : ReboundKeys deps r r' := by
  cases h with
  | left h =>
      constructor
      · rfl
      · intro caPlain signPlain hca hsign
        cases keysToBind_of_readable hideal hca hsign with
        | inl hleft =>
            exact ⟨decrypt_of_readable hideal hca hleft.2.1,
              decrypt_of_readable hideal hsign hleft.2.2⟩
        | inr hbind =>
            rw [h] at hbind
            cases hbind
      · intro _
        rfl
  | bound h hnonce hnonce' =>
      constructor
      · rfl
      · intro caPlain signPlain hca hsign
        cases keysToBind_of_readable hideal hca hsign with
        | inl hleft =>
            rw [h] at hleft
            cases hleft.1
        | inr hbind =>
            rw [h] at hbind
            cases hbind
            exact ⟨decrypt_bound hideal hnonce, decrypt_bound hideal hnonce'⟩
      · intro hunreadable
        rw [keysToBind_of_unreadable hunreadable] at h
        cases h

theorem reboundPatch_of_after (hideal : IdealAead deps) {r r' : HostOverrideRow}
    (h : AfterPatch deps r r') : ReboundPatch deps r r' := by
  cases h with
  | left h =>
      constructor
      · rfl
      · intro plain hreadable
        cases patchToBind_of_readable hideal hreadable with
        | inl hleft => exact decrypt_of_readable hideal hreadable hleft.2
        | inr hbind =>
            rw [h] at hbind
            cases hbind
      · intro _
        rfl
  | bound h hnonce =>
      constructor
      · rfl
      · intro plain hreadable
        cases patchToBind_of_readable hideal hreadable with
        | inl hleft =>
            rw [h] at hleft
            cases hleft.1
        | inr hbind =>
            rw [h] at hbind
            cases hbind
            exact decrypt_bound hideal hnonce
      · intro hunreadable
        rw [patchToBind_of_unreadable hunreadable] at h
        cases h

/-- There is nothing to write back once the walk has passed. -/
theorem keysToBind_after (hideal : IdealAead deps) {r r' : TenantSecretsRow}
    (h : AfterKeys deps r r') : keysToBind deps r'.tenantId r' = none := by
  cases h with
  | left h => exact h
  | bound h hnonce hnonce' =>
      exact keysToBind_of_bound (isBound_bound hideal hnonce) (isBound_bound hideal hnonce')

theorem patchToBind_after (hideal : IdealAead deps) {r r' : HostOverrideRow}
    (h : AfterPatch deps r r') :
    patchToBind deps (Purpose.hostOverride r'.tenantId r'.hostId) r'.patchEncrypted = none := by
  cases h with
  | left h => exact h
  | bound h hnonce => exact patchToBind_of_bound (isBound_bound hideal hnonce)

/-!
# The walk over the keys
-/

section Keys

variable {u v w : Db} {waiting : List Int} {tenantId : Int} {n k : Nat}

/-- The walk has still to come to `waiting`, and has changed only rows of keys. -/
structure KeysWalk (deps : Deps) (u v : Db) (waiting : List Int) : Prop where
  rows : List.Forall₂ (Visited (AfterKeys deps) TenantSecretsRow.tenantId waiting)
    u.tenantSecrets v.tenantSecrets
  others : v = { u with tenantSecrets := v.tenantSecrets }

theorem matched_keys (tenantId : Int) (r r' : TenantSecretsRow)
    (h : r' = r ∨ AfterKeys deps r r') :
    (r'.tenantId == tenantId) = true <-> r.tenantId = tenantId := by
  have hsame : r'.tenantId = r.tenantId := by
    cases h with
    | inl heq => rw [heq]
    | inr hafter => exact hafter.tenantId
  rw [hsame, beq_iff_eq]

theorem getByTenant_of_mem (hkeys : SecretKeys u) {r : TenantSecretsRow}
    (hr : r ∈ u.tenantSecrets) : TenantSecretsRepo.getByTenant r.tenantId u = some r := by
  apply find?_eq_of_mem (q := fun s => s.tenantId == r.tenantId) hkeys.secretIds _ hr
    (beq_self_eq_true _)
  intro r s hr hs
  rw [eq_of_beq hr, eq_of_beq hs]

theorem getByTenant_id {r : TenantSecretsRow}
    (h : TenantSecretsRepo.getByTenant tenantId u = some r) : r.tenantId = tenantId := by
  have htest := List.find?_some h
  exact eq_of_beq htest

theorem keysWalk_found (h : KeysWalk deps u v (tenantId :: waiting)) :
    TenantSecretsRepo.getByTenant tenantId v = TenantSecretsRepo.getByTenant tenantId u :=
  find?_visited h.rows fun r r' _ => matched_keys tenantId r r'

theorem keysWalk_leave (hkeys : SecretKeys u) (h : KeysWalk deps u v (tenantId :: waiting))
    (hleft : forall r, TenantSecretsRepo.getByTenant tenantId u = some r ->
      keysToBind deps tenantId r = none) : KeysWalk deps u v waiting := by
  constructor
  · apply visited_leave h.rows
    intro r hr hid
    subst hid
    exact AfterKeys.left (hleft r (getByTenant_of_mem hkeys hr))
  · exact h.others

theorem keysWalk_bind (hideal : IdealAead deps) (hkeys : SecretKeys u)
    (h : KeysWalk deps u v (tenantId :: waiting)) (hnext : tenantId ∉ waiting)
    {stored : TenantSecretsRow} {caPlain signPlain : Bytes}
    (hfound : TenantSecretsRepo.getByTenant tenantId u = some stored)
    (hbind : keysToBind deps tenantId stored = some (caPlain, signPlain)) :
    KeysWalk deps u
      (exec (Op.replaceEncryptedKeys tenantId
        (encryptWith deps (deps.aeadNonce n k) (Purpose.tenantCaKey tenantId) caPlain)
        (encryptWith deps (deps.aeadNonce n (k + 1))
          (Purpose.tenantBundleSigningKey tenantId) signPlain)) v).2 waiting := by
  constructor
  · apply visited_update h.rows hnext
    · intro r r' _ hrelated
      exact matched_keys tenantId r r' hrelated
    · intro r hr hid
      subst hid
      have hsame : r = stored := by
        have hagain := getByTenant_of_mem hkeys hr
        rw [hfound] at hagain
        exact (Option.some.inj hagain).symm
      subst hsame
      exact AfterKeys.bound hbind (hideal.nonce n k) (hideal.nonce n (k + 1))
  · have hothers := h.others
    show { v with tenantSecrets := _ } = _
    rw [hothers]
    rfl

theorem alone_rebindCas (hideal : IdealAead deps) (hkeys : SecretKeys u)
    {cas : List (TenantSecretsRow × Tenant)} {events : List (Event machine)}
    {answer : Except DbError Nat} (hnodup : (cas.map fun ca => ca.1.tenantId).Nodup)
    (h : KeysWalk deps u v (cas.map fun ca => ca.1.tenantId))
    (hrun : Alone machine (rebindCas deps n cas k) v events answer w) :
    exists waiting, KeysWalk deps u w waiting ∧
      forall k', answer = Except.ok k' -> waiting = [] := by
  induction cas generalizing v events k with
  | nil =>
      rw [(alone_done hrun).2.2]
      exact ⟨[], h, fun _ _ => rfl⟩
  | cons ca cas ih =>
      rw [List.map_cons, List.nodup_cons] at hnodup
      cases alone_call hrun with
      | inr hfault =>
          rcases hfault with ⟨r, hr, hnext⟩
          cases hr
          rw [(alone_done hnext).2.1, (alone_done hnext).2.2]
          exact ⟨_, h, fun _ hok => by cases hok⟩
      | inl hexec =>
          rcases hexec with ⟨rest, _, hnext⟩
          have hread : machine.exec (Op.getByTenant ca.1.tenantId) v =
              (Except.ok (TenantSecretsRepo.getByTenant ca.1.tenantId u), v) := by
            rw [← keysWalk_found h]
            rfl
          rw [hread] at hnext
          cases hfound : TenantSecretsRepo.getByTenant ca.1.tenantId u with
          | none =>
              simp only [hfound, Program.bind] at hnext
              apply ih hnodup.2 _ hnext
              apply keysWalk_leave hkeys h
              intro r hr
              rw [hfound] at hr
              cases hr
          | some stored =>
              cases hbind : keysToBind deps ca.1.tenantId stored with
              | none =>
                  simp only [hfound, Program.bind, hbind] at hnext
                  apply ih hnodup.2 _ hnext
                  apply keysWalk_leave hkeys h
                  intro r hr
                  rw [hfound] at hr
                  cases hr
                  exact hbind
              | some plains =>
                  simp only [hfound, Program.bind, hbind] at hnext
                  cases alone_call hnext with
                  | inl hwritten =>
                      rcases hwritten with ⟨rest', _, hlater⟩
                      exact ih hnodup.2 (keysWalk_bind hideal hkeys h hnodup.1 hfound hbind)
                        hlater
                  | inr hfault =>
                      rcases hfault with ⟨r, hr, hlater⟩
                      cases hr
                      rw [(alone_done hlater).2.1, (alone_done hlater).2.2]
                      exact ⟨_, h, fun _ hok => by cases hok⟩

end Keys

/-!
# The walk over the overrides
-/

section Patches

variable {u v w : Db} {waiting : List String} {tenantId : Int} {hostId : String}
  {blob plain : Bytes} {n k : Nat}

structure PatchWalk (deps : Deps) (u v : Db) (waiting : List String) : Prop where
  rows : List.Forall₂ (Visited (AfterPatch deps) HostOverrideRow.hostId waiting)
    u.hostOverrides v.hostOverrides
  others : v = { u with hostOverrides := v.hostOverrides }

theorem row_of_listed (hids : (u.hostOverrides.map HostOverrideRow.hostId).Nodup)
    (hlisted : (tenantId, hostId, blob) ∈ HostOverridesRepo.listAll u) {r : HostOverrideRow}
    (hr : r ∈ u.hostOverrides) (hid : r.hostId = hostId) :
    r.tenantId = tenantId ∧ r.patchEncrypted = blob := by
  rcases List.mem_map.mp hlisted with ⟨s, hs, hrow⟩
  cases hrow
  have hsame : r = s := eq_of_key_eq hids hr hs hid
  rw [hsame]
  exact ⟨rfl, rfl⟩

theorem matched_patch (hids : (u.hostOverrides.map HostOverrideRow.hostId).Nodup)
    (hlisted : (tenantId, hostId, blob) ∈ HostOverridesRepo.listAll u) (r r' : HostOverrideRow)
    (hr : r ∈ u.hostOverrides) (h : r' = r ∨ AfterPatch deps r r') :
    ofHost tenantId hostId r'.tenantId r'.hostId = true <-> r.hostId = hostId := by
  have hsame : r'.tenantId = r.tenantId ∧ r'.hostId = r.hostId := by
    cases h with
    | inl heq =>
        rw [heq]
        exact ⟨rfl, rfl⟩
    | inr hafter => exact hafter.ids
  rw [hsame.1, hsame.2]
  unfold ofHost
  rw [Bool.and_eq_true, beq_iff_eq, beq_iff_eq]
  constructor
  · intro hboth
    exact hboth.2
  · intro hid
    exact ⟨(row_of_listed hids hlisted hr hid).1, hid⟩

theorem patchWalk_leave (hids : (u.hostOverrides.map HostOverrideRow.hostId).Nodup)
    (hlisted : (tenantId, hostId, blob) ∈ HostOverridesRepo.listAll u)
    (h : PatchWalk deps u v (hostId :: waiting))
    (hleft : patchToBind deps (Purpose.hostOverride tenantId hostId) blob = none) :
    PatchWalk deps u v waiting := by
  constructor
  · apply visited_leave h.rows
    intro r hr hid
    apply AfterPatch.left
    rw [(row_of_listed hids hlisted hr hid).1, (row_of_listed hids hlisted hr hid).2, hid]
    exact hleft
  · exact h.others

theorem patchWalk_bind (hideal : IdealAead deps)
    (hids : (u.hostOverrides.map HostOverrideRow.hostId).Nodup)
    (hlisted : (tenantId, hostId, blob) ∈ HostOverridesRepo.listAll u)
    (h : PatchWalk deps u v (hostId :: waiting)) (hnext : hostId ∉ waiting)
    (hbind : patchToBind deps (Purpose.hostOverride tenantId hostId) blob = some plain) :
    PatchWalk deps u
      (exec (Op.replaceCiphertext tenantId hostId
        (encryptWith deps (deps.aeadNonce n k) (Purpose.hostOverride tenantId hostId) plain))
        v).2 waiting := by
  constructor
  · apply visited_update h.rows hnext
    · exact matched_patch hids hlisted
    · intro r hr hid
      rcases row_of_listed hids hlisted hr hid with ⟨htenant, hblob⟩
      subst htenant
      subst hblob
      subst hid
      exact AfterPatch.bound hbind (hideal.nonce n k)
  · have hothers := h.others
    show { v with hostOverrides := _ } = _
    rw [hothers]
    rfl

theorem alone_rebindOverrides (hideal : IdealAead deps)
    (hids : (u.hostOverrides.map HostOverrideRow.hostId).Nodup)
    {rows : List (Int × String × Bytes)} {events : List (Event machine)}
    {answer : Except DbError Unit}
    (hlisted : forall row, row ∈ rows -> row ∈ HostOverridesRepo.listAll u)
    (hnodup : (rows.map fun row => row.2.1).Nodup)
    (h : PatchWalk deps u v (rows.map fun row => row.2.1))
    (hrun : Alone machine (rebindOverrides deps n rows k) v events answer w) :
    exists waiting, PatchWalk deps u w waiting ∧
      (answer = Except.ok () -> waiting = []) := by
  induction rows generalizing v events k with
  | nil =>
      rw [(alone_done hrun).2.2]
      exact ⟨[], h, fun _ => rfl⟩
  | cons row rows ih =>
      rcases row with ⟨tenantId, hostId, blob⟩
      rw [List.map_cons, List.nodup_cons] at hnodup
      have hhere := hlisted _ List.mem_cons_self
      have hlater := fun row hrow => hlisted row (List.mem_cons_of_mem _ hrow)
      unfold rebindOverrides at hrun
      cases hbind : patchToBind deps (Purpose.hostOverride tenantId hostId) blob with
      | none =>
          rw [hbind] at hrun
          exact ih hlater hnodup.2 (patchWalk_leave hids hhere h hbind) hrun
      | some plain =>
          rw [hbind] at hrun
          cases alone_call hrun with
          | inl hwritten =>
              rcases hwritten with ⟨rest, _, hnext⟩
              exact ih hlater hnodup.2 (patchWalk_bind hideal hids hhere h hnodup.1 hbind) hnext
          | inr hfault =>
              rcases hfault with ⟨r, hr, hnext⟩
              cases hr
              rw [(alone_done hnext).2.1, (alone_done hnext).2.2]
              exact ⟨_, h, fun hok => by cases hok⟩

end Patches

/-!
# A whole run
-/

section Run

variable {u v w : Db} {n : Nat} {events : List (Event machine)}

/-- How far a run got: through the keys, and then through the overrides. -/
structure Walked (deps : Deps) (u v : Db) (keys : List Int) (patches : List String) : Prop where
  keys : List.Forall₂ (Visited (AfterKeys deps) TenantSecretsRow.tenantId keys)
    u.tenantSecrets v.tenantSecrets
  patches : List.Forall₂ (Visited (AfterPatch deps) HostOverrideRow.hostId patches)
    u.hostOverrides v.hostOverrides
  others : v = { u with tenantSecrets := v.tenantSecrets, hostOverrides := v.hostOverrides }

/-- Before the overrides, and after as much of them as the run came to. -/
theorem walked_of_walks {x : Db} {keys : List Int} {patches : List String}
    (hfirst : KeysWalk deps u x keys) (hthen : PatchWalk deps x v patches) :
    Walked deps u v keys patches := by
  have hx := hfirst.others
  have hv := hthen.others
  have hpatches : x.hostOverrides = u.hostOverrides := by rw [hx]
  have hkeys : v.tenantSecrets = x.tenantSecrets := by rw [hv]
  constructor
  · rw [hkeys]
    exact hfirst.rows
  · rw [← hpatches]
    exact hthen.rows
  · rw [hkeys, hv, hx]

theorem nodup_listAllCas (hkeys : SecretKeys u) :
    ((TenantSecretsRepo.listAllCas u).map fun ca => ca.1.tenantId).Nodup ∧
      forall r, r ∈ u.tenantSecrets ->
        r.tenantId ∈ (TenantSecretsRepo.listAllCas u).map fun ca => ca.1.tenantId := by
  have hids : ((TenantSecretsRepo.listAllCas u).map fun ca => ca.1.tenantId) =
      u.tenantSecrets.map TenantSecretsRow.tenantId := by
    rw [← map_listAllCas hkeys, List.map_map]
    rfl
  rw [hids]
  exact ⟨hkeys.secretIds, fun r hr => List.mem_map_of_mem hr⟩

theorem walked_of_run (hideal : IdealAead deps) (hkeys : SecretKeys u)
    {answer : Except DbError Unit}
    (hrun : Alone machine (rebindLegacyCiphertexts deps n) u events answer v) :
    exists keys patches, Walked deps u v keys patches ∧
      (answer = Except.ok () -> keys = [] ∧ patches = []) := by
  rcases nodup_listAllCas hkeys with ⟨hnodup, hall⟩
  have hkeysStart : KeysWalk deps u u
      ((TenantSecretsRepo.listAllCas u).map fun ca => ca.1.tenantId) :=
    ⟨visited_start hall, rfl⟩
  have hpatchStart : forall x : Db, PatchWalk deps x x
      ((HostOverridesRepo.listAll x).map fun row => row.2.1) := by
    intro x
    constructor
    · apply visited_start
      intro r hr
      exact List.mem_map_of_mem (List.mem_map_of_mem hr)
    · rfl
  cases alone_call hrun with
  | inr hfault =>
      rcases hfault with ⟨r, hr, hnext⟩
      cases hr
      rw [(alone_done hnext).2.1, (alone_done hnext).2.2]
      exact ⟨_, _, walked_of_walks hkeysStart (hpatchStart u), fun hok => by cases hok⟩
  | inl hexec =>
      rcases hexec with ⟨rest, _, hnext⟩
      change Alone machine (rebindCas deps n (TenantSecretsRepo.listAllCas u) 0 >>= _) u rest
        answer v at hnext
      rcases alone_bind hnext with ⟨first, second, result, x, _, hcas, hmore⟩
      rcases alone_rebindCas hideal hkeys hnodup hkeysStart hcas with ⟨keys, hwalk, hfinished⟩
      cases result with
      | error e =>
          rw [(alone_done hmore).2.1, (alone_done hmore).2.2]
          exact ⟨_, _, walked_of_walks hwalk (hpatchStart x), fun hok => by cases hok⟩
      | ok k =>
          cases alone_call hmore with
          | inr hfault =>
              rcases hfault with ⟨r, hr, hlast⟩
              cases hr
              rw [(alone_done hlast).2.1, (alone_done hlast).2.2]
              exact ⟨_, _, walked_of_walks hwalk (hpatchStart x), fun hok => by cases hok⟩
          | inl hlisted =>
              rcases hlisted with ⟨rest', _, hlast⟩
              have hids : (x.hostOverrides.map HostOverrideRow.hostId).Nodup := by
                rw [hwalk.others]
                exact hkeys.overrideIds
              have hlistIds : ((HostOverridesRepo.listAll x).map fun row => row.2.1).Nodup := by
                unfold HostOverridesRepo.listAll
                rw [List.map_map]
                exact hids
              rcases alone_rebindOverrides hideal hids (fun row hrow => hrow) hlistIds
                (hpatchStart x) hlast with ⟨patches, hpatches, hended⟩
              exact ⟨keys, patches, walked_of_walks hwalk hpatches,
                fun hok => ⟨hfinished k rfl, hended hok⟩⟩

/-!
# A run that finds nothing
-/

/-- No row is to be written back. -/
structure Settled (deps : Deps) (x : Db) : Prop where
  keys : forall r, r ∈ x.tenantSecrets -> keysToBind deps r.tenantId r = none
  patches : forall r, r ∈ x.hostOverrides ->
    patchToBind deps (Purpose.hostOverride r.tenantId r.hostId) r.patchEncrypted = none

theorem settled_of_walked (hideal : IdealAead deps) (h : Walked deps u v [] []) :
    Settled deps v := by
  constructor
  · intro r' hr'
    rcases forall₂_exists_left (visited_end h.keys) hr' with ⟨r, _, hafter⟩
    exact keysToBind_after hideal hafter
  · intro r' hr'
    rcases forall₂_exists_left (visited_end h.patches) hr' with ⟨r, _, hafter⟩
    exact patchToBind_after hideal hafter

/-- The completed calls only read. -/
structure Quiet (x : Db) (events : List (Event machine)) (w : Db) : Prop where
  reads : forall e, e ∈ events -> e.op.writes = false
  same : w = x

theorem quiet_nil (x : Db) : Quiet x [] x :=
  ⟨fun _ he => absurd he List.not_mem_nil, rfl⟩

theorem quiet_cons {op : Op} (hop : op.writes = false) (h : Quiet u events w) :
    Quiet u (⟨op, u⟩ :: events) w := by
  constructor
  · intro e he
    cases List.mem_cons.mp he with
    | inl hfirst =>
        rw [hfirst]
        exact hop
    | inr hlater => exact h.reads e hlater
  · exact h.same

theorem quiet_append {first second : List (Event machine)} (hfirst : Quiet u first v)
    (hsecond : Quiet v second w) : Quiet u (first ++ second) w := by
  constructor
  · intro e he
    cases List.mem_append.mp he with
    | inl hbefore => exact hfirst.reads e hbefore
    | inr hafter => exact hsecond.reads e hafter
  · rw [hsecond.same, hfirst.same]

theorem quiet_rebindCas (h : Settled deps u) {cas : List (TenantSecretsRow × Tenant)} {k : Nat}
    {answer : Except DbError Nat}
    (hrun : Alone machine (rebindCas deps n cas k) u events answer w) : Quiet u events w := by
  induction cas generalizing events k with
  | nil =>
      rw [(alone_done hrun).1, (alone_done hrun).2.2]
      exact quiet_nil u
  | cons ca cas ih =>
      cases alone_call hrun with
      | inr hfault =>
          rcases hfault with ⟨r, hr, hnext⟩
          cases hr
          rw [(alone_done hnext).1, (alone_done hnext).2.2]
          exact quiet_nil u
      | inl hexec =>
          rcases hexec with ⟨rest, hevents, hnext⟩
          rw [hevents]
          apply quiet_cons rfl
          have hread : machine.exec (Op.getByTenant ca.1.tenantId) u =
              (Except.ok (TenantSecretsRepo.getByTenant ca.1.tenantId u), u) := rfl
          rw [hread] at hnext
          cases hfound : TenantSecretsRepo.getByTenant ca.1.tenantId u with
          | none =>
              simp only [hfound] at hnext
              exact ih hnext
          | some stored =>
              have hid : stored.tenantId = ca.1.tenantId := getByTenant_id hfound
              have hleft := h.keys stored (List.mem_of_find?_eq_some hfound)
              rw [hid] at hleft
              simp only [hfound, Program.bind, hleft] at hnext
              exact ih hnext

theorem quiet_rebindOverrides (h : Settled deps u) {rows : List (Int × String × Bytes)}
    {k : Nat} {answer : Except DbError Unit}
    (hlisted : forall row, row ∈ rows -> row ∈ HostOverridesRepo.listAll u)
    (hrun : Alone machine (rebindOverrides deps n rows k) u events answer w) :
    Quiet u events w := by
  induction rows generalizing events k with
  | nil =>
      rw [(alone_done hrun).1, (alone_done hrun).2.2]
      exact quiet_nil u
  | cons row rows ih =>
      rcases row with ⟨tenantId, hostId, blob⟩
      have hleft : patchToBind deps (Purpose.hostOverride tenantId hostId) blob = none := by
        rcases List.mem_map.mp (hlisted _ List.mem_cons_self) with ⟨r, hr, hrow⟩
        cases hrow
        exact h.patches r hr
      unfold rebindOverrides at hrun
      rw [hleft] at hrun
      exact ih (fun row hrow => hlisted row (List.mem_cons_of_mem _ hrow)) hrun

theorem quiet_rebind (h : Settled deps u) {answer : Except DbError Unit}
    (hrun : Alone machine (rebindLegacyCiphertexts deps n) u events answer w) :
    Quiet u events w := by
  cases alone_call hrun with
  | inr hfault =>
      rcases hfault with ⟨r, hr, hnext⟩
      cases hr
      rw [(alone_done hnext).1, (alone_done hnext).2.2]
      exact quiet_nil u
  | inl hexec =>
      rcases hexec with ⟨rest, hevents, hnext⟩
      rw [hevents]
      apply quiet_cons rfl
      change Alone machine (rebindCas deps n (TenantSecretsRepo.listAllCas u) 0 >>= _) u rest
        answer w at hnext
      rcases alone_bind hnext with ⟨first, second, result, x, hsplit, hcas, hmore⟩
      have hquiet := quiet_rebindCas h hcas
      rw [hquiet.same] at hmore
      rw [hsplit]
      apply quiet_append hquiet
      rw [hquiet.same]
      cases result with
      | error e =>
          rw [(alone_done hmore).1, (alone_done hmore).2.2]
          exact quiet_nil u
      | ok k =>
          cases alone_call hmore with
          | inr hfault =>
              rcases hfault with ⟨r, hr, hlast⟩
              cases hr
              rw [(alone_done hlast).1, (alone_done hlast).2.2]
              exact quiet_nil u
          | inl hlisted =>
              rcases hlisted with ⟨rest', hevents', hlast⟩
              rw [hevents']
              exact quiet_cons rfl (quiet_rebindOverrides h (fun row hrow => hrow) hlast)

theorem rebound_of_walked (hideal : IdealAead deps) (h : Walked deps u v [] []) :
    Rebound deps u v := by
  constructor
  · exact (visited_end h.keys).imp fun _ _ hafter => reboundKeys_of_after hideal hafter
  · exact (visited_end h.patches).imp fun _ _ hafter => reboundPatch_of_after hideal hafter
  · exact h.others

/-- A run binds what it can read, row by row, and leaves the rest as it is; the next
one, whatever fails in it, writes nothing. -/
theorem rebind_keeps_plaintexts (hideal : IdealAead deps) (hkeys : SecretKeys u)
    (hrun : Alone machine (rebindLegacyCiphertexts deps n) u events (Except.ok ()) v) :
    Rebound deps u v ∧
      forall (m : Nat) (again : List (Event machine)) (answer : Except DbError Unit) (w : Db),
        Alone machine (rebindLegacyCiphertexts deps m) v again answer w ->
          Quiet v again w := by
  rcases walked_of_run hideal hkeys hrun with ⟨keys, patches, hwalked, hdone⟩
  rcases hdone rfl with ⟨hnoKeys, hnoPatches⟩
  subst hnoKeys
  subst hnoPatches
  constructor
  · exact rebound_of_walked hideal hwalked
  · intro m again answer w hagain
    exact quiet_rebind (settled_of_walked hideal hwalked) hagain

end Run

/-!
# One row, two keys
-/

/-- `Deps.sample` with a cipher whose texts carry what they are bound to. -/
def bindingDeps : Deps :=
  { Deps.sample with
    aeadSeal := fun _ aad text => List.replicate 16 0 ++ Web.field aad ++ text
    aeadOpen := fun _ aad ct =>
      let bound := List.replicate 16 0 ++ Web.field aad
      if bound.isPrefixOf ct then some (ct.drop bound.length) else none }

theorem ideal_bindingDeps : IdealAead bindingDeps where
  opens := by
    intro nonce aad text
    unfold bindingDeps
    simp only
    rw [if_pos (List.isPrefixOf_iff_prefix.mpr (List.prefix_append _ _)), List.drop_left]
  only := by
    intro nonce aad aad' text text' hopened
    unfold bindingDeps at hopened
    simp only at hopened
    split at hopened
    · rename_i hbound
      rcases List.isPrefixOf_iff_prefix.mp hbound with ⟨rest, hrest⟩
      simp only [List.append_assoc] at hrest
      exact (Web.field_append_inj (List.append_cancel_left hrest)).1
    · cases hopened
  tag := by
    intro nonce aad text
    show _ ≤ (List.replicate 16 0 ++ Web.field aad ++ text).length
    simp only [List.length_append, List.length_replicate]
    omega
  nonce := fun _ _ => rfl

/-- An unbound text of one byte. -/
def legacyBlob : Bytes :=
  List.replicate 12 0 ++ bindingDeps.aeadSeal (List.replicate 12 0) [] [7]

def oneTenant (bundleSigningKeyEncrypted : Bytes) : Db :=
  { Db.empty with
    tenants :=
      [{ id := 1, slug := "", name := "", tier := "", tierOverridesJson := none,
         trialExpiresAt := none, configVersion := 0, createdAt := 0 }]
    tenantSecrets :=
      [{ tenantId := 1, caCertPem := "", caKeyEncrypted := legacyBlob, caSubjectDn := "",
         bundleSigningPubPem := "", bundleSigningKeyEncrypted := bundleSigningKeyEncrypted }] }

theorem secretKeys_oneTenant (blob : Bytes) : SecretKeys (oneTenant blob) where
  tenantIds := List.nodup_singleton _
  secretIds := List.nodup_singleton _
  secretRefs := by
    intro s hs
    rw [List.mem_singleton.mp hs]
    exact ⟨_, List.mem_singleton_self _, rfl⟩
  overrideIds := List.nodup_nil

/-- The database after a start in which nothing fails. -/
def started (u : Db) : Db :=
  (Program.run machine (rebindLegacyCiphertexts bindingDeps 0) u).2

theorem alone_started (u : Db)
    (h : (Program.run machine (rebindLegacyCiphertexts bindingDeps 0) u).1.isOk = true) :
    exists events,
      Alone machine (rebindLegacyCiphertexts bindingDeps 0) u events (Except.ok ())
        (started u) := by
  rcases alone_run machine (rebindLegacyCiphertexts bindingDeps 0) u with ⟨events, hrun⟩
  cases hanswer : (Program.run machine (rebindLegacyCiphertexts bindingDeps 0) u).1 with
  | error e =>
      rw [hanswer] at h
      cases h
  | ok done =>
      rw [hanswer] at hrun
      exact ⟨events, hrun⟩

theorem rebind_keeps_plaintexts_legacy :
    Rebound bindingDeps (oneTenant legacyBlob) (started (oneTenant legacyBlob)) := by
  rcases alone_started (oneTenant legacyBlob) (by decide +kernel) with ⟨events, hrun⟩
  exact (rebind_keeps_plaintexts ideal_bindingDeps (secretKeys_oneTenant legacyBlob) hrun).1

/-- Every key by itself, whatever becomes of the other one. -/
structure EachKey (deps : Deps) (r r' : TenantSecretsRow) : Prop where
  ca : forall plain, Readable deps (Purpose.tenantCaKey r.tenantId) plain r.caKeyEncrypted ->
    deps.decrypt (Purpose.tenantCaKey r.tenantId) r'.caKeyEncrypted = Except.ok plain
  sign : forall plain,
    Readable deps (Purpose.tenantBundleSigningKey r.tenantId) plain
      r.bundleSigningKeyEncrypted ->
    deps.decrypt (Purpose.tenantBundleSigningKey r.tenantId) r'.bundleSigningKeyEncrypted =
      Except.ok plain

/-- A CA key that could be read is left unbound beside a signing key that cannot. -/
theorem ca_key_left_unbound :
    Not (forall (deps : Deps) (n : Nat) (u v : Db) (events : List (Event machine)),
      IdealAead deps -> SecretKeys u ->
        Alone machine (rebindLegacyCiphertexts deps n) u events (Except.ok ()) v ->
          List.Forall₂ (EachKey deps) u.tenantSecrets v.tenantSecrets) := by
  intro h
  rcases alone_started (oneTenant []) (by decide +kernel) with ⟨events, hrun⟩
  have hrows := h bindingDeps 0 _ _ events ideal_bindingDeps (secretKeys_oneTenant []) hrun
  rcases forall₂_exists_right hrows (List.mem_singleton_self _) with ⟨r', hr', heach⟩
  have hbound := heach.ca [7] (Readable.legacy (by decide))
  have hleft : ((started (oneTenant [])).tenantSecrets.all fun r =>
      !isBound bindingDeps (Purpose.tenantCaKey 1) r.caKeyEncrypted) = true := by
    decide +kernel
  have hunbound := List.all_eq_true.mp hleft r' hr'
  unfold isBound at hunbound
  rw [hbound] at hunbound
  cases hunbound

end Rebind
end Runtime
end FleetServer
