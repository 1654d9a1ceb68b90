import FleetServer.Accounts.Minting
import FleetServer.Concurrency.Trace

/-!
# Revoked for good

A credential that is gone never comes back, and whoever presents it afterwards
is not let in.
-/

namespace FleetServer
namespace Accounts
namespace SignIn

open FleetServer.Core
open Concurrency
open Server (Role)
open Storage (Tenant DbError)

/-!
# A request that presents what is gone
-/

def Route.needsUser : Route -> Bool
  | Route.signup _ => false
  | Route.sendLink _ => false
  | Route.exchange _ => false
  | Route.exchangeConfirm _ => false
  | Route.login _ => false
  | Route.logout => false
  | _ => true

/-- The credential the session layer goes by. -/
def presents (deps : Deps) (head : Head) : Option (Kind × String) :=
  match (credentials deps head).cookie with
  | some cookie => some (Kind.session, deps.hashToken cookie)
  | none => (credentials deps head).bearer.map fun token => (Kind.apiKey, deps.hashToken token)

def notSignedIn : Response :=
  Response.ofAccount (Accounts.Response.error 401 "not signed in")

/-- Refused by the origin check, or for want of a credential. -/
def TurnedAway (answer : Answer) : Prop :=
  answer = Answer.http notSignedIn ∨
    answer = Answer.http (Response.error 403 "this request did not come from this site")

/-- The session layer's first lookup. -/
def Op.LooksUp : Op -> Prop
  | Op.account (Accounts.Op.touch _ _) => True
  | Op.account (Accounts.Op.findByHash _) => True
  | _ => False

/-- What a lookup answers while the credential is not there. -/
def Missing (k : Kind × String) : (op : Op) -> op.Res -> Prop
  | Op.account (Accounts.Op.touch _ idHash), r => (Kind.session, idHash) = k -> foundOr r = none
  | Op.account (Accounts.Op.findByHash tokenHash), r =>
      (Kind.apiKey, tokenHash) = k -> foundOr r = none
  | _, _ => True

section Missing

variable {deps : Deps} {n : Nat} {k : Kind × String}

theorem missing_exec {w : World} (hgone : ¬ held w.db k.2 k.1) (op : Op) :
    Missing k op (exec op w).1 := by
  cases op with
  | account op =>
      cases op with
      | touch idleTtl idHash =>
          intro hk
          subst hk
          have hnone : w.db.sessions.find? (SessionRepo.live w.now idleTtl idHash) = none := by
            rw [List.find?_eq_none]
            intro s hs hlive
            have hhash := ((Bool.and_eq_true _ _).mp ((Bool.and_eq_true _ _).mp hlive).1).1
            exact hgone ⟨s, hs, beq_iff_eq.mp hhash⟩
          show (w.db.sessions.find? (SessionRepo.live w.now idleTtl idHash)).map _ = none
          rw [hnone]
          rfl
      | findByHash tokenHash =>
          intro hk
          subst hk
          show ApiKeyRepo.findByHash w.now tokenHash w.db = none
          unfold ApiKeyRepo.findByHash
          rw [List.find?_eq_none]
          intro r hr hlive
          exact hgone ⟨r, hr, beq_iff_eq.mp ((Bool.and_eq_true _ _).mp hlive).1⟩
      | _ => trivial
  | _ => trivial

theorem missing_fault {op : Op} {r : op.Res} (h : fault op = some r) : Missing k op r := by
  cases op with
  | account op =>
      cases op with
      | touch idleTtl idHash =>
          cases h
          exact fun _ => rfl
      | findByHash tokenHash =>
          cases h
          exact fun _ => rfl
      | _ => trivial
  | _ => trivial

/-- It only looks its credential up, and is turned away. -/
def Barred (k : Kind × String) (p : Prog Answer) : Prop :=
  Program.UsesGiven (Missing k) Op.LooksUp p ∧ Program.EndsGiven (Missing k) TurnedAway p

theorem routed_none (jar : CookieJar) {route : Route} (hroute : route.needsUser = true) :
    routed deps n jar route none = Program.done notSignedIn := by
  have hhandler : handler deps n jar none route = Program.done notSignedIn := by
    cases route with
    | signup body => cases hroute
    | sendLink email => cases hroute
    | exchange t => cases hroute
    | exchangeConfirm form => cases hroute
    | login body => cases hroute
    | logout => cases hroute
    | _ => rfl
  unfold routed trialExpiryLayer
  rw [hhandler, ite_self]

theorem barred_sessionLayer {head : Head} {next : Option AuthedUser -> Prog Response}
    (hpresents : presents deps head = some k) (hnext : next none = Program.done notSignedIn) :
    Barred k (sessionLayer deps head next >>= fun r => pure (Answer.http r)) := by
  unfold presents at hpresents
  have hbarred : Barred k (next none >>= fun r => pure (Answer.http r)) := by
    rw [hnext]
    exact ⟨trivial, Or.inl rfl⟩
  unfold sessionLayer identify
  cases hcookie : (credentials deps head).cookie with
  | some cookie =>
      rw [hcookie] at hpresents
      have hk := Option.some.inj hpresents
      constructor
      · refine ⟨trivial, fun r hr => ?_⟩
        have hnone := hr hk
        simp only [Program.bind, hnone]
        exact hbarred.1
      · intro r hr
        have hnone := hr hk
        simp only [Program.bind, hnone]
        exact hbarred.2
  | none =>
      rw [hcookie] at hpresents
      cases hbearer : (credentials deps head).bearer with
      | none =>
          rw [hbearer] at hpresents
          cases hpresents
      | some token =>
          rw [hbearer] at hpresents
          have hk := Option.some.inj hpresents
          constructor
          · refine ⟨trivial, fun r hr => ?_⟩
            have hnone := hr hk
            simp only [Program.bind, hnone]
            exact hbarred.1
          · intro r hr
            have hnone := hr hk
            simp only [Program.bind, hnone]
            exact hbarred.2

theorem barred_program {head : Head} {route : Route} (hroute : route.needsUser = true)
    (hpresents : presents deps head = some k) :
    Barred k (program deps n (Request.http head route)) := by
  have hsession : Barred k (sessionLayer deps head (routed deps n head.jar route) >>=
      fun r => pure (Answer.http r)) :=
    barred_sessionLayer hpresents (routed_none head.jar hroute)
  show Barred k (originLayer head route.mutating
    (sessionLayer deps head (routed deps n head.jar route)) >>= fun r => pure (Answer.http r))
  unfold originLayer
  split
  · exact hsession
  · split
    · exact hsession
    · split
      · exact hsession
      · exact ⟨trivial, Or.inr rfl⟩

end Missing

/-!
# Every run
-/

section Runs

variable {deps : Deps} {w : World} {o p q : Pool (service deps)}

theorem barred_later {k : Kind × String}
    (hgone : forall r, Pool.Run (fun _ _ => True) p r -> ¬ held r.world.db k.2 k.1)
    (hrun : Pool.Run (fun _ _ => True) p q) {i : Nat} {head : Head} {route : Route}
    {rest : Prog Answer} (hi : p.threads.length ≤ i)
    (hget : q.threads[i]? = some ⟨Request.http head route, rest⟩)
    (hroute : route.needsUser = true) (hpresents : presents deps head = some k) :
    Barred k rest := by
  have hlater := hrun.started_after (I := fun _ => True)
    (G := fun _ _ request rest => forall head route, request = Request.http head route ->
      route.needsUser = true -> presents deps head = some k -> Barred k rest)
    (by
      intro r request _ _ _ head route hrequest hroute hpresents
      subst hrequest
      exact barred_program hroute hpresents)
    (by
      intro _ _ _ _ _ _ _ _ hbarred
      exact hbarred)
    (by
      intro r i request op next a hreach _ _ hbarred hanswer head route hrequest hroute hpresents
      have hnext := hbarred head route hrequest hroute hpresents
      have hmissing : Missing k op a := by
        rcases hanswer with hexec | hfault
        · rw [hexec]
          exact missing_exec (hgone r hreach) op
        · exact missing_fault hfault
      exact ⟨hnext.1.2 a hmissing, hnext.2 a hmissing⟩)
    (fun _ _ _ _ _ _ _ _ => trivial) trivial
  exact hlater.2.2 i _ hi hget head route rfl hroute hpresents

/-- A credential that was there and is gone stays gone, and a request started
since that presents it does nothing but look it up, and is turned away. -/
theorem revoked_for_good (hfresh : deps.FreshTokens) (hunused : Unused deps w.db)
    (hbefore : Pool.Run (fun _ _ => True) (Pool.init w) o)
    (hrevoked : Pool.Run (fun _ _ => True) o p) (hrun : Pool.Run (fun _ _ => True) p q)
    {kind : Kind} {h : String} (hheld : held o.world.db h kind)
    (hgone : ¬ held p.world.db h kind) :
    ¬ held q.world.db h kind ∧
      forall (i : Nat) head route rest, p.threads.length ≤ i ->
        q.threads[i]? = some ⟨Request.http head route, rest⟩ -> route.needsUser = true ->
        presents deps head = some (kind, h) ->
          (forall op next, rest = Program.call op next -> op.LooksUp) ∧
            forall answer, rest = Program.done answer -> TurnedAway answer := by
  have hlaws := births_lawful hfresh (fun _ _ => True)
  have hkeyed := hbefore.keyed hlaws (keyed_start hunused)
  have hspent : Pool.Spent (births deps) (kind, h) p :=
    hrevoked.spent hlaws (hkeyed.spent (kind, h) hheld)
  have hstays : forall r, Pool.Run (fun _ _ => True) p r -> ¬ held r.world.db h kind :=
    fun r hr => (hr.gone hlaws hspent hgone).2
  constructor
  · exact hstays q hrun
  · intro i head route rest hi hget hroute hpresents
    have hbarred := barred_later hstays hrun hi hget hroute hpresents
    constructor
    · intro op next hrest
      rw [hrest] at hbarred
      exact hbarred.1.1
    · intro answer hrest
      rw [hrest] at hbarred
      exact hbarred.2

end Runs

/-!
# Signing out

A session is ended, and its cookie is presented again.
-/

def sampleToken (n : Nat) : String :=
  String.ofList (List.replicate n 'a')

def sampleDeps (onPrem : Bool) : Deps :=
  { plainDeps with
    onPrem := onPrem, randomToken := sampleToken, cookieSecure := false, sessionTtlSecs := 100,
    onPremAdminEmail := some "1", onPremAdminPassword := some "secret",
    onPremAdminPasswordHash := none, isPhc := fun _ => false,
    verifyPassword := fun _ _ => false, newUlid := sampleToken, isManaged := fun _ => false }

theorem sampleToken_injective {m n : Nat} (h : sampleToken m = sampleToken n) : m = n := by
  have hlists := congrArg String.toList h
  unfold sampleToken at hlists
  rw [String.toList_ofList, String.toList_ofList] at hlists
  have hlength := congrArg List.length hlists
  rw [List.length_replicate, List.length_replicate] at hlength
  exact hlength

theorem freshTokens_sample (onPrem : Bool) : (sampleDeps onPrem).FreshTokens := by
  intro kind m n h
  cases kind with
  | session => exact sampleToken_injective h
  | magicLink => exact sampleToken_injective h
  | apiKey =>
      have hlists := congrArg String.toList (show ApiKeys.tokenPrefix ++ sampleToken m =
        ApiKeys.tokenPrefix ++ sampleToken n from h)
      rw [String.toList_append, String.toList_append] at hlists
      exact sampleToken_injective (String.toList_inj.mp (List.append_cancel_left hlists))

def oneOwner : World :=
  { accounts :=
      { db :=
          { noTables with
            tenants := [sampleTenant 1 "acme"]
            users := [sampleUser 1 1 Role.owner false]
            sessions := [sampleSession "mine" 1 1] }
        around := calm }
    ipAllowed := true }

theorem unused_oneOwner : Unused (sampleDeps false) oneOwner.db := by
  intro n kind hheld
  cases kind with
  | session =>
      rcases hheld with ⟨s, hs, hhash⟩
      rw [List.mem_singleton.mp hs] at hhash
      have hlists := congrArg String.toList (show "mine" = sampleToken n from hhash)
      unfold sampleToken at hlists
      rw [String.toList_ofList, String.toList_ofList] at hlists
      have hm : 'm' ∈ List.replicate n 'a' := by
        rw [← hlists]
        decide
      have hma := List.eq_of_mem_replicate hm
      revert hma
      decide
  | apiKey =>
      rcases hheld with ⟨k, hk, _⟩
      cases hk
  | magicLink =>
      rcases hheld with ⟨l, hl, _⟩
      cases hl

def plainCookie (name value : String) : Cookie :=
  { name := name, value := value, httpOnly := false, sameSite := none, path := none,
    secure := false, maxAgeSecs := none }

def withSession (cookie : String) : Head :=
  { jar := { original := [plainCookie "fleet_session" cookie], added := [], removed := [] }
    authorization := none, secFetchSite := none }

def signsOut : List (Choice (service (sampleDeps false))) :=
  Choice.spawn (Request.http (withSession "mine") Route.logout) ::
    List.replicate 3 (Choice.exec 0)

def asksAgain : List (Choice (service (sampleDeps false))) :=
  [Choice.spawn (Request.http (withSession "mine") Route.me), Choice.exec 1]

/-- Whether a request was answered that nobody is signed in. -/
def refusedAt (p : Pool (service (sampleDeps false))) (i : Nat) : Bool :=
  match (p.threads[i]?).map Thread.rest with
  | some (Program.done (Answer.http r)) => r.status == 401
  | _ => false

theorem revoked_for_good_signing_out :
    exists q : Pool (service (sampleDeps false)),
      refusedAt q 1 = true ∧ ¬ held q.world.db "mine" Kind.session := by
  let p := Pool.after (Pool.init oneOwner) signsOut (by decide +kernel)
  have hout : Pool.Run (fun _ _ => True) (Pool.init oneOwner) p :=
    Pool.run_after (Pool.init oneOwner) signsOut (by decide +kernel)
  let q := Pool.after p asksAgain (by decide +kernel)
  have hagain : Pool.Run (fun _ _ => True) p q :=
    Pool.run_after p asksAgain (by decide +kernel)
  have hgone : p.world.db.sessions.any (fun s => s.idHash == "mine") = false := by decide +kernel
  have hrefused : refusedAt q 1 = true := by decide +kernel
  clear_value q
  clear_value p
  refine ⟨q, hrefused, ?_⟩
  have hheld : held oneOwner.db "mine" Kind.session := ⟨_, List.mem_singleton.mpr rfl, rfl⟩
  have hnot : ¬ held p.world.db "mine" Kind.session := by
    intro h
    rcases h with ⟨s, hs, hhash⟩
    exact List.any_eq_false.mp hgone s hs (beq_iff_eq.mpr hhash)
  exact (revoked_for_good (freshTokens_sample false) unused_oneOwner Pool.Run.refl hout hagain
    hheld hnot).1

end SignIn
end Accounts
end FleetServer
