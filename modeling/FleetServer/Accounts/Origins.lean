import FleetServer.Accounts.Revoked

/-!
# What a session was made for

A session is made by a request that redeemed a link for its user, or, where the
administrator signs in with a password, by one that gave it and found its user
under the administrator's address.  No link is redeemed twice, so no two sessions
are made for the same one.
-/

namespace FleetServer
namespace Accounts
namespace SignIn

open FleetServer.Core
open Concurrency
open Server (Role)
open Storage (Tenant DbError)

variable {h : String} {user : User} {tenantId userId : Int} {op : Op} {alpha : Type}
variable {jar : CookieJar} {route : Route} {s : Session}

/-!
# Links that are redeemed
-/

def LinkKeys (db : Tables) : Prop :=
  (db.magicLinks.map MagicLinkRow.tokenHash).Nodup

def liveLink (db : Tables) (h : String) : Bool :=
  db.magicLinks.any fun l => l.tokenHash == h && l.usedAt.isNone

theorem liveLink_iff {db : Tables} :
    liveLink db h = true <-> held db h Kind.magicLink := by
  unfold liveLink
  rw [List.any_eq_true]
  constructor
  · intro hlive
    rcases hlive with ⟨l, hl, hcond⟩
    have hparts := (Bool.and_eq_true _ _).mp hcond
    exact ⟨l, hl, beq_iff_eq.mp hparts.1, Option.isNone_iff_eq_none.mp hparts.2⟩
  · intro hheld
    rcases hheld with ⟨l, hl, hhash, hunused⟩
    refine ⟨l, hl, ?_⟩
    rw [hhash, hunused, beq_self_eq_true]
    rfl

theorem redeem_some {now : Int} {db : Tables} {owner : Int × Int} (hkeys : LinkKeys db)
    (hfound : (MagicLinkRepo.redeem now h db).1 = some owner) :
    liveLink db h = true ∧ liveLink (MagicLinkRepo.redeem now h db).2 h = false := by
  rcases Option.map_eq_some_iff.mp hfound with ⟨l, hfind, _⟩
  have hmem := List.mem_of_find?_eq_some hfind
  have hcond := List.find?_some hfind
  have hparts := (Bool.and_eq_true _ _).mp hcond
  have hfirst := (Bool.and_eq_true _ _).mp hparts.1
  constructor
  · unfold liveLink
    rw [List.any_eq_true]
    exact ⟨l, hmem, hparts.1⟩
  · unfold liveLink
    rw [List.any_eq_false]
    intro r hr hlive
    have hlive := (Bool.and_eq_true _ _).mp hlive
    rcases Table.of_mem_updateWhere hr with ⟨s, hs, ⟨hno, hsame⟩ | ⟨_, hsame⟩⟩
    · -- The only row of this hash is the one that was redeemed.
      rw [hsame] at hlive
      have hsl : s = l := List.inj_on_of_nodup_map hkeys hs hmem
        ((beq_iff_eq.mp hlive.1).trans (beq_iff_eq.mp hfirst.1).symm)
      rw [hsl, hcond] at hno
      cases hno
    · rw [hsame] at hlive
      cases hlive.2

/-!
# The ledger
-/

structure Redemption where
  request : Nat
  link : String
  tenantId : Int
  userId : Int

structure Finding where
  request : Nat
  email : String
  tenantId : Int
  userId : Int

/-- Which request redeemed which link, which account it found under which address,
and which accounts it saw unblocked. -/
structure Ledger where
  redeemed : List Redemption
  found : List Finding
  cleared : List (Nat × Int × Int)

def Ledger.empty : Ledger :=
  { redeemed := [], found := [], cleared := [] }

def Op.redemption (i : Nat) : Op -> World -> World -> List Redemption
  | Op.redeem h, w, v =>
      match (MagicLinkRepo.redeem w.now h w.db).1 with
      | some owner =>
          if liveLink v.db h then []
          else [{ request := i, link := h, tenantId := owner.1, userId := owner.2 }]
      | none => []
  | _, _, _ => []

def Op.finding (i : Nat) : Op -> World -> List Finding
  | Op.account (Accounts.Op.findByEmail email), w =>
      match UserRepo.findByEmail email w.db with
      | some user =>
          [{ request := i, email := email, tenantId := user.tenantId, userId := user.id }]
      | none => []
  | _, _ => []

def Op.clearance (i : Nat) : Op -> World -> List (Nat × Int × Int)
  | Op.account (Accounts.Op.getUser tenantId userId), w =>
      match UserRepo.get tenantId userId w.db with
      | some user => if user.isBlocked then [] else [(i, tenantId, userId)]
      | none => []
  | _, _ => []

theorem mem_redemption {i : Nat} {w v : World} {owner : Int × Int}
    (hfound : (MagicLinkRepo.redeem w.now h w.db).1 = some owner) (hused : liveLink v.db h = false)
    :
    { request := i, link := h, tenantId := owner.1, userId := owner.2 } ∈
      (Op.redeem h).redemption i w v := by
  simp only [Op.redemption, hfound, hused]
  exact List.mem_singleton.mpr rfl

theorem mem_finding {i : Nat} {email : String} {w : World}
    (hfound : UserRepo.findByEmail email w.db = some user) :
    { request := i, email := email, tenantId := user.tenantId, userId := user.id } ∈
      (Op.account (Accounts.Op.findByEmail email)).finding i w := by
  simp only [Op.finding, hfound]
  exact List.mem_singleton.mpr rfl

theorem mem_clearance {i : Nat} {w : World} (hfound : UserRepo.get tenantId userId w.db = some user)
    (hopen : user.isBlocked = false) :
    (i, tenantId, userId) ∈
      (Op.account (Accounts.Op.getUser tenantId userId)).clearance i w := by
  simp only [Op.clearance, hfound, hopen]
  exact List.mem_singleton.mpr rfl

@[reducible] def ledger (deps : Deps) : Recorder (service deps) Ledger where
  onCall := fun i _ op w v note =>
    { redeemed := note.redeemed ++ op.redemption i w v
      found := note.found ++ op.finding i w
      cleared := note.cleared ++ op.clearance i w }

/-- The address that the administrator's account is found under. -/
def adminEmail (deps : Deps) : String :=
  deps.toLowercase (deps.onPremAdminEmail.getD "")

def Bought (deps : Deps) (i : Nat) (request : Request) (note : Ledger) (tenantId userId : Int) :
    Prop :=
  (deps.onPrem = false ∧ exists r, r ∈ note.redeemed ∧ r.request = i ∧ r.tenantId = tenantId ∧
    r.userId = userId) ∨
  (deps.onPrem = true ∧ (exists head body, request = Request.http head (Route.login body) ∧
      isAdminLogin deps body = true) ∧
    exists f, f ∈ note.found ∧ f.request = i ∧ f.email = adminEmail deps ∧
      f.tenantId = tenantId ∧ f.userId = userId)

/-!
# The contract
-/

structure Ledger.Within (a b : Ledger) : Prop where
  redeemed : forall r, r ∈ a.redeemed -> r ∈ b.redeemed
  found : forall f, f ∈ a.found -> f ∈ b.found
  cleared : forall c, c ∈ a.cleared -> c ∈ b.cleared

theorem within_refl (a : Ledger) : a.Within a :=
  ⟨fun _ hr => hr, fun _ hf => hf, fun _ hc => hc⟩

theorem within_trans {a b c : Ledger} (hab : a.Within b) (hbc : b.Within c) : a.Within c :=
  ⟨fun r hr => hbc.redeemed r (hab.redeemed r hr), fun f hf => hbc.found f (hab.found f hf),
    fun x hx => hbc.cleared x (hab.cleared x hx)⟩

theorem within_onCall (deps : Deps) (i : Nat) (request : Request) (op : Op) (w v : World)
    (note : Ledger) : note.Within ((ledger deps).onCall i request op w v note) :=
  ⟨fun _ hr => List.mem_append_left _ hr, fun _ hf => List.mem_append_left _ hf,
    fun _ hc => List.mem_append_left _ hc⟩

theorem bought_within {deps : Deps} {i : Nat} {request : Request} {a b : Ledger}
    (h : Bought deps i request a tenantId userId) (hab : a.Within b) :
    Bought deps i request b tenantId userId := by
  rcases h with ⟨hcloud, r, hr, hrest⟩ | ⟨hprem, hlogin, f, hf, hrest⟩
  · exact Or.inl ⟨hcloud, r, hab.redeemed r hr, hrest⟩
  · exact Or.inr ⟨hprem, hlogin, f, hab.found f hf, hrest⟩

theorem linkKeys_exec {w : World} (h : LinkKeys w.db) :
    LinkKeys (exec op w).2.db := by
  have hdelete : forall p, ((Table.deleteWhere p w.db.magicLinks).map
      MagicLinkRow.tokenHash).Nodup :=
    fun p => h.sublist (List.filter_sublist.map _)
  cases op with
  | account op =>
      cases op with
      | deleteUser tenantId id =>
          exact World.apply_guarded_db (P := LinkKeys) h (fun _ => hdelete _)
      | createUser tenantId email role =>
          exact World.apply_guarded_db (P := LinkKeys) h (fun _ => h)
      | createLink tokenHash tenantId userId expiresAt =>
          apply World.apply_guarded_db (P := LinkKeys) h
          intro hok
          have hfree := ((Bool.and_eq_true _ _).mp hok).2
          rw [Bool.not_eq_true', List.any_eq_false] at hfree
          show ((w.db.magicLinks ++ [_]).map MagicLinkRow.tokenHash).Nodup
          rw [List.map_append]
          apply List.Nodup.append h (List.nodup_singleton _)
          rw [List.disjoint_singleton]
          intro hmem
          rcases List.mem_map.mp hmem with ⟨l, hl, hhash⟩
          exact hfree l hl (beq_iff_eq.mpr hhash)
      | record row => exact World.apply_guarded_db (P := LinkKeys) h (fun _ => h)
      | createTenant slug name tier trial =>
          exact World.apply_guarded_db (P := LinkKeys) h (fun _ => h)
      | createSecrets row => exact World.apply_guarded_db (P := LinkKeys) h (fun _ => h)
      | _ => exact h
  | redeem tokenHash =>
      have hsame : (Table.updateWhere (MagicLinkRepo.redeemable w.now tokenHash)
          (fun l => { l with usedAt := some w.now }) w.db.magicLinks).map
            MagicLinkRow.tokenHash = w.db.magicLinks.map MagicLinkRow.tokenHash :=
        Table.map_updateWhere_of_mem (fun _ _ _ => rfl)
      exact Eq.mpr (congrArg List.Nodup hsame) h
  | createSession idHash tenantId userId ttl =>
      exact World.apply_guarded_db (P := LinkKeys) h (fun _ => h)
  | createKey id tenantId userId tokenHash expiresAt =>
      exact World.apply_guarded_db (P := LinkKeys) h (fun _ => h)
  | deleteExpiredLinks => exact hdelete _
  | _ => exact h

/-- A session is made with the request's own token, for an account the request
saw unblocked, and for what it may make one for. -/
def Pays (deps : Deps) (i : Nat) (request : Request) (op : Op) (note : Ledger) : Prop :=
  forall h tenantId userId ttl, op = Op.createSession h tenantId userId ttl ->
    h = deps.hashToken (deps.randomToken i) ∧ (i, tenantId, userId) ∈ note.cleared ∧
      Bought deps i request note tenantId userId

def ledgerContract (deps : Deps) : Contract (ledger deps) where
  Inv := fun x => LinkKeys x.1.db
  Rely := fun _ x y => x.2.Within y.2
  May := fun _ _ _ _ _ => True
  Guar := fun i request op x _ => Pays deps i request op x.2
  refl := fun _ x => within_refl x.2
  trans := fun _ _ _ _ hxy hyz => within_trans hxy hyz
  inv_call := by
    intro i request op x a v hinv houtcome _
    rcases outcome_cases houtcome with ⟨_, hv⟩ | ⟨_, hv⟩
    · rw [hv]
      exact linkKeys_exec hinv
    · rw [hv]
      exact hinv
  rely_call := fun i _ request op x _ v _ _ _ _ => within_onCall deps i request op x.1 v x.2
  env := fun _ x hinv => ⟨hinv, fun _ => within_refl x.2⟩

/-!
# Requests keep to the contract
-/

section Obeys

variable {deps : Deps} {i : Nat} {request : Request} {x : World × Ledger}

def Op.Sessionless (op : Op) : Prop :=
  forall h tenantId userId ttl, op ≠ Op.createSession h tenantId userId ttl

theorem pays_of_sessionless (h : op.Sessionless) (note : Ledger) :
    Pays deps i request op note :=
  fun hash tenantId userId ttl hop => absurd hop (h hash tenantId userId ttl)

theorem obeys_of_sessionless {p : Prog alpha} (h : Program.Uses Op.Sessionless p) :
    (ledgerContract deps).Obeys i request p x :=
  Contract.obeys_of_uses (C := ledgerContract deps)
    (Program.uses_mono (fun _ hop (y : World × Ledger) _ _ _ _ => pays_of_sessionless hop y.2) h) x

theorem obeys_call {next : op.Res -> Prog alpha} (hop : op.Sessionless)
    (hnext : forall a y v, (ledgerContract deps).Inv y ->
      (ledgerContract deps).Rely i x y -> Outcome machine op y.1 a v ->
        (ledgerContract deps).Obeys i request (next a)
          (v, (ledger deps).onCall i request op y.1 v y.2)) :
    (ledgerContract deps).Obeys i request (Program.call op next) x :=
  fun y hinv hrely a v houtcome _ =>
    ⟨pays_of_sessionless hop y.2, hnext a y v hinv hrely houtcome⟩

theorem sessionless_account (p : Accounts.Prog alpha) :
    Program.Uses Op.Sessionless (account p) := by
  apply Program.uses_embed
  induction p with
  | done a => trivial
  | call op next ih =>
      constructor
      · intro hash tenantId userId ttl hop
        cases hop
      · exact ih

theorem obeys_mintSession (hcleared : (i, tenantId, userId) ∈ x.2.cleared)
    (hbought : Bought deps i request x.2 tenantId userId) :
    (ledgerContract deps).Obeys i request (mintSession deps i jar tenantId userId user) x := by
  have hkeep : (ledgerContract deps).Ensures i request
      (fun _ y => x.2.Within y.2) (account (Platform.platformAdminBootstrap deps.toDeps user)) x := by
    unfold Platform.platformAdminBootstrap
    split
    · exact fun y _ hrely => hrely
    · split
      · exact fun y _ hrely => hrely
      · intro y _ hrely a v _ _
        refine ⟨?_, ?_⟩
        · intro hash t u ttl hop
          cases hop
        · intro z _ hz
          have hcall := within_onCall deps i request
            (Op.account (Accounts.Op.setPlatformAdmin user.id true)) y.1 v y.2
          exact within_trans hrely (within_trans hcall hz)
  apply Contract.obeys_after hkeep
  intro _ y _ hwithin z _ hrely a v _ _
  constructor
  · intro hash t u ttl hop
    cases hop
    refine ⟨rfl, hrely.cleared _ (hwithin.cleared _ hcleared), ?_⟩
    exact bought_within (bought_within hbought hwithin) hrely
  · simp only [Program.bind]
    split <;> trivial

theorem obeys_issueSessionCookie (hbought : Bought deps i request x.2 tenantId userId) :
    (ledgerContract deps).Obeys i request (issueSessionCookie deps i jar tenantId userId) x := by
  apply obeys_call (fun _ _ _ _ hop => by cases hop)
  intro a y v _ hrely houtcome
  have hbought' : Bought deps i request ((ledger deps).onCall i request
      (Op.account (Accounts.Op.getUser tenantId userId)) y.1 v y.2) tenantId userId :=
    bought_within (bought_within hbought hrely) (within_onCall deps i request _ y.1 v y.2)
  simp only [Program.bind]
  cases a with
  | error e => trivial
  | ok found =>
      cases found with
      | none => trivial
      | some user =>
          have hfound : UserRepo.get tenantId userId y.1.db = some user := by
            rcases outcome_cases houtcome with ⟨ha, _⟩ | ⟨hfault, _⟩
            · exact (Except.ok.inj ha).symm
            · cases hfault
          simp only
          cases hblocked : user.isBlocked with
          | true =>
              rw [if_pos rfl]
              trivial
          | false =>
              rw [if_neg Bool.false_ne_true]
              apply obeys_mintSession _ hbought'
              exact List.mem_append_right _ (mem_clearance hfound hblocked)

theorem obeys_forgetEmail (tenantId userId : Int) (response : Response) (y : World × Ledger) :
    (ledgerContract deps).Obeys i request (forgetEmail tenantId userId response) y := by
  apply obeys_of_sessionless
  unfold forgetEmail
  split
  · refine ⟨(fun _ _ _ _ hop => by cases hop), fun found => ?_⟩
    simp only [Program.bind]
    split
    · exact ⟨(fun _ _ _ _ hop => by cases hop), fun _ => trivial⟩
    · trivial
  · trivial

/-- A link that was redeemed may buy a session. -/
theorem obeys_exchangeConfirm (jar : CookieJar) (form : ConfirmForm) :
    (ledgerContract deps).Obeys i request (exchangeConfirm deps i jar form) x := by
  unfold exchangeConfirm
  split
  · trivial
  · rename_i hcloud
    split
    · trivial
    · apply obeys_call (fun _ _ _ _ hop => by cases hop)
      intro a y v hinv hrely houtcome
      simp only [Program.bind]
      cases a with
      | error e => trivial
      | ok found =>
          cases found with
          | none => trivial
          | some owner =>
              apply Contract.obeys_bind _ (fun _ _ => obeys_forgetEmail _ _ _ _)
              apply obeys_issueSessionCookie
              rcases outcome_cases houtcome with ⟨ha, hv⟩ | ⟨hfault, _⟩
              · have hfound := (Except.ok.inj ha).symm
                have hused := (redeem_some hinv hfound).2
                refine Or.inl ⟨Bool.not_eq_true _ ▸ hcloud, ⟨i, deps.hashToken form.t, owner.1, owner.2⟩, ?_,
                  rfl, rfl, rfl⟩
                have hlive : liveLink v.db (deps.hashToken form.t) = false := by
                  rw [hv]
                  exact hused
                exact List.mem_append_right _ (mem_redemption hfound hlive)
              · cases hfault

/-- The administrator's password may buy a session for the account that the
administrator's address is found under. -/
theorem obeys_adminSession {body : OnPremLoginBody} (hprem : deps.onPrem = true)
    (hadmin : isAdminLogin deps body = true)
    (hrequest : exists head, request = Request.http head (Route.login body)) :
    (ledgerContract deps).Obeys i request
      (Program.perform (Op.account (Accounts.Op.findByEmail (adminEmail deps))) >>= fun found =>
        match found with
        | Except.ok (some user) => issueSessionCookie deps i jar user.tenantId user.id
        | _ => pure (Response.error 500 "admin user missing")) x := by
  rcases hrequest with ⟨head, hrequest⟩
  apply obeys_call (fun _ _ _ _ hop => by cases hop)
  intro found y v _ _ houtcome
  simp only [Program.bind]
  split
  · rename_i user
    have hfound : UserRepo.findByEmail (adminEmail deps) y.1.db = some user := by
      rcases outcome_cases houtcome with ⟨ha, _⟩ | ⟨hfault, _⟩
      · exact (Except.ok.inj ha).symm
      · cases hfault
    apply obeys_issueSessionCookie
    refine Or.inr ⟨hprem, ⟨head, body, hrequest, hadmin⟩,
      ⟨i, adminEmail deps, user.tenantId, user.id⟩, ?_, rfl, rfl, rfl, rfl⟩
    exact List.mem_append_right _ (mem_finding hfound)
  · trivial

theorem obeys_onPremLogin {body : OnPremLoginBody}
    (hrequest : exists head, request = Request.http head (Route.login body)) :
    (ledgerContract deps).Obeys i request (onPremLogin deps i jar body) x := by
  have hsession : deps.onPrem = true -> isAdminLogin deps body = true -> forall y,
      (ledgerContract deps).Obeys i request
        (Program.perform (Op.account (Accounts.Op.findByEmail (adminEmail deps))) >>= fun found =>
          match found with
          | Except.ok (some user) => issueSessionCookie deps i jar user.tenantId user.id
          | _ => pure (Response.error 500 "admin user missing")) y :=
    fun hprem hadmin _ => obeys_adminSession hprem hadmin hrequest
  unfold onPremLogin
  generalize isAdminLogin deps body = admin at hsession ⊢
  split
  · trivial
  · rename_i hprem
    have hprem : deps.onPrem = true := by
      rw [Bool.not_eq_true', Bool.not_eq_false] at hprem
      exact hprem
    apply obeys_call (fun _ _ _ _ hop => by cases hop)
    intro allowed y v _ _ _
    simp only [Program.bind]
    split
    · trivial
    · split
      · trivial
      · split
        · trivial
        · split
          · trivial
          · rename_i hadmin
            have hadmin : admin = true := by
              rw [Bool.not_eq_true', Bool.not_eq_false] at hadmin
              exact hadmin
            exact hsession hprem hadmin _

theorem obeys_of_makes (jar : CookieJar) (who : Option AuthedUser)
    (hroute : route.makes ≠ Kind.session) :
    (ledgerContract deps).Obeys i request (handler deps i jar who route) x := by
  apply obeys_of_sessionless
  apply Program.uses_mono _ (Program.uses_own (bearsOwn_handler jar who route))
  intro op hown h tenantId userId ttl hop
  rw [hop] at hown
  have hkind := congrArg Prod.fst (show (Kind.session, h) = _ from hown _ rfl)
  exact hroute hkind.symm

theorem obeys_handler {head : Head} (who : Option AuthedUser)
    (hrequest : request = Request.http head route) :
    (ledgerContract deps).Obeys i request (handler deps i head.jar who route) x := by
  cases route with
  | exchangeConfirm form => exact obeys_exchangeConfirm head.jar form
  | login body => exact obeys_onPremLogin ⟨head, hrequest⟩
  | _ => exact obeys_of_makes head.jar who (fun h => by cases h)

theorem obeys_routed {head : Head} (who : Option AuthedUser)
    (hrequest : request = Request.http head route) :
    (ledgerContract deps).Obeys i request (routed deps i head.jar route who) x := by
  have hhandler : forall z, (ledgerContract deps).Obeys i request
      (handler deps i head.jar who route) z := fun _ => obeys_handler who hrequest
  unfold routed trialExpiryLayer
  split
  · exact hhandler x
  · split
    · exact hhandler x
    · apply obeys_call (fun _ _ _ _ hop => by cases hop)
      intro tenant y v _ _ _
      simp only [Program.bind]
      split
      · trivial
      · trivial
      · split
        · exact hhandler _
        · apply obeys_call (fun _ _ _ _ hop => by cases hop)
          intro now z u _ _ _
          simp only [Program.bind]
          split
          · trivial
          · exact hhandler _

theorem obeys_program : (ledgerContract deps).Obeys i request (program deps i request) x := by
  cases hrequest : request with
  | sweep =>
      apply obeys_of_sessionless
      exact ⟨(fun _ _ _ _ hop => by cases hop),
        fun _ => ⟨(fun _ _ _ _ hop => by cases hop), fun _ => trivial⟩⟩
  | http head route =>
      have hsession : (ledgerContract deps).Obeys i (Request.http head route)
          (sessionLayer deps head (routed deps i head.jar route)) x :=
        Contract.obeys_bind (obeys_of_sessionless (sessionless_account _))
          (fun who _ => obeys_routed who rfl)
      refine Contract.obeys_bind ?_ (fun _ _ => trivial)
      unfold originLayer
      split
      · exact hsession
      · split
        · exact hsession
        · split
          · exact hsession
          · trivial

end Obeys

/-!
# Every run
-/

section Runs

variable {deps : Deps} {w : World} {p q : Pool (service deps)} {note : Ledger}

theorem redemption_cases (i : Nat) (op : Op) (w v : World) :
    op.redemption i w v = [] ∨
      exists r : Redemption, op.redemption i w v = [r] ∧
        held w.db r.link Kind.magicLink ∧ ¬ held v.db r.link Kind.magicLink := by
  cases op with
  | redeem h =>
      cases hfound : (MagicLinkRepo.redeem w.now h w.db).1 with
      | none =>
          left
          simp only [Op.redemption, hfound]
      | some owner =>
          cases hlive : liveLink v.db h with
          | true =>
              left
              simp only [Op.redemption, hfound, hlive, if_true]
          | false =>
              right
              refine ⟨⟨i, h, owner.1, owner.2⟩, ?_, ?_, ?_⟩
              · simp only [Op.redemption, hfound, hlive]
                rfl
              · rcases Option.map_eq_some_iff.mp hfound with ⟨l, hfind, _⟩
                have hcond := List.find?_some hfind
                have hparts := (Bool.and_eq_true _ _).mp ((Bool.and_eq_true _ _).mp hcond).1
                exact ⟨l, List.mem_of_find?_eq_some hfind, beq_iff_eq.mp hparts.1,
                  Option.isNone_iff_eq_none.mp hparts.2⟩
              · rw [← liveLink_iff, hlive]
                exact Bool.false_ne_true
  | _ => exact Or.inl rfl

theorem sessions_guarded {w : Accounts.World} {ok : Tables -> Bool} {f : Tables -> alpha × Tables}
    (hs : s ∈ (w.apply (Stmt.guarded ok f)).2.db.sessions) :
    s ∈ w.db.sessions ∨ s ∈ (f w.db).2.sessions := by
  revert hs
  apply World.apply_guarded_db
    (P := fun db => s ∈ db.sessions -> s ∈ w.db.sessions ∨ s ∈ (f w.db).2.sessions)
  · exact Or.inl
  · exact fun _ => Or.inr

theorem sessions_exec {w : World} (hs : s ∈ (exec op w).2.db.sessions) :
    (exists r, r ∈ w.db.sessions ∧ r.idHash = s.idHash ∧ r.tenantId = s.tenantId ∧
      r.userId = s.userId) ∨
    exists h tenantId userId ttl, op = Op.createSession h tenantId userId ttl ∧
      s.idHash = h ∧ s.tenantId = tenantId ∧ s.userId = userId := by
  have hsame : s ∈ w.db.sessions -> exists r, r ∈ w.db.sessions ∧ r.idHash = s.idHash ∧
      r.tenantId = s.tenantId ∧ r.userId = s.userId := fun h => ⟨s, h, rfl, rfl, rfl⟩
  have hless : op.bears = none -> exists r, r ∈ w.db.sessions ∧ r.idHash = s.idHash ∧
      r.tenantId = s.tenantId ∧ r.userId = s.userId := by
    intro hop
    rcases (lessens_exec hop).sessions s hs with ⟨r, hr, hid, htenant, huser, _⟩
    exact ⟨r, hr, hid, htenant, huser⟩
  cases op with
  | createSession h tenantId userId ttl =>
      rcases sessions_guarded hs with hs | hs
      · exact Or.inl (hsame hs)
      · rcases List.mem_append.mp hs with hs | hs
        · exact Or.inl (hsame hs)
        · rw [List.mem_singleton.mp hs]
          exact Or.inr ⟨h, tenantId, userId, ttl, rfl, rfl, rfl, rfl⟩
  | createKey id tenantId userId tokenHash expiresAt =>
      rcases sessions_guarded hs with hs | hs
      · exact Or.inl (hsame hs)
      · exact Or.inl (hsame hs)
  | account op =>
      left
      cases op with
      | createLink tokenHash tenantId userId expiresAt =>
          rcases sessions_guarded hs with hs | hs
          · exact hsame hs
          · exact hsame hs
      | _ => exact hless rfl
  | _ => exact Or.inl (hless rfl)

def MadeBy (p : Pool (service deps)) (note : Ledger) (s : Session) : Prop :=
  exists i t, p.threads[i]? = some t ∧ s.idHash = deps.hashToken (deps.randomToken i) ∧
    (i, s.tenantId, s.userId) ∈ note.cleared ∧
      Bought deps i t.request note s.tenantId s.userId

/-- The books are in order. -/
structure Accounted (w : World) (p : Pool (service deps)) (note : Ledger) : Prop where
  keyed : Pool.Keyed (births deps) p
  spent : forall r, r ∈ note.redeemed -> Pool.Spent (births deps) (Kind.magicLink, r.link) p ∧
    ¬ held p.world.db r.link Kind.magicLink
  once : (note.redeemed.map Redemption.link).Nodup
  sessions : forall s, s ∈ p.world.db.sessions ->
    (exists r, r ∈ w.db.sessions ∧ r.idHash = s.idHash ∧ r.tenantId = s.tenantId ∧
      r.userId = s.userId) ∨ MadeBy p note s

theorem madeBy_step {c : Choice (service deps)} {r : Session} {note' : Ledger} (h : MadeBy p note r)
    (hid : r.idHash = s.idHash) (htenant : r.tenantId = s.tenantId) (huser : r.userId = s.userId)
    (hstep : p.step c = some q) (hnote : note.Within note') :
    MadeBy q note' s := by
  rcases h with ⟨i, t, hget, hhash, hcleared, hbought⟩
  rcases Pool.request_stays hstep hget with ⟨u, hu, hrequest⟩
  rw [htenant, huser] at hcleared hbought
  refine ⟨i, u, hu, hid.symm.trans hhash, hnote.cleared _ hcleared, ?_⟩
  rw [hrequest]
  exact bought_within hbought hnote

theorem accounted_init (hunused : Unused deps w.db) :
    Accounted w (Pool.init w : Pool (service deps)) Ledger.empty := by
  refine ⟨keyed_start hunused, ?_, List.nodup_nil, ?_⟩
  · exact fun r hr => absurd hr List.not_mem_nil
  · exact fun s hs => Or.inl ⟨s, hs, rfl, rfl, rfl⟩

theorem accounted_idle {c : Choice (service deps)} (hlaws : (births deps).Lawful (fun _ _ => True))
    (h : Accounted w p note) (hstep : p.step c = some q) (hdb : q.world.db = p.world.db) :
    Accounted w q note := by
  have hrun : Pool.Run (fun _ _ => True) p q := Pool.Run.refl.tail trivial hstep
  refine ⟨hrun.keyed hlaws h.keyed, ?_, h.once, ?_⟩
  · intro r hr
    have hr := h.spent r hr
    exact hrun.gone hlaws hr.1 hr.2
  · intro s hs
    rw [hdb] at hs
    rcases h.sessions s hs with hold | hmade
    · exact Or.inl hold
    · exact Or.inr (madeBy_step hmade rfl rfl rfl hstep (within_refl note))

theorem accounted_call {c : Choice (service deps)} {i : Nat} {request : Request}
    {next : op.Res -> Prog Answer} {a : op.Res} (hlaws : (births deps).Lawful (fun _ _ => True))
    (h : Accounted w p note) (hholds : (ledgerContract deps).Holds p note)
    (hstep : p.step c = some q) (hget : p.threads[i]? = some ⟨request, Program.call op next⟩)
    (houtcome : Outcome machine op p.world a q.world) :
    Accounted w q ((ledger deps).onCall i request op p.world q.world note) := by
  have hrun : Pool.Run (fun _ _ => True) p q := Pool.Run.refl.tail trivial hstep
  have hwithin := within_onCall deps i request op p.world q.world note
  have hkept : forall r, r ∈ note.redeemed ->
      Pool.Spent (births deps) (Kind.magicLink, r.link) q ∧
        ¬ held q.world.db r.link Kind.magicLink := by
    intro r hr
    have hr := h.spent r hr
    exact hrun.gone hlaws hr.1 hr.2
  refine ⟨hrun.keyed hlaws h.keyed, ?_, ?_, ?_⟩
  · intro r hr
    rcases List.mem_append.mp hr with hr | hr
    · exact hkept r hr
    · rcases redemption_cases i op p.world q.world with hnone | ⟨r', hone, hbefore, hafter⟩
      · rw [hnone] at hr
        cases hr
      · rw [hone] at hr
        rw [List.mem_singleton.mp hr]
        exact ⟨hrun.spent hlaws (h.keyed.spent (Kind.magicLink, r'.link) hbefore), hafter⟩
  · show ((note.redeemed ++ op.redemption i p.world q.world).map Redemption.link).Nodup
    rcases redemption_cases i op p.world q.world with hnone | ⟨r', hone, hbefore, _⟩
    · rw [hnone, List.append_nil]
      exact h.once
    · -- A link that was unused just before is not one that was redeemed earlier.
      rw [hone, List.map_append]
      apply List.Nodup.append h.once (List.nodup_singleton _)
      rw [List.disjoint_singleton]
      intro hmem
      rcases List.mem_map.mp hmem with ⟨r, hr, hlink⟩
      rw [← hlink] at hbefore
      exact (h.spent r hr).2 hbefore
  · intro s hs
    have hcarry : (exists r, r ∈ p.world.db.sessions ∧ r.idHash = s.idHash ∧
        r.tenantId = s.tenantId ∧ r.userId = s.userId) ->
        (exists r, r ∈ w.db.sessions ∧ r.idHash = s.idHash ∧ r.tenantId = s.tenantId ∧
          r.userId = s.userId) ∨
          MadeBy q ((ledger deps).onCall i request op p.world q.world note) s := by
      intro hold
      rcases hold with ⟨r, hr, hid, htenant, huser⟩
      rcases h.sessions r hr with ⟨r0, hr0, hid0, htenant0, huser0⟩ | hmade
      · exact Or.inl ⟨r0, hr0, hid0.trans hid, htenant0.trans htenant, huser0.trans huser⟩
      · exact Or.inr (madeBy_step hmade hid htenant huser hstep hwithin)
    rcases outcome_cases houtcome with ⟨_, hv⟩ | ⟨_, hv⟩
    · rw [hv] at hs
      rcases sessions_exec hs with hold | ⟨hash, t, u, ttl, hop, hid, htenant, huser⟩
      · exact hcarry hold
      · have hpays := (hholds.guar hget houtcome trivial).1 hash t u ttl hop
        rcases Pool.request_stays hstep hget with ⟨th, hth, hrequest⟩
        right
        refine ⟨i, th, hth, hid.trans hpays.1, ?_, ?_⟩
        · rw [htenant, huser]
          exact hwithin.cleared _ hpays.2.1
        · rw [htenant, huser, hrequest]
          exact bought_within hpays.2.2 hwithin
    · rw [hv] at hs
      exact hcarry ⟨s, hs, rfl, rfl, rfl⟩

theorem accounted_run (hfresh : deps.FreshTokens) (hunused : Unused deps w.db)
    (hkeys : LinkKeys w.db)
    (hrun : Recorded (ledger deps) (fun _ _ _ _ => True) (Pool.init w) Ledger.empty p note) :
    Accounted w p note := by
  have hlaws := births_lawful hfresh (fun _ _ => True)
  induction hrun with
  | refl => exact accounted_init hunused
  | @tail p q note c hpre _ hstep ih =>
      have hholds : (ledgerContract deps).Holds p note :=
        hpre.holds (ledgerContract deps) (fun _ _ _ _ _ => obeys_program)
          (fun _ _ _ _ _ _ _ _ _ => trivial) (Contract.holds_init hkeys)
      unfold Recorder.record
      rcases Pool.step_cases hstep with ⟨r, _, hcaller, hq⟩ | ⟨e, _, hcaller, hq⟩ |
        ⟨i, r, op, next, a, hcaller, hget, houtcome, _⟩
      · rw [hcaller]
        exact accounted_idle hlaws ih hstep (by rw [hq])
      · rw [hcaller]
        exact accounted_idle hlaws ih hstep (by rw [hq]; rfl)
      · rw [hcaller]
        exact accounted_call hlaws ih hholds hstep hget houtcome

/-- Every session was there at the start, or belongs to a request of the run that
saw its account unblocked and redeemed a link for it, or gave the administrator's
password and found the account under the administrator's address; and no link was
redeemed twice, or can be again. -/
theorem every_session_was_bought (hfresh : deps.FreshTokens) (hunused : Unused deps w.db)
    (hkeys : LinkKeys w.db)
    (hrun : Recorded (ledger deps) (fun _ _ _ _ => True) (Pool.init w) Ledger.empty p note) :
    (note.redeemed.map Redemption.link).Nodup ∧
      (forall r, r ∈ note.redeemed -> ¬ held p.world.db r.link Kind.magicLink) ∧
      forall s, s ∈ p.world.db.sessions ->
        (exists r, r ∈ w.db.sessions ∧ r.idHash = s.idHash ∧ r.tenantId = s.tenantId ∧
          r.userId = s.userId) ∨
        exists i t, p.threads[i]? = some t ∧ s.idHash = deps.hashToken (deps.randomToken i) ∧
          (i, s.tenantId, s.userId) ∈ note.cleared ∧
          ((deps.onPrem = false ∧ exists r, r ∈ note.redeemed ∧ r.request = i ∧
              r.tenantId = s.tenantId ∧ r.userId = s.userId) ∨
            (deps.onPrem = true ∧ (exists head body,
                t.request = Request.http head (Route.login body) ∧
                  isAdminLogin deps body = true) ∧
              exists f, f ∈ note.found ∧ f.request = i ∧ f.email = adminEmail deps ∧
                f.tenantId = s.tenantId ∧ f.userId = s.userId)) := by
  have hbooks := accounted_run hfresh hunused hkeys hrun
  exact ⟨hbooks.once, fun r hr => (hbooks.spent r hr).2, hbooks.sessions⟩

end Runs

/-!
# One link, presented twice, and the administrator's password

Two requests confirm the same link, and one session is made.  On the premises the
administrator signs in, and the session is for the account of that address.
-/

def confirmHead : Head :=
  { jar := { original := [plainCookie "fleet_exchange" "c"], added := [], removed := [] }
    authorization := none, secFetchSite := none }

def confirmLink : Choice (service (sampleDeps false)) :=
  Choice.spawn (Request.http confirmHead (Route.exchangeConfirm { t := "link", csrf := "c" }))

def adminLogin : Choice (service (sampleDeps true)) :=
  Choice.spawn (Request.http confirmHead (Route.login { email := "1", password := "secret" }))

/-- Two owners, a link in the mail, and nobody signed in. -/
def oneLink : World :=
  { accounts :=
      { db :=
          { noTables with
            tenants := [sampleTenant 1 "acme"]
            users := [sampleUser 2 1 Role.owner false, sampleUser 1 1 Role.owner false]
            magicLinks :=
              [{ tokenHash := "link", tenantId := 1, userId := 1, expiresAt := 100,
                 usedAt := none, createdAt := 0 }] }
        around := calm }
    ipAllowed := true }

theorem unused_oneLink (onPrem : Bool) : Unused (sampleDeps onPrem) oneLink.db := by
  intro n kind hheld
  cases kind with
  | session =>
      rcases hheld with ⟨s, hs, _⟩
      cases hs
  | apiKey =>
      rcases hheld with ⟨k, hk, _⟩
      cases hk
  | magicLink =>
      rcases hheld with ⟨l, hl, hhash, _⟩
      rw [List.mem_singleton.mp hl] at hhash
      have hl : 'l' ∈ (sampleToken n).toList := by
        rw [← show "link" = sampleToken n from hhash]
        decide
      unfold sampleToken at hl
      rw [String.toList_ofList] at hl
      have hla := List.eq_of_mem_replicate hl
      revert hla
      decide

def confirmsTwice : List (Choice (service (sampleDeps false))) :=
  [confirmLink, confirmLink] ++
    [Choice.exec 0, Choice.exec 1, Choice.exec 0, Choice.exec 0, Choice.exec 0, Choice.exec 0]

def signsIn : List (Choice (service (sampleDeps true))) :=
  [adminLogin] ++ [Choice.exec 0, Choice.exec 0, Choice.exec 0, Choice.exec 0]

theorem every_session_was_bought_twice :
    (exists (p : Pool (service (sampleDeps false))) (note : Ledger),
      p.world.db.sessions.length = 1 ∧ (note.redeemed.map Redemption.link).Nodup) ∧
    exists (p : Pool (service (sampleDeps true))) (note : Ledger) (s : Session) (f : Finding),
      p.world.db.sessions = [s] ∧ f ∈ note.found ∧ f.email = "1" ∧ f.userId = s.userId := by
  have hkeys : LinkKeys oneLink.db := by
    unfold LinkKeys
    exact List.nodup_singleton _
  constructor
  · let x := Recorded.after (ledger (sampleDeps false)) (fun _ _ _ _ => true)
      (Pool.init oneLink) Ledger.empty confirmsTwice (by decide +kernel)
    have hrun := Recorded.of_after (ledger (sampleDeps false)) (fun _ _ _ _ => true)
      (Pool.init oneLink) Ledger.empty confirmsTwice (by decide +kernel)
    have hrun : Recorded (ledger (sampleDeps false)) (fun _ _ _ _ => True) (Pool.init oneLink)
        Ledger.empty x.1 x.2 := hrun.mono (fun _ _ _ _ _ => trivial)
    have hone : x.1.world.db.sessions.length = 1 := by decide +kernel
    clear_value x
    exact ⟨x.1, x.2, hone,
      (every_session_was_bought (freshTokens_sample false) (unused_oneLink false) hkeys hrun).1⟩
  · let x := Recorded.after (ledger (sampleDeps true)) (fun _ _ _ _ => true)
      (Pool.init oneLink) Ledger.empty signsIn (by decide +kernel)
    have hrun := Recorded.of_after (ledger (sampleDeps true)) (fun _ _ _ _ => true)
      (Pool.init oneLink) Ledger.empty signsIn (by decide +kernel)
    have hrun : Recorded (ledger (sampleDeps true)) (fun _ _ _ _ => True) (Pool.init oneLink)
        Ledger.empty x.1 x.2 := hrun.mono (fun _ _ _ _ _ => trivial)
    have hone : x.1.world.db.sessions.length = 1 := by decide +kernel
    clear_value x
    rcases List.length_eq_one_iff.mp hone with ⟨s, hs⟩
    have hsession : s ∈ x.1.world.db.sessions := by
      rw [hs]
      exact List.mem_singleton.mpr rfl
    have hmade := (every_session_was_bought (freshTokens_sample true) (unused_oneLink true) hkeys
      hrun).2.2 s hsession
    rcases hmade with ⟨r, hr, _⟩ | ⟨i, t, _, _, _, hbought⟩
    · cases hr
    · rcases hbought with ⟨hcloud, _⟩ | ⟨_, _, f, hf, _, hemail, _, huser⟩
      · cases hcloud
      · exact ⟨x.1, x.2, s, f, hs, hf, hemail, huser⟩

end SignIn
end Accounts
end FleetServer
