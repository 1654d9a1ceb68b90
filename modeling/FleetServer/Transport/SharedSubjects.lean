import FleetServer.Transport.Leaf
import FleetServer.Transport.TrustStore

/-!
# Tenants that share a CA subject

The map of a snapshot goes through the CAs once, filing a subject that is new and
taking out one that is there.  What it says of a subject depends on how many CAs
have it.
-/

namespace FleetServer
namespace Transport

open FleetServer.Core
open KeyedMap

section

variable (deps : Deps)

def casOf (subject : Bytes) (cas : List CaSummary) : List CaSummary :=
  cas.filter fun ca => subjectOf deps ca == some subject

def tenantOf (ca : CaSummary) : Int × String :=
  (ca.tenantId, ca.tenantSlug)

/-- A subject stands for a tenant exactly when one CA has it, and the order of the CAs
makes no difference. -/
structure Unambiguous (cas : List CaSummary) (st : MtlsState) : Prop where
  attributed : forall subject tenant,
    st.tenantByIssuerDer.lookup subject = some tenant <->
      (casOf deps subject cas).map tenantOf = [tenant]
  any_order : forall cas' st', cas'.Perm cas -> buildState deps cas' = some st' ->
    forall subject, st'.tenantByIssuerDer.lookup subject = st.tenantByIssuerDer.lookup subject

/-- No subject is that of three, five or any greater odd number of CAs. -/
def NoOddSharing (cas : List CaSummary) : Prop :=
  forall subject, (casOf deps subject cas).length % 2 = 1 ->
    (casOf deps subject cas).length = 1

end

variable {deps : Deps} {cas : List CaSummary} {st st' : MtlsState} {subject : Bytes}
variable {tenant : Int × String}

def toggled (existing : Option (Int × String)) (cas : List CaSummary) : Option (Int × String) :=
  cas.foldl (fun o ca => if o.isSome then none else some (tenantOf ca)) existing

theorem lookup_addCas (hadd : addCas deps cas st = some st') :
    st'.tenantByIssuerDer.lookup subject =
      toggled (st.tenantByIssuerDer.lookup subject) (casOf deps subject cas) := by
  induction cas generalizing st with
  | nil =>
      cases hadd
      rfl
  | cons ca rest ih =>
      simp only [addCas] at hadd
      split at hadd
      · cases hadd
      · rename_i der hder
        split at hadd
        · cases hadd
        · rename_i filed hfiled
          have hof : subjectOf deps ca = some filed := by
            unfold subjectOf
            rw [hder]
            exact hfiled
          have hcas : casOf deps subject (ca :: rest) =
              if filed = subject then ca :: casOf deps subject rest
              else casOf deps subject rest := by
            unfold casOf
            rw [List.filter_cons, hof]
            by_cases hsame : filed = subject
            · rw [if_pos hsame, hsame, beq_self_eq_true]
              rfl
            · have hne : (some filed == some subject) = false := by
                apply beq_eq_false_iff_ne.mpr
                intro heq
                exact hsame (Option.some.inj heq)
              rw [if_neg hsame, hne]
              rfl
          rw [hcas]
          split at hadd
          · rename_i hthere
            rw [ih hadd]
            by_cases hsame : filed = subject
            · rw [if_pos hsame]
              subst hsame
              show toggled ((st.tenantByIssuerDer.erase filed).lookup filed) _ = toggled
                (if (st.tenantByIssuerDer.lookup filed).isSome then none else some (tenantOf ca)) _
              rw [AList.lookup_erase, if_pos hthere]
            · rw [if_neg hsame]
              show toggled ((st.tenantByIssuerDer.erase filed).lookup subject) _ = _
              rw [AList.lookup_erase_ne (Ne.symm hsame)]
          · rename_i hnew
            split at hadd
            · rw [ih hadd]
              by_cases hsame : filed = subject
              · rw [if_pos hsame]
                subst hsame
                show toggled ((st.tenantByIssuerDer.insert filed (tenantOf ca)).lookup filed) _ =
                  toggled (if (st.tenantByIssuerDer.lookup filed).isSome then none
                    else some (tenantOf ca)) _
                rw [AList.lookup_insert, if_neg hnew]
              · rw [if_neg hsame]
                show toggled ((st.tenantByIssuerDer.insert filed (tenantOf ca)).lookup subject) _ =
                  _
                rw [AList.lookup_insert_ne (Ne.symm hsame)]
            · cases hadd

theorem isSome_toggled (existing : Option (Int × String)) :
    (toggled existing cas).isSome = true <->
      (existing.isSome = true <-> cas.length % 2 = 0) := by
  induction cas generalizing existing with
  | nil =>
      show existing.isSome = true <-> (existing.isSome = true <-> 0 % 2 = 0)
      simp only [Nat.zero_mod, iff_true]
  | cons ca rest ih =>
      show (toggled (if existing.isSome then none else some (tenantOf ca)) rest).isSome = true <-> _
      rw [ih, List.length_cons]
      cases existing with
      | none =>
          simp only [Option.isSome_none, Option.isSome_some, Bool.false_eq_true, if_false,
            true_iff, false_iff]
          omega
      | some tenant =>
          simp only [Option.isSome_none, Option.isSome_some, Bool.false_eq_true, if_true,
            true_iff, false_iff]
          omega

theorem lookup_buildState (hbuild : buildState deps cas = some st) :
    st.tenantByIssuerDer.lookup subject = toggled none (casOf deps subject cas) := by
  unfold buildState at hbuild
  split at hbuild
  · rename_i built certs hadd hcerts
    split at hbuild
    · cases hbuild
      exact lookup_addCas hadd
    · cases hbuild
  · cases hbuild

theorem odd_of_lookup (hbuild : buildState deps cas = some st) :
    (st.tenantByIssuerDer.lookup subject).isSome = true <->
      (casOf deps subject cas).length % 2 = 1 := by
  rw [lookup_buildState hbuild, isSome_toggled]
  simp only [Option.isSome_none, Bool.false_eq_true, false_iff]
  omega

theorem attributed_of_noOddSharing (hbuild : buildState deps cas = some st)
    (hodd : NoOddSharing deps cas) :
    st.tenantByIssuerDer.lookup subject = some tenant <->
      (casOf deps subject cas).map tenantOf = [tenant] := by
  have hone : forall ca, casOf deps subject cas = [ca] ->
      st.tenantByIssuerDer.lookup subject = some (tenantOf ca) := by
    intro ca hcas
    rw [lookup_buildState hbuild, hcas]
    rfl
  constructor
  · intro hlookup
    have hsome : (st.tenantByIssuerDer.lookup subject).isSome = true := by
      rw [hlookup]
      rfl
    rcases List.length_eq_one_iff.mp (hodd subject ((odd_of_lookup hbuild).mp hsome)) with
      ⟨ca, hcas⟩
    rw [hone ca hcas] at hlookup
    rw [hcas, List.map_singleton, Option.some.inj hlookup]
  · intro hmap
    have hlength : (casOf deps subject cas).length = 1 := by
      rw [← List.length_map tenantOf, hmap]
      rfl
    rcases List.length_eq_one_iff.mp hlength with ⟨ca, hcas⟩
    rw [hcas, List.map_singleton] at hmap
    rw [hone ca hcas, List.singleton_inj.mp hmap]

theorem casOf_perm {cas' : List CaSummary} (hperm : cas'.Perm cas) (subject : Bytes) :
    (casOf deps subject cas').Perm (casOf deps subject cas) :=
  hperm.filter _

/-- A snapshot is unambiguous exactly when no subject is shared by an odd number of
tenants. -/
theorem unambiguous_iff (hbuild : buildState deps cas = some st) :
    Unambiguous deps cas st <-> NoOddSharing deps cas := by
  constructor
  · intro hunambiguous subject hodd
    have hsome := (odd_of_lookup hbuild).mpr hodd
    rcases Option.isSome_iff_exists.mp hsome with ⟨tenant, hlookup⟩
    rw [← List.length_map tenantOf, (hunambiguous.attributed subject tenant).mp hlookup]
    rfl
  · intro hodd
    constructor
    · intro subject tenant
      exact attributed_of_noOddSharing hbuild hodd
    · intro cas' st' hperm hbuild' subject
      have hodd' : NoOddSharing deps cas' := by
        intro other hother
        rw [(casOf_perm hperm other).length_eq] at hother ⊢
        exact hodd other hother
      apply Option.ext
      intro tenant
      rw [attributed_of_noOddSharing hbuild' hodd', attributed_of_noOddSharing hbuild hodd]
      have hmaps := (@casOf_perm deps cas cas' hperm subject).map tenantOf
      constructor
      · intro hone
        rw [hone] at hmaps
        exact List.perm_singleton.mp hmaps.symm
      · intro hone
        rw [hone] at hmaps
        exact List.perm_singleton.mp hmaps

/-- A client certificate is taken for a tenant's only if its CA alone has the subject
of the issuer. -/
theorem casOf_of_parseLeaf {parser : X509} {der : Bytes} {cert : X509Certificate}
    {ctx : Server.PeerHostContext} (hbuild : buildState deps cas = some st)
    (hodd : NoOddSharing deps cas) (hcert : parser.fromDer der = Except.ok cert)
    (h : parseLeaf parser der st.tenantByIssuerDer = Except.ok ctx) :
    (casOf deps cert.issuerRaw cas).map tenantOf = [(ctx.tenantId, ctx.tenantSlug)] :=
  (attributed_of_noOddSharing hbuild hodd).mp (parseLeaf_eq_ok hcert h).1

def caWith (tenantId : Int) (slug pem : String) : CaSummary :=
  { tenantId := tenantId, tenantSlug := slug, caCertPem := pem, caSubjectDn := pem }

def snapshotOf (cas : List CaSummary) : MtlsState :=
  (buildState plainDeps cas).getD MtlsState.empty

theorem unambiguous_two_apart :
    Unambiguous plainDeps [caWith 1 "acme" "A", caWith 2 "fleet" "B"]
        (snapshotOf [caWith 1 "acme" "A", caWith 2 "fleet" "B"]) <->
      NoOddSharing plainDeps [caWith 1 "acme" "A", caWith 2 "fleet" "B"] :=
  unambiguous_iff rfl

/-- Three tenants of one subject: the third is filed where the first two were taken out. -/
theorem third_of_one_subject :
    Not (forall (deps : Deps) (cas : List CaSummary) (st : MtlsState),
      buildState deps cas = some st -> Unambiguous deps cas st) := by
  intro h
  have hbuild : buildState plainDeps
      [caWith 1 "acme" "A", caWith 2 "fleet" "A", caWith 3 "depot" "A"] =
        some (snapshotOf [caWith 1 "acme" "A", caWith 2 "fleet" "A", caWith 3 "depot" "A"]) := rfl
  have hthird := (h plainDeps _ _ hbuild).attributed [65] (3, "depot")
  have hlookup : (snapshotOf [caWith 1 "acme" "A", caWith 2 "fleet" "A",
      caWith 3 "depot" "A"]).tenantByIssuerDer.lookup [65] = some (3, "depot") := by
    decide
  have hmap := congrArg List.length (hthird.mp hlookup)
  have hthree : ((casOf plainDeps [65] [caWith 1 "acme" "A", caWith 2 "fleet" "A",
      caWith 3 "depot" "A"]).map tenantOf).length = 3 := by
    decide
  rw [hthree] at hmap
  cases hmap

end Transport
end FleetServer
