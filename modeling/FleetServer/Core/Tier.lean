import FleetServer.Core.Text

/-!
# Tiers

The limits of each named tier, and the per-tenant overrides on top of them.
-/

namespace FleetServer
namespace Core

structure TierLimits where
  name : String
  maxHosts : Nat
  minPollIntervalSecs : Nat
  perHostRequestsPerMinute : Nat
  maxBundleMb : Nat
  maxBundles : Nat
deriving DecidableEq

structure TierOverrides where
  maxHosts : Option Nat
  minPollIntervalSecs : Option Nat
  perHostRequestsPerMinute : Option Nat
  maxBundleMb : Option Nat
  maxBundles : Option Nat

def TierOverrides.applyTo (o : TierOverrides) (base : TierLimits) : TierLimits :=
  { name := base.name
    maxHosts := o.maxHosts.getD base.maxHosts
    minPollIntervalSecs := o.minPollIntervalSecs.getD base.minPollIntervalSecs
    perHostRequestsPerMinute :=
      o.perHostRequestsPerMinute.getD base.perHostRequestsPerMinute
    maxBundleMb := o.maxBundleMb.getD base.maxBundleMb
    maxBundles := o.maxBundles.getD base.maxBundles }

namespace Tier

def u32Max : Nat := 2 ^ 32 - 1

def free : TierLimits :=
  { name := "free", maxHosts := 5, minPollIntervalSecs := 60,
    perHostRequestsPerMinute := 10, maxBundleMb := 10, maxBundles := 50 }

def starter : TierLimits :=
  { name := "starter", maxHosts := 50, minPollIntervalSecs := 30,
    perHostRequestsPerMinute := 30, maxBundleMb := 50, maxBundles := 200 }

def pro : TierLimits :=
  { name := "pro", maxHosts := 500, minPollIntervalSecs := 30,
    perHostRequestsPerMinute := 60, maxBundleMb := 100, maxBundles := 500 }

def enterprise : TierLimits :=
  { name := "enterprise", maxHosts := 5000, minPollIntervalSecs := 15,
    perHostRequestsPerMinute := 120, maxBundleMb := 250, maxBundles := 2000 }

def onprem : TierLimits :=
  { name := "onprem", maxHosts := u32Max, minPollIntervalSecs := 15,
    perHostRequestsPerMinute := 120, maxBundleMb := 250, maxBundles := u32Max }

def all : List TierLimits :=
  [free, starter, pro, enterprise, onprem]

def lookup (name : String) : Option TierLimits :=
  all.find? fun t => t.name == name

def lookupOrFree (name : String) : TierLimits :=
  (lookup name).getD free

/-- `parse` reads the override JSON; invalid overrides are ignored. -/
def effective (parse : String -> Option TierOverrides) (tierName : String)
    (overridesJson : Option String) : TierLimits :=
  let base := lookupOrFree tierName
  match overridesJson with
  | none => base
  | some raw =>
      match parse raw with
      | some o => o.applyTo base
      | none => base

end Tier

end Core
end FleetServer
