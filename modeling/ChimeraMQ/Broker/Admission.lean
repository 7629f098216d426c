import ChimeraMQ.Foundation.Bytes
import ChimeraMQ.Foundation.Entries

/-!
# Admission of publishes

The rate limits of flow control and the publish quotas of tenants.  Times are
nanoseconds, and windows of quotas are seconds.  The usage statistics that are
recorded along the way decide nothing and are left out.
-/

namespace ChimeraMQ

open Foundation

/-!
## Flow control
-/

namespace Flow

def second : Int64 := 1000000000

structure RateLimit where
  tokens : Int64
  lastRefill : Int64
  maxTokens : Int64
  refillRate : Int64
deriving DecidableEq

def newRateLimit (perSec now : Int64) : RateLimit where
  tokens := perSec
  lastRefill := now
  maxTokens := perSec
  refillRate := perSec

namespace RateLimit

def refill (rl : RateLimit) (now : Int64) : RateLimit :=
  let elapsed := now - rl.lastRefill
  if elapsed ≥ second then
    let secs := elapsed / second
    let newTokens := rl.tokens + secs * rl.refillRate
    { rl with
      tokens := if newTokens > rl.maxTokens then rl.maxTokens else newTokens
      lastRefill := now }
  else rl

def allow (rl : RateLimit) (now : Int64) : RateLimit × Bool :=
  let rl := rl.refill now
  if rl.tokens ≤ 0 then (rl, false)
  else ({ rl with tokens := rl.tokens - 1 }, true)

end RateLimit

end Flow

namespace Broker

open ChimeraMQ.Flow (RateLimit)

structure FlowController where
  enabled : Bool
  globalLimit : Option RateLimit
  topicLimits : List (Bytes × RateLimit)
deriving DecidableEq

namespace FlowController

def allowGlobal (c : FlowController) (now : Int64) : FlowController × Bool :=
  match c.globalLimit with
  | none => (c, true)
  | some rl => ({ c with globalLimit := some (rl.allow now).1 }, (rl.allow now).2)

def allowTopic (c : FlowController) (topic : Bytes) (now : Int64) :
    FlowController × Bool :=
  match getEntry topic c.topicLimits with
  | none => (c, true)
  | some rl =>
    ({ c with topicLimits := setEntry topic (rl.allow now).1 c.topicLimits },
      (rl.allow now).2)

def allowPublish (c : FlowController) (topic : Bytes) (now : Int64) :
    FlowController × Bool :=
  if !c.enabled then (c, true)
  else
    match c.allowGlobal now with
    | (c, false) => (c, false)
    | (c, true) => c.allowTopic topic now

end FlowController

/-!
## Tenants
-/

structure Tenant where
  id : Bytes
  topicPrefix : Bytes
  maxPublishRate : Int
  publishCount : Int
  windowStart : Int
deriving DecidableEq

structure TenantManager where
  enabled : Bool
  tenants : List (Bytes × Tenant)
deriving DecidableEq

namespace TenantManager

def getTenant (m : TenantManager) (topic : Bytes)
    (order : MapOrder (Bytes × Tenant)) : Option Tenant :=
  if !m.enabled then none
  else
    ((order.order m.tenants).find? (fun e =>
      e.2.topicPrefix.isPrefixOf topic)).map Prod.snd

def resetWindowIfNeeded (t : Tenant) (second : Int) : Tenant :=
  if second ≤ t.windowStart then t
  else { t with windowStart := second, publishCount := 0 }

def checkPublishQuota (m : TenantManager) (tenantID : Bytes) (now : Int) :
    TenantManager × Bool :=
  if !m.enabled then (m, true)
  else
    match getEntry tenantID m.tenants with
    | none => (m, false)
    | some t =>
    if t.maxPublishRate ≤ 0 then (m, true)
    else
      let t := resetWindowIfNeeded t (now / 1000000000)
      let t := { t with publishCount := t.publishCount + 1 }
      ({ m with tenants := setEntry tenantID t m.tenants },
        decide (t.publishCount ≤ t.maxPublishRate))

end TenantManager

end Broker
end ChimeraMQ
