import Biei.Basic

/-!
# Configuration

`config.rs`: the costs and the routing policy a node is configured with, as far as the routing decision reads them. A configured
duration is far below `Duration::MAX`, past which the source's `+` panics, so sums of costs are plain sums.
-/

namespace Biei

/-- `Duration::MAX`, in nanoseconds. -/
def durationMax : Duration := 2 ^ 64 * 1000000000 - 1

def durationSaturatingAdd (a b : Duration) : Duration := min (a + b) durationMax

/-- `Duration::checked_mul`. -/
def durationCheckedMul (a : Duration) (n : Nat) : Option Duration := if a * n ≤ durationMax then some (a * n) else none

/-- `Instant::checked_add`: the clock counts seconds in an `i64`. -/
def instantCheckedAdd (a : Instant) (d : Duration) : Option Instant :=
  if a + d < 2 ^ 63 * 1000000000 then some (a + d) else none

structure CostRange where
  min : Duration
  max : Duration
deriving DecidableEq, Repr

namespace CostRange

def mid (c : CostRange) : Duration := (c.min + c.max) / 2

def saturatingAdd (c other : CostRange) : CostRange :=
  ⟨durationSaturatingAdd c.min other.min, durationSaturatingAdd c.max other.max⟩

end CostRange

inductive Tier1Strategy where
  | weightedRandom
  | powerOfTwo
deriving DecidableEq, Repr

structure RoutingConfig where
  tier1Strategy : Tier1Strategy
  tier3Enabled : Bool
  drainMaxQueue : Nat
deriving DecidableEq, Repr

structure CostConfig where
  styleSetupCost : CostRange
  renderCpuCost : CostRange
  renderResourceCost : CostRange
  firstRenderResourceCost : CostRange
  hopLatency : Duration
  sla : Duration
deriving DecidableEq, Repr

namespace CostConfig

/-- Wall-clock native-render residency for a warm profile. -/
def warmRenderCost (c : CostConfig) : CostRange := c.renderCpuCost.saturatingAdd c.renderResourceCost

/-- Wall-clock native-render residency for the first render after setup. -/
def firstRenderCost (c : CostConfig) : CostRange := c.renderCpuCost.saturatingAdd c.firstRenderResourceCost

end CostConfig

end Biei
