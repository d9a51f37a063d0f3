import Biei.Config
import Biei.RenderKey

/-!
# Tasks on the wire

`wire.rs`: a task between two nodes. A deadline is an instant of one process, so it travels as the budget that is left of it.
-/

namespace Biei

/-- `WireTask`; the wire source is the source. -/
structure WireTask where
  id : UInt64
  requestId : RequestId
  authorization : Option RenderAuthorization
  style : StyleRevision
  source : Option SourceRef
  request : RenderRequest
  scale : Scale
  outputFormat : ImageFormat
  remainingBudgetMs : Nat
  forwardingHops : UInt8

/-- The envelope of a forwarded task. -/
structure ForwardRequest where
  task : WireTask
  routeTier : RouteTier
  drainWorker : Option UInt32
  originResponseBudgetMs : Nat

/-- Milliseconds of a duration, as a `u32` that is clamped and not cut. -/
def clampedMillis (d : Duration) : Nat := min (d / 1000000) (2 ^ 32 - 1)

/-- `u8::saturating_add(1)`. -/
def saturatingSucc (n : UInt8) : UInt8 := if n = 255 then 255 else n + 1

namespace InternalTask

def toWireWithHopLatency (task : InternalTask) (now : Instant) (hopLatency : Duration) : WireTask where
  id := task.id
  requestId := task.requestId
  authorization := task.authorization
  style := task.style
  source := task.source
  request := task.request
  scale := task.pixelRatio.toScale
  outputFormat := task.outputFormat
  remainingBudgetMs := clampedMillis (task.deadline - now - hopLatency)
  forwardingHops := task.forwardingHops

/-- `to_forward_wire`: the round trip is taken off the budget, and the hop is counted. -/
def toForwardWire (task : InternalTask) (now : Instant) (hopLatency : Duration) : WireTask :=
  { task.toWireWithHopLatency now (min (2 * hopLatency) durationMax) with
    forwardingHops := saturatingSucc task.forwardingHops }

end InternalTask

/-- `into_internal`: the task of the receiving process, whose deadline counts from its arrival. -/
def WireTask.intoInternal (wire : WireTask) (now : Instant) : InternalTask where
  id := wire.id
  requestId := wire.requestId
  authorization := wire.authorization
  style := wire.style
  source := wire.source
  request := wire.request
  pixelRatio := .ofScale wire.scale
  outputFormat := wire.outputFormat
  arrivedAt := now
  deadline := now + wire.remainingBudgetMs * 1000000
  forwardingHops := wire.forwardingHops

/-- What a task asks for, whom it is for and how far it has come: everything of it but the budget. -/
def WireTask.content (wire : WireTask) : WireTask := { wire with remainingBudgetMs := 0 }

/-- Only the budget depends on when, and with which latency, a task is sent. -/
theorem InternalTask.content_toForwardWire (task : InternalTask) (now now' : Instant) (hopLatency hopLatency' : Duration) :
    (task.toForwardWire now hopLatency).content = (task.toForwardWire now' hopLatency').content := by
  simp only [WireTask.content, toForwardWire, toWireWithHopLatency]

/-- A task keeps its key over the wire. -/
theorem RenderCacheKey.fromTask_intoInternal {wire : WireTask} {task : InternalTask} {t : Instant} {hopLatency : Duration}
    (h : wire.content = (task.toForwardWire t hopLatency).content) (now : Instant) :
    RenderCacheKey.fromTask (wire.intoInternal now) = RenderCacheKey.fromTask task := by
  have hwire : RenderCacheKey.fromTask (wire.intoInternal now) = RenderCacheKey.fromTask (wire.content.intoInternal now) := by
    simp only [RenderCacheKey.fromTask, WireTask.intoInternal, WireTask.content]
  rw [hwire, h]
  unfold RenderCacheKey.fromTask
  simp [WireTask.intoInternal, WireTask.content, InternalTask.toForwardWire, InternalTask.toWireWithHopLatency]

/-- A task that came without a hop is sent with one. -/
theorem InternalTask.forwardingHops_toForwardWire {task : InternalTask} (h : task.forwardingHops < 1) (now : Instant)
    (hopLatency : Duration) : (task.toForwardWire now hopLatency).forwardingHops = 1 := by
  have hzero : task.forwardingHops = 0 := by
    have hlt := UInt8.lt_iff_toNat_lt.mp h
    refine UInt8.toNat_inj.mp ?_
    have hone : (1 : UInt8).toNat = 1 := rfl
    have hnil : (0 : UInt8).toNat = 0 := rfl
    omega
  simp [toForwardWire, hzero, saturatingSucc]

end Biei
