import Ia64.Sapic.Local
import Ia64.Lib.RateConversion

/-! The interval time counter and the interval timer match register of a processor. -/

namespace Ia64.Timer

/-- A reading of the virtual clock in nanoseconds: a signed 64-bit number that is never negative. -/
structure Instant where
  ns : Nat
  fits : ns < 2 ^ 63
deriving DecidableEq

/-- The start of the clock. -/
def Instant.zero : Instant := ⟨0, by decide⟩

/-- The number of nanoseconds in a second. -/
def nanosecondsPerSecond : Word := 1000000000

/-- The interval time counter and its position on the virtual clock. -/
structure Itc where
  frequencyHz : BitVec 32
  arItc : Word
  /-- The reading up to which the ticks are in the counter. -/
  lastNs : Instant
  /-- What is left of a tick, as a numerator over a second in nanoseconds. -/
  fraction : BitVec 32
  /-- Ticks handed out before the oscillator made them. -/
  tickDebt : Word
deriving DecidableEq

/-- The ticks of an interval and what is left of the last one. -/
def itcTicksForNs (elapsedNs : Word) (frequencyHz initialFraction : BitVec 32) : Word × BitVec 32 :=
  if elapsedNs < nanosecondsPerSecond then
    -- An interval below a second is converted directly.
    let fraction := elapsedNs * frequencyHz.setWidth 64 + initialFraction.setWidth 64
    (fraction / nanosecondsPerSecond, (fraction % nanosecondsPerSecond).setWidth 32)
  else
    let seconds := elapsedNs / nanosecondsPerSecond
    let nanoseconds := elapsedNs % nanosecondsPerSecond
    let fraction := nanoseconds * frequencyHz.setWidth 64 + initialFraction.setWidth 64
    (seconds * frequencyHz.setWidth 64 + fraction / nanosecondsPerSecond,
      (fraction % nanosecondsPerSecond).setWidth 32)

/-- A product divided without losing its high half. -/
def muldiv64 (a : Word) (b c : BitVec 32) : Word := BitVec.ofNat 64 (a.toNat * b.toNat / c.toNat)

/-- The nanoseconds until the counter has moved by some ticks. -/
def Itc.delayNs (itc : Itc) (deltaTicks : Word) : Word :=
  if uint64Max - itc.tickDebt < deltaTicks then int64Max
  else
    let requiredTicks := deltaTicks + itc.tickDebt
    let maximumTicks := (itcTicksForNs int64Max itc.frequencyHz itc.fraction).1
    if maximumTicks < requiredTicks then int64Max
    else
      let delayNs := muldiv64 requiredTicks (nanosecondsPerSecond.setWidth 32) itc.frequencyHz
      if (itcTicksForNs delayNs itc.frequencyHz itc.fraction).1 < requiredTicks then delayNs + 1
      else delayNs

/-- Bring the counter up to a reading of the clock. -/
def Itc.sync (itc : Itc) (now : Instant) : Itc :=
  if itc.lastNs.ns < now.ns then
    let elapsed := BitVec.ofNat 64 (now.ns - itc.lastNs.ns)
    let (ticks, fraction) := itcTicksForNs elapsed itc.frequencyHz itc.fraction
    -- Ticks that were handed out early are paid back before the counter moves again.
    if ticks ≤ itc.tickDebt then
      { itc with lastNs := now, fraction := fraction, tickDebt := itc.tickDebt - ticks }
    else
      { itc with
        lastNs := now, fraction := fraction, tickDebt := 0, arItc :=
          itc.arItc + (ticks - itc.tickDebt) }
  else itc

/-- Hand out ticks before the oscillator makes them. -/
def Itc.advance (itc : Itc) (ticks : Word) : Itc :=
  { itc with
    arItc := itc.arItc + ticks
    tickDebt := if uint64Max - itc.tickDebt < ticks then uint64Max else itc.tickDebt + ticks }

/-- The counter, the match register and the interrupt it raises. -/
structure IntervalTimer where
  itc : Itc
  crItm : Word
  crItv : Word
  /-- The match value that the host timer waits for. -/
  armedValue : Word
  /-- The match value that raised the last interrupt. -/
  lastMatch : Word
  armed : Bool
  lastMatchValid : Bool
  /-- When the host timer calls back. -/
  deadline : Option Int
  sapic : Sapic.Local

/-- The vectors an external interrupt may carry. -/
def externalInterruptVectorValid (vector : Nat) : Bool :=
  vector == 0 || vector == 2 || decide (16 ≤ vector)

variable (timer : IntervalTimer)

/-- The vector in ITV, if it is one. -/
def IntervalTimer.itvVector : Option (BitVec 8) :=
  let vector := timer.crItv.setWidth 8
  if externalInterruptVectorValid vector.toNat then some vector else none

/-- Whether ITV masks the interrupt. -/
def IntervalTimer.itvMasked : Bool := timer.crItv.getLsbD 16

/-- Whether the vector in ITV is in service. -/
def IntervalTimer.itmInterruptActive : Bool :=
  match timer.itvVector with
  | some vector => Bitmaps.contains timer.sapic.isr vector.toNat
  | none => false

/-- Whether the guest could still read the counter before the tick after its last match. -/
def IntervalTimer.exposesMatch : Bool :=
  !timer.armed && timer.lastMatchValid && timer.itmInterruptActive &&
    decide ((timer.itc.arItc - (timer.lastMatch + 1)).toInt < 0)

/-- Synchronise the counter, and move it past a match whose interrupt is in service. -/
def IntervalTimer.itcAdvancePendingItm (now : Instant) : IntervalTimer :=
  let timer := { timer with itc := timer.itc.sync now }
  if timer.exposesMatch then
    { timer with itc := timer.itc.advance (timer.lastMatch + 1 - timer.itc.arItc) }
  else timer

end Ia64.Timer
