import Chronicle.Retry
import Chronicle.WakeUp

/-!
# Chronicle.Config

The settings that the components of a node share.
-/

namespace Chronicle

structure Config where
  wakeUp : WakeUpConfig := {}
  /-- After so many permanent failures a position is skipped; `none` tries it for ever. -/
  skipAfter : Option Nat := none
  /-- How the writes of outcomes are retried. -/
  persistRetry : RetryPolicy :=
    { maxRetries := 5, firstDelay := Duration.ofMillis 50, longestDelay := Duration.ofSeconds 5 }

namespace Config

def withWakeUp (c : Config) (wakeUp : WakeUpConfig) : Config := { c with wakeUp }

def withShortest (c : Config) (d : Duration) : Config :=
  { c with wakeUp := { c.wakeUp with shortest := d } }

def withLongest (c : Config) (d : Duration) : Config :=
  { c with wakeUp := { c.wakeUp with longest := d } }

def withSkipAfter (c : Config) (budget : Nat) : Config := { c with skipAfter := some budget }

def withPersistRetry (c : Config) (p : RetryPolicy) : Config := { c with persistRetry := p }

def equals (a b : Config) : Bool :=
  a.wakeUp == b.wakeUp && a.skipAfter == b.skipAfter && a.persistRetry.equals b.persistRetry

end Config

end Chronicle
