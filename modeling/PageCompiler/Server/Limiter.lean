import PageCompiler.Settings

/-!
# `PageCompiler.Server.Limiter`: how many compilations run at once

A limiter has slots. A compilation takes one while it runs. If all are taken, it waits for as long
as the limiter says and is then turned away. A wait that is over before the first look at the slots
brings none.
-/

set_option autoImplicit false

namespace PageCompiler

/-- Slots for compilations. -/
structure Limiter where
  maxConcurrency : Int
  /-- How long a compilation waits for a slot, in seconds. -/
  queueTimeout : Float
  /-- The number of slots taken. -/
  taken : Nat
  deriving Repr

/-- A slot is given back though all slots are free. -/
structure SlotsFree where
  deriving DecidableEq, Repr

/-- What is said about a slot given back that nobody holds. -/
def SlotsFree.message (_ : SlotsFree) : String :=
  "Semaphore released too many times"

namespace Limiter

/-- A limiter with all slots free. -/
def ofSettings (s : ApiSettings) : Limiter :=
  { maxConcurrency := s.maxConcurrency, queueTimeout := s.queueTimeout, taken := 0 }

/-- The limiter at work, or a fresh one if the settings have changed. -/
def current (l : Option Limiter) (s : ApiSettings) : Limiter :=
  match l with
  | some l =>
    if l.maxConcurrency == s.maxConcurrency && l.queueTimeout == s.queueTimeout then l
    else ofSettings s
  | none => ofSettings s

/-- Takes a slot, if one is free. -/
def acquire? (l : Limiter) : Option Limiter :=
  if (l.taken : Int) < l.maxConcurrency then some { l with taken := l.taken + 1 } else none

/-- A wait below this time, in seconds, is over before the slots are looked at. -/
def shortestWait : Float := 1e-7

/-- Lets a compilation in, if a slot is free. Without a wait the slots are looked at once. -/
def admit? (l : Limiter) : Option Limiter :=
  if 0 < l.queueTimeout && l.queueTimeout < shortestWait then none else l.acquire?

/-- Gives a slot back. Slots that nobody holds cannot be given back. -/
def release (l : Limiter) : Except SlotsFree Limiter :=
  if l.taken == 0 then .error {} else .ok { l with taken := l.taken - 1 }

/-- Takes up to `n` slots, as long as some are free. -/
def hold (l : Limiter) : Nat → Limiter
  | 0 => l
  | n + 1 => ((l.acquire?).getD l).hold n

/-- Gives `n` slots back, one after another. -/
def releaseAll (l : Limiter) : Nat → Except SlotsFree Limiter
  | 0 => .ok l
  | n + 1 => l.release.bind fun l => l.releaseAll n

end Limiter

end PageCompiler
