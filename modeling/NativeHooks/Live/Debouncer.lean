/-
# Waiting for changes to settle

Changes come in bursts, and a burst is to cause one reload.  A change starts a
wait, every further change starts it anew, and when it is over a reload is due.
It is dropped if the last one finished less than the minimum interval ago.
A change that comes in during a reload starts a wait when the reload finishes.

Times are in milliseconds; the clock may go backwards.
-/

namespace NativeHooks

/-- Where a debouncer stands. -/
inductive Phase where
  /-- No change waits. -/
  | idle
  /-- A change waits for the deadline. -/
  | pending (deadline : Nat)
  /-- A reload runs. -/
  | reloading
  deriving DecidableEq, Repr, Inhabited

/-- What is to be done. -/
inductive Tick where
  /-- Nothing. -/
  | idle
  /-- Wait, for the deadline or the running reload. -/
  | waiting
  /-- Reload, and report when that is finished. -/
  | reload
  /-- Nothing: the reload comes too soon after the last one. -/
  | rejected
  deriving DecidableEq, Repr

/-- Decides when changes cause a reload. -/
structure Debouncer where
  /-- Time from the last change of a burst to its reload. -/
  debounce : Nat
  /-- Least time from the end of a reload to the next one. -/
  minInterval : Nat
  phase : Phase := .idle
  /-- When the last reload finished. -/
  lastReload : Option Nat := none
  /-- A change came in during the reload that runs. -/
  queued : Bool := false
  deriving DecidableEq, Repr, Inhabited

namespace Debouncer

/-- A change comes in. -/
def onChange (d : Debouncer) (now : Nat) : Debouncer :=
  match d.phase with
  | .reloading => { d with queued := true }
  | _ => { d with phase := .pending (now + d.debounce) }

/-- The last reload finished less than the minimum interval ago. -/
def tooSoon (d : Debouncer) (now : Nat) : Bool :=
  d.lastReload.any fun t => now - t < d.minInterval

/-- Looks at the clock: what is to be done, and where that leads. -/
def poll (d : Debouncer) (now : Nat) : Tick × Debouncer :=
  match d.phase with
  | .idle => (.idle, d)
  | .reloading => (.waiting, d)
  | .pending deadline =>
    if now < deadline then (.waiting, d)
    else if d.tooSoon now then (.rejected, { d with phase := .idle })
    else (.reload, { d with phase := .reloading })

/-- The reload has finished, well or not. -/
def finish (d : Debouncer) (now : Nat) : Debouncer :=
  { d with
    lastReload := some now
    queued := false
    phase := if d.queued then .pending (now + d.debounce) else .idle }

/-- Drops the change that waits. -/
def cancel (d : Debouncer) : Debouncer :=
  { d with
    queued := false
    phase := match d.phase with
      | .pending _ => .idle
      | phase => phase }

/-- The time until the deadline, if a change waits for one. -/
def nextTimeout (d : Debouncer) (now : Nat) : Option Nat :=
  match d.phase with
  | .pending deadline => some (deadline - now)
  | _ => none

end Debouncer
end NativeHooks
