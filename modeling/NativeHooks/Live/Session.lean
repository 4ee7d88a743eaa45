/-
# Watch sessions

A session watches one folder.  Changes are sent into its channel, first in first
out; its worker receives them one by one, hands those of headers to a debouncer
and looks at the clock after each.
-/

import NativeHooks.Live.Change
import NativeHooks.Live.Debouncer

namespace NativeHooks

/-- A watch session. -/
structure Session where
  /-- The watched folder. -/
  root : Path
  debouncer : Debouncer
  /-- Changes that were sent and not yet received, the oldest first. -/
  channel : List Change := []
  deriving DecidableEq, Repr, Inhabited

namespace Session

/-- A session that has seen no change. -/
def start (s : Settings) (root : Path) : Session :=
  { root, debouncer := { debounce := s.debounceMs, minInterval := s.minReloadIntervalMs } }

/-- Sends a change. -/
def send (x : Session) (c : Change) : Session := { x with channel := x.channel ++ [c] }

/-- The worker receives the oldest change; one that is no header's has no effect. -/
def receive (s : Settings) (x : Session) (now : Nat) : Session :=
  match x.channel with
  | [] => x
  | c :: more =>
    { x with
      channel := more
      debouncer := if c.isRelevant s then x.debouncer.onChange now else x.debouncer }

/-- The time at which a reload is due. -/
def deadline? (x : Session) : Option Nat :=
  match x.debouncer.phase with
  | .pending deadline => some deadline
  | _ => none

end Session
end NativeHooks
