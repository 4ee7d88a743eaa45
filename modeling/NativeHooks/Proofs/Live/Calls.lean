/-
# What a coordinator owes to its calls

Folders are selected and watched, sessions are stopped, changes are announced and reloads
asked for, in any order and with any answers of the outside: a folder may be missing, a
watch may not start, a scan may fail.  Meanwhile the watched folder changes, and the worker
of the session receives changes and looks at the clock, but no reload falls due.

`follows_of_run` says what can be seen of the coordinator after such a run, by what was
called alone.  Calls do not fail as a whole: a watch that cannot be started still ends the
session before it and leaves its folder selected, and a call for a folder that is missing
ends the session and leaves the folder before it selected.  So what is watched hangs on the
last call that could have ended a session, and what is selected on the last call that found
its folder (`Event.found?`), which may be an earlier one.

A step is one of three kinds, a call that ends a session, a reload that succeeds, and
anything else, which only changes what waits in the session; `Recorded` is what all three
keep.
-/

import NativeHooks.Live.Coordinator
import NativeHooks.Proofs.Live.Run

namespace NativeHooks
namespace Coordinator

/-- What happens to a coordinator: calls, with what the outside answers and what they
return, and what its worker does. -/
inductive Event where
  | select (root : Path) (isFolder : Path → Bool) (result : Except FolderError Unit)
  | watch (root : Path) (isFolder : Path → Bool) (start : Path → Except WatchError Unit)
      (result : Except WatchError Unit)
  | stop
  | notify (change : Change) (told : Bool)
  | reloadNow (scan : Scan) (result : Except ReloadError Report)
  /-- The watched folder changes. -/
  | observe (change : Change)
  /-- The worker receives a change. -/
  | receive (now : Nat)
  /-- The worker looks at the clock. -/
  | look (now : Nat)

/-- A reload is due. -/
def IsDue (c : Coordinator) (now : Nat) : Prop :=
  ∃ x, c.session = some x ∧ (x.debouncer.poll now).1 = .reload

/-- What happens, and where that leads. -/
inductive Step : Coordinator → Event → Coordinator → Prop where
  | select {c : Coordinator} {root : Path} {isFolder : Path → Bool} :
      Step c (.select root isFolder (c.select isFolder root).1) (c.select isFolder root).2
  | watch {c : Coordinator} {root : Path} {isFolder : Path → Bool}
      {start : Path → Except WatchError Unit} :
      Step c (.watch root isFolder start (c.watch isFolder start root).1)
        (c.watch isFolder start root).2
  | stop {c : Coordinator} : Step c .stop c.stop
  | notify {c : Coordinator} {change : Change} :
      Step c (.notify change (c.notify change).1) (c.notify change).2
  | reloadNow {c : Coordinator} {scan : Scan} :
      Step c (.reloadNow scan (c.reloadNow scan).1) (c.reloadNow scan).2
  | observe {c : Coordinator} {change : Change} :
      Step c (.observe change) (c.onSession (·.send change))
  | receive {c : Coordinator} {now : Nat} :
      Step c (.receive now) (c.onSession fun x => x.receive c.settings now)
  | look {c : Coordinator} {now : Nat} (scan : Scan) (done : Nat) (early : ¬ c.IsDue now) :
      Step c (.look now) (c.poll scan now done)

/-! ### What was called -/

/-- The folder of a call that selects one and finds it, whatever becomes of the call. -/
def Event.found? : Event → Option Path
  | select root isFolder _ => if isFolder root then some root else none
  | watch root isFolder _ _ => if isFolder root then some root else none
  | _ => none

/-- A call that ends the session there may be. -/
def Event.endsSession : Event → Bool
  | select _ _ _ => true
  | watch _ _ _ _ => true
  | stop => true
  | _ => false

/-- The folder of a watch that succeeds. -/
def Event.watched? : Event → Option Path
  | watch root _ _ (.ok ()) => some root
  | _ => none

/-- A reload that succeeds. -/
def Event.isReload : Event → Bool
  | reloadNow _ (.ok _) => true
  | _ => false

/-- The folder found last. -/
def lastFound? (log : List Event) : Option Path := (log.filterMap Event.found?).getLast?

/-- The last call of those that end a session. -/
def lastSessionCall? (log : List Event) : Option Event := (log.filter Event.endsSession).getLast?

/-- What is seen of a coordinator. -/
structure View where
  isWatching : Bool
  root : Option Path
  published : Published
  reloads : Nat

/-- What callers can ask for and readers can get. -/
def view (c : Coordinator) : View :=
  { isWatching := c.isWatching, root := c.root, published := c.published, reloads := c.reloads }

/-- What is published is what reloads on demand found. -/
structure Publishes (log : List Event) (c : Coordinator) : Prop where
  version : c.published.version = log.countP Event.isReload
  reloads : c.reloads = log.countP Event.isReload
  untouched : (∀ e ∈ log, e.isReload = false) → c.published.current = {}
  /-- The last reload that succeeded scanned the folder selected at the time, and the index
  is what it found. -/
  current : ∀ {past scan report more}, log = past ++ .reloadNow scan (.ok report) :: more →
    (∀ e ∈ more, e.isReload = false) →
    ∃ root outcome, lastFound? past = some root ∧ scan root = .ok outcome ∧
      outcome.report = report ∧ c.published.current = outcome.index

/-- What is seen of a coordinator is what its calls so far say. -/
structure Follows (log : List Event) (c : Coordinator) : Prop where
  /-- It watches if the last call that could end a session was a watch that succeeded. -/
  watching : c.isWatching = true ↔ ∃ root isFolder start,
    lastSessionCall? log = some (.watch root isFolder start (.ok ()))
  watched : ∀ {root isFolder start},
    lastSessionCall? log = some (.watch root isFolder start (.ok ())) → c.root = some root
  root : c.root = lastFound? log
  published : Publishes log c
  /-- An announcement says whether there is a session, and is not seen otherwise. -/
  notify : ∀ change, (c.notify change).1 = c.isWatching ∧ (c.notify change).2.view = c.view
  /-- A reload that fails is not seen at all. -/
  failure : ∀ scan error, (c.reloadNow scan).1 = .error error →
    (c.reloadNow scan).2.view = c.view

/-! ### The last of a log -/

section Log

variable (log : List Event) (e : Event)

theorem lastFound?_concat : lastFound? (log ++ [e]) = e.found?.or (lastFound? log) := by
  rw [lastFound?, lastFound?, List.filterMap_append, List.getLast?_append]
  rcases h : e.found? with _ | root <;> simp [h]

theorem lastSessionCall?_concat :
    lastSessionCall? (log ++ [e]) = if e.endsSession then some e else lastSessionCall? log := by
  rw [lastSessionCall?, lastSessionCall?, List.filter_append, List.getLast?_append]
  rcases h : e.endsSession with _ | _ <;> simp [h]

/-- A place in a log with one more event is the last one, or one in the log before. -/
theorem concat_eq_append_cons {log past more : List Event} {e x : Event}
    (h : log ++ [e] = past ++ x :: more) :
    (log = past ∧ e = x ∧ more = []) ∨
      ∃ before, log = past ++ x :: before ∧ more = before ++ [e] := by
  rcases List.eq_nil_or_concat more with rfl | ⟨before, last, rfl⟩
  · obtain ⟨hlog, hlast⟩ := List.append_inj' h rfl
    exact .inl ⟨hlog, List.singleton_inj.1 hlast, rfl⟩
  · rw [List.concat_eq_append, ← List.cons_append, ← List.append_assoc] at h
    obtain ⟨hlog, hlast⟩ := List.append_inj' h rfl
    rw [List.singleton_inj.1 hlast]
    exact .inr ⟨before, hlog, List.concat_eq_append⟩

theorem watched?_eq_some_iff {root : Path} :
    e.watched? = some root ↔ ∃ isFolder start, e = .watch root isFolder start (.ok ()) := by
  constructor
  · intro h
    cases e with
    | watch other isFolder start result =>
        cases result with
        | error _ => exact absurd h (by simp [Event.watched?])
        | ok _ =>
            obtain rfl : other = root := by simpa [Event.watched?] using h
            exact ⟨isFolder, start, rfl⟩
    | select _ _ _ | stop | notify _ _ | reloadNow _ _ | observe _ | receive _ | look _ =>
        exact absurd h (by simp [Event.watched?])
  · rintro ⟨isFolder, start, rfl⟩
    rfl

end Log

/-! ### What each step does -/

section Steps

variable {c c' : Coordinator} {e : Event}

@[simp] theorem view_onSession (c : Coordinator) (f : Session → Session) :
    (c.onSession f).view = c.view := by
  simp [view, onSession, isWatching]

/-- An announcement only changes the channel. -/
theorem notify_eq (c : Coordinator) (change : Change) :
    c.notify change = (c.isWatching, c.onSession (·.send change)) := rfl

/-- A look at the clock in time only changes the debouncer. -/
theorem poll_of_not_isDue {scan : Scan} {now done : Nat} (h : ¬ c.IsDue now) :
    c.poll scan now done
      = c.onSession fun x => { x with debouncer := (x.debouncer.poll now).2 } := by
  rcases hsession : c.session with _ | x
  · simp only [poll, onSession, hsession, Option.map_none]
    rw [← hsession]
  · have hne : (x.debouncer.poll now).1 ≠ .reload := fun heq => h ⟨x, hsession, heq⟩
    rcases htick : x.debouncer.poll now with ⟨tick, debouncer⟩
    rw [htick] at hne
    simp only [poll, onSession, hsession, htick, Option.map_some]

theorem root_receive (s : Settings) (x : Session) (now : Nat) : (x.receive s now).root = x.root := by
  unfold Session.receive
  split <;> rfl

/-- A reload fails and changes nothing, or publishes what the scan found in the selected
folder. -/
theorem reloadNow_cases (c : Coordinator) (scan : Scan) :
    (∃ error, c.reloadNow scan = (.error error, c)) ∨
      ∃ root outcome, c.root = some root ∧ scan root = .ok outcome ∧
        c.reloadNow scan = (.ok outcome.report, (c.publish (.ok outcome)).2) := by
  rcases hroot : c.root with _ | root
  · exact .inl ⟨.noFolder, by simp only [reloadNow, hroot]⟩
  · rcases hscan : scan root with error | outcome
    · exact .inl ⟨.folder error, by simp only [reloadNow, hroot, hscan]; rfl⟩
    · exact .inr ⟨root, outcome, rfl, hscan, by simp only [reloadNow, hroot, hscan]; rfl⟩

/-- A call that ends a session selects the folder that it finds, and starts a session if it
is a watch that succeeds. -/
theorem Step.of_endsSession (h : Step c e c') (hends : e.endsSession = true) :
    c' = { c with
      root := e.found?.or c.root, session := e.watched?.map (Session.start c.settings) } := by
  cases h with
  | @select root isFolder =>
      by_cases hfolder : isFolder root = true <;>
        simp [Coordinator.select, Coordinator.stop, Event.found?, Event.watched?, hfolder]
  | @watch root isFolder start =>
      by_cases hfolder : isFolder root = true
      · rcases hstart : start root with error | _ <;>
          simp [Coordinator.watch, Coordinator.select, Coordinator.stop, Event.found?,
            Event.watched?, hfolder, hstart]
      · simp [Coordinator.watch, Coordinator.select, Coordinator.stop, Event.found?,
          Event.watched?, hfolder]
  | stop => rfl
  | notify | reloadNow | observe | receive | look _ _ _ =>
      exact absurd hends (by simp [Event.endsSession])

/-- A watch that succeeds has found its folder. -/
theorem Step.found?_of_watched? (h : Step c e c') {root : Path} (hwatched : e.watched? = some root) :
    e.found? = some root := by
  obtain ⟨isFolder, start, rfl⟩ := (watched?_eq_some_iff e).1 hwatched
  generalize hresult : Except.ok () = result at h
  cases h with
  | watch =>
      by_cases hfolder : isFolder root = true
      · exact if_pos hfolder
      · simp [Coordinator.watch, Coordinator.select, hfolder] at hresult

/-- A reload that succeeds publishes what the scan of the selected folder found. -/
theorem Step.of_isReload (h : Step c e c') (hreload : e.isReload = true) :
    ∃ scan root outcome, e = .reloadNow scan (.ok outcome.report) ∧ c.root = some root ∧
      scan root = .ok outcome ∧ c' = (c.publish (.ok outcome)).2 := by
  cases h with
  | @reloadNow scan =>
      rcases reloadNow_cases c scan with ⟨error, heq⟩ | ⟨root, outcome, hroot, hscan, heq⟩
      · rw [heq] at hreload
        exact absurd hreload (by simp [Event.isReload])
      · exact ⟨scan, root, outcome, by rw [heq], hroot, hscan, by rw [heq]⟩
  | select | watch | stop | notify | observe | receive | look _ _ _ =>
      exact absurd hreload (by simp [Event.isReload])

/-- All other steps change nothing but what waits in the session. -/
theorem Step.of_quiet (h : Step c e c') (hends : e.endsSession = false)
    (hreload : e.isReload = false) :
    ∃ f : Session → Session, (∀ x, (f x).root = x.root) ∧ c' = c.onSession f := by
  cases h with
  | select | watch | stop => exact absurd hends (by simp [Event.endsSession])
  | @notify change | @observe change => exact ⟨(·.send change), fun _ => rfl, rfl⟩
  | @reloadNow scan =>
      rcases reloadNow_cases c scan with ⟨error, heq⟩ | ⟨root, outcome, -, -, heq⟩
      · exact ⟨id, fun _ => rfl, by rw [heq]; simp [onSession]⟩
      · rw [heq] at hreload
        exact absurd hreload (by simp [Event.isReload])
  | @receive now =>
      exact ⟨fun x => x.receive c.settings now, fun x => root_receive c.settings x now, rfl⟩
  | @look now scan done early =>
      exact ⟨fun x => { x with debouncer := (x.debouncer.poll now).2 }, fun _ => rfl,
        poll_of_not_isDue early⟩

theorem Event.found?_eq_none (hends : e.endsSession = false) : e.found? = none := by
  cases e with
  | select _ _ _ | watch _ _ _ _ | stop => exact absurd hends (by simp [Event.endsSession])
  | notify _ _ | reloadNow _ _ | observe _ | receive _ | look _ => rfl

theorem Event.isReload_eq_false (hends : e.endsSession = true) : e.isReload = false := by
  cases e with
  | select _ _ _ | watch _ _ _ _ | stop => rfl
  | notify _ _ | reloadNow _ _ | observe _ | receive _ | look _ =>
      exact absurd hends (by simp [Event.endsSession])

end Steps

/-! ### What every step keeps -/

/-- How the log records the state. -/
structure Recorded (log : List Event) (c : Coordinator) : Prop where
  root : c.root = lastFound? log
  session : c.session.map (·.root) = (lastSessionCall? log).bind Event.watched?
  /-- The folder that is watched is selected. -/
  selected : ∀ x, c.session = some x → c.root = some x.root
  published : Publishes log c

section Runs

variable {c c' : Coordinator} {log : List Event} {e : Event}

/-- An event that is no reload publishes nothing. -/
theorem Publishes.concat (h : Publishes log c) (hreload : e.isReload = false)
    (hpublished : c'.published = c.published) (hreloads : c'.reloads = c.reloads) :
    Publishes (log ++ [e]) c' := by
  have hcount : (log ++ [e]).countP Event.isReload = log.countP Event.isReload := by simp [hreload]
  constructor
  case version => rw [hpublished, hcount, h.version]
  case reloads => rw [hreloads, hcount, h.reloads]
  case untouched =>
    intro hall
    rw [hpublished]
    exact h.untouched fun e he => hall e (List.mem_append_left _ he)
  case current =>
    intro past scan report more hlog hmore
    rcases concat_eq_append_cons hlog with ⟨-, rfl, -⟩ | ⟨before, hbefore, rfl⟩
    · exact absurd hreload (by simp [Event.isReload])
    · rw [hpublished]
      exact h.current hbefore fun e he => hmore e (List.mem_append_left _ he)

theorem Publishes.reload (h : Publishes log c) {scan : Scan} {root : Path} {outcome : Outcome}
    (hroot : lastFound? log = some root) (hscan : scan root = .ok outcome) :
    Publishes (log ++ [.reloadNow scan (.ok outcome.report)]) (c.publish (.ok outcome)).2 := by
  have hcount : (log ++ [Event.reloadNow scan (.ok outcome.report)]).countP Event.isReload
      = log.countP Event.isReload + 1 := by
    simp [Event.isReload]
  constructor
  case version => exact hcount ▸ congrArg (· + 1) h.version
  case reloads => exact hcount ▸ congrArg (· + 1) h.reloads
  case untouched =>
    intro hall
    have hlast := hall _ (List.mem_append_right _ (List.mem_singleton.2 rfl))
    exact absurd hlast (by simp [Event.isReload])
  case current =>
    intro past scan' report more hlog hmore
    rcases concat_eq_append_cons hlog with ⟨rfl, hlast, -⟩ | ⟨before, -, rfl⟩
    · obtain ⟨rfl, hresult⟩ := Event.reloadNow.inj hlast
      exact ⟨root, outcome, hroot, hscan, Except.ok.inj hresult, rfl⟩
    · -- This reload would be one of those events that are none.
      have hlast := hmore _ (List.mem_append_right _ (List.mem_singleton.2 rfl))
      exact absurd hlast (by simp [Event.isReload])

theorem recorded_start (s : Settings) : Recorded [] { settings := s } where
  root := rfl
  session := rfl
  selected := fun _ h => nomatch h
  published :=
    { version := rfl
      reloads := rfl
      untouched := fun _ => rfl
      current := fun h =>
        absurd h.symm (List.append_ne_nil_of_right_ne_nil _ (List.cons_ne_nil _ _)) }

theorem Recorded.of_endsSession (h : Recorded log c) (hends : e.endsSession = true)
    (hfound : ∀ root, e.watched? = some root → e.found? = some root) :
    Recorded (log ++ [e]) { c with
      root := e.found?.or c.root, session := e.watched?.map (Session.start c.settings) } := by
  constructor
  case root => rw [lastFound?_concat, h.root]
  case session =>
    rw [lastSessionCall?_concat, if_pos hends, Option.map_map]
    exact Option.map_id'
  case selected =>
    intro x hx
    obtain ⟨root, hwatched, rfl⟩ := Option.map_eq_some_iff.1 hx
    exact congrArg (·.or c.root) (hfound root hwatched)
  case published => exact h.published.concat (Event.isReload_eq_false hends) rfl rfl

theorem Recorded.of_isReload (h : Recorded log c) {scan : Scan} {root : Path} {outcome : Outcome}
    (hroot : c.root = some root) (hscan : scan root = .ok outcome) :
    Recorded (log ++ [.reloadNow scan (.ok outcome.report)]) (c.publish (.ok outcome)).2 := by
  constructor
  case root => rw [lastFound?_concat]; exact h.root
  case session => rw [lastSessionCall?_concat]; exact h.session
  case selected => exact h.selected
  case published => exact h.published.reload (h.root ▸ hroot) hscan

theorem Recorded.of_quiet (h : Recorded log c) (hends : e.endsSession = false)
    (hreload : e.isReload = false) {f : Session → Session} (hf : ∀ x, (f x).root = x.root) :
    Recorded (log ++ [e]) (c.onSession f) := by
  constructor
  case root => rw [lastFound?_concat, Event.found?_eq_none hends]; exact h.root
  case session =>
    rw [lastSessionCall?_concat, if_neg (by simp [hends]), ← h.session]
    simp [onSession, Function.comp_def, hf]
  case selected =>
    intro x hx
    obtain ⟨y, hy, rfl⟩ := Option.map_eq_some_iff.1 hx
    rw [hf]
    exact h.selected y hy
  case published => exact h.published.concat hreload rfl rfl

theorem Recorded.step (h : Recorded log c) (hstep : Step c e c') : Recorded (log ++ [e]) c' := by
  rcases hends : e.endsSession with _ | _
  · rcases hreload : e.isReload with _ | _
    · obtain ⟨f, hf, rfl⟩ := hstep.of_quiet hends hreload
      exact h.of_quiet hends hreload hf
    · obtain ⟨scan, root, outcome, rfl, hroot, hscan, rfl⟩ := hstep.of_isReload hreload
      exact h.of_isReload hroot hscan
  · rw [hstep.of_endsSession hends]
    exact h.of_endsSession hends fun _ => hstep.found?_of_watched?

theorem recorded_of_run {s : Settings} {trace : List (Event × Coordinator)}
    (h : Run Step { settings := s } trace c) : Recorded (events trace) c := by
  induction h with
  | start => exact recorded_start s
  | step _ next ih =>
      rw [events_append]
      exact ih.step next

/-- **A coordinator follows its calls** as long as no reload falls due by itself. -/
theorem follows_of_run {s : Settings} {trace : List (Event × Coordinator)}
    (h : Run Step { settings := s } trace c) : Follows (events trace) c := by
  have hrecorded := recorded_of_run h
  have hroot : ∀ {root isFolder start},
      lastSessionCall? (events trace) = some (.watch root isFolder start (.ok ())) →
        c.session.map (·.root) = some root := by
    intro root isFolder start hlast
    rw [hrecorded.session, hlast]
    rfl
  constructor
  case watching =>
    constructor
    · intro hwatching
      obtain ⟨x, hx⟩ := Option.isSome_iff_exists.1 hwatching
      have hlast := hrecorded.session
      rw [hx, Option.map_some, eq_comm, Option.bind_eq_some_iff] at hlast
      obtain ⟨e, hlast, hwatched⟩ := hlast
      obtain ⟨isFolder, start, rfl⟩ := (watched?_eq_some_iff e).1 hwatched
      exact ⟨x.root, isFolder, start, hlast⟩
    · rintro ⟨root, isFolder, start, hlast⟩
      have hsome := congrArg Option.isSome (hroot hlast)
      rwa [Option.isSome_map] at hsome
  case watched =>
    intro root isFolder start hlast
    obtain ⟨x, hx, rfl⟩ := Option.map_eq_some_iff.1 (hroot hlast)
    exact hrecorded.selected x hx
  case root => exact hrecorded.root
  case published => exact hrecorded.published
  case notify =>
    intro change
    rw [notify_eq]
    exact ⟨rfl, view_onSession c _⟩
  case failure =>
    intro scan error herror
    rcases reloadNow_cases c scan with ⟨_, heq⟩ | ⟨root, outcome, -, -, heq⟩
    · rw [heq]
    · rw [heq] at herror
      exact absurd herror (by simp)

/-- Calls too early, a watch that does not start but selects its folder, one that starts
and whose worker is busy, a reload that fails, and at last a folder that is missing. -/
theorem follows_of_run_failures :
    let sdk := Path.ofString "/sdk"
    let gone := Path.ofString "/gone"
    let change := Change.changed (Path.ofString "/sdk/a.h")
    let outcome (fileName : String) : Outcome :=
      Outcome.ofSources "/sdk" [{ location := fileName, fileName, relativeLocation := fileName
                                  directory := "" }] fun _ => (.ok "" : Except String String)
    let log : List Event :=
      [.notify change false, .reloadNow (fun _ => .ok (outcome "a.h")) (.error .noFolder),
        .select gone (fun _ => false) (.error (.notFound gone)),
        .watch sdk (fun _ => true) (fun _ => .error (.noObserver "full"))
          (.error (.noObserver "full")),
        .reloadNow (fun _ => .ok (outcome "a.h")) (.ok (outcome "a.h").report),
        .watch sdk (fun _ => true) (fun _ => .ok ()) (.ok ()), .notify change true,
        .receive 0, .observe change, .look 400,
        .reloadNow (fun _ => .error (.notFound sdk)) (.error (.folder (.notFound sdk))),
        .reloadNow (fun _ => .ok (outcome "b.h")) (.ok (outcome "b.h").report),
        .select gone (fun _ => false) (.error (.notFound gone))]
    ∃ trace c, Run Step { settings := Settings.default 1 } trace c ∧ events trace = log ∧
      c.isWatching = false ∧ c.root = some sdk ∧ c.reloads = 2 ∧ Follows (events trace) c := by
  intro sdk gone change outcome log
  have hstart : Run Step { settings := Settings.default 1 } [] { settings := Settings.default 1 } :=
    .start
  have hearly := hstart
    |>.step (e := .notify change false) .notify
    |>.step (e := .reloadNow (fun _ => .ok (outcome "a.h")) (.error .noFolder)) .reloadNow
    |>.step (e := .select gone (fun _ => false) (.error (.notFound gone))) .select
  have hselected := hearly
    |>.step (e := .watch sdk (fun _ => true) (fun _ => .error (.noObserver "full"))
      (.error (.noObserver "full"))) .watch
    |>.step (e := .reloadNow (fun _ => .ok (outcome "a.h")) (.ok (outcome "a.h").report)) .reloadNow
  have hwatching := hselected
    |>.step (e := .watch sdk (fun _ => true) (fun _ => .ok ()) (.ok ())) .watch
    |>.step (e := .notify change true) .notify
    |>.step (e := .receive 0) .receive
    |>.step (e := .observe change) .observe
    |>.step (e := .look 400) (.look (fun _ => .error (.notFound sdk)) 400 (by
      rintro ⟨x, hx, hdue⟩
      obtain rfl := Option.some.inj hx
      exact absurd hdue (by decide)))
  have hrun := hwatching
    |>.step (e := .reloadNow (fun _ => .error (.notFound sdk)) (.error (.folder (.notFound sdk))))
      .reloadNow
    |>.step (e := .reloadNow (fun _ => .ok (outcome "b.h")) (.ok (outcome "b.h").report)) .reloadNow
    |>.step (e := .select gone (fun _ => false) (.error (.notFound gone))) .select
  exact ⟨_, _, hrun, rfl, rfl, rfl, rfl, follows_of_run hrun⟩

end Runs
end Coordinator
end NativeHooks
