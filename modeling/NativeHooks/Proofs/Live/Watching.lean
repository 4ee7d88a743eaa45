/-
# No change is lost

While a session watches, changes are sent into its channel at any time, also while its
worker reloads.  The worker goes round a loop: it waits in the channel, for the deadline
of the debouncer if there is one and else for some time; it hands the change that it
received to the debouncer, or goes on if none came in time; it looks at the clock; and
it reloads if that is due, which takes as long as it takes.  All readings of the clock
are in order, and that is all that is known of time; its unit does not matter.

`no_change_lost` says what becomes of the changes: each one of a header is in the
channel, or is waited for, or a reload began after it was received.  What could lose one
is a reload that is rejected, and none is if the debounce time is no less than the
minimum interval between reloads: a wait begins only when no reload runs, so it ends no
sooner than the debounce time after the last one (`Sound`).

A session that is to stop gets a signal behind the changes in its channel; what is sent
later is not received.
-/

import NativeHooks.Live.Coordinator
import NativeHooks.Proofs.Live.Debouncing

namespace NativeHooks

/-- Where the worker of a session stands in its loop. -/
inductive WorkerStage where
  /-- It is about to wait. -/
  | resting
  /-- It waits in the channel, until the deadline if there is one. -/
  | waiting (deadline : Option Nat)
  /-- It is about to look at the clock. -/
  | looking
  /-- It reloads. -/
  | reloading
  /-- It has left the loop. -/
  | gone
  deriving DecidableEq, Repr

/-- A session under way. -/
structure Watch where
  session : Session
  stage : WorkerStage := .resting
  /-- When the clock was read last. -/
  clock : Nat := 0
  /-- The session is to stop: the signal stands behind the changes in the channel. -/
  stopping : Bool := false
  deriving DecidableEq, Repr

namespace Watch

/-- What happens in a session. -/
inductive Event where
  /-- A change is sent. -/
  | send (change : Change)
  /-- The session is told to stop. -/
  | stop
  /-- The worker begins to wait. -/
  | wait (now : Nat)
  /-- The worker receives the oldest change and hands it to the debouncer. -/
  | receive (change : Change) (now : Nat)
  /-- No change came in time. -/
  | timeOut (now : Nat)
  /-- The worker looks at the clock and this is to be done; a reload begins at once. -/
  | look (now : Nat) (tick : Tick)
  /-- The reload is over, well or not. -/
  | reloaded (now : Nat)
  /-- The worker receives the signal to stop. -/
  | leave
  deriving DecidableEq, Repr

/-- The change that is sent. -/
def Event.sent : Event → List Change
  | send change => [change]
  | _ => []

/-- The change that is received. -/
def Event.received : Event → List Change
  | receive change _ => [change]
  | _ => []

/-- All changes that were sent, the oldest first. -/
def sent (log : List Event) : List Change := log.flatMap Event.sent

/-- All changes that were received, the oldest first. -/
def received (log : List Event) : List Change := log.flatMap Event.received

/-- A session at its start. -/
def start (s : Settings) (root : Path) : Watch := { session := Session.start s root }

/-- The session with another debouncer. -/
def withDebouncer (w : Watch) (debouncer : Debouncer) : Session := { w.session with debouncer }

/-- A change waits for the deadline. -/
def IsPending (w : Watch) : Prop := ∃ deadline, w.session.debouncer.phase = .pending deadline

/-- What happens in a session, and where that leads. -/
inductive Step (s : Settings) : Watch → Event → Watch → Prop where
  | send {w : Watch} {change : Change} (running : w.stopping = false) :
      Step s w (.send change) { w with session := w.session.send change }
  | stop {w : Watch} : Step s w .stop { w with stopping := true }
  | wait {w : Watch} {now : Nat} (stage : w.stage = .resting) (clock : w.clock ≤ now) :
      Step s w (.wait now)
        { w with
          stage := .waiting ((w.session.debouncer.nextTimeout now).map (now + ·)), clock := now }
  | receive {w : Watch} {deadline : Option Nat} {change : Change} {more : List Change} {now : Nat}
      (stage : w.stage = .waiting deadline) (channel : w.session.channel = change :: more)
      (clock : w.clock ≤ now) :
      Step s w (.receive change now)
        { w with session := w.session.receive s now, stage := .looking, clock := now }
  | timeOut {w : Watch} {deadline : Option Nat} {now : Nat} (stage : w.stage = .waiting deadline)
      (due : ∀ t, deadline = some t → t ≤ now) (clock : w.clock ≤ now) :
      Step s w (.timeOut now) { w with stage := .looking, clock := now }
  | look {w : Watch} {now : Nat} (stage : w.stage = .looking) (clock : w.clock ≤ now) :
      Step s w (.look now (w.session.debouncer.poll now).1)
        { w with
          session := w.withDebouncer (w.session.debouncer.poll now).2
          stage := if (w.session.debouncer.poll now).1 = .reload then .reloading else .resting
          clock := now }
  | reloaded {w : Watch} {now : Nat} (stage : w.stage = .reloading) (clock : w.clock ≤ now) :
      Step s w (.reloaded now)
        { w with
          session := w.withDebouncer (w.session.debouncer.finish now)
          stage := .resting, clock := now }
  | leave {w : Watch} {deadline : Option Nat} (stage : w.stage = .waiting deadline)
      (channel : w.session.channel = []) (stopping : w.stopping = true) :
      Step s w .leave
        { w with session := w.withDebouncer w.session.debouncer.cancel, stage := .gone }

/-! ### Order in the channel -/

theorem Step.channel {s : Settings} {w w' : Watch} {e : Event} (h : Step s w e w') :
    w.session.channel ++ e.sent = e.received ++ w'.session.channel := by
  cases h with
  | send _ => rfl
  | receive _ channel _ => simp [Event.sent, Event.received, Session.receive, channel]
  | stop | wait _ _ | timeOut _ _ _ | look _ _ | reloaded _ _ | leave _ _ _ =>
      simp [Event.sent, Event.received, withDebouncer]

/-- First in, first out: what was sent was received or is in the channel, in this order. -/
theorem sent_eq {s : Settings} {root : Path} {trace : List (Event × Watch)} {w : Watch}
    (h : Run (Step s) (start s root) trace w) :
    sent (events trace) = received (events trace) ++ w.session.channel := by
  induction h with
  | start => rfl
  | @step trace x y e _ next ih =>
      have hsent : sent (events (trace ++ [(e, y)])) = sent (events trace) ++ e.sent := by
        simp [sent]
      have hreceived : received (events (trace ++ [(e, y)]))
          = received (events trace) ++ e.received := by
        simp [received]
      rw [hsent, hreceived, ih, List.append_assoc, List.append_assoc, next.channel]

/-- Where a change was received. -/
theorem exists_receive {trace : List (Event × Watch)} {i : Nat} {change : Change}
    (h : (received (events trace))[i]? = some change) :
    ∃ past now x after, trace = past ++ (.receive change now, x) :: after ∧
      (received (events past)).length = i := by
  induction trace generalizing i with
  | nil => exact absurd h (by simp [received])
  | cons m trace ih =>
      obtain ⟨e, x⟩ := m
      have hlog : received (events ((e, x) :: trace)) = e.received ++ received (events trace) := by
        simp [received]
      rw [hlog] at h
      rcases Nat.lt_or_ge i e.received.length with hlt | hge
      · -- The event is the one: no other receives anything.
        rw [List.getElem?_append_left hlt] at h
        cases e with
        | receive received now =>
            obtain rfl : i = 0 := by simpa [Event.received] using hlt
            obtain rfl : received = change := by simpa [Event.received] using h
            exact ⟨[], now, x, trace, rfl, rfl⟩
        | send _ | stop | wait _ | timeOut _ | look _ _ | reloaded _ | leave =>
            exact absurd hlt (Nat.not_lt_zero i)
      · rw [List.getElem?_append_right hge] at h
        obtain ⟨past, now, y, after, rfl, hplace⟩ := ih h
        refine ⟨(e, x) :: past, now, y, after, rfl, ?_⟩
        have hpast : received (events ((e, x) :: past)) = e.received ++ received (events past) := by
          simp [received]
        rw [hpast, List.length_append, hplace]
        omega

/-! ### What every step keeps -/

/-- What holds of a session all the time. -/
structure Sound (w : Watch) : Prop where
  interval : w.session.debouncer.minInterval ≤ w.session.debouncer.debounce
  /-- No reload has finished in the future. -/
  finished : ∀ f, w.session.debouncer.lastReload = some f → f ≤ w.clock
  /-- A wait ends long enough after the last reload. -/
  spaced : ∀ deadline f, w.session.debouncer.phase = .pending deadline →
    w.session.debouncer.lastReload = some f → f + w.session.debouncer.minInterval ≤ deadline
  /-- Debouncer and worker agree on whether a reload runs. -/
  reloading : w.session.debouncer.phase = .reloading ↔ w.stage = .reloading
  /-- The worker does not receive anything during a reload. -/
  queued : w.session.debouncer.queued = false

theorem sound_start {s : Settings} (hinterval : s.minReloadIntervalMs ≤ s.debounceMs) (root : Path) :
    (start s root).Sound where
  interval := hinterval
  finished := fun _ h => absurd h.symm (Option.some_ne_none _)
  spaced := fun _ _ h => absurd h Phase.noConfusion
  reloading := ⟨fun h => absurd h Phase.noConfusion, fun h => absurd h WorkerStage.noConfusion⟩
  queued := rfl

section Sound

variable {w : Watch} {now : Nat}

theorem Sound.phase_ne (h : w.Sound) (hstage : w.stage ≠ .reloading) :
    w.session.debouncer.phase ≠ .reloading := fun hphase => hstage (h.reloading.1 hphase)

/-- Only what the debouncer and the clock say matters, and whether a reload runs. -/
theorem Sound.of_eq (h : w.Sound) {w' : Watch}
    (hdebouncer : w'.session.debouncer = w.session.debouncer) (hclock : w.clock ≤ w'.clock)
    (hstage : w'.stage = .reloading ↔ w.stage = .reloading) : w'.Sound where
  interval := hdebouncer ▸ h.interval
  finished := fun f hf => Nat.le_trans (h.finished f (hdebouncer ▸ hf)) hclock
  spaced := fun deadline f hp hf => by
    rw [hdebouncer] at hp hf ⊢
    exact h.spaced deadline f hp hf
  reloading := by rw [hdebouncer, hstage, h.reloading]
  queued := hdebouncer ▸ h.queued

/-- A wait that begins now ends long enough after the last reload. -/
theorem Sound.onChange (h : w.Sound) (hstage : w.stage ≠ .reloading) (hclock : w.clock ≤ now)
    {w' : Watch} (hdebouncer : w'.session.debouncer = w.session.debouncer.onChange now)
    (hnow : w'.clock = now) (hstage' : w'.stage ≠ .reloading) : w'.Sound := by
  rw [Debouncer.onChange_of_ne (h.phase_ne hstage)] at hdebouncer
  refine ⟨?_, ?_, ?_, ?_, ?_⟩ <;> rw [hdebouncer]
  · exact h.interval
  · intro f hf
    rw [hnow]
    exact Nat.le_trans (h.finished f hf) hclock
  · intro deadline f hp hf
    obtain rfl : now + w.session.debouncer.debounce = deadline := Phase.pending.inj hp
    exact Nat.add_le_add (Nat.le_trans (h.finished f hf) hclock) h.interval
  · exact ⟨fun hp => absurd hp Phase.noConfusion, fun hs => absurd hs hstage'⟩
  · exact h.queued

/-- **A reload is never rejected:** a wait that is over ended long enough after the last
reload. -/
theorem Sound.poll_ne_rejected (h : w.Sound) (now : Nat) :
    (w.session.debouncer.poll now).1 ≠ .rejected := by
  intro hrejected
  rcases w.session.debouncer.poll_cases now with ⟨tick, hpoll, -, hne⟩ |
      ⟨deadline, hphase, hdue, hsoon, -⟩ | ⟨deadline, -, -, -, hpoll⟩
  · exact hne (by rw [← hrejected, hpoll])
  · obtain ⟨f, hf, hlt⟩ := Debouncer.tooSoon_eq_true_iff.1 hsoon
    have hspaced := h.spaced deadline f hphase hf
    omega
  · rw [hpoll] at hrejected
    exact absurd hrejected Tick.noConfusion

theorem Sound.step {s : Settings} {w' : Watch} {e : Event} (h : w.Sound) (hstep : Step s w e w') :
    w'.Sound := by
  cases hstep with
  | send _ => exact h.of_eq rfl (Nat.le_refl _) Iff.rfl
  | stop => exact h.of_eq rfl (Nat.le_refl _) Iff.rfl
  | wait stage clock =>
      refine h.of_eq rfl clock ?_
      rw [stage]
      exact ⟨WorkerStage.noConfusion, WorkerStage.noConfusion⟩
  | @receive deadline change more now stage channel clock =>
      have hstage : w.stage ≠ .reloading := stage ▸ WorkerStage.noConfusion
      rcases hrelevant : change.isRelevant s with _ | _
      · refine h.of_eq (by simp [Session.receive, channel, hrelevant]) clock ?_
        exact ⟨fun hs => absurd hs WorkerStage.noConfusion, fun hs => absurd hs hstage⟩
      · exact h.onChange hstage clock (by simp [Session.receive, channel, hrelevant]) rfl
          WorkerStage.noConfusion
  | timeOut stage _ clock =>
      refine h.of_eq rfl clock ?_
      rw [stage]
      exact ⟨WorkerStage.noConfusion, WorkerStage.noConfusion⟩
  | @look now stage clock =>
      have hphase := h.phase_ne (stage ▸ WorkerStage.noConfusion)
      rcases w.session.debouncer.poll_cases now with ⟨tick, hpoll, hne, -⟩ |
          ⟨deadline, -, -, -, hpoll⟩ | ⟨deadline, -, -, -, hpoll⟩
      · refine h.of_eq (by simp [withDebouncer, hpoll]) clock ?_
        simp [hpoll, hne, stage]
      · exact absurd (by rw [hpoll]) (h.poll_ne_rejected now)
      · refine ⟨?_, ?_, ?_, ?_, ?_⟩ <;> simp only [withDebouncer, hpoll]
        · exact h.interval
        · exact fun f hf => Nat.le_trans (h.finished f hf) clock
        · exact fun _ _ hp => absurd hp Phase.noConfusion
        · simp
        · exact h.queued
  | @reloaded now stage clock =>
      have hfinish : w.session.debouncer.finish now
          = { w.session.debouncer with lastReload := some now, phase := .idle } := by
        simp [Debouncer.finish, h.queued]
      refine ⟨?_, ?_, ?_, ?_, ?_⟩ <;> simp only [withDebouncer, hfinish]
      · exact h.interval
      · exact fun f hf => Nat.le_of_eq (Option.some.inj hf).symm
      · exact fun _ _ hp => absurd hp Phase.noConfusion
      · exact ⟨Phase.noConfusion, WorkerStage.noConfusion⟩
      · exact h.queued
  | leave stage channel stopping =>
      have hphase := h.phase_ne (stage ▸ WorkerStage.noConfusion)
      refine ⟨h.interval, h.finished, ?_, ?_, rfl⟩
      · intro deadline f hp
        rcases hw : w.session.debouncer.phase with _ | _ | _ <;>
          simp [withDebouncer, Debouncer.cancel, hw] at hp
      · refine ⟨fun hp => ?_, WorkerStage.noConfusion⟩
        rcases hw : w.session.debouncer.phase with _ | _ | _ <;>
          simp [withDebouncer, Debouncer.cancel, hw] at hp
        exact absurd hw hphase

theorem sound_of_run {s : Settings} {w' : Watch} {trace : List (Event × Watch)}
    (h : Run (Step s) w trace w') (hw : w.Sound) : w'.Sound := h.invariant hw Sound.step

end Sound

/-! ### What becomes of a change -/

/-- A session that was not told to stop is not stopping. -/
theorem Step.stopping {s : Settings} {w w' : Watch} {e : Event} (h : Step s w e w')
    (hstopping : w.stopping = false) (he : e ≠ .stop) : w'.stopping = false := by
  cases h with
  | stop => exact absurd rfl he
  | send _ | wait _ _ | receive _ _ _ | timeOut _ _ _ | look _ _ | reloaded _ _ | leave _ _ _ =>
      exact hstopping

theorem stopping_of_run {s : Settings} {w w' : Watch} {trace : List (Event × Watch)}
    (h : Run (Step s) w trace w') (hstopping : w.stopping = false) (hstop : .stop ∉ events trace) :
    w'.stopping = false :=
  h.invariant_of_mem (I := fun w => w.stopping = false) hstopping fun he hx hstep =>
    hstep.stopping hx fun hstop' => hstop (hstop' ▸ he)

/-- A change of a header waits as soon as it is received. -/
theorem Step.isPending_of_receive {s : Settings} {w w' : Watch} {change : Change} {now : Nat}
    (h : Step s w (.receive change now) w') (hw : w.Sound) (hrelevant : change.isRelevant s = true) :
    w'.IsPending := by
  cases h with
  | receive stage channel _ =>
      have hne := hw.phase_ne (stage ▸ WorkerStage.noConfusion)
      refine ⟨now + w.session.debouncer.debounce, ?_⟩
      simp [Session.receive, channel, hrelevant, Debouncer.onChange_of_ne hne]

/-- A change that waits goes on waiting, or a reload begins. -/
theorem Step.pending {s : Settings} {w w' : Watch} {e : Event} (h : Step s w e w') (hw : w.Sound)
    (hpending : w.IsPending) (hstopping : w.stopping = false) :
    w'.IsPending ∨ ∃ now, e = .look now .reload := by
  obtain ⟨deadline, hphase⟩ := hpending
  cases h with
  | send _ | stop | wait _ _ | timeOut _ _ _ => exact .inl ⟨deadline, hphase⟩
  | @receive _ change more now stage channel clock =>
      left
      rcases hrelevant : change.isRelevant s with _ | _
      · exact ⟨deadline, by simp [Session.receive, channel, hrelevant, hphase]⟩
      · exact Step.isPending_of_receive (.receive stage channel clock) hw hrelevant
  | @look now stage _ =>
      rcases w.session.debouncer.poll_cases now with ⟨tick, hpoll, -, -⟩ |
          ⟨deadline, -, -, -, hpoll⟩ | ⟨deadline, -, -, -, hpoll⟩
      · exact .inl ⟨deadline, by simp [withDebouncer, hpoll, hphase]⟩
      · exact absurd (by rw [hpoll]) (hw.poll_ne_rejected now)
      · exact .inr ⟨now, by rw [hpoll]⟩
  | reloaded stage _ => exact absurd (hw.reloading.2 stage) (hphase ▸ Phase.noConfusion)
  | leave _ _ stopping => exact absurd stopping (hstopping ▸ Bool.false_ne_true)

/-- From a state in which a change waits, it waits all the time or a reload begins. -/
theorem pending_of_run {s : Settings} {w w' : Watch} {trace : List (Event × Watch)}
    (h : Run (Step s) w trace w') (hw : w.Sound) (hpending : w.IsPending)
    (hstopping : w.stopping = false) (hstop : .stop ∉ events trace) :
    (w'.IsPending ∧ ∀ m ∈ trace, m.2.IsPending) ∨ ∃ now, .look now .reload ∈ events trace := by
  induction h with
  | start => exact .inl ⟨hpending, fun m hm => absurd hm List.not_mem_nil⟩
  | @step trace x y e run next ih =>
      simp only [events_append, List.mem_append, not_or] at hstop ⊢
      rcases ih hstop.1 with ⟨hx, hall⟩ | ⟨now, hreload⟩
      · have hstopping := stopping_of_run run hstopping hstop.1
        rcases next.pending (sound_of_run run hw) hx hstopping with hy | ⟨now, rfl⟩
        · refine .inl ⟨hy, fun m hm => hm.elim (hall m) fun hm => ?_⟩
          rw [List.mem_singleton.1 hm]
          exact hy
        · exact .inr ⟨now, .inr (List.mem_singleton.2 rfl)⟩
      · exact .inr ⟨now, .inl hreload⟩

/-- What becomes of the change that was sent as number `i`. -/
inductive Kept (trace : List (Event × Watch)) (w : Watch) (i : Nat) (change : Change) : Prop where
  /-- It is still in the channel. -/
  | inChannel (unread : (received (events trace)).length ≤ i)
      (place : w.session.channel[i - (received (events trace)).length]? = some change)
  /-- The debouncer has been waiting since it was received. -/
  | waits {past after : List (Event × Watch)} {now : Nat} {x : Watch}
      (split : trace = past ++ (.receive change now, x) :: after)
      (place : (received (events past)).length = i)
      (pending : ∀ m ∈ (Event.receive change now, x) :: after, m.2.IsPending)
  /-- A reload began after it was received. -/
  | reloaded {past after : List (Event × Watch)} {now begun : Nat} {x : Watch}
      (split : trace = past ++ (.receive change now, x) :: after)
      (place : (received (events past)).length = i)
      (reload : .look begun .reload ∈ events after)

/-- **No change is lost** in a session that was not told to stop, if the debounce time is
no less than the minimum interval: every change of a header is in the channel, or has been
waited for since it was received, or a reload began after that.  No reload is rejected. -/
theorem no_change_lost {s : Settings} {root : Path} {trace : List (Event × Watch)} {w : Watch}
    (hinterval : s.minReloadIntervalMs ≤ s.debounceMs) (h : Run (Step s) (start s root) trace w)
    (hstop : .stop ∉ events trace) :
    (∀ i change, (sent (events trace))[i]? = some change → change.isRelevant s = true →
      Kept trace w i change) ∧
    ∀ now, .look now .rejected ∉ events trace := by
  have hstart := sound_start hinterval root
  constructor
  · intro i change hchange hrelevant
    rw [sent_eq h] at hchange
    rcases Nat.lt_or_ge i (received (events trace)).length with hlt | hge
    · rw [List.getElem?_append_left hlt] at hchange
      obtain ⟨past, now, x, after, rfl, hplace⟩ := exists_receive hchange
      obtain ⟨before, hbefore, hreceive, hafter⟩ := h.at_place
      simp only [events_append, events_cons, List.mem_append, List.mem_cons, not_or] at hstop
      have hsound := sound_of_run hbefore hstart
      have hx := hreceive.isPending_of_receive hsound hrelevant
      have hstopping := hreceive.stopping (stopping_of_run hbefore rfl hstop.1) Event.noConfusion
      rcases pending_of_run hafter (hsound.step hreceive) hx hstopping hstop.2.2 with
          ⟨-, hall⟩ | ⟨begun, hreload⟩
      · exact .waits rfl hplace fun m hm => (List.mem_cons.1 hm).elim (fun hm => hm ▸ hx) (hall m)
      · exact .reloaded rfl hplace hreload
    · rw [List.getElem?_append_right hge] at hchange
      exact .inChannel hge hchange
  · intro now hlook
    obtain ⟨past, more, hlog⟩ := List.append_of_mem hlook
    obtain ⟨before, x, after, rfl, -, -⟩ := exists_of_events_eq hlog
    obtain ⟨y, hy, hstep, -⟩ := h.at_place
    generalize hrejected : Tick.rejected = tick at hstep
    cases hstep with
    | look _ _ => exact (sound_of_run hy hstart).poll_ne_rejected now hrejected.symm

/-- A session with the usual intervals, as it stands at some time. -/
def usual (phase : Phase) (lastReload : Option Nat) (channel : List Change) (stage : WorkerStage)
    (clock : Nat) : Watch :=
  let debouncer := { debounce := 500, minInterval := 500, phase, lastReload }
  { session := { root := Path.ofString "/sdk", debouncer, channel }, stage, clock }

/-- A change of another file, one that comes while a reload runs, two deadlines met to the
millisecond, and in the end one change that is waited for and one in the channel. -/
theorem no_change_lost_busy :
    let s := Settings.default 1
    let a := Change.changed (Path.ofString "/sdk/a.h")
    let b := Change.created (Path.ofString "/sdk/b.h")
    let notes := Change.deleted (Path.ofString "/sdk/notes.txt")
    let log : List Event :=
      [.wait 0, .send a, .receive a 0, .look 1 .waiting, .wait 1, .timeOut 500, .look 500 .reload,
        .send b, .reloaded 700, .wait 700, .receive b 700, .look 700 .waiting, .wait 700,
        .send notes, .receive notes 800, .look 800 .waiting, .wait 800, .timeOut 1200,
        .look 1200 .reload, .send a, .reloaded 1300, .wait 1300, .receive a 1300, .send b]
    s.minReloadIntervalMs ≤ s.debounceMs ∧ .stop ∉ log ∧
      ∃ trace w, Run (Step s) (start s (Path.ofString "/sdk")) trace w ∧ events trace = log ∧
        (∀ i change, (sent (events trace))[i]? = some change → change.isRelevant s = true →
          Kept trace w i change) ∧
        ∀ now, .look now .rejected ∉ events trace := by
  intro s a b notes log
  have hstart : Run (Step s) (start s (Path.ofString "/sdk")) [] (usual .idle none [] .resting 0) :=
    .start
  have hfirst := hstart
    |>.step (e := .wait 0) (y := usual .idle none [] (.waiting none) 0) (.wait rfl (by decide))
    |>.step (e := .send a) (y := usual .idle none [a] (.waiting none) 0) (.send rfl)
    |>.step (e := .receive a 0) (y := usual (.pending 500) none [] .looking 0)
      (.receive rfl rfl (by decide))
    |>.step (e := .look 1 .waiting) (y := usual (.pending 500) none [] .resting 1)
      (.look rfl (by decide))
    |>.step (e := .wait 1) (y := usual (.pending 500) none [] (.waiting (some 500)) 1)
      (.wait rfl (by decide))
    |>.step (e := .timeOut 500) (y := usual (.pending 500) none [] .looking 500)
      (.timeOut rfl (by simp) (by decide))
    |>.step (e := .look 500 .reload) (y := usual .reloading none [] .reloading 500)
      (.look rfl (by decide))
  have hduring := hfirst
    |>.step (e := .send b) (y := usual .reloading none [b] .reloading 500) (.send rfl)
    |>.step (e := .reloaded 700) (y := usual .idle (some 700) [b] .resting 700)
      (.reloaded rfl (by decide))
    |>.step (e := .wait 700) (y := usual .idle (some 700) [b] (.waiting none) 700)
      (.wait rfl (by decide))
    |>.step (e := .receive b 700) (y := usual (.pending 1200) (some 700) [] .looking 700)
      (.receive rfl rfl (by decide))
    |>.step (e := .look 700 .waiting) (y := usual (.pending 1200) (some 700) [] .resting 700)
      (.look rfl (by decide))
    |>.step (e := .wait 700) (y := usual (.pending 1200) (some 700) [] (.waiting (some 1200)) 700)
      (.wait rfl (by decide))
  have hother := hduring
    |>.step (e := .send notes)
      (y := usual (.pending 1200) (some 700) [notes] (.waiting (some 1200)) 700) (.send rfl)
    |>.step (e := .receive notes 800) (y := usual (.pending 1200) (some 700) [] .looking 800)
      (.receive rfl rfl (by decide))
    |>.step (e := .look 800 .waiting) (y := usual (.pending 1200) (some 700) [] .resting 800)
      (.look rfl (by decide))
    |>.step (e := .wait 800) (y := usual (.pending 1200) (some 700) [] (.waiting (some 1200)) 800)
      (.wait rfl (by decide))
    |>.step (e := .timeOut 1200) (y := usual (.pending 1200) (some 700) [] .looking 1200)
      (.timeOut rfl (by simp) (by decide))
    |>.step (e := .look 1200 .reload) (y := usual .reloading (some 700) [] .reloading 1200)
      (.look rfl (by decide))
  have hrun := hother
    |>.step (e := .send a) (y := usual .reloading (some 700) [a] .reloading 1200) (.send rfl)
    |>.step (e := .reloaded 1300) (y := usual .idle (some 1300) [a] .resting 1300)
      (.reloaded rfl (by decide))
    |>.step (e := .wait 1300) (y := usual .idle (some 1300) [a] (.waiting none) 1300)
      (.wait rfl (by decide))
    |>.step (e := .receive a 1300) (y := usual (.pending 1800) (some 1300) [] .looking 1300)
      (.receive rfl rfl (by decide))
    |>.step (e := .send b) (y := usual (.pending 1800) (some 1300) [b] .looking 1300) (.send rfl)
  have hinterval : s.minReloadIntervalMs ≤ s.debounceMs := by decide
  have hstop : .stop ∉ log := by decide
  obtain ⟨trace, w, hrun, hlog⟩ : ∃ trace w,
      Run (Step s) (start s (Path.ofString "/sdk")) trace w ∧ events trace = log :=
    ⟨_, _, hrun, by simp only [events_cons, events_nil, List.nil_append, List.cons_append,
      log]⟩
  exact ⟨hinterval, hstop, trace, w, hrun, hlog, no_change_lost hinterval hrun (hlog ▸ hstop)⟩

/-! ### The worker of a coordinator -/

/-- A reload does not touch the session. -/
theorem session_publish (c : Coordinator) (result : Except FolderError Outcome) :
    (c.publish result).2.session = c.session := by
  cases result <;> rfl

/-- The worker of a coordinator looks at the clock as the worker of a session does, and
reloads at once if that is due, whatever the scan gives. -/
theorem exists_run_poll {c : Coordinator} {w : Watch} {now done : Nat} (scan : Scan)
    (hw : c.session = some w.session) (hstage : w.stage = .looking) (hnow : w.clock ≤ now)
    (hdone : now ≤ done) :
    ∃ trace w', Run (Step c.settings) w trace w' ∧ w'.stage = .resting ∧
      (c.poll scan now done).session = some w'.session := by
  have hlook : Step c.settings w _ _ := .look hstage hnow
  rcases htick : w.session.debouncer.poll now with ⟨tick, debouncer⟩
  by_cases hreload : tick = .reload
  · rw [htick, if_pos hreload] at hlook
    refine ⟨_, _, (Run.start.step hlook).step (.reloaded rfl hdone), rfl, ?_⟩
    simp [Coordinator.poll, hw, htick, hreload, Coordinator.onSession, session_publish, withDebouncer]
  · rw [htick, if_neg hreload] at hlook
    refine ⟨_, _, Run.start.step hlook, rfl, ?_⟩
    simp [Coordinator.poll, hw, htick, withDebouncer]

/-- **The worker of a coordinator is one that loses nothing:** its turn is a run of the
session's worker, from waiting in the channel to the next rest. -/
theorem exists_run_turn {c : Coordinator} {w : Watch} {deadline : Option Nat} {now done : Nat}
    (scan : Scan) (hw : c.session = some w.session) (hstage : w.stage = .waiting deadline)
    (hchannel : w.session.channel ≠ []) (hnow : w.clock ≤ now) (hdone : now ≤ done) :
    ∃ trace w', Run (Step c.settings) w trace w' ∧ w'.stage = .resting ∧
      (c.turn scan now done).session = some w'.session := by
  obtain ⟨change, more, hchange⟩ := List.exists_cons_of_ne_nil hchannel
  let x : Watch :=
    { w with session := w.session.receive c.settings now, stage := .looking, clock := now }
  have hreceive : Step c.settings w (.receive change now) x := .receive hstage hchange hnow
  have hsession : (c.onSession fun x => x.receive c.settings now).session = some x.session := by
    simp [Coordinator.onSession, hw, x]
  obtain ⟨trace, w', hrun, hrest, hpoll⟩ :=
    exists_run_poll (w := x) scan hsession rfl (Nat.le_refl now) hdone
  exact ⟨_, w', (Run.start.step hreceive).append hrun, hrest, hpoll⟩

end Watch
end NativeHooks
