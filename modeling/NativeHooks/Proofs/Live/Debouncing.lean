/-
# When a debouncer says to reload

Changes come in, the clock is looked at, reloads finish and waits are dropped, in any
order: also a reload that never began may be said to finish, and a wait may be dropped
while a reload runs.  `careful_of_run` says what holds of all such runs in which the
clock does not go back.  A reload begins only when

* all changes so far are at least the debounce time old,
* the last reload finished at least the minimum interval ago, and
* a change came in since the last reload began,

no second one begins before it finishes, and one is rejected only because the last one
finished too recently.

The times that a debouncer keeps are about its whole past: `Accounts` says how, and is
what every step keeps.
-/

import NativeHooks.Live.Debouncer
import NativeHooks.Proofs.Live.Run

namespace NativeHooks
namespace Debouncer

/-- What happens to a debouncer. -/
inductive Event where
  /-- A change comes in. -/
  | change (now : Nat)
  /-- The clock is looked at, and this is to be done. -/
  | poll (now : Nat) (tick : Tick)
  /-- A reload is said to have finished. -/
  | finish (now : Nat)
  /-- What waits is dropped. -/
  | cancel
  deriving DecidableEq, Repr

/-- The time at which something happens, if that matters. -/
def Event.time? : Event → Option Nat
  | change now => some now
  | poll now _ => some now
  | finish now => some now
  | cancel => none

/-- The time at which a reload finishes. -/
def Event.finish? : Event → Option Nat
  | finish now => some now
  | _ => none

/-- What happens, and where that leads. -/
inductive Step : Debouncer → Event → Debouncer → Prop where
  | change (d : Debouncer) (now : Nat) : Step d (.change now) (d.onChange now)
  | poll (d : Debouncer) (now : Nat) : Step d (.poll now (d.poll now).1) (d.poll now).2
  | finish (d : Debouncer) (now : Nat) : Step d (.finish now) (d.finish now)
  | cancel (d : Debouncer) : Step d .cancel d.cancel

/-- The clock does not go back. -/
def Chronological (log : List Event) : Prop := (log.filterMap Event.time?).Pairwise (· ≤ ·)

instance (log : List Event) : Decidable (Chronological log) :=
  inferInstanceAs (Decidable (List.Pairwise _ _))

/-- When a reload finished last. -/
def lastFinish? (log : List Event) : Option Nat := (log.filterMap Event.finish?).getLast?

/-- A change came in after the last reload began, or no reload began and a change came
in. -/
def ChangedSinceReload (log : List Event) : Prop :=
  ∃ earlier e later, log = earlier ++ .change e :: later ∧ ∀ t, .poll t .reload ∉ later

/-- What a debouncer is for: when reloads begin, and when they do not. -/
structure Careful (debounce minInterval : Nat) (log : List Event) : Prop where
  /-- All changes have settled when a reload begins. -/
  settled : ∀ {past t more}, log = past ++ .poll t .reload :: more →
    ∀ e, .change e ∈ past → e + debounce ≤ t
  /-- The last reload is long enough over when the next one begins. -/
  spaced : ∀ {past t more}, log = past ++ .poll t .reload :: more →
    ∀ f, lastFinish? past = some f → f ≤ t ∧ minInterval ≤ t - f
  /-- No reload begins without a new change. -/
  caused : ∀ {past t more}, log = past ++ .poll t .reload :: more → ChangedSinceReload past
  /-- No reload begins while another runs, and none is rejected then: one has to wait. -/
  alone : ∀ {past t during u tick more},
    log = past ++ .poll t .reload :: (during ++ .poll u tick :: more) →
    (∀ f, .finish f ∉ during) → tick = .waiting
  /-- A reload is rejected only if the last one finished too recently. -/
  rejected : ∀ {past t more}, log = past ++ .poll t .rejected :: more →
    ∃ f, lastFinish? past = some f ∧ f ≤ t ∧ t - f < minInterval

/-! ### Looking back -/

section Log

variable {log : List Event} {e : Event}

theorem lastFinish?_append_finish (log : List Event) (now : Nat) :
    lastFinish? (log ++ [.finish now]) = some now := by
  simp [lastFinish?, Event.finish?]

theorem lastFinish?_append (h : e.finish? = none) : lastFinish? (log ++ [e]) = lastFinish? log := by
  simp [lastFinish?, h]

theorem finish_mem_of_lastFinish? {f : Nat} (h : lastFinish? log = some f) : .finish f ∈ log := by
  obtain ⟨e, he, hf⟩ := List.mem_filterMap.1 (List.mem_of_getLast? h)
  cases e with
  | finish now =>
      obtain rfl : now = f := Option.some.inj hf
      exact he
  | change _ | poll _ _ | cancel => exact absurd hf.symm (Option.some_ne_none _)

theorem changedSinceReload_change (log : List Event) (now : Nat) :
    ChangedSinceReload (log ++ [.change now]) :=
  ⟨log, now, [], rfl, fun _ => List.not_mem_nil⟩

theorem ChangedSinceReload.append (h : ChangedSinceReload log) (he : ∀ t, e ≠ .poll t .reload) :
    ChangedSinceReload (log ++ [e]) := by
  obtain ⟨earlier, c, later, rfl, hlater⟩ := h
  refine ⟨earlier, c, later ++ [e], by simp, fun t ht => ?_⟩
  rcases List.mem_append.1 ht with ht | ht
  · exact hlater t ht
  · exact he t (List.mem_singleton.1 ht).symm

/-- What happened earlier did not happen later. -/
theorem Chronological.time_le {past more : List Event} (h : Chronological (past ++ e :: more))
    {earlier : Event} (hmem : earlier ∈ past) {u t : Nat} (hu : earlier.time? = some u)
    (ht : e.time? = some t) : u ≤ t := by
  rw [Chronological, List.filterMap_append, List.pairwise_append] at h
  refine h.2.2 u (List.mem_filterMap.2 ⟨earlier, hmem, hu⟩) t ?_
  exact List.mem_filterMap.2 ⟨e, List.mem_cons_self, ht⟩

theorem Chronological.of_append {past more : List Event} (h : Chronological (past ++ more)) :
    Chronological past := by
  rw [Chronological, List.filterMap_append, List.pairwise_append] at h
  exact h.1

end Log

/-! ### Single steps -/

/-- A change starts a wait unless a reload runs. -/
theorem onChange_of_ne {d : Debouncer} (h : d.phase ≠ .reloading) (now : Nat) :
    d.onChange now = { d with phase := .pending (now + d.debounce) } := by
  unfold onChange
  split
  · exact absurd ‹_› h
  · rfl

/-- A reload that runs has to be waited for. -/
theorem poll_reloading {d : Debouncer} (h : d.phase = .reloading) (now : Nat) :
    d.poll now = (.waiting, d) := by
  simp [poll, h]

theorem tooSoon_eq_true_iff {d : Debouncer} {now : Nat} :
    d.tooSoon now = true ↔ ∃ f, d.lastReload = some f ∧ now - f < d.minInterval := by
  simp [tooSoon, Option.any_eq_true]

/-- Looking at the clock changes nothing but when a wait is over: then a reload begins, or
is rejected. -/
theorem poll_cases (d : Debouncer) (now : Nat) :
    (∃ tick, d.poll now = (tick, d) ∧ tick ≠ .reload ∧ tick ≠ .rejected) ∨
    (∃ deadline, d.phase = .pending deadline ∧ deadline ≤ now ∧ d.tooSoon now = true ∧
      d.poll now = (.rejected, { d with phase := .idle })) ∨
    (∃ deadline, d.phase = .pending deadline ∧ deadline ≤ now ∧ d.tooSoon now = false ∧
      d.poll now = (.reload, { d with phase := .reloading })) := by
  rcases hphase : d.phase with _ | deadline | _
  · exact .inl ⟨.idle, by simp [poll, hphase], Tick.noConfusion, Tick.noConfusion⟩
  · rcases Nat.lt_or_ge now deadline with hlt | hge
    · exact .inl ⟨.waiting, by simp [poll, hphase, hlt], Tick.noConfusion, Tick.noConfusion⟩
    · have hnot : ¬now < deadline := Nat.not_lt.2 hge
      rcases hsoon : d.tooSoon now with _ | _
      · exact .inr (.inr ⟨deadline, rfl, hge, rfl, by simp [poll, hphase, hnot, hsoon]⟩)
      · exact .inr (.inl ⟨deadline, rfl, hge, rfl, by simp [poll, hphase, hnot, hsoon]⟩)
  · exact .inl ⟨.waiting, poll_reloading hphase now, Tick.noConfusion, Tick.noConfusion⟩

/-! ### What a debouncer knows of its past -/

/-- The debouncer `d` knows all that matters of what happened. -/
structure Accounts (debounce minInterval : Nat) (log : List Event) (d : Debouncer) : Prop where
  debounce_eq : d.debounce = debounce
  minInterval_eq : d.minInterval = minInterval
  lastReload_eq : d.lastReload = lastFinish? log
  /-- A change is kept for later only while a reload runs. -/
  queued : d.queued = true → d.phase = .reloading ∧ ChangedSinceReload log
  /-- A wait is for a new change, and long enough for all changes. -/
  pending : ∀ deadline, d.phase = .pending deadline →
    ChangedSinceReload log ∧ ∀ e, .change e ∈ log → e + debounce ≤ deadline

section Accounts

variable {debounce minInterval : Nat} {log : List Event} {d : Debouncer}

theorem accounts_nil : Accounts debounce minInterval [] { debounce, minInterval } where
  debounce_eq := rfl
  minInterval_eq := rfl
  lastReload_eq := rfl
  queued := fun h => absurd h Bool.false_ne_true
  pending := fun _ h => absurd h Phase.noConfusion

theorem Accounts.queued_eq_false (h : Accounts debounce minInterval log d) {deadline : Nat}
    (hphase : d.phase = .pending deadline) : d.queued = false := by
  rw [Bool.eq_false_iff]
  exact fun hq => Phase.noConfusion (hphase.symm.trans (h.queued hq).1)

/-- A change that came in at the latest now waits, or is kept for later. -/
theorem Accounts.change (h : Accounts debounce minInterval log d) {now : Nat}
    (hnow : ∀ e, .change e ∈ log → e ≤ now) :
    Accounts debounce minInterval (log ++ [.change now]) (d.onChange now) := by
  have hchanged := changedSinceReload_change log now
  have hlast : d.lastReload = lastFinish? (log ++ [.change now]) :=
    h.lastReload_eq.trans (lastFinish?_append rfl).symm
  have hall : ∀ e, .change e ∈ log ++ [.change now] → e ≤ now := by
    intro e he
    rcases List.mem_append.1 he with he | he
    · exact hnow e he
    · exact Nat.le_of_eq (Event.change.inj (List.mem_singleton.1 he))
  unfold onChange
  split
  · rename_i hphase
    exact ⟨h.debounce_eq, h.minInterval_eq, hlast, fun _ => ⟨hphase, hchanged⟩,
      fun deadline hp => absurd (hphase.symm.trans hp) Phase.noConfusion⟩
  · rename_i hphase
    refine ⟨h.debounce_eq, h.minInterval_eq, hlast, fun hq => absurd (h.queued hq).1 hphase, ?_⟩
    intro deadline hp
    obtain rfl : now + d.debounce = deadline := Phase.pending.inj hp
    refine ⟨hchanged, fun e he => ?_⟩
    rw [h.debounce_eq]
    exact Nat.add_le_add_right (hall e he) debounce

/-- What looking at the clock or dropping a wait takes away, but for the log nothing
else changes. -/
theorem Accounts.other (h : Accounts debounce minInterval log d) {e : Event} {d' : Debouncer}
    (hchange : ∀ t, e ≠ .change t) (hfinish : e.finish? = none) (hreload : ∀ t, e ≠ .poll t .reload)
    (hd : d'.debounce = d.debounce ∧ d'.minInterval = d.minInterval ∧ d'.lastReload = d.lastReload)
    (hqueued : d'.queued = true → d.queued = true ∧ d'.phase = d.phase)
    (hpending : ∀ deadline, d'.phase = .pending deadline → d.phase = .pending deadline) :
    Accounts debounce minInterval (log ++ [e]) d' where
  debounce_eq := hd.1.trans h.debounce_eq
  minInterval_eq := hd.2.1.trans h.minInterval_eq
  lastReload_eq := hd.2.2.trans (h.lastReload_eq.trans (lastFinish?_append hfinish).symm)
  queued := fun hq => by
    obtain ⟨hq, hphase⟩ := hqueued hq
    exact ⟨hphase.trans (h.queued hq).1, (h.queued hq).2.append hreload⟩
  pending := fun deadline hp => by
    obtain ⟨hchanged, hall⟩ := h.pending deadline (hpending deadline hp)
    refine ⟨hchanged.append hreload, fun e he => hall e ?_⟩
    rcases List.mem_append.1 he with he | he
    · exact he
    · exact absurd (List.mem_singleton.1 he).symm (hchange e)

/-- After looking at the clock.  A reload that begins, or is rejected, uses up what
waited. -/
theorem Accounts.poll (h : Accounts debounce minInterval log d) (now : Nat) :
    Accounts debounce minInterval (log ++ [.poll now (d.poll now).1]) (d.poll now).2 := by
  rcases d.poll_cases now with ⟨tick, hpoll, hreload, -⟩ | ⟨deadline, hphase, -, -, hpoll⟩ |
      ⟨deadline, hphase, -, -, hpoll⟩
  · rw [hpoll]
    exact h.other (fun _ => Event.noConfusion) rfl (fun t ht => hreload (Event.poll.inj ht).2)
      ⟨rfl, rfl, rfl⟩ (fun hq => ⟨hq, rfl⟩) fun _ hp => hp
  · have hq := h.queued_eq_false hphase
    rw [hpoll]
    exact h.other (fun _ => Event.noConfusion) rfl (fun t ht => Tick.noConfusion (Event.poll.inj ht).2)
      ⟨rfl, rfl, rfl⟩ (fun hq' => absurd hq' (hq ▸ Bool.false_ne_true))
      fun _ hp => absurd hp Phase.noConfusion
  · have hq := h.queued_eq_false hphase
    rw [hpoll]
    exact ⟨h.debounce_eq, h.minInterval_eq, h.lastReload_eq.trans (lastFinish?_append rfl).symm,
      fun hq' => absurd hq' (hq ▸ Bool.false_ne_true), fun _ hp => absurd hp Phase.noConfusion⟩

/-- After a reload, whether one ran or not. -/
theorem Accounts.finish (h : Accounts debounce minInterval log d) {now : Nat}
    (hnow : ∀ e, .change e ∈ log → e ≤ now) :
    Accounts debounce minInterval (log ++ [.finish now]) (d.finish now) where
  debounce_eq := h.debounce_eq
  minInterval_eq := h.minInterval_eq
  lastReload_eq := (lastFinish?_append_finish log now).symm
  queued := fun hq => absurd hq Bool.false_ne_true
  pending := by
    intro deadline hp
    rcases hq : d.queued with _ | _
    · simp [Debouncer.finish, hq] at hp
    · obtain rfl : now + d.debounce = deadline := by simpa [Debouncer.finish, hq] using hp
      refine ⟨(h.queued hq).2.append fun _ => Event.noConfusion, fun e he => ?_⟩
      rw [h.debounce_eq]
      rcases List.mem_append.1 he with he | he
      · exact Nat.add_le_add_right (hnow e he) debounce
      · exact Event.noConfusion (List.mem_singleton.1 he)

/-- After what waits was dropped. -/
theorem Accounts.cancel (h : Accounts debounce minInterval log d) :
    Accounts debounce minInterval (log ++ [.cancel]) d.cancel := by
  refine h.other (fun _ => Event.noConfusion) rfl (fun _ => Event.noConfusion) ⟨rfl, rfl, rfl⟩
    (fun hq => absurd hq Bool.false_ne_true) fun deadline hp => ?_
  rcases hphase : d.phase with _ | deadline' | _ <;> simp [Debouncer.cancel, hphase] at hp

theorem Accounts.step (h : Accounts debounce minInterval log d) {e : Event} {d' : Debouncer}
    (hstep : Step d e d') (htime : Chronological (log ++ [e])) :
    Accounts debounce minInterval (log ++ [e]) d' := by
  cases hstep with
  | change now => exact h.change fun e he => htime.time_le he rfl rfl
  | poll now => exact h.poll now
  | finish now => exact h.finish fun e he => htime.time_le he rfl rfl
  | cancel => exact h.cancel

/-- At every time of a run the debouncer knows all that matters of its past. -/
theorem accounts_of_run {trace : List (Event × Debouncer)}
    (h : Run Step { debounce, minInterval } trace d) (htime : Chronological (events trace)) :
    Accounts debounce minInterval (events trace) d := by
  induction h with
  | start => exact accounts_nil
  | step _ next ih =>
      rw [events_append] at htime ⊢
      exact (ih htime.of_append).step next htime

end Accounts

/-! ### What follows for reloads -/

/-- Only the end of a reload ends it. -/
theorem Step.reloading {d d' : Debouncer} {e : Event} (h : Step d e d')
    (hphase : d.phase = .reloading) (he : ∀ f, e ≠ .finish f) : d'.phase = .reloading := by
  cases h with
  | change now => simp [onChange, hphase]
  | poll now => rw [poll_reloading hphase]; exact hphase
  | finish now => exact absurd rfl (he now)
  | cancel => simp [Debouncer.cancel, hphase]

theorem reloading_of_run {trace : List (Event × Debouncer)} {d d' : Debouncer}
    (h : Run Step d trace d') (hphase : d.phase = .reloading)
    (hfinish : ∀ f, .finish f ∉ events trace) : d'.phase = .reloading :=
  h.invariant_of_mem (I := fun d => d.phase = .reloading) hphase fun he hx hstep =>
    hstep.reloading hx fun f hf => hfinish f (hf ▸ he)

/-- When a reload begins: a wait is over, and no reload finished too recently. -/
theorem poll_eq_reload {d d' : Debouncer} {now : Nat} (h : d.poll now = (.reload, d')) :
    d'.phase = .reloading ∧ d.tooSoon now = false ∧
      ∃ deadline, d.phase = .pending deadline ∧ deadline ≤ now := by
  rcases d.poll_cases now with ⟨tick, hpoll, hreload, -⟩ | ⟨deadline, -, -, -, hpoll⟩ |
      ⟨deadline, hphase, hdue, hsoon, hpoll⟩
  · exact absurd (Prod.mk.inj (hpoll.symm.trans h)).1 hreload
  · exact Tick.noConfusion (Prod.mk.inj (hpoll.symm.trans h)).1
  · obtain rfl := (Prod.mk.inj (hpoll.symm.trans h)).2
    exact ⟨rfl, hsoon, deadline, hphase, hdue⟩

theorem poll_eq_rejected {d d' : Debouncer} {now : Nat} (h : d.poll now = (.rejected, d')) :
    d.tooSoon now = true := by
  rcases d.poll_cases now with ⟨tick, hpoll, -, hrejected⟩ | ⟨deadline, -, -, hsoon, -⟩ |
      ⟨deadline, -, -, -, hpoll⟩
  · exact absurd (Prod.mk.inj (hpoll.symm.trans h)).1 hrejected
  · exact hsoon
  · exact Tick.noConfusion (Prod.mk.inj (hpoll.symm.trans h)).1

/-- What is known when the clock is looked at in a run. -/
theorem exists_of_poll {debounce minInterval : Nat} {trace : List (Event × Debouncer)}
    {d : Debouncer} (h : Run Step { debounce, minInterval } trace d)
    (htime : Chronological (events trace)) {past more : List Event} {t : Nat} {tick : Tick}
    (hlog : events trace = past ++ .poll t tick :: more) :
    ∃ before after rest, Accounts debounce minInterval past before ∧
      before.poll t = (tick, after) ∧ Run Step after rest d ∧ events rest = more := by
  obtain ⟨earlier, after, rest, rfl, rfl, rfl⟩ := exists_of_events_eq hlog
  obtain ⟨before, hbefore, hstep, hafter⟩ := h.at_place
  rw [events_append] at htime
  refine ⟨before, after, rest, accounts_of_run hbefore htime.of_append, ?_, hafter, rfl⟩
  cases hstep with
  | poll now => rfl

/-- **A debouncer is careful:** it keeps the quiet time and the interval between reloads,
reloads only for new changes, and never twice at once. -/
theorem careful_of_run {debounce minInterval : Nat} {trace : List (Event × Debouncer)}
    {d : Debouncer} (h : Run Step { debounce, minInterval } trace d)
    (htime : Chronological (events trace)) : Careful debounce minInterval (events trace) where
  settled := by
    intro past t more hlog e he
    obtain ⟨before, after, rest, hbefore, hpoll, -⟩ := exists_of_poll h htime hlog
    obtain ⟨-, -, deadline, hphase, hdue⟩ := poll_eq_reload hpoll
    exact Nat.le_trans ((hbefore.pending deadline hphase).2 e he) hdue
  spaced := by
    intro past t more hlog f hf
    obtain ⟨before, after, rest, hbefore, hpoll, -⟩ := exists_of_poll h htime hlog
    obtain ⟨-, hsoon, -⟩ := poll_eq_reload hpoll
    refine ⟨(hlog ▸ htime).time_le (finish_mem_of_lastFinish? hf) rfl rfl, ?_⟩
    rw [← hbefore.minInterval_eq, ← Nat.not_lt]
    intro hlt
    exact absurd (tooSoon_eq_true_iff.2 ⟨f, hbefore.lastReload_eq.trans hf, hlt⟩)
      (hsoon ▸ Bool.false_ne_true)
  caused := by
    intro past t more hlog
    obtain ⟨before, after, rest, hbefore, hpoll, -⟩ := exists_of_poll h htime hlog
    obtain ⟨-, -, deadline, hphase, -⟩ := poll_eq_reload hpoll
    exact (hbefore.pending deadline hphase).1
  alone := by
    intro past t during u tick more hlog hfinish
    obtain ⟨before, after, rest, -, hpoll, hrest, hmore⟩ := exists_of_poll h htime hlog
    obtain ⟨hphase, -⟩ := poll_eq_reload hpoll
    obtain ⟨trace', x, rest', rfl, rfl, rfl⟩ := exists_of_events_eq hmore
    obtain ⟨w, hw, hstep, -⟩ := hrest.at_place
    have hw' := reloading_of_run hw hphase hfinish
    cases hstep with
    | poll now => rw [poll_reloading hw']
  rejected := by
    intro past t more hlog
    obtain ⟨before, after, rest, hbefore, hpoll, -⟩ := exists_of_poll h htime hlog
    obtain ⟨f, hf, hlt⟩ := tooSoon_eq_true_iff.1 (poll_eq_rejected hpoll)
    rw [hbefore.lastReload_eq] at hf
    rw [hbefore.minInterval_eq] at hlt
    exact ⟨f, hf, (hlog ▸ htime).time_le (finish_mem_of_lastFinish? hf) rfl rfl, hlt⟩

/-- A burst, changes during the reload of which one is dropped and one is kept, a reload
rejected for the other interval, and one that comes just late enough. -/
theorem careful_of_run_burst :
    let log : List Event :=
      [.change 0, .poll 50 .waiting, .change 60, .poll 160 .reload, .change 170, .cancel,
        .change 180, .poll 190 .waiting, .finish 200, .poll 300 .rejected, .change 600,
        .poll 700 .reload]
    (∃ trace d, Run Step { debounce := 100, minInterval := 500 } trace d ∧ events trace = log) ∧
      Chronological log ∧ Careful 100 500 log := by
  intro log
  have hstart : Run Step { debounce := 100, minInterval := 500 } [] _ := .start
  have hburst := (((hstart.step (.change _ 0)).step (.poll _ 50)).step (.change _ 60)).step
    (.poll _ 160)
  have hduring := ((((hburst.step (.change _ 170)).step (.cancel _)).step (.change _ 180)).step
    (.poll _ 190)).step (.finish _ 200)
  have hrun := ((hduring.step (.poll _ 300)).step (.change _ 600)).step (.poll _ 700)
  have htime : Chronological log := by decide
  exact ⟨⟨_, _, hrun, rfl⟩, htime, careful_of_run hrun htime⟩

end Debouncer
end NativeHooks
