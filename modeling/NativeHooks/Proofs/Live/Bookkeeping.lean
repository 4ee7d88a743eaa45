/-
# What a debouncer remembers

A change is outstanding until a reload begins, one is rejected, or what waits is dropped.  A
debouncer remembers this in two places: the change waits for a deadline, or the flag for changes
during a reload is set.  `bookkeeping_of_run` says that together they are right at all times,
also if the clock goes back, as long as only reloads that run are said to have finished.

If moreover the clock does not go back, a deadline leaves the whole debounce time after the end
of the last reload, whether a change or that end has set it.  So no reload is rejected where the
debounce time is at least the minimum interval.
-/

import NativeHooks.Proofs.Live.Debouncing

namespace NativeHooks
namespace Debouncer

/-- What happens settles all changes so far: their reload begins or is rejected, or they are
dropped. -/
def Event.settles : Event → Bool
  | poll _ .reload | poll _ .rejected | cancel => true
  | _ => false

/-- A change came in that nothing has settled since. -/
def Outstanding (log : List Event) : Prop :=
  ∃ earlier t later, log = earlier ++ .change t :: later ∧ ∀ e ∈ later, e.settles = false

/-- A step in which no reload is said to have finished but one that runs. -/
def OrderlyStep (d : Debouncer) (e : Event) (d' : Debouncer) : Prop :=
  Step d e d' ∧ ∀ now, e = .finish now → d.phase = .reloading

/-- A change waits, for its deadline or for the end of a reload. -/
def Waits (d : Debouncer) : Prop := (∃ deadline, d.phase = .pending deadline) ∨ d.queued = true

/-- What a debouncer remembers of the changes that came in. -/
structure Remembers (log : List Event) (d : Debouncer) : Prop where
  /-- The flag is for changes during a reload. -/
  queued : d.queued = true → d.phase = .reloading
  /-- A change waits if and only if one is outstanding. -/
  outstanding_iff : Outstanding log ↔ d.Waits

/-- What a debouncer remembers, and what follows from it for its times. -/
structure Bookkeeping (debounce minInterval : Nat) (log : List Event) (d : Debouncer) : Prop
    extends Remembers log d where
  /-- A deadline leaves the debounce time after the last reload. -/
  deadline : Chronological log → ∀ deadline f, d.phase = .pending deadline →
    lastFinish? log = some f → f + debounce ≤ deadline
  /-- Nothing is ever rejected if the debounce time is long enough. -/
  accepted : Chronological log → minInterval ≤ debounce → ∀ t, .poll t .rejected ∉ log

/-! ### Outstanding changes -/

section Outstanding

variable {log : List Event} {e : Event}

theorem not_outstanding_nil : ¬Outstanding [] := by
  rintro ⟨earlier, t, later, h, -⟩
  exact List.append_ne_nil_of_right_ne_nil earlier (List.cons_ne_nil _ later) h.symm

/-- The last thing that happened decides: it is a change, or it leaves all changes as they
were. -/
theorem outstanding_append_iff :
    Outstanding (log ++ [e]) ↔ (∃ t, e = .change t) ∨ e.settles = false ∧ Outstanding log := by
  constructor
  · rintro ⟨earlier, t, later, h, hlater⟩
    rcases List.eq_nil_or_concat later with rfl | ⟨later, last, rfl⟩
    · obtain ⟨-, hlast⟩ := List.append_inj' h rfl
      exact .inl ⟨t, List.singleton_inj.1 hlast⟩
    · rw [List.concat_eq_append, ← List.cons_append, ← List.append_assoc] at h
      obtain ⟨hlog, hlast⟩ := List.append_inj' h rfl
      obtain rfl := List.singleton_inj.1 hlast
      exact .inr ⟨hlater e (by simp), earlier, t, later, hlog, fun e he => hlater e (by simp [he])⟩
  · rintro (⟨t, rfl⟩ | ⟨he, earlier, t, later, rfl, hlater⟩)
    · exact ⟨log, t, [], rfl, fun _ he => absurd he List.not_mem_nil⟩
    · refine ⟨earlier, t, later ++ [e], by simp, fun e' he' => ?_⟩
      rcases List.mem_append.1 he' with he' | he'
      · exact hlater e' he'
      · exact List.mem_singleton.1 he' ▸ he

theorem outstanding_change (log : List Event) (now : Nat) : Outstanding (log ++ [.change now]) :=
  outstanding_append_iff.2 (.inl ⟨now, rfl⟩)

theorem not_outstanding_of_settles (log : List Event) (he : e.settles = true) :
    ¬Outstanding (log ++ [e]) := by
  rw [outstanding_append_iff]
  rintro (⟨t, rfl⟩ | ⟨hnot, -⟩)
  · exact Bool.false_ne_true he
  · exact Bool.false_ne_true (hnot.symm.trans he)

/-- What is no change and settles none leaves all changes as they are. -/
theorem outstanding_append_iff_of_ne (hchange : ∀ t, e ≠ .change t) (he : e.settles = false) :
    Outstanding (log ++ [e]) ↔ Outstanding log := by
  have hnot : ¬∃ t, e = .change t := fun ⟨t, ht⟩ => hchange t ht
  simp only [outstanding_append_iff, hnot, he, true_and, false_or]

end Outstanding

/-! ### What waits -/

section Waits

variable {d : Debouncer}

theorem waits_of_pending {deadline : Nat} (h : d.phase = .pending deadline) : d.Waits :=
  .inl ⟨deadline, h⟩

theorem not_waits (hphase : ∀ deadline, d.phase ≠ .pending deadline) (hqueued : d.queued = false) :
    ¬d.Waits := by
  rintro (⟨deadline, h⟩ | h)
  · exact hphase deadline h
  · exact Bool.false_ne_true (hqueued.symm.trans h)

theorem cancel_phase_ne (d : Debouncer) (deadline : Nat) : d.cancel.phase ≠ .pending deadline := by
  rcases hphase : d.phase with _ | _ | _ <;> simp [Debouncer.cancel, hphase]

variable {log : List Event}

theorem remembers_nil (debounce minInterval : Nat) : Remembers [] { debounce, minInterval } where
  queued := fun h => absurd h Bool.false_ne_true
  outstanding_iff :=
    iff_of_false not_outstanding_nil (not_waits (fun _ => Phase.noConfusion) rfl)

theorem Remembers.queued_eq_false (h : Remembers log d) (hphase : d.phase ≠ .reloading) :
    d.queued = false :=
  Bool.eq_false_iff.2 fun hq => hphase (h.queued hq)

/-- A change waits from when it comes in. -/
theorem Remembers.change (h : Remembers log d) (now : Nat) :
    Remembers (log ++ [.change now]) (d.onChange now) := by
  have hlog := outstanding_change log now
  by_cases hphase : d.phase = .reloading
  · have hd : d.onChange now = { d with queued := true } := by simp [onChange, hphase]
    rw [hd]
    exact ⟨fun _ => hphase, iff_of_true hlog (.inr rfl)⟩
  · have hq := h.queued_eq_false hphase
    rw [onChange_of_ne hphase]
    exact ⟨fun hq' => absurd hq' (hq ▸ Bool.false_ne_true), iff_of_true hlog (waits_of_pending rfl)⟩

/-- A look at the clock settles nothing, or a wait is over and all is settled. -/
theorem Remembers.poll (h : Remembers log d) (now : Nat) :
    Remembers (log ++ [.poll now (d.poll now).1]) (d.poll now).2 := by
  have hchange : ∀ tick t, Event.poll now tick ≠ .change t := fun _ _ => Event.noConfusion
  rcases d.poll_cases now with ⟨tick, hpoll, hreload, hrejected⟩ | ⟨deadline, hphase, -, -, hpoll⟩ |
      ⟨deadline, hphase, -, -, hpoll⟩
  · have hsettles : (Event.poll now tick).settles = false := by
      cases tick with
      | idle | waiting => rfl
      | reload => exact absurd rfl hreload
      | rejected => exact absurd rfl hrejected
    rw [hpoll]
    exact ⟨h.queued, (outstanding_append_iff_of_ne (hchange tick) hsettles).trans h.outstanding_iff⟩
  all_goals
    have hq := h.queued_eq_false (by rw [hphase]; exact Phase.noConfusion)
    rw [hpoll]
    exact ⟨fun hq' => absurd hq' (hq ▸ Bool.false_ne_true), iff_of_false
      (not_outstanding_of_settles log rfl) (not_waits (fun _ => Phase.noConfusion) hq)⟩

/-- The end of the reload that runs lets the change wait that came in meanwhile. -/
theorem Remembers.finish (h : Remembers log d) (hphase : d.phase = .reloading) (now : Nat) :
    Remembers (log ++ [.finish now]) (d.finish now) := by
  refine ⟨fun hq => absurd hq Bool.false_ne_true, ?_⟩
  rw [outstanding_append_iff_of_ne (fun _ => Event.noConfusion) rfl, h.outstanding_iff]
  rcases hq : d.queued with _ | _
  · refine iff_of_false (not_waits (fun deadline hp => ?_) hq) (not_waits (fun deadline hp => ?_) rfl)
    · exact Phase.noConfusion (hphase.symm.trans hp)
    · simp [Debouncer.finish, hq] at hp
  · have hpending : (d.finish now).phase = .pending (now + d.debounce) := by
      simp [Debouncer.finish, hq]
    exact iff_of_true (.inr hq) (waits_of_pending hpending)

theorem Remembers.step {e : Event} {d' : Debouncer} (h : Remembers log d)
    (hstep : OrderlyStep d e d') : Remembers (log ++ [e]) d' := by
  obtain ⟨hstep, hfinish⟩ := hstep
  cases hstep with
  | change now => exact h.change now
  | poll now => exact h.poll now
  | finish now => exact h.finish (hfinish now rfl) now
  | cancel =>
      exact ⟨fun hq => absurd hq Bool.false_ne_true,
        iff_of_false (not_outstanding_of_settles log rfl) (not_waits d.cancel_phase_ne rfl)⟩

theorem remembers_of_run {debounce minInterval : Nat} {trace : List (Event × Debouncer)}
    (h : Run OrderlyStep { debounce, minInterval } trace d) : Remembers (events trace) d := by
  induction h with
  | start => exact remembers_nil debounce minInterval
  | step _ next ih => exact events_append _ _ ▸ ih.step next

end Waits

/-! ### Deadlines -/

section Deadlines

variable {debounce minInterval : Nat} {log : List Event} {d : Debouncer}

/-- A deadline leaves the debounce time after the end of the last reload. -/
def Patient (debounce : Nat) (log : List Event) (d : Debouncer) : Prop :=
  ∀ deadline f, d.phase = .pending deadline → lastFinish? log = some f → f + debounce ≤ deadline

/-- A deadline is set by a change or by the end of a reload, and no reload has finished later
than that. -/
theorem Patient.step (h : Patient debounce log d) (hd : d.debounce = debounce) {e : Event}
    {d' : Debouncer} (hstep : Step d e d') (htime : Chronological (log ++ [e])) :
    Patient debounce (log ++ [e]) d' := by
  intro deadline f hphase hf
  cases hstep with
  | change now =>
      rw [lastFinish?_append rfl] at hf
      have hle : f ≤ now := htime.time_le (finish_mem_of_lastFinish? hf) rfl rfl
      by_cases hreload : d.phase = .reloading
      · simp [onChange, hreload] at hphase
      · rw [onChange_of_ne hreload] at hphase
        obtain rfl := Phase.pending.inj hphase
        rw [hd]
        exact Nat.add_le_add_right hle debounce
  | poll now =>
      rw [lastFinish?_append rfl] at hf
      rcases d.poll_cases now with ⟨tick, hpoll, -⟩ | ⟨_, -, -, -, hpoll⟩ | ⟨_, -, -, -, hpoll⟩
      · rw [hpoll] at hphase
        exact h deadline f hphase hf
      all_goals
        rw [hpoll] at hphase
        exact Phase.noConfusion hphase
  | finish now =>
      rw [lastFinish?_append_finish, Option.some.injEq] at hf
      rcases hq : d.queued with _ | _
      · simp [Debouncer.finish, hq] at hphase
      · obtain rfl : now + d.debounce = deadline := by simpa [Debouncer.finish, hq] using hphase
        exact Nat.le_of_eq (by rw [hd, hf])
  | cancel => exact absurd hphase (d.cancel_phase_ne deadline)

theorem patient_of_run {trace : List (Event × Debouncer)}
    (h : Run Step { debounce, minInterval } trace d) (htime : Chronological (events trace)) :
    Patient debounce (events trace) d := by
  induction h with
  | start => exact fun deadline f hphase => Phase.noConfusion hphase
  | step run next ih =>
      rw [events_append] at htime ⊢
      have hd := (accounts_of_run run htime.of_append).debounce_eq
      exact (ih htime.of_append).step hd next htime

/-- At its deadline no reload comes too soon, since the debounce time has passed after the last
one. -/
theorem not_rejected_of_run {trace : List (Event × Debouncer)}
    (h : Run Step { debounce, minInterval } trace d) (htime : Chronological (events trace))
    (hlong : minInterval ≤ debounce) (t : Nat) : .poll t .rejected ∉ events trace := by
  intro hmem
  obtain ⟨past, more, hlog⟩ := List.append_of_mem hmem
  obtain ⟨earlier, after, rest, rfl, rfl, rfl⟩ := exists_of_events_eq hlog
  obtain ⟨before, hbefore, hstep, -⟩ := h.at_place
  rw [hlog] at htime
  have haccounts := accounts_of_run hbefore htime.of_append
  have hpatient := patient_of_run hbefore htime.of_append
  generalize htick : Tick.rejected = tick at hstep
  cases hstep with
  | poll now =>
      rcases before.poll_cases t with ⟨tick, hpoll, -, hne⟩ | ⟨deadline, hphase, hdue, hsoon, -⟩ |
          ⟨_, -, -, -, hpoll⟩
      · rw [hpoll] at htick
        exact hne htick.symm
      · obtain ⟨f, hf, hlt⟩ := tooSoon_eq_true_iff.1 hsoon
        rw [haccounts.minInterval_eq] at hlt
        have hle := hpatient deadline f hphase (haccounts.lastReload_eq ▸ hf)
        omega
      · rw [hpoll] at htick
        exact Tick.noConfusion htick

end Deadlines

/-- **A debouncer keeps its books,** and rejects nothing if the debounce time is long enough. -/
theorem bookkeeping_of_run {debounce minInterval : Nat} {trace : List (Event × Debouncer)}
    {d : Debouncer} (h : Run OrderlyStep { debounce, minInterval } trace d) :
    Bookkeeping debounce minInterval (events trace) d where
  toRemembers := remembers_of_run h
  deadline := fun htime => patient_of_run (h.mono And.left) htime
  accepted := fun htime => not_rejected_of_run (h.mono And.left) htime

/-- A change during each of two reloads, the first of which is dropped; then the second waits for
the exact time that the first deadline left. -/
theorem bookkeeping_of_run_queued :
    let log : List Event :=
      [.change 0, .poll 100 .reload, .change 150, .cancel, .finish 200, .change 200,
        .poll 300 .reload, .change 350, .finish 400]
    let d : Debouncer := ⟨100, 100, .pending 500, some 400, false⟩
    (∃ trace, Run OrderlyStep { debounce := 100, minInterval := 100 } trace d ∧
      events trace = log) ∧ Chronological log ∧ Bookkeeping 100 100 log d := by
  intro log d
  have hother : ∀ {d d' : Debouncer} {e : Event}, Step d e d' → e.finish? = none →
      OrderlyStep d e d' := by
    rintro d d' e hstep he
    refine ⟨hstep, ?_⟩
    rintro now rfl
    exact absurd he (Option.some_ne_none now)
  have hfinish : ∀ {d : Debouncer} (now : Nat), d.phase = .reloading →
      OrderlyStep d (.finish now) (d.finish now) := fun now hphase =>
    ⟨.finish _ now, fun _ _ => hphase⟩
  have hstart : Run OrderlyStep { debounce := 100, minInterval := 100 } [] _ := .start
  have hfirst := ((((hstart.step (hother (.change _ 0) rfl)).step (hother (.poll _ 100) rfl)).step
    (hother (.change _ 150) rfl)).step (hother (.cancel _) rfl)).step (hfinish 200 rfl)
  have hrun := (((hfirst.step (hother (.change _ 200) rfl)).step (hother (.poll _ 300) rfl)).step
    (hother (.change _ 350) rfl)).step (hfinish 400 rfl)
  have htime : Chronological log := by decide
  exact ⟨⟨_, hrun, rfl⟩, htime, bookkeeping_of_run hrun⟩

end Debouncer
end NativeHooks
