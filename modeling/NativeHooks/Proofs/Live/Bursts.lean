/-
# Bursts of changes

Changes that come in less than the debounce time after one another are a *burst*, however
many there are and however often the clock is looked at in between.  A burst causes one
reload: until its deadline, the debounce time after its last change, there is nothing to do
but to wait; the first look at the clock after that starts the reload or rejects it; and
without a further change nothing is due when the reload has finished (`collapses_of_run`).

What carries the proof is that a burst leaves nothing but its deadline in the debouncer
(`pending_of_burst`): a look at the clock during the burst is always early, since it is not
later than the next change, and that comes before the deadline which the last one set.
-/

import Mathlib.Data.List.Chain
import NativeHooks.Proofs.Live.Debouncing

namespace NativeHooks
namespace Debouncer

/-- The time at which a change comes in. -/
def Event.change? : Event → Option Nat
  | change now => some now
  | _ => none

/-- The times at which changes came in. -/
def changes (log : List Event) : List Nat := log.filterMap Event.change?

/-- A burst up to its deadline: changes, the first of them at once and each less than the
debounce time after the one before, and looks at the clock. -/
structure Burst (debounce lastChange : Nat) (log : List Event) : Prop where
  starts : ∃ first more, log = .change first :: more
  only : ∀ e ∈ log, (∃ t, e = .change t) ∨ ∃ t tick, e = .poll t tick
  close : (changes log).IsChain fun earlier later => later < earlier + debounce
  last : (changes log).getLast? = some lastChange
  early : ∀ t tick, .poll t tick ∈ log → t < lastChange + debounce

/-- What a burst after some past comes to, up to its deadline and in the `rest`: one reload,
or none. -/
structure Collapses (debounce minInterval lastChange : Nat) (past burst rest : List Event) :
    Prop where
  /-- Before the deadline there is nothing to do but to wait. -/
  waits : ∀ t tick, .poll t tick ∈ burst → tick = .waiting
  /-- At the deadline a reload begins unless one finished too recently. -/
  reload_iff : ∀ {p tick later}, rest = .poll p tick :: later → lastChange + debounce ≤ p →
    (tick = .reload ↔ ∀ f, .finish f ∈ past → f + minInterval ≤ p)
  /-- Otherwise the burst is rejected. -/
  rejected_iff : ∀ {p tick later}, rest = .poll p tick :: later → lastChange + debounce ≤ p →
    (tick = .rejected ↔ ∃ f, .finish f ∈ past ∧ p < f + minInterval)
  /-- While the reload runs there is nothing to do but to wait. -/
  runs : ∀ {p during t tick more},
    rest = .poll p .reload :: (during ++ .poll t tick :: more) →
    (∀ f, .finish f ∉ during) → tick = .waiting
  /-- Without a further change nothing is due after the reload. -/
  rests : ∀ {p during f after}, rest = .poll p .reload :: (during ++ .finish f :: after) →
    (∀ c, .change c ∉ during ++ after) → ∀ t tick, .poll t tick ∈ after → tick = .idle
  /-- Nor is anything due after a rejection. -/
  gives_up : ∀ {p after}, rest = .poll p .rejected :: after →
    (∀ c, .change c ∉ after) → ∀ t tick, .poll t tick ∈ after → tick = .idle

/-- A debouncer in which a change waits tells the time that is left, exactly: then it says
to reload or rejects, and before that it says to wait and stays as it is. -/
def TellsTime (d : Debouncer) : Prop :=
  ∀ deadline now, d.phase = .pending deadline → ∃ left, d.nextTimeout now = some left ∧
    ((d.poll (now + left)).1 = .reload ∨ (d.poll (now + left)).1 = .rejected) ∧
    ∀ t, now ≤ t → t < now + left → d.poll t = (.waiting, d)

/-! ### The burst -/

theorem change_mem_of_mem_changes {log : List Event} {t : Nat} (h : t ∈ changes log) :
    .change t ∈ log := by
  obtain ⟨e, he, ht⟩ := List.mem_filterMap.1 h
  cases e with
  | change now =>
      obtain rfl : now = t := Option.some.inj ht
      exact he
  | poll _ _ | finish _ | cancel => exact absurd ht.symm (Option.some_ne_none _)

theorem Chronological.of_append_right {past more : List Event} (h : Chronological (past ++ more)) :
    Chronological more := by
  rw [Chronological, List.filterMap_append, List.pairwise_append] at h
  exact h.2.1

theorem Chronological.of_cons {e : Event} {log : List Event} (h : Chronological (e :: log)) :
    Chronological log := by
  have happend : Chronological ([e] ++ log) := h
  exact happend.of_append_right

/-- What happens later is not earlier. -/
theorem Chronological.le_of_mem {e later : Event} {log : List Event}
    (h : Chronological (e :: log)) (hmem : later ∈ log) {t u : Nat} (ht : e.time? = some t)
    (hu : later.time? = some u) : t ≤ u := by
  rw [Chronological, List.filterMap_cons_some ht, List.pairwise_cons] at h
  exact h.1 u (List.mem_filterMap.2 ⟨later, hmem, hu⟩)

/-- A look at the clock before the deadline changes nothing. -/
theorem poll_early {d : Debouncer} {deadline now : Nat} (h : d.phase = .pending deadline)
    (hnow : now < deadline) : d.poll now = (.waiting, d) := by
  simp [poll, h, hnow]

/-- A look at the clock at the deadline or later starts a reload or rejects it. -/
theorem poll_due {d : Debouncer} {deadline now : Nat} (h : d.phase = .pending deadline)
    (hnow : deadline ≤ now) : d.poll now
      = if d.tooSoon now then (.rejected, { d with phase := .idle })
        else (.reload, { d with phase := .reloading }) := by
  simp [poll, h, Nat.not_lt.2 hnow]

/-- **The time left is exact.** -/
theorem tellsTime (d : Debouncer) : d.TellsTime := by
  intro deadline now hphase
  refine ⟨deadline - now, by simp [nextTimeout, hphase], ?_, fun t _ ht => ?_⟩
  · rw [poll_due hphase (by omega)]
    split
    · exact .inr rfl
    · exact .inl rfl
  · exact poll_early hphase (by omega)

/-- While a change waits, further changes in time lead to a new deadline and to nothing else,
and no look at the clock comes too late. -/
theorem pending_of_close {trace : List (Event × Debouncer)} {x y : Debouncer}
    {now lastChange : Nat} (h : Run Step x trace y)
    (hphase : x.phase = .pending (now + x.debounce))
    (hburst : Burst x.debounce lastChange (.change now :: events trace))
    (htime : Chronological (.change now :: events trace)) :
    y = { x with phase := .pending (lastChange + x.debounce) } ∧
      ∀ t tick, .poll t tick ∈ events trace → tick = .waiting := by
  induction trace generalizing x now with
  | nil =>
      obtain rfl := h.of_nil
      obtain rfl : now = lastChange := Option.some.inj hburst.last
      exact ⟨by rw [← hphase], fun t tick ht => absurd ht List.not_mem_nil⟩
  | cons m trace ih =>
      obtain ⟨e, w⟩ := m
      obtain ⟨hstep, hrest⟩ := h.of_cons
      obtain ⟨-, honly, hclose, hlast, hearly⟩ := hburst
      simp only [events_cons, List.forall_mem_cons] at honly
      cases hstep with
      | change t =>
          simp only [events_cons, changes, Event.change?, List.filterMap_cons,
            List.isChain_cons_cons, List.getLast?_cons_cons] at hclose hlast
          have hmore : Burst x.debounce lastChange (.change t :: events trace) :=
            ⟨⟨t, _, rfl⟩, List.forall_mem_cons.2 honly.2, hclose.2, hlast,
              fun u tick hu => hearly u tick (List.mem_cons_of_mem _ hu)⟩
          rw [onChange_of_ne (by rw [hphase]; exact Phase.noConfusion)] at hrest
          obtain ⟨hy, hwaits⟩ := ih hrest rfl hmore htime.of_cons
          refine ⟨hy, fun u tick hu => hwaits u tick ?_⟩
          rcases List.mem_cons.1 hu with hu | hu
          · exact Event.noConfusion hu
          · exact hu
      | poll t =>
          have hmore : Burst x.debounce lastChange (.change now :: events trace) := by
            refine ⟨⟨now, _, rfl⟩, List.forall_mem_cons.2 ⟨honly.1, honly.2.2⟩, hclose, hlast,
              fun u tick hu => hearly u tick ?_⟩
            rcases List.mem_cons.1 hu with hu | hu
            · exact Event.noConfusion hu
            · exact List.mem_cons_of_mem _ (List.mem_cons_of_mem _ hu)
          -- before the deadline that the last change set: a later change comes before it too
          have hlt : t < now + x.debounce := by
            rcases hnext : changes (events trace) with _ | ⟨next, more⟩
            · have hchanges : changes (.change now :: events trace) = [now] :=
                congrArg (now :: ·) hnext
              obtain rfl : now = lastChange := by simpa [hchanges] using hmore.last
              exact hearly t _ (List.mem_cons_of_mem _ List.mem_cons_self)
            · have hchanges : changes (.change now :: events trace) = now :: next :: more :=
                congrArg (now :: ·) hnext
              have hclose' := hmore.close
              rw [hchanges, List.isChain_cons_cons] at hclose'
              have hmem := change_mem_of_mem_changes (hnext ▸ List.mem_cons_self)
              exact Nat.lt_of_le_of_lt (htime.of_cons.le_of_mem hmem rfl rfl) hclose'.1
          have htime' : Chronological (.change now :: events trace) := by
            refine List.Pairwise.sublist ?_ htime
            exact List.Sublist.filterMap _ ((List.sublist_cons_self _ _).cons_cons _)
          rw [poll_early hphase hlt] at hrest ⊢
          obtain ⟨hy, hwaits⟩ := ih hrest hphase hmore htime'
          refine ⟨hy, fun u tick hu => ?_⟩
          rcases List.mem_cons.1 hu with hu | hu
          · exact (Event.poll.inj hu).2
          · exact hwaits u tick hu
      | finish t => simp at honly
      | cancel => simp at honly

/-- **A burst leaves nothing but its deadline** in a debouncer where nothing waited and no
reload ran. -/
theorem pending_of_burst {trace : List (Event × Debouncer)} {x y : Debouncer} {lastChange : Nat}
    (h : Run Step x trace y) (hidle : x.phase = .idle)
    (hburst : Burst x.debounce lastChange (events trace)) (htime : Chronological (events trace)) :
    y = { x with phase := .pending (lastChange + x.debounce) } ∧
      ∀ t tick, .poll t tick ∈ events trace → tick = .waiting := by
  obtain ⟨first, more, hlog⟩ := hburst.starts
  obtain ⟨⟨e, w⟩, trace, rfl, rfl, rfl⟩ := List.map_eq_cons_iff.1 hlog
  obtain ⟨hstep, hrest⟩ := h.of_cons
  cases hstep with
  | change t =>
      rw [onChange_of_ne (by rw [hidle]; exact Phase.noConfusion)] at hrest
      obtain ⟨hy, hwaits⟩ := pending_of_close hrest rfl hburst htime
      refine ⟨hy, fun u tick hu => hwaits u tick ?_⟩
      rcases List.mem_cons.1 hu with hu | hu
      · exact Event.noConfusion hu
      · exact hu

/-! ### After the deadline -/

/-- No reload finished later than the last one. -/
theorem le_of_lastFinish? {log : List Event} (htime : Chronological log) {f last : Nat}
    (hlast : lastFinish? log = some last) (hf : .finish f ∈ log) : f ≤ last := by
  induction log using List.reverseRecOn with
  | nil => exact absurd hf List.not_mem_nil
  | append_singleton log e ih =>
      rcases he : e.finish? with _ | now
      · rw [lastFinish?_append he] at hlast
        refine ih htime.of_append hlast ?_
        rcases List.mem_append.1 hf with hf | hf
        · exact hf
        · obtain rfl := List.mem_singleton.1 hf
          exact absurd he (Option.some_ne_none f)
      · obtain ⟨t, rfl⟩ : ∃ t, e = .finish t := by cases e <;> simp_all [Event.finish?]
        rw [lastFinish?_append_finish, Option.some.injEq] at hlast
        rcases List.mem_append.1 hf with hf | hf
        · exact hlast ▸ htime.time_le hf rfl rfl
        · exact hlast ▸ Nat.le_of_eq (Event.finish.inj (List.mem_singleton.1 hf))

/-- A reload comes too soon if one finished less than the minimum interval ago. -/
theorem tooSoon_iff_exists {debounce minInterval now : Nat} {log : List Event} {d : Debouncer}
    {tick : Tick} (h : Accounts debounce minInterval log d)
    (htime : Chronological (log ++ [.poll now tick])) :
    d.tooSoon now = true ↔ ∃ f, .finish f ∈ log ∧ now < f + minInterval := by
  rw [tooSoon_eq_true_iff, h.lastReload_eq, h.minInterval_eq]
  constructor
  · rintro ⟨f, hf, hlt⟩
    have hmem := finish_mem_of_lastFinish? hf
    have hle : f ≤ now := htime.time_le hmem rfl rfl
    exact ⟨f, hmem, by omega⟩
  · rintro ⟨f, hmem, hlt⟩
    rcases hlast : lastFinish? log with _ | last
    · rw [lastFinish?, List.getLast?_eq_none_iff, List.filterMap_eq_nil_iff] at hlast
      exact absurd (hlast _ hmem) (Option.some_ne_none f)
    · have hle := le_of_lastFinish? htime.of_append hlast hmem
      have hnow : last ≤ now := htime.time_le (finish_mem_of_lastFinish? hlast) rfl rfl
      exact ⟨last, rfl, by omega⟩

/-- No change waits, and none is kept for later. -/
structure Quiet (d : Debouncer) : Prop where
  phase_ne : ∀ deadline, d.phase ≠ .pending deadline
  queued : d.queued = false

/-- The end of a reload leaves nothing to do if no change came in. -/
theorem Quiet.finish {d : Debouncer} (h : d.Quiet) (now : Nat) : (d.finish now).phase = .idle := by
  simp [Debouncer.finish, h.queued]

/-- Only a change ends the quiet. -/
theorem Quiet.step {d d' : Debouncer} {e : Event} (h : d.Quiet) (hstep : Step d e d')
    (he : ∀ t, e ≠ .change t) : d'.Quiet ∧ (d.phase = .idle → d'.phase = .idle) := by
  cases hstep with
  | change now => exact absurd rfl (he now)
  | poll now =>
      obtain ⟨tick, hpoll, -⟩ | ⟨deadline, hphase, -⟩ | ⟨deadline, hphase, -⟩ := d.poll_cases now
      · rw [hpoll]
        exact ⟨h, id⟩
      · exact absurd hphase (h.phase_ne deadline)
      · exact absurd hphase (h.phase_ne deadline)
  | finish now =>
      have hidle := h.finish now
      exact ⟨⟨fun deadline hp => Phase.noConfusion (hidle.symm.trans hp), rfl⟩, fun _ => hidle⟩
  | cancel =>
      have hphase : d.cancel.phase = d.phase := by
        rcases hp : d.phase with _ | deadline | _
        · simp [Debouncer.cancel, hp]
        · exact absurd hp (h.phase_ne deadline)
        · simp [Debouncer.cancel, hp]
      exact ⟨⟨hphase ▸ h.phase_ne, rfl⟩, fun hidle => hphase.trans hidle⟩

theorem Quiet.run {trace : List (Event × Debouncer)} {d d' : Debouncer} (h : d.Quiet)
    (hrun : Run Step d trace d') (hchange : ∀ t, .change t ∉ events trace) : d'.Quiet :=
  hrun.invariant_of_mem (I := Quiet) h fun he hx hstep =>
    (hx.step hstep fun t ht => hchange t (ht ▸ he)).1

/-- Where nothing waits and no reload runs, every look at the clock says so. -/
theorem Quiet.poll_eq_idle {trace : List (Event × Debouncer)} {d d' : Debouncer} (h : d.Quiet)
    (hidle : d.phase = .idle) (hrun : Run Step d trace d') (hchange : ∀ t, .change t ∉ events trace)
    {t : Nat} {tick : Tick} (hpoll : .poll t tick ∈ events trace) : tick = .idle := by
  obtain ⟨before, after, hlog⟩ := List.append_of_mem hpoll
  obtain ⟨past, x, more, rfl, rfl, -⟩ := exists_of_events_eq hlog
  obtain ⟨w, hw, hstep, -⟩ := hrun.at_place
  have hkeep : w.Quiet ∧ w.phase = .idle :=
    hw.invariant_of_mem (I := fun d => d.Quiet ∧ d.phase = .idle) ⟨h, hidle⟩ fun he hx hstep => by
      have hnext := hx.1.step hstep fun t ht => hchange t (by simp [← ht, he])
      exact ⟨hnext.1, hnext.2 hx.2⟩
  cases hstep with
  | poll t => simp [poll, hkeep.2]

/-- What a look at the clock says while a change waits, and where it leads. -/
theorem poll_pending_cases {d d' : Debouncer} {deadline p : Nat} {tick : Tick}
    (hphase : d.phase = .pending deadline) (h : Step d (.poll p tick) d') :
    (p < deadline ∧ tick = .waiting) ∨
      (tick = .reload ∧ d.tooSoon p = false ∧ d' = { d with phase := .reloading }) ∨
      (tick = .rejected ∧ d.tooSoon p = true ∧ d' = { d with phase := .idle }) := by
  cases h with
  | poll p =>
      rcases Nat.lt_or_ge p deadline with hlt | hge
      · rw [poll_early hphase hlt]
        exact .inl ⟨hlt, rfl⟩
      · rw [poll_due hphase hge]
        rcases d.tooSoon p with _ | _
        · exact .inr (.inl ⟨rfl, rfl, rfl⟩)
        · exact .inr (.inr ⟨rfl, rfl, rfl⟩)

section Deadline

variable {debounce minInterval deadline lastChange : Nat} {log past burst : List Event}
  {d d' : Debouncer} {trace : List (Event × Debouncer)}

/-- At a deadline a reload begins, or it is rejected, as the reloads before say. -/
theorem exists_of_deadline (h : Accounts debounce minInterval log d)
    (hphase : d.phase = .pending deadline) (hrun : Run Step d trace d')
    (htime : Chronological (log ++ events trace)) {p : Nat} {tick : Tick} {later : List Event}
    (hlog : events trace = .poll p tick :: later) :
    (p < deadline ∧ tick = .waiting) ∨ ∃ x more, Run Step x more d' ∧ events more = later ∧
      x.Quiet ∧
        ((tick = .reload ∧ x.phase = .reloading ∧ ∀ f, .finish f ∈ log → f + minInterval ≤ p) ∨
          (tick = .rejected ∧ x.phase = .idle ∧ ∃ f, .finish f ∈ log ∧ p < f + minInterval)) := by
  obtain ⟨⟨e, x⟩, more, rfl, rfl, rfl⟩ := List.map_eq_cons_iff.1 hlog
  obtain ⟨hstep, hmore⟩ := hrun.of_cons
  have hqueued := h.queued_eq_false hphase
  have hsoon : d.tooSoon p = true ↔ ∃ f, .finish f ∈ log ∧ p < f + minInterval := by
    have hpoll : Chronological (log ++ [.poll p tick] ++ events more) := by
      rwa [List.append_assoc]
    exact tooSoon_iff_exists h hpoll.of_append
  rcases poll_pending_cases hphase hstep with hearly | ⟨rfl, hnot, rfl⟩ | ⟨rfl, hyes, rfl⟩
  · exact .inl hearly
  · refine .inr ⟨_, more, hmore, rfl, ⟨fun _ => Phase.noConfusion, hqueued⟩,
      .inl ⟨rfl, rfl, fun f hf => ?_⟩⟩
    rw [← Nat.not_lt]
    exact fun hlt => absurd (hsoon.2 ⟨f, hf, hlt⟩) (hnot ▸ Bool.false_ne_true)
  · exact .inr ⟨_, more, hmore, rfl, ⟨fun _ => Phase.noConfusion, hqueued⟩,
      .inr ⟨rfl, rfl, hsoon.1 hyes⟩⟩

/-- What becomes of a burst is settled at its deadline. -/
theorem collapses_of_pending (h : Accounts debounce minInterval (past ++ burst) d)
    (hphase : d.phase = .pending (lastChange + debounce)) (hrun : Run Step d trace d')
    (htime : Chronological (past ++ burst ++ events trace))
    (hfinish : ∀ f, .finish f ∉ burst) (hwaits : ∀ t tick, .poll t tick ∈ burst → tick = .waiting) :
    Collapses debounce minInterval lastChange past burst (events trace) := by
  have hpast : ∀ f, .finish f ∈ past ++ burst ↔ .finish f ∈ past := fun f => by
    simp [hfinish f]
  have hdeadline := fun {p tick later} =>
    @exists_of_deadline _ _ _ _ _ _ _ h hphase hrun htime p tick later
  simp only [hpast] at hdeadline
  refine ⟨hwaits, ?_, ?_, ?_, ?_, ?_⟩
  · intro p tick later hlog hdue
    obtain ⟨hearly, -⟩ | ⟨x, more, -, -, -, ⟨rfl, -, hall⟩ | ⟨rfl, -, f, hf, hlt⟩⟩ := hdeadline hlog
    · omega
    · exact iff_of_true rfl hall
    · exact iff_of_false Tick.noConfusion fun hall => by have := hall f hf; omega
  · intro p tick later hlog hdue
    obtain ⟨hearly, -⟩ | ⟨x, more, -, -, -, ⟨rfl, -, hall⟩ | ⟨rfl, -, hsome⟩⟩ := hdeadline hlog
    · omega
    · exact iff_of_false Tick.noConfusion fun ⟨f, hf, hlt⟩ => by have := hall f hf; omega
    · exact iff_of_true rfl hsome
  · intro p during t tick more hlog hnone
    obtain ⟨-, hwait⟩ | ⟨x, after, hafter, hlater, -, ⟨-, hx, -⟩ | ⟨hrej, -⟩⟩ := hdeadline hlog
    · exact Tick.noConfusion hwait
    · obtain ⟨trace', w, rest', rfl, rfl, rfl⟩ := exists_of_events_eq hlater
      obtain ⟨v, hv, hstep, -⟩ := hafter.at_place
      have hreloading := reloading_of_run hv hx hnone
      cases hstep with
      | poll t => rw [poll_reloading hreloading]
    · exact Tick.noConfusion hrej
  · intro p during f after hlog hnone t tick hpoll
    obtain ⟨-, hwait⟩ | ⟨x, more, hmore, hlater, hquiet, -⟩ := hdeadline hlog
    · exact Tick.noConfusion hwait
    · obtain ⟨trace', w, rest', rfl, rfl, rfl⟩ := exists_of_events_eq hlater
      obtain ⟨v, hv, hstep, hrest⟩ := hmore.at_place
      have hnone' : ∀ c, .change c ∉ events trace' ∧ .change c ∉ events rest' := fun c =>
        not_or.1 (mt List.mem_append.2 (hnone c))
      have hvquiet := hquiet.run hv fun c => (hnone' c).1
      have hwquiet := (hvquiet.step hstep fun _ => Event.noConfusion).1
      cases hstep with
      | finish f =>
          exact hwquiet.poll_eq_idle (hvquiet.finish f) hrest (fun c => (hnone' c).2) hpoll
  · intro p after hlog hnone t tick hpoll
    obtain ⟨-, hwait⟩ | ⟨x, more, hmore, rfl, hquiet, ⟨hrel, -⟩ | ⟨-, hx, -⟩⟩ := hdeadline hlog
    · exact Tick.noConfusion hwait
    · exact Tick.noConfusion hrel
    · exact hquiet.poll_eq_idle hx hmore hnone hpoll

end Deadline

/-- **A burst collapses into one reload,** whatever happened before it, and the time that is
told until then is exact. -/
theorem collapses_of_run (debounce minInterval : Nat) :
    (∀ {before trace : List (Event × Debouncer)} {x y : Debouncer} {lastChange : Nat}
      {burst rest : List Event}, Run Step { debounce, minInterval } before x → x.phase = .idle →
      Run Step x trace y → Chronological (events before ++ events trace) →
      events trace = burst ++ rest → Burst debounce lastChange burst →
      Collapses debounce minInterval lastChange (events before) burst rest) ∧
    ∀ d : Debouncer, d.TellsTime := by
  refine ⟨?_, tellsTime⟩
  intro before trace x y lastChange burst rest hbefore hidle htrace htime hlog hburst
  obtain ⟨early, late, rfl, rfl, rfl⟩ := List.map_eq_append_iff.1 hlog
  obtain ⟨w, hearly, hlate⟩ := htrace.of_append
  have hx := accounts_of_run hbefore htime.of_append
  have hall : Chronological (events before ++ events early ++ events late) := by
    rwa [List.append_assoc, ← events_append early late]
  have hw := accounts_of_run (hbefore.append hearly) (events_append before early ▸ hall.of_append)
  rw [events_append] at hw
  rw [← hx.debounce_eq] at hburst
  obtain ⟨hpending, hwaits⟩ := pending_of_burst hearly hidle hburst hall.of_append.of_append_right
  refine collapses_of_pending hw ?_ hlate hall (fun f hf => ?_) hwaits
  · rw [hpending, hx.debounce_eq]
  · obtain ⟨t, h⟩ | ⟨t, tick, h⟩ := hburst.only _ hf
    · exact Event.noConfusion h
    · exact Event.noConfusion h

/-- A burst whose gap, deadline and interval are met to the millisecond. -/
theorem collapses_of_run_burst :
    let past : List Event := [.change 0, .poll 100 .reload, .finish 660, .poll 700 .idle]
    let burst : List Event :=
      [.change 1000, .poll 1050 .waiting, .change 1099, .poll 1099 .waiting, .poll 1198 .waiting]
    let rest : List Event :=
      [.poll 1199 .reload, .poll 1200 .waiting, .finish 1300, .poll 1400 .idle]
    (∃ before x trace y, Run Step { debounce := 100, minInterval := 539 } before x ∧
      x.phase = .idle ∧ Run Step x trace y ∧ events before = past ∧ events trace = burst ++ rest) ∧
      Chronological (past ++ (burst ++ rest)) ∧ Burst 100 1099 burst ∧
      Collapses 100 539 1099 past burst rest := by
  intro past burst rest
  have hstart : Run Step { debounce := 100, minInterval := 539 } [] _ := .start
  have hpast := (((hstart.step (.change _ 0)).step (.poll _ 100)).step (.finish _ 660)).step
    (.poll _ 700)
  have hidle : Run Step ⟨100, 539, .idle, some 660, false⟩ [] _ := .start
  have hburst := ((((hidle.step (.change _ 1000)).step (.poll _ 1050)).step (.change _ 1099)).step
    (.poll _ 1099)).step (.poll _ 1198)
  have hrest := (((hburst.step (.poll _ 1199)).step (.poll _ 1200)).step (.finish _ 1300)).step
    (.poll _ 1400)
  have htime : Chronological (past ++ (burst ++ rest)) := by decide
  have hshape : Burst 100 1099 burst := by
    have hclose : [1000, 1099].IsChain fun earlier later => later < earlier + 100 := by simp
    have hearly : ∀ t tick, .poll t tick ∈ burst → t < 1199 := by
      intro t tick ht
      simp [burst] at ht
      omega
    exact ⟨⟨_, _, rfl⟩, by simp [burst], hclose, rfl, hearly⟩
  exact ⟨⟨_, _, _, _, hpast, rfl, hrest, rfl, rfl⟩, htime, hshape,
    (collapses_of_run 100 539).1 hpast rfl hrest htime rfl hshape⟩

end Debouncer
end NativeHooks
