/-
# Reloads side by side

Any number of processes reload: the worker of a session and all who ask for a reload on
demand.  Each takes a lock, scans the folder, puts up the index that came of it, counts
first that the index was replaced and then that a reload succeeded, and lets the lock go;
if the scan fails it lets the lock go at once.  What others do may come between any two
of these steps: other reloads, readers who take a snapshot, and changes of files.  As
files may change at any time, during a scan too, a scan may end with anything.

`serialised_of_run` says what readers can rely on all the same.  The counts lag behind
the replacements in their order and agree with them when no reload is under way; the
index that is up is the outcome of the scan that began last among those that were put
up, so none gives way to an older one; a reload that fails changes nothing; and a
snapshot stays what it is.  The lock does it: `Exclusive` says that only the process that
holds it is in a reload, so that at all times there is one stage that matters, and
`Accounts` says how that stage accounts for what happened.

So a coordinator may reload in one go: alone, a reload does just that
(`exists_run_publish`), and many of them come to what they would one after another
(`published_eq_publishAll`).
-/

import Mathlib.Data.List.Basic
import Mathlib.Logic.Function.Basic
import NativeHooks.Live.Coordinator
import NativeHooks.Proofs.Live.Run

namespace NativeHooks

/-- All indexes that were put up, and which of them readers get.  A reader holds the
place of an index; an index that is replaced keeps its place. -/
structure Shelf where
  indexes : List Index
  /-- The place of the index that readers get. -/
  current : Nat
  version : Nat
  current_lt : current < indexes.length

namespace Shelf

/-- A shelf with a first index. -/
def fresh (first : Index) : Shelf := ⟨[first], 0, 0, Nat.one_pos⟩

/-- What readers see. -/
def published (x : Shelf) : Published :=
  { current := x.indexes.get ⟨x.current, x.current_lt⟩, version := x.version }

/-- Readers get another index from now on. -/
def swap (x : Shelf) (index : Index) : Shelf where
  indexes := x.indexes ++ [index]
  current := x.indexes.length
  version := x.version
  current_lt := by simp

/-- Counts a swap. -/
def bump (x : Shelf) : Shelf := { x with version := x.version + 1 }

@[simp] theorem published_swap (x : Shelf) (index : Index) :
    (x.swap index).published = x.published.swap index := by
  simp [published, swap, Published.swap]

@[simp] theorem published_bump (x : Shelf) : x.bump.published = x.published.bump := rfl

theorem getElem?_current (x : Shelf) : x.indexes[x.current]? = some x.published.current := by
  simp [published, x.current_lt]

end Shelf

namespace Reloading

/-- Where a process stands in a reload.  Scans are numbered in the order in which they
begin. -/
inductive Stage where
  /-- In none. -/
  | outside
  /-- It holds the lock. -/
  | locked
  | scanning (number : Nat)
  | scanned (number : Nat) (result : Except FolderError Outcome)
  /-- The new index is up. -/
  | swapped
  /-- The swap is counted. -/
  | bumped
  /-- The reload is counted. -/
  | counted

/-- What the processes share. -/
structure Shared where
  shelf : Shelf
  /-- How many reloads succeeded. -/
  reloads : Nat := 0
  /-- How many scans have begun: the number of the next one.  Only the numbers of scans
  depend on it. -/
  begun : Nat := 0

/-- What a process does during a reload. -/
inductive Action where
  | beginScan (number : Nat)
  | endScan (number : Nat) (result : Except FolderError Outcome)
  /-- Puts up the index that the scan gave. -/
  | swap (number : Nat) (outcome : Outcome)
  /-- Counts the swap. -/
  | bump
  /-- Counts the reload. -/
  | count

/-- One step of a process during a reload, and what it makes of what is shared. -/
inductive Work : Stage → Shared → Action → Stage → Shared → Prop where
  | beginScan (d : Shared) :
      Work .locked d (.beginScan d.begun) (.scanning d.begun) { d with begun := d.begun + 1 }
  | endScan (d : Shared) (number : Nat) (result : Except FolderError Outcome) :
      Work (.scanning number) d (.endScan number result) (.scanned number result) d
  | swap (d : Shared) (number : Nat) (outcome : Outcome) :
      Work (.scanned number (.ok outcome)) d (.swap number outcome) .swapped
        { d with shelf := d.shelf.swap outcome.index }
  | bump (d : Shared) : Work .swapped d .bump .bumped { d with shelf := d.shelf.bump }
  | count (d : Shared) : Work .bumped d .count .counted { d with reloads := d.reloads + 1 }

/-- A reload is over when it is counted, or when its scan has failed. -/
inductive Stage.IsDone : Stage → Prop where
  | counted : IsDone .counted
  | failed (number : Nat) (error : FolderError) : IsDone (.scanned number (.error error))

variable {P : Type}

/-- Processes that reload, and the lock. -/
structure State (P : Type) where
  shared : Shared
  /-- The process that holds the lock. -/
  holder : Option P := none
  stage : P → Stage := fun _ => .outside

/-- What happens among processes and readers. -/
inductive Event (P : Type) where
  /-- A process takes the lock. -/
  | lock (p : P)
  | work (p : P) (action : Action)
  /-- A process lets the lock go. -/
  | unlock (p : P)
  /-- A reader takes the index that is up; it holds its place. -/
  | snapshot (place : Nat)

/-- What happens, in any order that the lock allows. -/
inductive Step [DecidableEq P] : State P → Event P → State P → Prop where
  | lock {x : State P} {p : P} (stage : x.stage p = .outside) (free : x.holder = none) :
      Step x (.lock p)
        { x with holder := some p, stage := Function.update x.stage p .locked }
  | work {x : State P} {p : P} {action : Action} {stage : Stage} {shared : Shared}
      (work : Work (x.stage p) x.shared action stage shared) :
      Step x (.work p action) { x with shared, stage := Function.update x.stage p stage }
  | unlock {x : State P} {p : P} (done : (x.stage p).IsDone) :
      Step x (.unlock p) { x with holder := none, stage := Function.update x.stage p .outside }
  | snapshot {x : State P} : Step x (.snapshot x.shared.shelf.current) x

/-- No process is in a reload yet, and readers get the index `first`. -/
def start (first : Index) : State P := { shared := { shelf := Shelf.fresh first } }

/-! ### The log -/

/-- The number of a scan that begins. -/
def Event.begun? : Event P → Option Nat
  | work _ (.beginScan number) => some number
  | _ => none

/-- What is put up, with the number of its scan. -/
def Event.swap? : Event P → Option (Nat × Outcome)
  | work _ (.swap number outcome) => some (number, outcome)
  | _ => none

/-- The scans that began, in this order. -/
def scans (log : List (Event P)) : List Nat := log.filterMap Event.begun?

/-- The outcomes that were put up, in this order, each with the number of its scan. -/
def swaps (log : List (Event P)) : List (Nat × Outcome) := log.filterMap Event.swap?

/-- The scan of a reload of this process failed. -/
def Fails (p : P) (log : List (Event P)) : Prop :=
  ∃ number error, .work p (.endScan number (.error error)) ∈ log

/-- Index, version and number of reloads are the same. -/
def State.Same (x y : State P) : Prop :=
  x.shared.shelf.published = y.shared.shelf.published ∧ x.shared.reloads = y.shared.reloads

/-- What readers can rely on. -/
structure Serialised (first : Index) (trace : List (Event P × State P)) (x : State P) : Prop where
  /-- Two processes are never in a reload at once. -/
  exclusive : ∀ p q, x.stage p ≠ .outside → x.stage q ≠ .outside → p = q
  version_le : x.shared.shelf.version ≤ (swaps (events trace)).length
  reloads_le : x.shared.reloads ≤ x.shared.shelf.version
  /-- All counts agree when no process holds the lock. -/
  settled : x.holder = none →
    (swaps (events trace)).length = x.shared.shelf.version ∧
      x.shared.shelf.version = x.shared.reloads
  /-- Scans are numbered in the order in which they begin. -/
  numbered : scans (events trace) = List.range x.shared.begun
  /-- Only what a scan gave is put up, all of it. -/
  complete : ∀ number outcome, (number, outcome) ∈ swaps (events trace) →
    number ∈ scans (events trace) ∧ ∃ p, .work p (.endScan number (.ok outcome)) ∈ events trace
  /-- What is put up never comes of a scan that began earlier. -/
  ordered : (swaps (events trace)).Pairwise fun a b => a.1 < b.1
  /-- The first index is up as long as nothing was put up. -/
  current_first : swaps (events trace) = [] → x.shared.shelf.published.current = first
  /-- Up is what came of the scan that began last, of all that were put up. -/
  current_newest : ∀ number outcome, (number, outcome) ∈ swaps (events trace) →
    (∀ s ∈ swaps (events trace), s.1 ≤ number) →
    x.shared.shelf.published.current = outcome.index
  /-- A reload that fails changes nothing, from the lock to the end. -/
  failing : ∀ {past during more p y}, trace = past ++ (.lock p, y) :: (during ++ more) →
    .unlock p ∉ events during → Fails p (events during) →
    (∀ m ∈ during, m.2.Same y) ∧ ∀ z later, more = (.unlock p, z) :: later → z.Same y
  /-- A snapshot is what was up when it was taken, and stays that. -/
  snapshot : ∀ {past after place y}, trace = past ++ (.snapshot place, y) :: after →
    ∀ m ∈ (.snapshot place, y) :: after,
      m.2.shared.shelf.indexes[place]? = some y.shared.shelf.published.current

/-! ### The lock -/

section Lock

variable {x y : State P} {p q : P} {e : Event P}

/-- Just the process that holds the lock is in a reload. -/
def State.Exclusive (x : State P) : Prop := ∀ p, x.stage p ≠ .outside ↔ x.holder = some p

/-- A process works only inside a reload, and does not leave it that way. -/
theorem Work.inside {a : Action} {s s' : Stage} {d d' : Shared} (h : Work s d a s' d') :
    s ≠ .outside ∧ s' ≠ .outside := by
  cases h <;> exact ⟨Stage.noConfusion, Stage.noConfusion⟩

theorem Stage.IsDone.inside {s : Stage} (h : s.IsDone) : s ≠ .outside := by
  cases h <;> exact Stage.noConfusion

theorem exclusive_start (first : Index) : (start first : State P).Exclusive := fun p => by
  simp [start]

/-- The stage of the process that holds the lock. -/
def State.now (x : State P) : Stage := x.holder.elim .outside x.stage

theorem State.now_of_free (h : x.holder = none) : x.now = .outside := by
  rw [State.now, h]
  rfl

theorem State.Exclusive.now_eq (h : x.Exclusive) (hp : x.stage p ≠ .outside) :
    x.now = x.stage p := by
  rw [State.now, (h p).1 hp]
  rfl

variable [DecidableEq P]

theorem State.Exclusive.step (h : x.Exclusive) (hstep : Step x e y) : y.Exclusive := by
  intro q
  cases hstep with
  | @lock p stage free =>
      have hq := h q
      rw [free] at hq
      by_cases hpq : q = p
      · simp [hpq]
      · simp only [Function.update_of_ne hpq, Option.some.injEq, Ne.symm hpq, iff_false]
        exact fun hne => Option.some_ne_none q (hq.1 hne).symm
  | @work p action stage shared work =>
      by_cases hpq : q = p
      · subst hpq
        simp only [Function.update_self]
        exact ⟨fun _ => (h q).1 work.inside.1, fun _ => work.inside.2⟩
      · simp only [Function.update_of_ne hpq]
        exact h q
  | @unlock p done =>
      have hp := (h p).1 done.inside
      have hq := h q
      rw [hp] at hq
      by_cases hpq : q = p
      · simp [hpq]
      · simp only [Function.update_of_ne hpq, reduceCtorEq, iff_false]
        exact fun hne => hpq (Option.some.inj (hq.1 hne)).symm
  | snapshot => exact h q

end Lock

/-! ### The counts -/

/-- A swap that is not counted yet. -/
def Stage.unversioned : Stage → Nat
  | swapped => 1
  | _ => 0

/-- A counted swap of a reload that is not counted yet. -/
def Stage.uncounted : Stage → Nat
  | bumped => 1
  | _ => 0

/-- The scan whose outcome is not up yet. -/
def Stage.number? : Stage → Option Nat
  | scanning number => some number
  | scanned number _ => some number
  | _ => none

/-- What is shared accounts for what happened, with the reload that is at `stage`. -/
structure Accounts (first : Index) (log : List (Event P)) (stage : Stage) (d : Shared) : Prop where
  versions : (swaps log).length = d.shelf.version + stage.unversioned
  counts : d.shelf.version = d.reloads + stage.uncounted
  numbered : scans log = List.range d.begun
  /-- All that was put up came of scans that began earlier. -/
  later : ∀ n, stage.number? = some n → n < d.begun ∧ ∀ s ∈ swaps log, s.1 < n
  swap_lt : ∀ s ∈ swaps log, s.1 < d.begun
  ordered : (swaps log).Pairwise fun a b => a.1 < b.1
  result : ∀ n outcome, stage = .scanned n (.ok outcome) →
    ∃ p, .work p (.endScan n (.ok outcome)) ∈ log
  complete : ∀ n outcome, (n, outcome) ∈ swaps log →
    ∃ p, .work p (.endScan n (.ok outcome)) ∈ log
  current : d.shelf.published.current = ((swaps log).getLast?.map (·.2.index)).getD first

section Accounts

variable {first : Index} {log : List (Event P)} {s s' : Stage} {d d' : Shared}

theorem swaps_append {e : Event P} (h : e.swap? = none) : swaps (log ++ [e]) = swaps log := by
  simp [swaps, h]

theorem scans_append {e : Event P} (h : e.begun? = none) : scans (log ++ [e]) = scans log := by
  simp [scans, h]

/-- What happened has still happened later. -/
theorem exists_append {a : Action} {e : Event P} (h : ∃ p, .work p a ∈ log) :
    ∃ p, .work p a ∈ log ++ [e] :=
  h.imp fun _ => List.mem_append_left _

theorem accounts_start (first : Index) :
    Accounts first ([] : List (Event P)) .outside { shelf := Shelf.fresh first } where
  versions := rfl
  counts := rfl
  numbered := rfl
  later := fun _ h => absurd h.symm (Option.some_ne_none _)
  swap_lt := fun _ h => absurd h List.not_mem_nil
  ordered := List.Pairwise.nil
  result := fun _ _ h => absurd h Stage.noConfusion
  complete := fun _ _ h => absurd h List.not_mem_nil
  current := rfl

/-- What neither begins a scan nor puts anything up leaves the accounts in order if all
counts are kept up. -/
theorem Accounts.append (h : Accounts first log s d) {e : Event P} (hswap : e.swap? = none)
    (hscan : e.begun? = none)
    (hversion : d'.shelf.version + s'.unversioned = d.shelf.version + s.unversioned)
    (hcount : d.shelf.version = d.reloads + s.uncounted →
      d'.shelf.version = d'.reloads + s'.uncounted)
    (hbegun : d'.begun = d.begun)
    (hcurrent : d'.shelf.published.current = d.shelf.published.current)
    (hnumber : ∀ n, s'.number? = some n → s.number? = some n)
    (hresult : ∀ n outcome, s' = .scanned n (.ok outcome) →
      ∃ p, .work p (.endScan n (.ok outcome)) ∈ log ++ [e]) :
    Accounts first (log ++ [e]) s' d' where
  versions := by rw [swaps_append hswap, hversion, h.versions]
  counts := hcount h.counts
  numbered := by rw [scans_append hscan, hbegun, h.numbered]
  later := by
    rw [swaps_append hswap, hbegun]
    exact fun n hn => h.later n (hnumber n hn)
  swap_lt := by
    rw [swaps_append hswap, hbegun]
    exact h.swap_lt
  ordered := by
    rw [swaps_append hswap]
    exact h.ordered
  result := hresult
  complete := by
    rw [swaps_append hswap]
    exact fun n outcome hmem => exists_append (h.complete n outcome hmem)
  current := by rw [swaps_append hswap, hcurrent, h.current]

/-- A scan that begins gets a number that no scan had before. -/
theorem Accounts.beginScan (h : Accounts first log .locked d) (p : P) :
    Accounts first (log ++ [.work p (.beginScan d.begun)]) (.scanning d.begun)
      { d with begun := d.begun + 1 } where
  versions := by rw [swaps_append rfl, h.versions]; rfl
  counts := h.counts
  numbered := by
    rw [scans, List.filterMap_append, List.range_succ]
    exact congrArg (· ++ [d.begun]) h.numbered
  later := by
    rw [swaps_append rfl]
    intro n hn
    obtain rfl : d.begun = n := Option.some.inj hn
    exact ⟨Nat.lt_succ_self _, h.swap_lt⟩
  swap_lt := by
    rw [swaps_append rfl]
    exact fun s hs => Nat.lt_succ_of_lt (h.swap_lt s hs)
  ordered := by
    rw [swaps_append rfl]
    exact h.ordered
  result := fun _ _ hs => absurd hs Stage.noConfusion
  complete := by
    rw [swaps_append rfl]
    exact fun n outcome hmem => exists_append (h.complete n outcome hmem)
  current := by rw [swaps_append rfl]; exact h.current

/-- What is put up comes of a scan that began after those of all that was put up before. -/
theorem Accounts.swap {n : Nat} {outcome : Outcome}
    (h : Accounts first log (.scanned n (.ok outcome)) d) (p : P) :
    Accounts first (log ++ [.work p (.swap n outcome)]) .swapped
      { d with shelf := d.shelf.swap outcome.index } := by
  have hswaps : swaps (log ++ [.work p (.swap n outcome)]) = swaps log ++ [(n, outcome)] := by
    simp [swaps, Event.swap?]
  obtain ⟨hlt, hlater⟩ := h.later n rfl
  refine ⟨?_, h.counts, ?_, fun _ hn => absurd hn.symm (Option.some_ne_none _), ?_, ?_,
    fun _ _ hs => absurd hs Stage.noConfusion, ?_, ?_⟩
  · rw [hswaps, List.length_append, h.versions]
    rfl
  · rw [scans_append rfl]
    exact h.numbered
  · rw [hswaps, List.forall_mem_append]
    exact ⟨h.swap_lt, List.forall_mem_singleton.2 hlt⟩
  · rw [hswaps, List.pairwise_append]
    exact ⟨h.ordered, List.pairwise_singleton _ _,
      fun a ha b hb => List.mem_singleton.1 hb ▸ hlater a ha⟩
  · intro n' outcome' hmem
    rw [hswaps, List.mem_append, List.mem_singleton] at hmem
    refine exists_append ?_
    rcases hmem with hmem | hmem
    · exact h.complete n' outcome' hmem
    · obtain ⟨rfl, rfl⟩ := Prod.mk.inj hmem
      exact h.result n' outcome' rfl
  · simp [hswaps, Published.swap]

theorem Accounts.work (h : Accounts first log s d) {a : Action} (hwork : Work s d a s' d') (p : P) :
    Accounts first (log ++ [.work p a]) s' d' := by
  cases hwork with
  | beginScan => exact h.beginScan p
  | endScan n result =>
      refine h.append rfl rfl rfl id rfl rfl (fun _ => id) fun n' outcome hs => ?_
      obtain ⟨rfl, rfl⟩ := Stage.scanned.inj hs
      exact ⟨p, List.mem_append_right _ (List.mem_singleton.2 rfl)⟩
  | swap n outcome => exact h.swap p
  | bump =>
      exact h.append rfl rfl rfl (congrArg (· + 1)) rfl rfl (fun _ => id)
        fun _ _ hs => absurd hs Stage.noConfusion
  | count =>
      exact h.append rfl rfl rfl id rfl rfl (fun _ => id)
        fun _ _ hs => absurd hs Stage.noConfusion

/-- A reload that is over leaves nothing uncounted. -/
theorem Accounts.done (h : Accounts first log s d) (hs : s.IsDone) (p : P) :
    Accounts first (log ++ [.unlock p]) .outside d := by
  have hnone : ∀ n, Stage.number? .outside = some n → s.number? = some n :=
    fun _ hn => absurd hn.symm (Option.some_ne_none _)
  have hresult : ∀ n outcome, Stage.outside = .scanned n (.ok outcome) →
      ∃ q, .work q (.endScan n (.ok outcome)) ∈ log ++ [.unlock p] :=
    fun _ _ hs => absurd hs Stage.noConfusion
  cases hs with
  | counted => exact h.append rfl rfl rfl id rfl rfl hnone hresult
  | failed n error => exact h.append rfl rfl rfl id rfl rfl hnone hresult

variable [DecidableEq P]

/-- The accounts stay in order, whatever happens. -/
theorem Accounts.step {x y : State P} {e : Event P} (h : Accounts first log x.now x.shared)
    (hx : x.Exclusive) (hstep : Step x e y) : Accounts first (log ++ [e]) y.now y.shared := by
  cases hstep with
  | @lock p stage free =>
      rw [State.now_of_free free] at h
      have hlocked : Accounts first (log ++ [.lock p]) .locked x.shared :=
        h.append rfl rfl rfl id rfl rfl (fun _ => id) fun _ _ hs => absurd hs Stage.noConfusion
      simpa [State.now] using hlocked
  | @work p action stage shared work =>
      rw [hx.now_eq work.inside.1] at h
      simpa [State.now, (hx p).1 work.inside.1] using h.work work p
  | @unlock p done =>
      rw [hx.now_eq done.inside] at h
      exact h.done done p
  | snapshot =>
      exact h.append rfl rfl rfl id rfl rfl (fun _ => id) fun n outcome hs =>
        exists_append (h.result n outcome hs)

theorem accounts_of_run {trace : List (Event P × State P)} {x : State P}
    (h : Run Step (start first) trace x) :
    x.Exclusive ∧ Accounts first (events trace) x.now x.shared := by
  induction h with
  | start => exact ⟨exclusive_start first, accounts_start first⟩
  | step _ next ih =>
      rw [events_append]
      exact ⟨ih.1.step next, ih.2.step ih.1 next⟩

end Accounts

/-- The scan that began last, of those that came in this order, comes last. -/
theorem getLast?_eq_of_forall_le {α : Type} {l : List (Nat × α)} {m : Nat × α}
    (h : l.Pairwise fun a b => a.1 < b.1) (hmem : m ∈ l) (hle : ∀ s ∈ l, s.1 ≤ m.1) :
    l.getLast? = some m := by
  obtain ⟨earlier, later, rfl⟩ := List.append_of_mem hmem
  obtain ⟨-, hlater, -⟩ := List.pairwise_append.1 h
  rcases later with _ | ⟨s, later⟩
  · exact List.getLast?_concat
  · have hlt := (List.pairwise_cons.1 hlater).1 s List.mem_cons_self
    exact absurd hlt (Nat.not_lt.2 (hle s (by simp)))

/-! ### A reload that fails -/

/-- In this stage a reload has changed nothing that readers see. -/
def Stage.IsEarly : Stage → Prop
  | swapped | bumped | counted => False
  | _ => True

section Failing

variable {x y z : State P} {p : P} {trace : List (Event P × State P)}

theorem State.Same.refl (x : State P) : x.Same x := ⟨rfl, rfl⟩

theorem State.Same.trans (hxy : x.Same y) (hyz : y.Same z) : x.Same z :=
  ⟨hxy.1.trans hyz.1, hxy.2.trans hyz.2⟩

/-- What a reload does while it has changed nothing changes nothing. -/
theorem Work.early {s s' : Stage} {d d' : Shared} {a : Action} (h : Work s d a s' d')
    (hs : s'.IsEarly) : s.IsEarly ∧ d'.shelf = d.shelf ∧ d'.reloads = d.reloads := by
  cases h with
  | beginScan | endScan => exact ⟨trivial, rfl, rfl⟩
  | swap | bump | count => exact hs.elim

/-- Nothing is done after a scan that failed. -/
theorem Work.ne_failed {s s' : Stage} {d d' : Shared} {a : Action} (h : Work s d a s' d')
    (n : Nat) (error : FolderError) : s ≠ .scanned n (.error error) := by
  rintro rfl
  cases h

theorem Work.eq_scanned {s s' : Stage} {d d' : Shared} {n : Nat}
    {result : Except FolderError Outcome} (h : Work s d (.endScan n result) s' d') : s' = .scanned n result := by
  cases h
  rfl

/-- Since the process `p` took the lock, which led to `y`, it has not let it go. -/
structure Held (p : P) (y : State P) (trace : List (Event P × State P)) (z : State P) : Prop where
  holder : z.holder = some p
  same : (z.stage p).IsEarly → z.Same y ∧ ∀ m ∈ trace, m.2.Same y
  failed : Fails p (events trace) → ∃ n error, z.stage p = .scanned n (.error error)

theorem held_start (hholder : y.holder = some p) : Held p y [] y where
  holder := hholder
  same := fun _ => ⟨.refl y, fun _ hm => absurd hm List.not_mem_nil⟩
  failed := fun ⟨_, _, hmem⟩ => absurd hmem List.not_mem_nil

theorem Held.append (h : Held p y trace x) {e : Event P} (hholder : z.holder = some p)
    (hearly : (z.stage p).IsEarly → (x.stage p).IsEarly ∧ z.Same x)
    (hfailed : ∀ n error, x.stage p = .scanned n (.error error) → z.stage p = x.stage p)
    (hfails : ∀ n error, e = .work p (.endScan n (.error error)) →
      z.stage p = .scanned n (.error error)) : Held p y (trace ++ [(e, z)]) z where
  holder := hholder
  same := fun hz => by
    obtain ⟨hx, hzx⟩ := hearly hz
    obtain ⟨hxy, hall⟩ := h.same hx
    have hzy := hzx.trans hxy
    exact ⟨hzy, List.forall_mem_append.2 ⟨hall, List.forall_mem_singleton.2 hzy⟩⟩
  failed := by
    rintro ⟨n, error, hmem⟩
    rw [events_append, List.mem_append] at hmem
    rcases hmem with hmem | hmem
    · obtain ⟨n, error, hx⟩ := h.failed ⟨n, error, hmem⟩
      exact ⟨n, error, (hfailed n error hx).trans hx⟩
    · exact ⟨n, error, hfails n error (List.mem_singleton.1 hmem).symm⟩

variable [DecidableEq P]

theorem Held.step (h : Held p y trace x) (hx : x.Exclusive) {e : Event P} (hstep : Step x e z)
    (he : e ≠ .unlock p) : Held p y (trace ++ [(e, z)]) z := by
  cases hstep with
  | lock _ free => exact absurd (free.symm.trans h.holder) (Option.some_ne_none p).symm
  | @work q action stage shared work =>
      have hq := (hx q).1 work.inside.1
      obtain rfl : q = p := Option.some.inj (hq.symm.trans h.holder)
      have hstage : Function.update x.stage q stage q = stage := Function.update_self ..
      refine h.append h.holder (fun hz => ?_)
        (fun n error hs => absurd hs (work.ne_failed n error)) ?_
      · obtain ⟨hs, hshelf, hreloads⟩ := work.early (hstage ▸ hz)
        exact ⟨hs, congrArg Shelf.published hshelf, hreloads⟩
      · intro n error ha
        rw [(Event.work.inj ha).2] at work
        exact hstage.trans work.eq_scanned
  | @unlock q done =>
      have hq := (hx q).1 done.inside
      obtain rfl : q = p := Option.some.inj (hq.symm.trans h.holder)
      exact absurd rfl he
  | snapshot =>
      exact h.append h.holder (fun hs => ⟨hs, .refl _⟩) (fun _ _ _ => rfl)
        (fun _ _ ha => nomatch ha)

theorem held_of_run (h : Run Step y trace z) (hy : y.Exclusive) (hholder : y.holder = some p)
    (hunlock : .unlock p ∉ events trace) : Held p y trace z := by
  induction h with
  | start => exact held_start hholder
  | step run next ih =>
      simp only [events_append, List.mem_append, not_or] at hunlock
      exact (ih hunlock.1).step (run.invariant hy State.Exclusive.step) next
        fun he => hunlock.2 (List.mem_singleton.2 he.symm)

end Failing

/-! ### Snapshots -/

section Snapshots

variable [DecidableEq P] {x y : State P}

theorem Work.indexes {s s' : Stage} {d d' : Shared} {a : Action} (h : Work s d a s' d') :
    d.shelf.indexes <+: d'.shelf.indexes := by
  cases h with
  | swap => exact List.prefix_append _ _
  | beginScan | endScan | bump | count => exact List.prefix_rfl

/-- An index that was put up keeps its place. -/
theorem Step.indexes {e : Event P} (h : Step x e y) :
    x.shared.shelf.indexes <+: y.shared.shelf.indexes := by
  cases h with
  | lock | unlock | snapshot => exact List.prefix_rfl
  | work work => exact work.indexes

theorem indexes_of_run {trace : List (Event P × State P)} (h : Run Step x trace y) :
    x.shared.shelf.indexes <+: y.shared.shelf.indexes :=
  h.invariant (I := fun z => x.shared.shelf.indexes <+: z.shared.shelf.indexes) List.prefix_rfl
    fun hz hstep => hz.trans hstep.indexes

end Snapshots

/-! ### What readers can rely on -/

section Serialised

variable [DecidableEq P] {first : Index} {trace : List (Event P × State P)} {x : State P}

/-- What is at some place of the shelf is there later too. -/
theorem getElem?_of_run {w y : State P} {more : List (Event P × State P)} {place : Nat}
    {index : Index} (h : Run Step y more w) (hy : y.shared.shelf.indexes[place]? = some index) :
    w.shared.shelf.indexes[place]? = some index := by
  obtain ⟨later, hlater⟩ := indexes_of_run h
  obtain ⟨hlt, -⟩ := List.getElem?_eq_some_iff.1 hy
  rw [← hlater, List.getElem?_append_left hlt, hy]

/-- A snapshot is what was up when it was taken, and stays that. -/
theorem snapshot_of_run {past after : List (Event P × State P)} {place : Nat} {y : State P}
    (h : Run Step (start first) (past ++ (.snapshot place, y) :: after) x) :
    ∀ m ∈ (.snapshot place, y) :: after,
      m.2.shared.shelf.indexes[place]? = some y.shared.shelf.published.current := by
  obtain ⟨w, -, hstep, hafter⟩ := h.at_place
  have hy : y.shared.shelf.indexes[place]? = some y.shared.shelf.published.current := by
    cases hstep
    exact Shelf.getElem?_current _
  intro m hm
  rcases List.mem_cons.1 hm with rfl | hm
  · exact hy
  · obtain ⟨before, hbefore⟩ := hafter.of_mem hm
    exact getElem?_of_run hbefore hy

/-- A reload that fails changes nothing, from the lock to the end. -/
theorem same_of_fails {past during more : List (Event P × State P)} {p : P} {y : State P}
    (h : Run Step (start first) (past ++ (.lock p, y) :: (during ++ more)) x)
    (hunlock : .unlock p ∉ events during) (hfails : Fails p (events during)) :
    (∀ m ∈ during, m.2.Same y) ∧ ∀ z later, more = (.unlock p, z) :: later → z.Same y := by
  obtain ⟨w, hpast, hlock, hrest⟩ := h.at_place
  obtain ⟨z, hduring, hmore⟩ := hrest.of_append
  have hw := hpast.invariant (exclusive_start first) State.Exclusive.step
  have hholder : y.holder = some p := by cases hlock; rfl
  have hheld := held_of_run hduring (hw.step hlock) hholder hunlock
  obtain ⟨n, error, hz⟩ := hheld.failed hfails
  obtain ⟨hsame, hall⟩ := hheld.same (hz ▸ trivial)
  refine ⟨hall, ?_⟩
  rintro z' later rfl
  obtain ⟨hunlock, -⟩ := hmore.of_cons
  cases hunlock
  exact hsame

/-- **Reloads are serialised and readers never get an older index again**, whatever
processes, readers and the files do. -/
theorem serialised_of_run (h : Run Step (start first) trace x) : Serialised first trace x := by
  obtain ⟨hx, haccounts⟩ := accounts_of_run h
  constructor
  case exclusive =>
    intro p q hp hq
    exact Option.some.inj (((hx p).1 hp).symm.trans ((hx q).1 hq))
  case version_le => exact haccounts.versions ▸ Nat.le_add_right _ _
  case reloads_le => exact haccounts.counts ▸ Nat.le_add_right _ _
  case settled =>
    intro hfree
    rw [State.now_of_free hfree] at haccounts
    exact ⟨haccounts.versions, haccounts.counts⟩
  case numbered => exact haccounts.numbered
  case complete =>
    intro n outcome hmem
    rw [haccounts.numbered]
    exact ⟨List.mem_range.2 (haccounts.swap_lt _ hmem), haccounts.complete n outcome hmem⟩
  case ordered => exact haccounts.ordered
  case current_first =>
    intro hnone
    rw [haccounts.current, hnone]
    rfl
  case current_newest =>
    intro n outcome hmem hle
    rw [haccounts.current, getLast?_eq_of_forall_le haccounts.ordered hmem hle]
    rfl
  case failing =>
    rintro past during more p y rfl hunlock hfails
    exact same_of_fails h hunlock hfails
  case snapshot =>
    rintro past after place y rfl
    exact snapshot_of_run h

/-- What a scan of a folder with one header gives. -/
def oneHeader (fileName text : String) : Outcome :=
  Outcome.ofSources "/sdk"
    [{ location := fileName, fileName, relativeLocation := fileName, directory := "" }]
    fun _ => (.ok text : Except String String)

/-- A reload with readers during its scan and right after the swap, then another process
whose scan fails, then a reload that has swapped but not counted. -/
theorem serialised_of_run_two :
    let a := oneHeader "a.h" "int F() \x7b return NativeCall<int>(this, \"A.F\"); \x7d"
    let b := oneHeader "b.h" "struct B;"
    let gone := FolderError.notFound (Path.ofString "/sdk")
    let log : List (Event Bool) :=
      [.lock false, .work false (.beginScan 0), .snapshot 0, .work false (.endScan 0 (.ok a)),
        .work false (.swap 0 a), .snapshot 1, .work false .bump, .work false .count, .unlock false,
        .lock true, .work true (.beginScan 1), .snapshot 1, .work true (.endScan 1 (.error gone)),
        .unlock true, .lock false, .work false (.beginScan 2), .work false (.endScan 2 (.ok b)),
        .work false (.swap 2 b)]
    ∃ trace x, Run Step (start {}) trace x ∧ events trace = log ∧ Serialised {} trace x := by
  intro a b gone log
  have hstart : Run Step (start {} : State Bool) [] (start {}) := .start
  have hfirst := hstart
    |>.step (e := .lock false) (.lock rfl rfl)
    |>.step (e := .work false (.beginScan 0)) (.work (.beginScan _))
    |>.step (e := .snapshot 0) .snapshot
    |>.step (e := .work false (.endScan 0 (.ok a))) (.work (.endScan _ _ _))
    |>.step (e := .work false (.swap 0 a)) (.work (.swap _ _ _))
    |>.step (e := .snapshot 1) .snapshot
    |>.step (e := .work false .bump) (.work (.bump _))
    |>.step (e := .work false .count) (.work (.count _))
    |>.step (e := .unlock false) (.unlock .counted)
  have hsecond := hfirst
    |>.step (e := .lock true) (.lock rfl rfl)
    |>.step (e := .work true (.beginScan 1)) (.work (.beginScan _))
    |>.step (e := .snapshot 1) .snapshot
    |>.step (e := .work true (.endScan 1 (.error gone))) (.work (.endScan _ _ _))
    |>.step (e := .unlock true) (.unlock (.failed _ _))
  have hrun := hsecond
    |>.step (e := .lock false) (.lock rfl rfl)
    |>.step (e := .work false (.beginScan 2)) (.work (.beginScan _))
    |>.step (e := .work false (.endScan 2 (.ok b))) (.work (.endScan _ _ _))
    |>.step (e := .work false (.swap 2 b)) (.work (.swap _ _ _))
  obtain ⟨trace, x, hrun, hlog⟩ : ∃ trace x, Run Step (start {}) trace x ∧ events trace = log :=
    ⟨_, _, hrun, by simp only [events_cons, events_nil, List.nil_append, List.cons_append, log]⟩
  exact ⟨trace, x, hrun, hlog, serialised_of_run hrun⟩

end Serialised

/-! ### The reload of a coordinator -/

section Coordinator

variable [DecidableEq P] {x : State P} {p : P}

/-- `x` with the process `p` at some stage of a reload. -/
def State.during (x : State P) (p : P) (stage : Stage) (shared : Shared) : State P :=
  { shared, holder := some p, stage := Function.update x.stage p stage }

theorem Step.work_during {s s' : Stage} {d d' : Shared} {a : Action} (h : Work s d a s' d') :
    Step (x.during p s d) (.work p a) (x.during p s' d') := by
  have hwork : Work ((x.during p s d).stage p) (x.during p s d).shared a s' d' := by
    simpa [State.during] using h
  simpa [State.during] using Step.work hwork

theorem Step.unlock_during {s : Stage} {d : Shared} (h : s.IsDone) (hfree : x.holder = none)
    (hp : x.stage p = .outside) :
    Step (x.during p s d) (.unlock p) { x with shared := d } := by
  have hdone : ((x.during p s d).stage p).IsDone := by simpa [State.during] using h
  simpa [State.during, hfree, ← hp] using Step.unlock hdone

/-- **A reload of a coordinator is such a reload:** if no other process is in its way, it
does what the coordinator does with what the scan gave. -/
theorem exists_run_publish {c : Coordinator} (hfree : x.holder = none) (hp : x.stage p = .outside)
    (hpublished : x.shared.shelf.published = c.published) (hreloads : x.shared.reloads = c.reloads)
    (result : Except FolderError Outcome) :
    ∃ trace y, Run Step x trace y ∧ .work p (.endScan x.shared.begun result) ∈ events trace ∧
      y.holder = none ∧ y.stage = x.stage ∧
      y.shared.shelf.published = (c.publish result).2.published ∧
      y.shared.reloads = (c.publish result).2.reloads := by
  have hlock : Step x (.lock p) (x.during p .locked x.shared) := .lock hp hfree
  have hscan := (Run.start.step hlock).step (.work_during (.beginScan _))
    |>.step (.work_during (.endScan _ _ result))
  cases result with
  | error error =>
      refine ⟨_, _, hscan.step (.unlock_during (.failed _ _) hfree hp), by simp, hfree, rfl, ?_, ?_⟩
      · exact hpublished
      · exact hreloads
  | ok outcome =>
      have hpublish := hscan.step (.work_during (.swap _ _ _)) |>.step (.work_during (.bump _))
        |>.step (.work_during (.count _)) |>.step (.unlock_during .counted hfree hp)
      refine ⟨_, _, hpublish, by simp, hfree, rfl, ?_, ?_⟩
      · simp [hpublished, Coordinator.publish, Published.replace]
      · simp [hreloads, Coordinator.publish]

/-- The coordinator when the outcomes were published at once, one after another. -/
def publishAll (c : Coordinator) (outcomes : List Outcome) : Coordinator :=
  outcomes.foldl (fun c outcome => (c.publish (.ok outcome)).2) c

theorem publishAll_eq (c : Coordinator) (outcomes : List Outcome) :
    (publishAll c outcomes).published =
        { current := (outcomes.getLast?.map (·.index)).getD c.published.current
          version := c.published.version + outcomes.length } ∧
      (publishAll c outcomes).reloads = c.reloads + outcomes.length := by
  induction outcomes generalizing c with
  | nil => exact ⟨rfl, rfl⟩
  | cons outcome outcomes ih =>
      obtain ⟨hpublished, hreloads⟩ := ih (c.publish (.ok outcome)).2
      have hcons : publishAll c (outcome :: outcomes)
          = publishAll (c.publish (.ok outcome)).2 outcomes := rfl
      have hversion : c.published.version + 1 + outcomes.length
          = c.published.version + (outcomes.length + 1) := by omega
      have hcount : c.reloads + 1 + outcomes.length = c.reloads + (outcomes.length + 1) := by omega
      rw [hcons, hpublished, hreloads, List.getLast?_cons, List.length_cons]
      refine ⟨?_, hcount⟩
      rcases outcomes.getLast? with _ | last
      · exact congrArg (Published.mk outcome.index) hversion
      · exact congrArg (Published.mk last.index) hversion

/-- **Side by side is one by one:** when no reload is under way, readers see what they
would if each outcome that was put up had been published at once, in this order. -/
theorem published_eq_publishAll {first : Index} {trace : List (Event P × State P)}
    (h : Run Step (start first) trace x) (hfree : x.holder = none) (settings : Settings) :
    let c := publishAll { settings, published := { current := first } }
      ((swaps (events trace)).map Prod.snd)
    x.shared.shelf.published = c.published ∧ x.shared.reloads = c.reloads := by
  obtain ⟨-, haccounts⟩ := accounts_of_run h
  rw [State.now_of_free hfree] at haccounts
  have hversion : (swaps (events trace)).length = x.shared.shelf.version := haccounts.versions
  have hcount : x.shared.shelf.version = x.shared.reloads := haccounts.counts
  obtain ⟨hpublished, hreloads⟩ := publishAll_eq
    { settings, published := { current := first } } ((swaps (events trace)).map Prod.snd)
  rw [List.getLast?_map, Option.map_map, List.length_map, Nat.zero_add] at hpublished
  rw [List.length_map, Nat.zero_add] at hreloads
  intro c
  constructor
  · rw [hpublished, hversion]
    exact congrArg (Published.mk · x.shared.shelf.version) haccounts.current
  · rw [hreloads, hversion, hcount]

end Coordinator

end Reloading
end NativeHooks
