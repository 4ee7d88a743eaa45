/-
# Runs

A system that takes one step after another is given by its steps: `Step x e y` says
that `e` may happen in the state `x` and leads to `y`.  A run records everything that
happened, each with the state that it led to, so that a statement can speak about the
past of a state and about the states on the way to it.
-/

namespace NativeHooks

variable {σ ε : Type}

/-- A run from `s` to `y`.  Its trace holds what happened, the oldest first, each with
the state after it. -/
inductive Run (Step : σ → ε → σ → Prop) (s : σ) : List (ε × σ) → σ → Prop where
  | start : Run Step s [] s
  | step {trace : List (ε × σ)} {x y : σ} {e : ε} (run : Run Step s trace x) (next : Step x e y) :
      Run Step s (trace ++ [(e, y)]) y

/-- What happened in a run, the oldest first. -/
def events (trace : List (ε × σ)) : List ε := trace.map Prod.fst

@[simp] theorem events_nil : events ([] : List (ε × σ)) = [] := rfl

@[simp] theorem events_cons (m : ε × σ) (trace : List (ε × σ)) :
    events (m :: trace) = m.1 :: events trace := rfl

@[simp] theorem events_append (past more : List (ε × σ)) :
    events (past ++ more) = events past ++ events more := List.map_append

/-- What happened at some place in a run happened between the two parts of its trace. -/
theorem exists_of_events_eq {trace : List (ε × σ)} {past more : List ε} {e : ε}
    (h : events trace = past ++ e :: more) :
    ∃ before x after, trace = before ++ (e, x) :: after ∧ events before = past ∧
      events after = more := by
  obtain ⟨before, rest, rfl, hbefore, hrest⟩ := List.map_eq_append_iff.1 h
  obtain ⟨⟨e', x⟩, after, rfl, rfl, hafter⟩ := List.map_eq_cons_iff.1 hrest
  exact ⟨before, x, after, rfl, hbefore, hafter⟩

namespace Run

variable {Step : σ → ε → σ → Prop} {s x y : σ}

/-- A run may go on with another one. -/
theorem append {past more : List (ε × σ)} (h : Run Step s past x) (hmore : Run Step x more y) :
    Run Step s (past ++ more) y := by
  induction hmore with
  | start => rwa [List.append_nil]
  | step _ next ih => exact List.append_assoc _ _ _ ▸ ih.step next

/-- A run can be cut at any place. -/
theorem of_append {past more : List (ε × σ)} (h : Run Step s (past ++ more) y) :
    ∃ x, Run Step s past x ∧ Run Step x more y := by
  generalize htrace : past ++ more = trace at h
  induction h generalizing more with
  | start =>
      obtain ⟨rfl, rfl⟩ := List.append_eq_nil_iff.1 htrace
      exact ⟨s, .start, .start⟩
  | @step trace w y e run next ih =>
      rcases List.eq_nil_or_concat more with rfl | ⟨more', m, rfl⟩
      · rw [List.append_nil] at htrace
        subst htrace
        exact ⟨y, run.step next, .start⟩
      · rw [List.concat_eq_append, ← List.append_assoc] at htrace
        obtain ⟨hpast, hlast⟩ := List.append_inj' htrace rfl
        obtain rfl := List.singleton_inj.1 hlast
        obtain ⟨x, hx, hw⟩ := ih hpast
        rw [List.concat_eq_append]
        exact ⟨x, hx, hw.step next⟩

/-- A run in which nothing happened ends where it began. -/
theorem of_nil (h : Run Step s [] y) : y = s := by
  generalize htrace : ([] : List (ε × σ)) = trace at h
  cases h with
  | start => rfl
  | step _ _ => exact absurd htrace.symm (List.append_ne_nil_of_right_ne_nil _ (List.cons_ne_nil _ _))

/-- The step that a run begins with. -/
theorem of_cons {e : ε} {more : List (ε × σ)} (h : Run Step s ((e, x) :: more) y) :
    Step s e x ∧ Run Step x more y := by
  rw [← List.singleton_append] at h
  obtain ⟨w, hw, hmore⟩ := of_append h
  generalize htrace : [(e, x)] = trace at hw
  cases hw with
  | start => exact absurd htrace (List.cons_ne_nil _ _)
  | step run next =>
      rw [← List.nil_append [(e, x)]] at htrace
      obtain ⟨hnil, hlast⟩ := List.append_inj' htrace rfl
      subst hnil
      obtain ⟨rfl, rfl⟩ := Prod.mk.inj (List.singleton_inj.1 hlast)
      obtain rfl := of_nil run
      exact ⟨next, hmore⟩

/-- The step at some place of a run, with the runs before and after it. -/
theorem at_place {e : ε} {past more : List (ε × σ)} (h : Run Step s (past ++ (e, x) :: more) y) :
    ∃ w, Run Step s past w ∧ Step w e x ∧ Run Step x more y := by
  obtain ⟨w, hpast, hmore⟩ := of_append h
  exact ⟨w, hpast, of_cons hmore⟩

/-- Every state on the way is reached. -/
theorem of_mem {e : ε} {trace : List (ε × σ)} (h : Run Step s trace y) (hmem : (e, x) ∈ trace) :
    ∃ past, Run Step s past x := by
  obtain ⟨past, more, rfl⟩ := List.append_of_mem hmem
  obtain ⟨w, hpast, hstep, -⟩ := at_place h
  exact ⟨_, hpast.step hstep⟩

/-- A run of steps of one kind is a run of steps of any kind that covers them. -/
theorem mono {Step' : σ → ε → σ → Prop} {trace : List (ε × σ)} (h : Run Step s trace y)
    (hstep : ∀ {x e y}, Step x e y → Step' x e y) : Run Step' s trace y := by
  induction h with
  | start => exact .start
  | step _ next ih => exact ih.step (hstep next)

/-- What all steps keep that were taken holds at the end of a run if it holds at its
start. -/
theorem invariant_of_mem {I : σ → Prop} {trace : List (ε × σ)} (h : Run Step s trace y) (hs : I s)
    (hstep : ∀ {x e y}, e ∈ events trace → I x → Step x e y → I y) : I y := by
  induction h with
  | start => exact hs
  | step _ next ih =>
      rw [events_append] at hstep
      have hlast := ih fun he => hstep (List.mem_append_left _ he)
      exact hstep (List.mem_append_right _ (List.mem_singleton.2 rfl)) hlast next

/-- What every step keeps holds at the end of a run if it holds at its start. -/
theorem invariant {I : σ → Prop} {trace : List (ε × σ)} (h : Run Step s trace y) (hs : I s)
    (hstep : ∀ {x e y}, I x → Step x e y → I y) : I y :=
  h.invariant_of_mem hs fun _ => hstep

end Run
end NativeHooks
