/-
# Sorting by several keys

Rows of keys are in a linear order, the lexicographic one (`keysLe_eq_false_iff`), and
sorting by keys is a stable sort by it: it keeps, for every row of keys, the entries that
have it in their order (`filter_sortByKeys`), and it depends on nothing else
(`sortByKeys_eq_iff`).  So it does not matter whether entries are left out before or after
sorting (`sortByKeys_filter`), and entries that come in groups, no two of which share a row
of keys, may come with their groups in any order (`sortByKeys_flatMap_of_perm`).

If the groups themselves are sorted by keys, it is enough that groups with the same keys may
be exchanged, and no less will do (`flatMap_sortByKeys_perm_iff`).
-/

import NativeHooks.Text.Order
import Mathlib.Data.List.Basic
import Mathlib.Data.List.TakeWhile

namespace NativeHooks
namespace Text

variable {α β : Type} {keys : α → List String} {xs ys : List α}

/-! ### The order of rows of keys -/

section Rows

variable {a b : String} {as bs : List String}

theorem keysLe_cons_cons :
    keysLe (a :: as) (b :: bs) = true ↔ a < b ∨ a = b ∧ keysLe as bs = true := by
  rw [keysLe, Bool.or_eq_true, Bool.and_eq_true, decide_eq_true_iff, decide_eq_true_iff]

theorem keysLe_refl (as : List String) : keysLe as as = true := by
  induction as with
  | nil => rfl
  | cons a as ih => exact keysLe_cons_cons.2 (.inr ⟨rfl, ih⟩)

theorem keysLe_trans (as bs cs : List String) (hab : keysLe as bs = true)
    (hbc : keysLe bs cs = true) : keysLe as cs = true := by
  induction as generalizing bs cs with
  | nil => rfl
  | cons a as ih =>
      rcases bs with _ | ⟨b, bs⟩
      · exact absurd hab Bool.false_ne_true
      rcases cs with _ | ⟨c, cs⟩
      · exact absurd hbc Bool.false_ne_true
      rw [keysLe_cons_cons] at hab hbc ⊢
      rcases hab with hab | ⟨rfl, hab⟩
      · rcases hbc with hbc | ⟨rfl, -⟩
        · exact .inl (String.lt_trans hab hbc)
        · exact .inl hab
      · rcases hbc with hbc | ⟨rfl, hbc⟩
        · exact .inl hbc
        · exact .inr ⟨rfl, ih bs cs hab hbc⟩

theorem keysLe_antisymm (hab : keysLe as bs = true) (hba : keysLe bs as = true) : as = bs := by
  induction as generalizing bs with
  | nil =>
      rcases bs with _ | ⟨b, bs⟩
      · rfl
      · exact absurd hba Bool.false_ne_true
  | cons a as ih =>
      rcases bs with _ | ⟨b, bs⟩
      · exact absurd hab Bool.false_ne_true
      rw [keysLe_cons_cons] at hab hba
      rcases hab with hlt | ⟨rfl, hab⟩
      · rcases hba with hgt | ⟨rfl, -⟩
        · exact absurd hgt (String.lt_asymm hlt)
        · exact absurd hlt (String.lt_irrefl b)
      · rcases hba with hlt | ⟨-, hba⟩
        · exact absurd hlt (String.lt_irrefl a)
        · rw [ih hab hba]

theorem keysLe_total (as bs : List String) : (keysLe as bs || keysLe bs as) = true := by
  rw [Bool.or_eq_true]
  induction as generalizing bs with
  | nil => exact .inl rfl
  | cons a as ih =>
      rcases bs with _ | ⟨b, bs⟩
      · exact .inr rfl
      rw [keysLe_cons_cons, keysLe_cons_cons]
      rcases Std.lt_trichotomy a b with hlt | rfl | hgt
      · exact .inl (.inl hlt)
      · exact (ih bs).imp (fun h => .inr ⟨rfl, h⟩) fun h => .inr ⟨rfl, h⟩
      · exact .inr (.inl hgt)

/-- Rows are compared key by key, and a row that goes on where another ends is the greater. -/
theorem keysLe_eq_false_iff : keysLe as bs = false ↔ List.Lex (· < ·) bs as := by
  induction as generalizing bs with
  | nil =>
      constructor
      · intro h
        exact absurd h.symm Bool.false_ne_true
      · rintro ⟨⟩
  | cons a as ih =>
      rcases bs with _ | ⟨b, bs⟩
      · exact ⟨fun _ => .nil, fun _ => rfl⟩
      rw [← Bool.not_eq_true, keysLe_cons_cons]
      constructor
      · intro h
        obtain ⟨hlt, hrest⟩ := not_or.1 h
        rcases Std.lt_trichotomy a b with hab | rfl | hab
        · exact absurd hab hlt
        · have hfalse : keysLe as bs = false := Bool.eq_false_iff.2 fun htrue => hrest ⟨rfl, htrue⟩
          exact .cons (ih.1 hfalse)
        · exact .rel hab
      · rintro (_ | hab | hrest) hle
        · rcases hle with hlt | ⟨rfl, -⟩
          · exact String.lt_asymm hlt hab
          · exact String.lt_irrefl _ hab
        · rcases hle with hlt | ⟨-, htrue⟩
          · exact String.lt_irrefl _ hlt
          · exact Bool.false_ne_true ((ih.2 hrest).symm.trans htrue)

end Rows

/-! ### Sorted entries -/

theorem sortByKeys_perm (keys : α → List String) (xs : List α) :
    (sortByKeys keys xs).Perm xs :=
  List.mergeSort_perm ..

theorem pairwise_sortByKeys (keys : α → List String) (xs : List α) :
    (sortByKeys keys xs).Pairwise fun a b => keysLe (keys a) (keys b) = true :=
  List.pairwise_mergeSort (fun a b c => keysLe_trans (keys a) (keys b) (keys c))
    (fun a b => keysLe_total (keys a) (keys b)) xs

/-- No entry has smaller keys than one before it. -/
def SortedBy (keys : α → List String) (xs : List α) : Prop :=
  xs.Pairwise fun a b => ¬ List.Lex (· < ·) (keys b) (keys a)

theorem sortedBy_sortByKeys (keys : α → List String) (xs : List α) :
    SortedBy keys (sortByKeys keys xs) := by
  refine (pairwise_sortByKeys keys xs).imp fun {a b} hle hlex => ?_
  rw [← keysLe_eq_false_iff] at hlex
  exact Bool.false_ne_true (hlex.symm.trans hle)

/-- Sorting is stable: entries with the same keys stay in order. -/
theorem filter_sortByKeys (keys : α → List String) (xs : List α) (row : List String) :
    (sortByKeys keys xs).filter (keys · = row) = xs.filter (keys · = row) := by
  have hsorted : (xs.filter (keys · = row)).Pairwise fun a b => keysLe (keys a) (keys b) = true := by
    refine List.pairwise_of_forall_mem_list fun a ha b hb => ?_
    rw [of_decide_eq_true (List.mem_filter.1 ha).2, of_decide_eq_true (List.mem_filter.1 hb).2]
    exact keysLe_refl row
  have hsublist : (xs.filter (keys · = row)).Sublist (sortByKeys keys xs) :=
    List.sublist_mergeSort (fun a b c => keysLe_trans (keys a) (keys b) (keys c))
      (fun a b => keysLe_total (keys a) (keys b)) hsorted List.filter_sublist
  have hfilter := hsublist.filter (keys · = row)
  simp only [List.filter_filter, Bool.and_self] at hfilter
  exact (hfilter.eq_of_length ((sortByKeys_perm keys xs).filter _).length_eq.symm).symm

theorem mem_iff_of_filter_keys_eq
    (h : ∀ row, xs.filter (keys · = row) = ys.filter (keys · = row)) (a : α) : a ∈ xs ↔ a ∈ ys := by
  have ha : a ∈ xs.filter (keys · = keys a) ↔ a ∈ ys.filter (keys · = keys a) := by rw [h]
  simpa using ha

theorem keys_head_le {x y : α} (h : (x :: xs).Pairwise fun a b => keysLe (keys a) (keys b) = true)
    (hy : y ∈ x :: xs) : keysLe (keys x) (keys y) = true := by
  rcases List.mem_cons.1 hy with rfl | hy
  · exact keysLe_refl _
  · exact (List.pairwise_cons.1 h).1 y hy

/-- A sorted list is made up of the entries for every row of keys. -/
theorem eq_of_filter_keys_eq (hxs : xs.Pairwise fun a b => keysLe (keys a) (keys b) = true)
    (hys : ys.Pairwise fun a b => keysLe (keys a) (keys b) = true)
    (h : ∀ row, xs.filter (keys · = row) = ys.filter (keys · = row)) : xs = ys := by
  induction xs generalizing ys with
  | nil =>
      exact (List.eq_nil_iff_forall_not_mem.2 fun a ha =>
        List.not_mem_nil ((mem_iff_of_filter_keys_eq h a).2 ha)).symm
  | cons x xs ih =>
      have hmem := mem_iff_of_filter_keys_eq h
      rcases ys with _ | ⟨y, ys⟩
      · exact absurd ((hmem x).1 List.mem_cons_self) List.not_mem_nil
      have hkeys : keys x = keys y :=
        keysLe_antisymm (keys_head_le hxs ((hmem y).2 List.mem_cons_self))
          (keys_head_le hys ((hmem x).1 List.mem_cons_self))
      -- The entries with the least keys begin both lists, so their first ones are the same.
      have hhead := h (keys x)
      rw [List.filter_cons_of_pos (by simp), List.filter_cons_of_pos (by simp [hkeys])] at hhead
      obtain ⟨rfl, -⟩ := List.cons.inj hhead
      have hrest : ∀ row, xs.filter (keys · = row) = ys.filter (keys · = row) := by
        intro row
        have hrow := h row
        rw [List.filter_cons, List.filter_cons] at hrow
        split at hrow
        · exact (List.cons.inj hrow).2
        · exact hrow
      rw [ih (List.pairwise_cons.1 hxs).2 (List.pairwise_cons.1 hys).2 hrest]

/-- What a sorted list depends on. -/
theorem sortByKeys_eq_iff :
    sortByKeys keys xs = sortByKeys keys ys ↔
      ∀ row, xs.filter (keys · = row) = ys.filter (keys · = row) := by
  constructor
  · intro h row
    rw [← filter_sortByKeys keys xs, h, filter_sortByKeys]
  · intro h
    refine eq_of_filter_keys_eq (pairwise_sortByKeys keys xs) (pairwise_sortByKeys keys ys) ?_
    intro row
    rw [filter_sortByKeys, filter_sortByKeys, h]

/-- Entries may be left out before or after sorting. -/
theorem sortByKeys_filter (p : α → Bool) :
    sortByKeys keys (xs.filter p) = (sortByKeys keys xs).filter p := by
  have hsorted := (pairwise_sortByKeys keys xs).filter p
  refine eq_of_filter_keys_eq (pairwise_sortByKeys keys (xs.filter p)) hsorted fun row => ?_
  calc (sortByKeys keys (xs.filter p)).filter (keys · = row)
      = (xs.filter p).filter (keys · = row) := filter_sortByKeys keys (xs.filter p) row
    _ = (xs.filter (keys · = row)).filter p := List.filter_comm ..
    _ = ((sortByKeys keys xs).filter (keys · = row)).filter p := by rw [filter_sortByKeys]
    _ = ((sortByKeys keys xs).filter p).filter (keys · = row) := List.filter_comm ..

/-! ### Groups of entries -/

variable {l l' : List β} {f : β → List α}

/-- Groups that have nothing may be left out. -/
theorem flatMap_filter_of_eq_nil {p : β → Bool} (h : ∀ b ∈ l, p b = false → f b = []) :
    (l.filter p).flatMap f = l.flatMap f := by
  induction l with
  | nil => rfl
  | cons b l ih =>
      have hrest := ih fun c hc => h c (List.mem_cons_of_mem b hc)
      rcases hb : p b with _ | _
      · have hnil := h b List.mem_cons_self hb
        rw [List.filter_cons_of_neg (by simp [hb]), List.flatMap_cons, hnil, hrest, List.nil_append]
      · rw [List.filter_cons_of_pos hb, List.flatMap_cons, List.flatMap_cons, hrest]

/-- If no two groups have something, groups may come in any order. -/
theorem flatMap_eq_of_perm (h : l.Perm l') (hone : l.Pairwise fun a b => f a = [] ∨ f b = []) :
    l.flatMap f = l'.flatMap f := by
  induction h with
  | nil => rfl
  | cons a _ ih => rw [List.flatMap_cons, List.flatMap_cons, ih (List.pairwise_cons.1 hone).2]
  | swap a b l =>
      have hab := (List.pairwise_cons.1 hone).1 a List.mem_cons_self
      rcases hab with hb | ha
      · simp [hb]
      · simp [ha]
  | trans hfirst _ ihfirst ihsecond =>
      exact (ihfirst hone).trans (ihsecond ((hfirst.pairwise_iff Or.symm).1 hone))

/-- If no two groups have something, a group that has something is all there is. -/
theorem flatMap_eq_of_mem {a : β} (hone : l.Pairwise fun a b => f a = [] ∨ f b = [])
    (ha : a ∈ l) (hne : f a ≠ []) : l.flatMap f = f a := by
  obtain ⟨past, more, rfl⟩ := List.append_of_mem ha
  obtain ⟨-, hmore, hpast⟩ := List.pairwise_append.1 hone
  have hpast : past.flatMap f = [] :=
    List.flatMap_eq_nil_iff.2 fun b hb => (hpast b hb a List.mem_cons_self).resolve_right hne
  have hmore : more.flatMap f = [] :=
    List.flatMap_eq_nil_iff.2 fun b hb => ((List.pairwise_cons.1 hmore).1 b hb).resolve_left hne
  rw [List.flatMap_append, List.flatMap_cons, hpast, hmore, List.nil_append, List.append_nil]

/-- No two groups have entries with the same keys. -/
def Apart (keys : α → List String) (f : β → List α) (l : List β) : Prop :=
  l.Pairwise fun a b => ∀ x ∈ f a, ∀ y ∈ f b, keys x ≠ keys y

theorem Apart.pairwise_filter (h : Apart keys f l) (row : List String) :
    l.Pairwise fun a b => (f a).filter (keys · = row) = [] ∨ (f b).filter (keys · = row) = [] := by
  refine h.imp fun {a b} hab => ?_
  rcases ha : (f a).filter (keys · = row) with _ | ⟨x, rest⟩
  · exact .inl rfl
  · obtain ⟨hx, hrow⟩ := List.mem_filter.1 (ha ▸ List.mem_cons_self : x ∈ (f a).filter (keys · = row))
    refine .inr (List.filter_eq_nil_iff.2 fun y hy heq => hab x hx y hy ?_)
    exact (of_decide_eq_true hrow).trans (of_decide_eq_true heq).symm

/-- Groups that are apart may come in any order before they are sorted. -/
theorem sortByKeys_flatMap_of_perm (h : l.Perm l') (hapart : Apart keys f l) :
    sortByKeys keys (l.flatMap f) = sortByKeys keys (l'.flatMap f) := by
  rw [sortByKeys_eq_iff]
  intro row
  rw [List.filter_flatMap, List.filter_flatMap]
  exact flatMap_eq_of_perm h (hapart.pairwise_filter row)

/-! ### Sorted groups -/

variable {k : β → List String}

/-- A group that may be exchanged with each of several may be exchanged with all of them. -/
theorem flatMap_append_comm {b : β} (h : ∀ a ∈ l, f a ++ f b = f b ++ f a) :
    l.flatMap f ++ f b = f b ++ l.flatMap f := by
  induction l with
  | nil => rw [List.flatMap_nil, List.nil_append, List.append_nil]
  | cons a l ih =>
      have hrest := ih fun c hc => h c (List.mem_cons_of_mem a hc)
      calc (a :: l).flatMap f ++ f b
          = f a ++ (l.flatMap f ++ f b) := by rw [List.flatMap_cons, List.append_assoc]
        _ = f a ++ f b ++ l.flatMap f := by rw [hrest, List.append_assoc]
        _ = f b ++ f a ++ l.flatMap f := by rw [h a List.mem_cons_self]
        _ = f b ++ (a :: l).flatMap f := by rw [List.append_assoc, List.flatMap_cons]

/-- Groups in two sorted orders give the same entries if those with the same keys may be
exchanged. -/
theorem flatMap_eq_of_sorted (hl : l.Pairwise fun a b => keysLe (k a) (k b) = true)
    (hl' : l'.Pairwise fun a b => keysLe (k a) (k b) = true) (hperm : l.Perm l')
    (hcomm : ∀ a ∈ l, ∀ b ∈ l, k a = k b → f a ++ f b = f b ++ f a) :
    l.flatMap f = l'.flatMap f := by
  induction l generalizing l' with
  | nil => rw [hperm.nil_eq]
  | cons b l ih =>
      obtain ⟨past, more, rfl⟩ := List.append_of_mem (hperm.mem_iff.1 List.mem_cons_self)
      -- What the second order puts before the least group has the same keys.
      have hkeys : ∀ a ∈ past, k a = k b := by
        intro a ha
        have hle : keysLe (k a) (k b) = true :=
          (List.pairwise_append.1 hl').2.2 a ha b List.mem_cons_self
        have hge : keysLe (k b) (k a) = true :=
          keys_head_le hl (hperm.mem_iff.2 (List.mem_append_left _ ha))
        exact keysLe_antisymm hle hge
      have hpast : past.flatMap f ++ f b = f b ++ past.flatMap f := by
        refine flatMap_append_comm fun a ha => ?_
        exact hcomm a (hperm.mem_iff.2 (List.mem_append_left _ ha)) b List.mem_cons_self (hkeys a ha)
      have hrest : l.flatMap f = (past ++ more).flatMap f := by
        refine ih (List.pairwise_cons.1 hl).2 (hl'.sublist ?_) ?_ ?_
        · exact (List.sublist_cons_self b more).append_left past
        · exact (hperm.trans List.perm_middle).cons_inv
        · exact fun a ha c hc => hcomm a (List.mem_cons_of_mem b ha) c (List.mem_cons_of_mem b hc)
      calc (b :: l).flatMap f
          = f b ++ past.flatMap f ++ more.flatMap f := by
            rw [List.flatMap_cons, hrest, List.flatMap_append, List.append_assoc]
        _ = (past ++ b :: more).flatMap f := by
            rw [← hpast, List.flatMap_append, List.flatMap_cons, List.append_assoc]

/-- A first entry is sorted in before all that are not less. -/
theorem sortByKeys_cons (x : α) (xs : List α) :
    let lesser : α → Bool := fun y => ! keysLe (keys x) (keys y)
    sortByKeys keys (x :: xs)
      = (sortByKeys keys xs).takeWhile lesser ++ x :: (sortByKeys keys xs).dropWhile lesser := by
  intro lesser
  obtain ⟨past, more, hcons, hrest, hpast⟩ :=
    List.mergeSort_cons (fun a b c => keysLe_trans (keys a) (keys b) (keys c))
      (fun a b => keysLe_total (keys a) (keys b)) x xs
  have hmore : ∀ y ∈ more.head?, lesser y = false := by
    intro y hy
    have hsorted := pairwise_sortByKeys keys (x :: xs)
    rw [sortByKeys, hcons] at hsorted
    have hle := (List.pairwise_cons.1 (List.pairwise_append.1 hsorted).2.1).1 y
      (List.mem_of_mem_head? hy)
    exact congrArg (! ·) hle
  have htake : more.takeWhile lesser = [] := by
    rcases more with _ | ⟨y, more⟩
    · rfl
    · exact List.takeWhile_cons_of_neg (by rw [hmore y rfl]; exact Bool.false_ne_true)
  have hdrop : more.dropWhile lesser = more := by
    rcases more with _ | ⟨y, more⟩
    · rfl
    · exact List.dropWhile_cons_of_neg (by rw [hmore y rfl]; exact Bool.false_ne_true)
  rw [sortByKeys, sortByKeys, hcons, hrest, List.takeWhile_append_of_pos hpast,
    List.dropWhile_append_of_pos hpast, htake, hdrop, List.append_nil]

/-- Two first entries with the same keys stay together. -/
theorem sortByKeys_cons_cons {x y : α} (h : keys x = keys y) (xs : List α) :
    let lesser : α → Bool := fun z => ! keysLe (keys x) (keys z)
    sortByKeys keys (x :: y :: xs)
      = (sortByKeys keys xs).takeWhile lesser ++ x :: y :: (sortByKeys keys xs).dropWhile lesser := by
  intro lesser
  have hsame : (fun z => ! keysLe (keys y) (keys z)) = lesser := by rw [← h]
  have hy : ¬ lesser y = true := by
    simp only [lesser, h, keysLe_refl]
    exact Bool.false_ne_true
  have htake : ∀ z ∈ (sortByKeys keys xs).takeWhile lesser, lesser z = true :=
    fun z hz => List.mem_takeWhile_imp hz
  rw [sortByKeys_cons x, sortByKeys_cons y, hsame, List.takeWhile_append_of_pos htake,
    List.dropWhile_append_of_pos htake, List.takeWhile_cons_of_neg hy,
    List.dropWhile_cons_of_neg hy, List.append_nil]

theorem exists_perm_cons {b : β} (h : b ∈ l) : ∃ rest, l.Perm (b :: rest) := by
  obtain ⟨past, more, rfl⟩ := List.append_of_mem h
  exact ⟨past ++ more, List.perm_middle⟩

/-- **Sorted groups may come in any order beforehand if and only if those with the same keys
may be exchanged.** -/
theorem flatMap_sortByKeys_perm_iff (k : β → List String) (f : β → List α) (l : List β) :
    (∀ l', l'.Perm l → (sortByKeys k l').flatMap f = (sortByKeys k l).flatMap f) ↔
      ∀ a ∈ l, ∀ b ∈ l, k a = k b → f a ++ f b = f b ++ f a := by
  constructor
  · intro h a ha b hb hkeys
    obtain ⟨rest, hrest⟩ := exists_perm_cons ha
    rcases List.mem_cons.1 (hrest.mem_iff.1 hb) with rfl | hb
    · rfl
    obtain ⟨others, hothers⟩ := exists_perm_cons hb
    have hfirst : (a :: b :: others).Perm l := ((hothers.cons a).symm).trans hrest.symm
    have heq := (h _ hfirst).trans (h _ ((List.Perm.swap a b others).trans hfirst)).symm
    rw [sortByKeys_cons_cons hkeys, sortByKeys_cons_cons hkeys.symm, ← hkeys] at heq
    simp only [List.flatMap_append, List.flatMap_cons, ← List.append_assoc] at heq
    have hgroups := List.append_cancel_right heq
    simp only [List.append_assoc] at hgroups
    exact List.append_cancel_left hgroups
  · intro hcomm l' hperm
    refine flatMap_eq_of_sorted (pairwise_sortByKeys k l') (pairwise_sortByKeys k l) ?_ ?_
    · exact ((sortByKeys_perm k l').trans hperm).trans (sortByKeys_perm k l).symm
    · intro a ha b hb
      have hmem : ∀ {c}, c ∈ sortByKeys k l' → c ∈ l :=
        fun hc => hperm.mem_iff.1 ((sortByKeys_perm k l').mem_iff.1 hc)
      exact hcomm a (hmem ha) b (hmem hb)

/-- The same if the entries of the groups are sorted in the end. -/
theorem sortByKeys_flatMap_perm_iff (keys : α → List String) (k : β → List String)
    (f : β → List α) (l : List β) :
    (∀ l', l'.Perm l → sortByKeys keys ((sortByKeys k l').flatMap f)
        = sortByKeys keys ((sortByKeys k l).flatMap f)) ↔
      ∀ a ∈ l, ∀ b ∈ l, k a = k b →
        sortByKeys keys (f a ++ f b) = sortByKeys keys (f b ++ f a) := by
  have hrow := fun row : List String =>
    flatMap_sortByKeys_perm_iff k (fun a => (f a).filter (keys · = row)) l
  simp only [sortByKeys_eq_iff, List.filter_flatMap, List.filter_append]
  constructor
  · intro h a ha b hb hkeys row
    exact (hrow row).1 (fun l' hperm => h l' hperm row) a ha b hb hkeys
  · intro h l' hperm row
    exact (hrow row).2 (fun a ha b hb hkeys => h a ha b hb hkeys row) l' hperm

end Text
end NativeHooks
