/-
# The nearest key

The distance of two keys is computed row by row, and the rows are taken from a table of
distances between beginnings of the two (`distances`): the next row is the row of one element
more (`nextRow_distances`), and the last entry of the last row is the distance of the whole.
Beginnings end where the recursion for the least number of edits begins, so the rows follow the
recursion from the back; that comes to the same (`distance_reverse`).

The two rows that are written in turn hold the same numbers.  Each entry is computed from places
that have been written for the row, whatever stands in the rest of it (`fillRow_distances`), and
so no place outside a row is ever looked at (`offset_editDistance_eq`).
-/

import NativeHooks.Offset.Distance
import NativeHooks.Proofs.Text.Edits
import NativeHooks.Settings.Merge

namespace NativeHooks

open Text

variable {α : Type} [DecidableEq α]

/-! ### Rows of distances -/

/-- The distances of `u` from the beginnings of a list that have `done` in them, of which `ys` is
still to come.  Both `u` and `done` are from the back. -/
def distances (u done : List α) : List α → List Nat
  | [] => [distance u done]
  | y :: ys => distance u done :: distances u (y :: done) ys

theorem distances_eq_cons (u done ys : List α) :
    ∃ more, distances u done ys = distance u done :: more := by
  cases ys with
  | nil => exact ⟨[], rfl⟩
  | cons y ys => exact ⟨_, rfl⟩

@[simp] theorem length_distances (u done ys : List α) :
    (distances u done ys).length = ys.length + 1 := by
  induction ys generalizing done with
  | nil => rfl
  | cons y ys ih => rw [distances, List.length_cons, ih, List.length_cons]

/-- The last entry of a row is the distance from the whole list. -/
theorem getLast?_distances (u done ys : List α) :
    (distances u done ys).getLast? = some (distance u (ys.reverse ++ done)) := by
  induction ys generalizing done with
  | nil => rfl
  | cons y ys ih =>
    obtain ⟨more, hmore⟩ := distances_eq_cons u (y :: done) ys
    rw [distances, hmore, List.getLast?_cons_cons, ← hmore, ih, List.reverse_cons,
      List.append_assoc, List.singleton_append]

/-- The first row counts. -/
theorem distances_nil (done ys : List α) :
    distances [] done ys = List.range' done.length (ys.length + 1) := by
  induction ys generalizing done with
  | nil => simp [distances]
  | cons y ys ih => rw [distances, ih, distance_nil_left]; rfl

theorem extendRow_distances (x : α) (u done ys : List α) :
    distance (x :: u) done :: extendRow x (distance (x :: u) done) ys (distances u done ys)
      = distances (x :: u) done ys := by
  induction ys generalizing done with
  | nil => rfl
  | cons y ys ih =>
    obtain ⟨more, hmore⟩ := distances_eq_cons u (y :: done) ys
    rw [distances, hmore, extendRow, ← distance_cons_cons, ← hmore, ih, distances]

/-- **One more element makes a row the next one.** -/
theorem nextRow_distances (v u : List α) (x : α) :
    nextRow v (distances u [] v) x = distances (x :: u) [] v := by
  obtain ⟨more, hmore⟩ := distances_eq_cons u [] v
  have hfirst : (distances u [] v).headD 0 + 1 = distance (x :: u) [] := by
    rw [hmore, List.headD_cons, distance_nil_right, distance_nil_right, List.length_cons]
  rw [nextRow, hfirst, extendRow_distances]

theorem foldl_nextRow (v u w : List α) :
    u.foldl (nextRow v) (distances w [] v) = distances (u.reverse ++ w) [] v := by
  induction u generalizing w with
  | nil => rfl
  | cons x u ih =>
    rw [List.foldl_cons, nextRow_distances, ih, List.reverse_cons, List.append_assoc,
      List.singleton_append]

/-- **The rows end with the distance.** -/
theorem editDistance_eq (u v : List α) : editDistance u v = distance u v := by
  have hfirst : List.range (v.length + 1) = distances [] [] v := by
    rw [distances_nil, List.length_nil, List.range_eq_range']
  rw [editDistance, hfirst, foldl_nextRow, List.append_nil, List.getLastD_eq_getLast?,
    getLast?_distances, List.append_nil, Option.getD_some, distance_reverse]

/-! ### Two rows -/

theorem write_append (written : List Nat) (old entry : Nat) (stale : List Nat) :
    Offset.write (written ++ old :: stale) written.length entry
      = some (written ++ entry :: stale) := by
  rw [Offset.write, if_pos (by simp), List.set_append_right _ _ (Nat.le_refl _), Nat.sub_self,
    List.set_cons_zero]

/-- **A row is written over whatever stood in the lower one,** and no entry is looked for where
there is none. -/
theorem fillRow_distances (x : α) (u done ys : List α) (before written stale : List Nat)
    (hbefore : before.length = written.length) (hstale : stale.length = ys.length) :
    Offset.fillRow x (before ++ distances u done ys)
        (written ++ distance (x :: u) done :: stale) written.length ys
      = some (written ++ distances (x :: u) done ys) := by
  induction ys generalizing done before written stale with
  | nil =>
    obtain rfl := List.eq_nil_of_length_eq_zero hstale
    rfl
  | cons y ys ih =>
    obtain ⟨old, stale, rfl⟩ := List.exists_cons_of_length_eq_add_one hstale
    obtain ⟨more, hmore⟩ := distances_eq_cons u (y :: done) ys
    -- The three entries that decide the next one, and where it goes.
    have hdiagonal : (before ++ distances u done (y :: ys))[written.length]?
        = some (distance u done) := by
      rw [← hbefore, distances]
      simp
    have hup : (before ++ distances u done (y :: ys))[written.length + 1]?
        = some (distance u (y :: done)) := by
      rw [← hbefore, distances, hmore]
      simp
    have hleft : (written ++ distance (x :: u) done :: old :: stale)[written.length]?
        = some (distance (x :: u) done) := by simp
    have hwrite := write_append (written ++ [distance (x :: u) done]) old
      (distance (x :: u) (y :: done)) stale
    have hrest := ih (y :: done) (before ++ [distance u done])
      (written ++ [distance (x :: u) done]) stale (by simp [hbefore]) (by simpa using hstale)
    simp only [List.append_assoc, List.singleton_append, List.length_append,
      List.length_singleton] at hwrite hrest
    simp only [Offset.fillRow, hup, hleft, hdiagonal, Option.bind_eq_bind, Option.bind_some,
      ← distance_cons_cons, hwrite]
    rw [distances, distances, hrest]

/-- **One more element makes the lower row the next one.** -/
theorem next_distances (v u : List α) (x : α) {stale : List Nat}
    (hstale : stale.length = v.length + 1) :
    Offset.Rows.next v ⟨distances u [] v, stale⟩ (x, u.length)
      = some ⟨distances (x :: u) [] v, distances u [] v⟩ := by
  obtain ⟨old, stale, rfl⟩ := List.exists_cons_of_length_eq_add_one hstale
  have hwrite := write_append [] old (u.length + 1) stale
  have hfill := fillRow_distances x u [] v [] [] stale rfl (by simpa using hstale)
  rw [distance_nil_right, List.length_cons] at hfill
  simp only [List.nil_append, List.length_nil] at hwrite hfill
  simp only [Offset.Rows.next, hwrite, hfill, Option.bind_eq_bind, Option.bind_some,
    Option.pure_def]

theorem foldlM_next (v u w : List α) (stale : List Nat) (hstale : stale.length = v.length + 1) :
    ∃ rows, (u.zipIdx w.length).foldlM (Offset.Rows.next v) ⟨distances w [] v, stale⟩ = some rows ∧
      rows.upper = distances (u.reverse ++ w) [] v := by
  induction u generalizing w stale with
  | nil => exact ⟨_, rfl, rfl⟩
  | cons x u ih =>
    obtain ⟨rows, hrows, hupper⟩ := ih (x :: w) _ (length_distances w [] v)
    refine ⟨rows, ?_, ?_⟩
    · rw [List.zipIdx_cons, List.foldlM_cons, next_distances v w x hstale]
      exact hrows
    · rw [hupper, List.reverse_cons, List.append_assoc, List.singleton_append]

/-- **Two rows are enough,** and no place outside a row is looked at. -/
theorem offset_editDistance_eq (u v : List α) :
    Offset.editDistance u v = some (editDistance u v) := by
  have hfirst : Offset.Rows.first v
      = ⟨distances [] [] v, List.replicate (v.length + 1) 0⟩ := by
    rw [distances_nil, List.length_nil, ← List.range_eq_range']
    rfl
  obtain ⟨rows, hrows, hupper⟩ := foldlM_next v u [] _ List.length_replicate
  have hlast : rows.upper[v.length]? = some (distance u v) := by
    have hlength : rows.upper.length - 1 = v.length := by
      rw [hupper, length_distances, Nat.add_sub_cancel]
    rw [← hlength, ← List.getLast?_eq_getElem?, hupper, getLast?_distances, List.append_nil,
      List.append_nil, distance_reverse]
  rw [List.length_nil] at hrows
  rw [Offset.editDistance, hfirst, hrows, editDistance_eq]
  exact hlast

/-! ### Keys -/

theorem encode_injective {u v : List Char} (h : encode u = encode v) : u = v := by
  have hbytes : (String.ofList u).toByteArray = (String.ofList v).toByteArray :=
    congrArg List.toByteArray h
  exact String.ofList_injective (String.toByteArray_inj.1 hbytes)

theorem keyDistance_eq (a b : String) :
    keyDistance a b = distance (encode a.toList) (encode b.toList) :=
  editDistance_eq _ _

/-- The first of the known keys with the least distance from `key`: the ones before it are
farther, and the ones after it are not nearer. -/
inductive FirstNearest (key : String) : List String → String → Prop
  | intro {before after : List String} {nearest : String} :
    (∀ other ∈ before, keyDistance key nearest < keyDistance key other) →
      (∀ other ∈ after, keyDistance key nearest ≤ keyDistance key other) →
      FirstNearest key (before ++ nearest :: after) nearest

section Nearest

variable {key nearest : String} {knownKeys : List String}

theorem FirstNearest.mem (h : FirstNearest key knownKeys nearest) : nearest ∈ knownKeys := by
  cases h
  exact List.mem_append_right _ List.mem_cons_self

theorem FirstNearest.le (h : FirstNearest key knownKeys nearest) :
    ∀ other ∈ knownKeys, keyDistance key nearest ≤ keyDistance key other := by
  cases h with
  | intro hbefore hafter =>
    rw [List.forall_mem_append, List.forall_mem_cons]
    exact ⟨fun other hother => Nat.le_of_lt (hbefore other hother), Nat.le_refl _, hafter⟩

theorem firstNearest_cons_iff {known : String} {more : List String} :
    FirstNearest key (known :: more) nearest ↔
      (nearest = known ∧ ∀ other ∈ more, keyDistance key known ≤ keyDistance key other) ∨
      (keyDistance key nearest < keyDistance key known ∧ FirstNearest key more nearest) := by
  constructor
  · intro h
    generalize hkeys : known :: more = knownKeys at h
    cases h with
    | @intro before after _ hbefore hafter =>
      cases before with
      | nil =>
        obtain ⟨rfl, rfl⟩ := List.cons.inj hkeys
        exact .inl ⟨rfl, hafter⟩
      | cons first before =>
        obtain ⟨rfl, rfl⟩ := List.cons.inj hkeys
        obtain ⟨hfirst, hbefore⟩ := List.forall_mem_cons.1 hbefore
        exact .inr ⟨hfirst, .intro hbefore hafter⟩
  · rintro (⟨rfl, hafter⟩ | ⟨hlt, hmore⟩)
    · exact (.intro nofun hafter : FirstNearest key ([] ++ nearest :: more) nearest)
    · cases hmore with
      | intro hbefore hafter => exact .intro (List.forall_mem_cons.2 ⟨hlt, hbefore⟩) hafter

theorem nearestKey?_eq_none_iff : nearestKey? key knownKeys = none ↔ knownKeys = [] := by
  cases knownKeys with
  | nil => exact iff_of_true rfl rfl
  | cons known more =>
    refine iff_of_false ?_ (List.cons_ne_nil known more)
    rw [nearestKey?]
    split
    · exact Option.some_ne_none known
    · split <;> exact Option.some_ne_none _

/-- **The first key with the least distance is found.** -/
theorem nearestKey?_eq_some_iff :
    nearestKey? key knownKeys = some nearest ↔ FirstNearest key knownKeys nearest := by
  induction knownKeys generalizing nearest with
  | nil => exact iff_of_false nofun fun h => absurd h.mem List.not_mem_nil
  | cons known more ih =>
    rw [firstNearest_cons_iff, nearestKey?]
    rcases hmore : nearestKey? key more with _ | other
    · obtain rfl := nearestKey?_eq_none_iff.1 hmore
      simp [← ih, hmore, eq_comm]
    · have hother : FirstNearest key more other := ih.1 hmore
      rw [← ih, hmore, Option.some.injEq]
      by_cases hlt : keyDistance key other < keyDistance key known
      · have hnot : ¬ ∀ o ∈ more, keyDistance key known ≤ keyDistance key o :=
          fun h => Nat.not_le.2 hlt (h other hother.mem)
        simp only [if_pos hlt, Option.some.injEq, hnot, and_false, false_or]
        exact ⟨fun heq => ⟨heq ▸ hlt, heq⟩, And.right⟩
      · have hle : ∀ o ∈ more, keyDistance key known ≤ keyDistance key o :=
          fun o ho => (Nat.not_lt.1 hlt).trans (hother.le o ho)
        simp only [if_neg hlt, Option.some.injEq]
        refine ⟨fun heq => .inl ⟨heq.symm, hle⟩, ?_⟩
        rintro (⟨heq, -⟩ | ⟨hnearer, rfl⟩)
        · exact heq.symm
        · exact absurd hnearer hlt

theorem suggestedKey?_eq_some_iff : suggestedKey? knownKeys key = some nearest ↔
    FirstNearest key knownKeys nearest ∧ keyDistance key nearest ≤ 3 := by
  rw [suggestedKey?, Option.filter_eq_some_iff, nearestKey?_eq_some_iff, decide_eq_true_iff]

/-- A key is suggested if any known one is near enough, since the nearest one is then. -/
theorem isSome_suggestedKey?_iff : (suggestedKey? knownKeys key).isSome = true ↔
    ∃ known ∈ knownKeys, keyDistance key known ≤ 3 := by
  rw [Option.isSome_iff_exists]
  constructor
  · rintro ⟨nearest, hnearest⟩
    obtain ⟨hfirst, hle⟩ := suggestedKey?_eq_some_iff.1 hnearest
    exact ⟨nearest, hfirst.mem, hle⟩
  · rintro ⟨known, hknown, hle⟩
    rcases hnearest : nearestKey? key knownKeys with _ | nearest
    · rw [nearestKey?_eq_none_iff.1 hnearest] at hknown
      exact absurd hknown List.not_mem_nil
    · have hfirst := nearestKey?_eq_some_iff.1 hnearest
      exact ⟨nearest, suggestedKey?_eq_some_iff.2 ⟨hfirst, (hfirst.le known hknown).trans hle⟩⟩

end Nearest

/-- The distance of two keys counts edits of their bytes. -/
structure CountsEdits (a b : String) : Prop where
  least : IsLeast {n | Edits n (encode a.toList) (encode b.toList)} (keyDistance a b)
  recursive : keyDistance a b = distance (encode a.toList) (encode b.toList)
  /-- No place outside a row is looked at. -/
  inPlace : Offset.editDistance (encode a.toList) (encode b.toList) = some (keyDistance a b)
  eq_zero_iff : keyDistance a b = 0 ↔ a = b
  comm : keyDistance a b = keyDistance b a
  triangle : ∀ c, keyDistance a b ≤ keyDistance a c + keyDistance c b

/-- What is suggested for a key: the first of the nearest known keys, if it is near enough. -/
structure Suggests (knownKeys : List String) (key : String) (suggested : Option String) : Prop where
  isSome_iff : suggested.isSome = true ↔ ∃ known ∈ knownKeys, keyDistance key known ≤ 3
  first : ∀ nearest ∈ suggested, FirstNearest key knownKeys nearest

/-- **The distance of keys is the least number of edits of their bytes,** and the key suggested
for another is the first of the known ones with the least distance, if that is at most three. -/
theorem countsEdits_suggests (a b : String) (knownKeys : List String) (key : String) :
    CountsEdits a b ∧ Suggests knownKeys key (suggestedKey? knownKeys key) := by
  refine ⟨?_, isSome_suggestedKey?_iff, fun nearest h => (suggestedKey?_eq_some_iff.1 h).1⟩
  constructor
  case recursive => exact keyDistance_eq a b
  case inPlace => exact offset_editDistance_eq _ _
  case least =>
    rw [keyDistance_eq]
    exact isLeast_edits _ _
  case eq_zero_iff =>
    rw [keyDistance_eq, distance_eq_zero_iff]
    exact ⟨fun h => String.toList_injective (encode_injective h), fun h => by rw [h]⟩
  case comm => rw [keyDistance_eq, keyDistance_eq, distance_comm]
  case triangle =>
    intro c
    simp only [keyDistance_eq]
    exact distance_triangle _ _ _

/-- A letter mistaken for another. -/
example : suggestedKey? knownKeys "extentions" = some "extensions" := by decide +kernel

end NativeHooks
