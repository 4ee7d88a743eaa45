/-
# Notices lose no path

A notice becomes changes of several kinds, and a rename that names both its paths becomes a
single one.  Taken together, in their order, the changes are about the paths of the notice, each
as often as it is named, whichever path a rename gives and however many it gives
(`paths_changes`).  Notices of access, and of nothing in particular, are the only ones that
become no change.  So a notice matters if it tells of a change and names a header.
-/

import NativeHooks.Proofs.Live.Relevance

namespace NativeHooks

/-- The notice tells that files were created, removed or modified. -/
def NoticeKind.tellsChange : NoticeKind → Bool
  | .create | .remove | .modify _ => true
  | .unspecified | .other | .access => false

/-- The path has an extension, and it is one of a header. -/
def Path.HasHeaderExtension (s : Settings) (p : Path) : Prop :=
  ∃ extension, p.extension?.bind Path.text? = some extension ∧ s.isHeaderExtension extension = true

/-- A change that is told of a path is relevant if the path ends as a header does. -/
theorem Change.isRelevant_iff_exists {s : Settings} {c : Change} :
    c.isRelevant s = true ↔ ∃ p ∈ c.paths, p.HasHeaderExtension s := by
  simp only [Change.isRelevant, List.any_eq_true, Option.any_eq_true, Path.HasHeaderExtension]

namespace Notice

/-- One change for each path is about those paths. -/
theorem flatMap_paths_map (change : Path → Change) (h : ∀ p, (change p).paths = [p])
    (paths : List Path) : (paths.map change).flatMap Change.paths = paths := by
  simp only [List.flatMap_map, h, List.flatMap_singleton']

/-- **The changes of a notice are about its paths, in their order.** -/
theorem paths_changes (n : Notice) :
    n.changes.flatMap Change.paths = if n.kind.tellsChange then n.paths else [] := by
  obtain ⟨kind, paths⟩ := n
  have hcreated := flatMap_paths_map .created (fun _ => rfl) paths
  have hchanged := flatMap_paths_map .changed (fun _ => rfl) paths
  have hdeleted := flatMap_paths_map .deleted (fun _ => rfl) paths
  cases kind with
  | unspecified | other | access => rfl
  | create => exact hcreated
  | remove => exact hdeleted
  | modify how =>
    cases how with
    | unspecified | other | data | metadata => exact hchanged
    | name side =>
      cases side with
      | unspecified | other => exact hchanged
      | old => exact hdeleted
      | new => exact hcreated
      | both =>
        -- Only two paths make one change of both.
        match paths with
        | [_, _] => rfl
        | [] | [_] | _ :: _ :: _ :: _ => exact hchanged

/-- **No path of a notice is lost:** its changes are about all its paths, in their order, if it
tells of a creation, a removal or a modification, and about none otherwise.  So one of them is
relevant exactly if it does and one of its paths ends as a header does. -/
theorem changes_cover_paths (s : Settings) (n : Notice) :
    n.changes.flatMap Change.paths = (if n.kind.tellsChange then n.paths else []) ∧
    ((∃ c ∈ n.changes, c.isRelevant s = true) ↔
      n.kind.tellsChange = true ∧ ∃ p ∈ n.paths, p.HasHeaderExtension s) := by
  refine ⟨paths_changes n, ?_⟩
  have hcovered : (∃ c ∈ n.changes, c.isRelevant s = true) ↔
      ∃ p ∈ n.changes.flatMap Change.paths, p.HasHeaderExtension s := by
    simp only [Change.isRelevant_iff_exists, List.mem_flatMap]
    constructor
    · rintro ⟨c, hc, p, hp, hheader⟩
      exact ⟨p, ⟨c, hc, hp⟩, hheader⟩
    · rintro ⟨p, ⟨c, hc, hp⟩, hheader⟩
      exact ⟨c, hc, p, hp, hheader⟩
  rw [hcovered, paths_changes]
  cases n.kind.tellsChange <;> simp

end Notice
end NativeHooks
