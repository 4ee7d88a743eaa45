/-
# Paths joined

A path with a relative one after it ends with the name that the relative one ends with
(`fileName?_join`), so both have the same extension (`extension?_join`).  Shown as text, it
depends on what the relative one is shown as and not on its bytes (`text_join_congr`).
-/

import NativeHooks.Tree.Path
import NativeHooks.Proofs.Text.Utf8

namespace NativeHooks
namespace Path

open Text

variable {p q r : Path} {name extension : FileName}

theorem names_append_slash (p q : Path) : names (p ++ slash :: q) = names p ++ names q :=
  List.splitOnP_append_cons p q (beq_self_eq_true slash)

theorem fileName?_append_slash (p : Path) (h : q.fileName? = some name) :
    fileName? (p ++ slash :: q) = some name := by
  obtain ⟨hlast, hname⟩ := Option.filter_eq_some_iff.1 h
  refine Option.filter_eq_some_iff.2 ⟨?_, hname⟩
  rw [names_append_slash, List.filter_append, List.getLast?_append, hlast, Option.some_or]

/-- A path ends with the name that a path after it ends with. -/
theorem fileName?_join (p : Path) (h : q.fileName? = some name) :
    (p.join q).fileName? = some name := by
  unfold join
  split
  · exact h
  split
  case isTrue hends =>
    rcases List.eq_nil_or_concat p with rfl | ⟨folder, last, rfl⟩
    · exact h
    · -- The slash at the end of the first path parts the two.
      rw [List.concat_eq_append] at hends ⊢
      have hlast : last = slash := by simpa using hends
      rw [hlast, List.append_assoc, List.singleton_append]
      exact fileName?_append_slash folder h
  case isFalse => exact fileName?_append_slash p h

theorem extension?_join (p : Path) (h : q.extension? = some extension) :
    (p.join q).extension? = some extension := by
  obtain ⟨name, hname, hextension⟩ := Option.bind_eq_some_iff.1 h
  rw [extension?, fileName?_join p hname]
  exact hextension

/-! ### What is shown -/

theorem isAbsolute_iff : q.isAbsolute = true ↔ (decodeLossy q).head? = some '/' := by
  rw [isAbsolute, beq_iff_eq]
  constructor
  · intro h
    rcases q with _ | ⟨first, rest⟩
    · exact absurd h.symm (Option.some_ne_none slash)
    · obtain rfl : first = slash := Option.some.inj h
      rw [← List.nil_append (slash :: rest), decodeLossy_append_ascii (by decide)]
      rfl
  · intro h
    obtain ⟨byte, hbyte, heq⟩ := exists_byte_of_head?_decodeLossy h (by decide) (by decide)
    obtain rfl : byte = slash := UInt8.toNat_inj.1 heq
    exact hbyte

theorem decodeLossy_append_slash (h : decodeLossy q = decodeLossy r) (p : Path) :
    decodeLossy (p ++ slash :: q) = decodeLossy (p ++ slash :: r) := by
  have hslash : slash.toNat < 0x80 := by decide
  rw [decodeLossy_append_ascii hslash, decodeLossy_append_ascii hslash, h]

theorem decodeLossy_join_congr (h : decodeLossy q = decodeLossy r) (p : Path) :
    decodeLossy (p.join q) = decodeLossy (p.join r) := by
  have habsolute : q.isAbsolute = r.isAbsolute := by
    rw [Bool.eq_iff_iff, isAbsolute_iff, isAbsolute_iff, h]
  unfold join
  rw [habsolute]
  split
  · exact h
  split
  case isTrue hends =>
    rcases List.eq_nil_or_concat p with rfl | ⟨folder, last, rfl⟩
    · exact h
    · rw [List.concat_eq_append] at hends ⊢
      have hlast : last = slash := by simpa using hends
      rw [hlast, List.append_assoc, List.append_assoc]
      exact decodeLossy_append_slash h folder
  case isFalse => exact decodeLossy_append_slash h p

/-- Relative paths that are shown alike are shown alike after any path. -/
theorem text_join_congr (h : q.text = r.text) (p : Path) : (p.join q).text = (p.join r).text := by
  have hchars : decodeLossy q = decodeLossy r := String.ofList_injective h
  rw [text, text, decodeLossy_join_congr hchars]

end Path
end NativeHooks
