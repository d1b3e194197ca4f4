import ClamavDbscan.Library.PathResolution
import ClamavDbscan.Proof.Protocol.SameProtocol

/-
This file decides when the filters of the watchers accept exactly what lies below their root.
-/

namespace ClamavDbscan

open Fanotify

theorem slash_ne_dot : slash ≠ (0x2e : UInt8) := by decide

def byteMarks : PosixPath.Marks UInt8 := ⟨slash, 0x2e, slash_ne_dot⟩

/-- A canonical path is given by these names. -/
abbrev ByteName := { name : Bytes // byteMarks.Valid name }

def canonicalPath (names : List ByteName) : Bytes := byteMarks.canonical (names.map Subtype.val)

/-- The C watcher reports a file if its path begins with the compare path. -/
def Watcher.Accepts (root dirpath name : Bytes) (mask : Nat) : Prop :=
  ∃ event, Watcher.processPath (Watcher.comparePathOf root) mask (some (dirpath ++ slash :: name)) =
    .reported event

/-- The Go watcher reports the files of a directory that it allows. -/
def FSWatcher.Accepts (root dirpath : Bytes) : Prop :=
  (FSWatcher.Filter.ofRoot root true).allowPath (some dirpath) = true

/-- Both watchers report a file exactly if the directory is the root or lies below it. -/
def FiltersExact (root directory : List ByteName) (name : Bytes) (mask : Nat) : Prop :=
  (Watcher.Accepts (canonicalPath root) (canonicalPath directory) name mask ↔ root <+: directory) ∧
    (FSWatcher.Accepts (canonicalPath root) (canonicalPath directory) ↔ root <+: directory)

variable {root directory : List ByteName} {name : Bytes} {mask : Nat}

theorem valid_bytes (names : List ByteName) : ∀ name ∈ names.map Subtype.val, byteMarks.Valid name := by
  intro name member
  obtain ⟨listed, _, rfl⟩ := List.mem_map.mp member
  exact listed.property

theorem prefix_map_iff : root.map Subtype.val <+: directory.map Subtype.val ↔ root <+: directory :=
  List.prefix_map_iff_of_injective Subtype.val_injective

theorem Watcher.accepts_iff (root dirpath name : Bytes) (mask : Nat) :
    Watcher.Accepts root dirpath name mask ↔ Watcher.comparePathOf root <+: dirpath ++ slash :: name := by
  rw [Accepts, processPath, ← List.isPrefixOf_iff_prefix]
  split
  · rename_i accepted
    exact iff_of_true ⟨_, rfl⟩ accepted
  · rename_i rejected
    refine iff_of_false ?_ rejected
    intro reported
    obtain ⟨event, same⟩ := reported
    contradiction

theorem canonicalPath_eq (names : List ByteName) :
    canonicalPath names = slash :: [slash].intercalate (names.map Subtype.val) :=
  PosixPath.Marks.canonical_eq _

/-- Only the root has the path with nothing behind the slash. -/
theorem canonicalPath_eq_slash_iff (names : List ByteName) : canonicalPath names = [slash] ↔ names = [] := by
  rw [canonicalPath_eq, List.cons.injEq, and_iff_right rfl]
  constructor
  · intro empty
    exact List.map_eq_nil_iff.mp (PosixPath.Marks.eq_nil_of_intercalate (valid_bytes names) empty)
  · rintro rfl
    rfl

/-- Below an inner root both tests are the test of the components. -/
theorem canonicalPath_prefix_iff (plain : slash ∉ name) (inner : root ≠ []) :
    canonicalPath root ++ [slash] <+: canonicalPath directory ++ slash :: name ↔ root <+: directory := by
  have more : root.map Subtype.val ≠ [] := fun empty => inner (List.map_eq_nil_iff.mp empty)
  rw [← prefix_map_iff]
  exact PosixPath.Marks.canonical_prefix_iff (valid_bytes root) (valid_bytes directory) plain more

/-- The C watcher accepts what lies below its root. -/
theorem Watcher.accepts_canonical_iff (plain : slash ∉ name) :
    Watcher.Accepts (canonicalPath root) (canonicalPath directory) name mask ↔ root <+: directory := by
  rw [accepts_iff]
  by_cases top : root = []
  · subst top
    have compared : comparePathOf (canonicalPath []) = [slash] := by decide
    rw [compared, canonicalPath_eq]
    exact iff_of_true ⟨_, rfl⟩ List.nil_prefix
  · have rooted : [slash] <+: canonicalPath root := ⟨_, (canonicalPath_eq root).symm⟩
    rw [comparePathOf_root rooted fun same => top ((canonicalPath_eq_slash_iff root).mp same)]
    exact canonicalPath_prefix_iff plain top

/-- Below an inner root the Go watcher accepts the same directories. -/
theorem FSWatcher.accepts_inner_iff (inner : root ≠ []) :
    FSWatcher.Accepts (canonicalPath root) (canonicalPath directory) ↔ root <+: directory := by
  have plain : slash ∉ closedFile.dfidName.name := by decide
  rw [Accepts, allowPath_iff _ _ plain]
  exact canonicalPath_prefix_iff plain inner

/-- With the root itself the Go watcher accepts nothing below it, since no path begins with `//`. -/
theorem FSWatcher.accepts_root_iff :
    FSWatcher.Accepts (canonicalPath []) (canonicalPath directory) ↔ directory = [] := by
  have unfolded : FSWatcher.Accepts (canonicalPath []) (canonicalPath directory) ↔
      canonicalPath [] ++ [slash] <+: canonicalPath directory ∨ canonicalPath directory = canonicalPath [] := by
    simp [Accepts, FSWatcher.Filter.allowPath, FSWatcher.Filter.ofRoot]
  rw [unfolded, show canonicalPath [] = [slash] from rfl, canonicalPath_eq_slash_iff]
  refine or_iff_right ?_
  rintro ⟨rest, same⟩
  rw [canonicalPath_eq, List.append_assoc, List.singleton_append, List.cons.injEq] at same
  have pieces : ∀ entry ∈ directory.map Subtype.val, byteMarks.Piece entry := fun entry member =>
    (valid_bytes directory entry member).piece
  exact PosixPath.Marks.intercalate_ne_slash pieces _ same.2.symm

/-- Both filters are exact unless the root is `/` and the directory lies below it. -/
theorem filters_exact_iff (root directory : List ByteName) (name : Bytes) (plain : slash ∉ name)
    (mask : Nat) : FiltersExact root directory name mask ↔ root ≠ [] ∨ directory = [] := by
  rw [FiltersExact, and_iff_right (Watcher.accepts_canonical_iff plain)]
  by_cases top : root = []
  · subst top
    rw [FSWatcher.accepts_root_iff, iff_true_right List.nil_prefix]
    exact (or_iff_right (not_not.mpr rfl)).symm
  · exact iff_of_true (FSWatcher.accepts_inner_iff top) (.inl top)

def directoryD : ByteName := ⟨[0x64], by decide, by decide, by decide, by decide⟩

/-- The filters for the root `/d` are exact for the file `/d/d/a`. -/
theorem filters_exact_inner : FiltersExact [directoryD] [directoryD, directoryD] [0x61] 0x8 :=
  (filters_exact_iff [directoryD] [directoryD, directoryD] [0x61] (by decide) 0x8).mpr (.inl (by decide))

/-- With the root `/` the C watcher reports `/d/a`, and the Go watcher drops it. -/
theorem root_filter_drops :
    canonicalPath [] = [0x2f] ∧ canonicalPath [directoryD] = [0x2f, 0x64] ∧
      Watcher.Accepts (canonicalPath []) (canonicalPath [directoryD]) [0x61] 0x8 ∧
      ¬ FSWatcher.Accepts (canonicalPath []) (canonicalPath [directoryD]) ∧
      ¬ FiltersExact [] [directoryD] [0x61] 0x8 := by
  have dropped : ¬ FSWatcher.Accepts (canonicalPath []) (canonicalPath [directoryD]) := by
    rw [FSWatcher.Accepts]
    decide
  refine ⟨rfl, rfl, ⟨_, rfl⟩, dropped, ?_⟩
  intro both
  exact dropped (both.2.mpr List.nil_prefix)

end ClamavDbscan
