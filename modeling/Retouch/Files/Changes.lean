import Retouch.Files.Disk

/-!
# Files below a folder

The files below a folder under the names that lead to them from there, and the differences between two
states of them. Main statement: `changes_self`, nothing differs from itself.
-/
namespace Retouch.Files.Disk

/-- Writes a file at a place, after making the folders around it as far as they can be made. -/
def put (disk : Disk) (place : Place) (bytes : Text.Bytes) : Disk :=
  match disk.makeFrom [] place.dropLast with
  | .ok disk => disk.write place bytes
  | .error _ => disk.write place bytes

/-- The files below a folder. -/
def filesBelow (disk : Disk) (folder : Place) : List (Place × Text.Bytes) :=
  disk.nodes.filterMap fun (place, node) =>
    match node with
    | .file f => if folder.isPrefixOf place then some (place.drop folder.length, f.bytes) else none
    | .folder => none

/-- The files below a folder that are other ones in `after`: their new bytes, or none where they are
gone. -/
def changes (before after : Disk) (folder : Place) : List (Place × Option Text.Bytes) :=
  let old := before.filesBelow folder
  let new := after.filesBelow folder
  let gone := old.filter fun (place, _) => !new.any fun entry => entry.1 == place
  let written := new.filter fun entry => !old.contains entry
  gone.map (fun (place, _) => (place, none)) ++ written.map fun (place, bytes) => (place, some bytes)

/-- Nothing differs from itself. -/
theorem changes_self (disk : Disk) (folder : Place) : disk.changes disk folder = [] := by
  have kept : ∀ entry ∈ disk.filesBelow folder,
      (disk.filesBelow folder).any (fun other => other.1 == entry.1) = true :=
    fun entry member => List.any_eq_true.mpr ⟨entry, member, beq_self_eq_true _⟩
  unfold changes
  simp only [List.append_eq_nil_iff, List.map_eq_nil_iff, List.filter_eq_nil_iff]
  exact ⟨fun entry member => by simp [kept entry member], fun entry member => by simp [member]⟩

end Retouch.Files.Disk
