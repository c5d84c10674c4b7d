import Mathlib.Data.List.TakeDrop
import Retouch.Proofs.Files.Disk

/-!
# Folders on the way to a file

A file can be read when folders lead to it and no name on the way is too long. Folders can be made where no file is in
the way, and lead on from then.

## Main statements

* `Disk.read_eq_ok_iff`: when a file can be read at a path without steps back.
* `Disk.makes_iff`: when a folder can be made, and `Disk.folder_of_makeFolders`: it is there then.
* `Disk.node?_remove`: what is left when a file or folder is removed.
-/
namespace Retouch.Files.Disk

variable {disk made : Disk} {here place : Place} {names : List String} {path : Path} {bytes : Text.Bytes}

/-! ### Following names -/

/-- A path that can be followed leads where its names say, steps back included. -/
theorem follow_eq (found : disk.follow here names = .ok place) : place = Path.follow here names := by
  induction names generalizing here with
  | nil => exact (Except.ok.inj found).symm
  | cons name rest ih =>
    unfold follow at found
    unfold Path.follow
    split at found
    · cases found
    · cases found
    · split at found
      · cases found
      · split at found
        · rw [if_pos ‹_›]
          exact ih found
        · rw [if_neg ‹_›]
          exact ih found

/-- Folders lead to a place. -/
def Leads (disk : Disk) (here : Place) (names : List String) : Prop :=
  ∀ front name behind, names = front ++ name :: behind → disk.node? (here ++ front) = some .folder

theorem leads_cons {name : String} : disk.Leads here (name :: names) ↔
    disk.node? here = some .folder ∧ disk.Leads (here ++ [name]) names := by
  constructor
  · intro leads
    refine ⟨by simpa using leads [] name names rfl, fun front next behind split => ?_⟩
    have there := leads (name :: front) next behind (by rw [split]; rfl)
    simpa using there
  · rintro ⟨first, rest⟩ front next behind split
    cases front with
    | nil => simpa using first
    | cons _ front =>
      obtain ⟨rfl, behind_eq⟩ := List.cons.inj split
      have there := rest front next behind behind_eq
      simpa using there

/-- Names without steps back can be followed where folders lead and no name is too long. -/
theorem follow_eq_ok_iff (clean : Path.back ∉ names) : disk.follow here names = .ok place ↔
    place = here ++ names ∧ disk.Leads here names ∧ ∀ name ∈ names, name.utf8ByteSize ≤ nameLimit := by
  induction names generalizing here with
  | nil =>
    have leads : disk.Leads here [] := by
      intro front name behind split
      simp at split
    simp [follow, leads, eq_comm]
  | cons name rest ih =>
    simp only [List.mem_cons, not_or] at clean
    rw [leads_cons]
    unfold follow
    cases there : disk.node? here with
    | none => simp
    | some node =>
      cases node with
      | file f => simp
      | folder =>
        dsimp only
        by_cases long : nameLimit < name.utf8ByteSize
        · rw [if_pos long]
          simp only [reduceCtorEq, List.mem_cons, forall_eq_or_imp, false_iff]
          rintro ⟨-, -, short, -⟩
          exact Nat.not_le_of_lt long short
        · rw [if_neg long, if_neg fun same => clean.1 same.symm, ih clean.2]
          simp [Nat.le_of_not_lt long]

/-- When a file can be read. -/
theorem read_eq_ok_iff (absolute : path.absolute = true) (clean : Path.back ∉ path.names) :
    disk.read path = .ok bytes ↔ disk.Leads [] path.names ∧
      (∀ name ∈ path.names, name.utf8ByteSize ≤ nameLimit) ∧
      ∃ age, disk.node? path.names = some (.file ⟨bytes, age⟩) := by
  rw [read_eq_ok]
  unfold locate
  rw [absolute]
  constructor
  · rintro ⟨place, age, found, there⟩
    obtain ⟨rfl, leads, short⟩ := (follow_eq_ok_iff clean).mp (mapError_eq_ok.mp found)
    exact ⟨leads, short, age, there⟩
  · rintro ⟨leads, short, age, there⟩
    refine ⟨path.names, age, ?_, there⟩
    exact mapError_eq_ok.mpr ((follow_eq_ok_iff clean).mpr ⟨rfl, leads, short⟩)

/-! ### Making folders -/

theorem leads_of_prefix {outer : Place} (leads : disk.Leads [] names) (inside : outer <+: names)
    (shorter : outer ≠ names) : disk.node? outer = some .folder := by
  obtain ⟨behind, rfl⟩ := inside
  cases behind with
  | nil => simp at shorter
  | cons name behind => simpa using leads outer name behind rfl

/-- A folder that was made is there, as are those around it. -/
theorem folder_of_makeFrom (start : disk.node? here = some .folder) (done : disk.makeFrom here names = .ok made) :
    ∀ front, front <+: names → made.node? (here ++ front) = some .folder := by
  induction names generalizing disk here with
  | nil =>
    obtain rfl := Except.ok.inj done
    intro front inside
    simpa [List.prefix_nil.mp inside] using start
  | cons name rest ih =>
    have kept : made.node? here = some .folder := by
      rcases node?_makeFrom done here with same | ⟨none, -⟩
      · rw [same, start]
      · rw [none] at start
        cases start
    intro front inside
    cases front with
    | nil => simpa using kept
    | cons first front =>
      obtain ⟨same, later⟩ := List.cons_prefix_cons.mp inside
      subst same
      simp only [makeFrom] at done
      split at done
      · rename_i folder
        simpa using ih folder done front later
      · cases done
      · rename_i free
        have folder := node?_putFolder disk (here ++ [first]) (here ++ [first]) free
        rw [if_pos rfl] at folder
        simpa using ih folder done front later

theorem folder_of_makeFolders (done : disk.makeFolders path = .ok made) {outer : Place}
    (inside : outer <+: path.names) : made.node? outer = some .folder := by
  simpa using folder_of_makeFrom (by simp [node?]) (makeFolders_ok done) outer inside

/-- Making folders changes places along the names only. -/
theorem along_of_makeFrom (done : disk.makeFrom here names = .ok made) (place : Place) :
    made.node? place = disk.node? place ∨ place <+: here ++ names := by
  induction names generalizing disk here with
  | nil =>
    obtain rfl := Except.ok.inj done
    exact .inl rfl
  | cons name rest ih =>
    rw [List.append_cons]
    simp only [makeFrom] at done
    split at done
    · exact ih done
    · cases done
    · rename_i free
      by_cases at_ : here ++ [name] = place
      · exact .inr (at_ ▸ List.prefix_append _ _)
      · refine (ih done).imp_left fun same => same.trans ?_
        rw [node?_putFolder _ _ _ free, if_neg at_]

theorem along_of_makeFolders (done : disk.makeFolders path = .ok made) (place : Place) :
    made.node? place = disk.node? place ∨ place <+: path.names := by
  simpa using along_of_makeFrom (makeFolders_ok done) place

/-- Folders can be made where no file is in the way. -/
theorem makesFrom_iff : (∃ made, disk.makeFrom here names = .ok made) ↔
    ∀ front name behind f, names = front ++ name :: behind →
      disk.node? (here ++ front ++ [name]) ≠ some (.file f) := by
  induction names generalizing disk here with
  | nil => simp [makeFrom]
  | cons name rest ih =>
    simp only [makeFrom]
    -- What is in the way further in is in the way of the rest.
    have first : (∀ front next behind f, name :: rest = front ++ next :: behind →
        disk.node? (here ++ front ++ [next]) ≠ some (.file f)) ↔
        (∀ f, disk.node? (here ++ [name]) ≠ some (.file f)) ∧
          ∀ front next behind f, rest = front ++ next :: behind →
            disk.node? (here ++ [name] ++ front ++ [next]) ≠ some (.file f) := by
      constructor
      · intro free
        refine ⟨fun f => by simpa using free [] name rest f rfl, fun front next behind f split => ?_⟩
        simpa using free (name :: front) next behind f (by rw [split]; rfl)
      · rintro ⟨here_free, free⟩ front next behind f split
        cases front with
        | nil =>
          obtain ⟨rfl, -⟩ := List.cons.inj split
          simpa using here_free f
        | cons other front =>
          obtain ⟨rfl, behind_eq⟩ := List.cons.inj split
          simpa using free front next behind f behind_eq
    rw [first]
    cases there : disk.node? (here ++ [name]) with
    | some node =>
      cases node with
      | file f => simp
      | folder => simp [ih]
    | none =>
      dsimp only
      rw [ih]
      simp only [reduceCtorEq, ne_eq, not_false_eq_true, implies_true, true_and]
      -- The folder that is made is in nobody's way.
      refine forall_congr' fun front => forall_congr' fun next => forall_congr' fun behind =>
        forall_congr' fun f => imp_congr_right fun _ => not_congr ?_
      rw [node?_putFolder _ _ _ there, if_neg (by simp)]

theorem makes_iff : (∃ made, disk.makeFolders path = .ok made) ↔
    ∀ outer f, outer <+: path.names → disk.node? outer ≠ some (.file f) := by
  have same : (∃ made, disk.makeFolders path = .ok made) ↔ ∃ made, disk.makeFrom [] path.names = .ok made := by
    refine exists_congr fun made => ?_
    unfold makeFolders
    exact mapError_eq_ok
  rw [same, makesFrom_iff]
  constructor
  · rintro free outer f ⟨behind, split⟩
    rcases List.eq_nil_or_concat outer with rfl | ⟨front, name, rfl⟩
    · simp [node?]
    · have way := free front name behind f (by rw [← split]; simp)
      simpa using way
  · intro free front name behind f split
    have way := free (front ++ [name]) f ⟨behind, by rw [split]; simp⟩
    simpa using way

/-- A file that is written into a folder that was made can be read. -/
theorem read_write_child {folder : Path} {name : String} (done : disk.makeFolders folder = .ok made)
    (absolute : folder.absolute = true) (clean : Path.back ∉ (folder.child name).names)
    (short : ∀ part ∈ (folder.child name).names, part.utf8ByteSize ≤ nameLimit) (bytes : Text.Bytes) :
    (made.write (folder.child name).names bytes).read (folder.child name) = .ok bytes := by
  have inner : (folder.child name).names ≠ [] := by simp [Path.child]
  have child : (folder.child name).absolute = true := absolute
  refine (read_eq_ok_iff child clean).mpr ⟨fun front part behind split => ?_, short, made.writes, ?_⟩
  · -- What is on the way to the file is on the way to its folder, too.
    have inside : front <+: folder.names := by
      refine List.prefix_of_prefix_length_le ⟨part :: behind, split.symm⟩ ⟨[name], rfl⟩ ?_
      have lengths := congrArg List.length split
      simp only [Path.child, List.length_append, List.length_cons, List.length_nil] at lengths
      omega
    have apart : (folder.child name).names ≠ front := by
      rintro rfl
      exact absurd inside.length_le (by simp [Path.child])
    rw [List.nil_append, node?_write _ _ _ _ inner, if_neg apart]
    exact folder_of_makeFolders done inside
  · exact (node?_write _ _ _ _ inner).trans (if_pos rfl)

/-! ### Removing -/

/-- What is left when a file or folder is removed. -/
theorem node?_remove {other : Place} (inner : place ≠ []) : (disk.remove place).node? other =
    if place <+: other then none else disk.node? other := by
  unfold node? remove
  by_cases root : other = []
  · subst root
    simp [inner]
  · have kept := Table.get?_filter (fun key => !place.isPrefixOf key) disk.nodes other
    dsimp only
    rw [if_neg root, if_neg root, kept]
    have same : (!place.isPrefixOf other) = true ↔ ¬place <+: other := by
      rw [Bool.not_eq_true', ← Bool.not_eq_true, List.isPrefixOf_iff_prefix]
    by_cases inside : place <+: other
    · rw [if_pos inside, if_neg (mt same.mp (not_not_intro inside))]
    · rw [if_neg inside, if_pos (same.mpr inside)]

end Retouch.Files.Disk
