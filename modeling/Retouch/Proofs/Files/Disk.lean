import Mathlib.Data.List.TakeDrop
import Mathlib.Data.List.TakeWhile
import Retouch.Files.Disk
import Retouch.Files.Encoding
import Retouch.Proofs.Table

/-!
# What changes on a disk

The effects of making folders and of writing a file, place by place, and where a path in normal form
leads to.

A file that was written is found again at its place and holds what was written, and it does so as long as
nothing is written on the way to it. A text that has bytes in an encoding comes back from them.

## Main statements

* `node?_makeFolders`: making folders changes no place where there was something.
* `locate_clean`: a path without steps back leads to the place that its names say.
* `Encoding.decode_encode`: the bytes of a text are read as the text.
* `Disk.read_write`: a file holds what was written to it.
* `Disk.Spares.read`: what changes elsewhere does not change what a file holds.
-/
namespace Retouch.Files.Disk

/-! ### Making folders -/

theorem node?_putFolder (disk : Disk) (place other : Place) (free : disk.node? place = none) :
    { disk with nodes := disk.nodes.put place .folder }.node? other =
      if place = other then some .folder else disk.node? other := by
  have inner : place ≠ [] := by
    rintro rfl
    simp [node?] at free
  unfold node?
  by_cases root : other = []
  · subst root
    simp [inner]
  · simp [root, Table.get?_put]

/-- Making folders changes no place where there was something; where there was nothing there may be a
folder now, at a place along the names. -/
theorem node?_makeFrom {disk made : Disk} {here : Place} {names : List String}
    (done : disk.makeFrom here names = .ok made) (place : Place) :
    made.node? place = disk.node? place ∨ disk.node? place = none ∧ made.node? place = some .folder := by
  induction names generalizing disk here with
  | nil =>
    simp only [makeFrom, Except.ok.injEq] at done
    exact .inl (by rw [done])
  | cons name rest ih =>
    simp only [makeFrom] at done
    split at done
    · exact ih done
    · cases done
    · rename_i free
      have changed := node?_putFolder disk (here ++ [name]) place free
      rcases ih done with same | ⟨empty, folder⟩
      · by_cases at_ : here ++ [name] = place
        · rw [if_pos at_] at changed
          exact .inr ⟨at_ ▸ free, same.trans changed⟩
        · rw [if_neg at_] at changed
          exact .inl (same.trans changed)
      · by_cases at_ : here ++ [name] = place
        · rw [if_pos at_, empty] at changed
          cases changed
        · rw [if_neg at_] at changed
          exact .inr ⟨changed ▸ empty, folder⟩

/-- Making folders changes the table of nodes only by folders along the names. -/
theorem filterMap_makeFrom {β : Type} (read : Place × Node → Option β) {disk made : Disk} {here : Place}
    {names : List String} (done : disk.makeFrom here names = .ok made)
    (hidden : ∀ place node, here.length < place.length → place.length ≤ here.length + names.length →
      read (place, node) = none) :
    made.nodes.filterMap read = disk.nodes.filterMap read := by
  induction names generalizing disk here with
  | nil =>
    simp only [makeFrom, Except.ok.injEq] at done
    rw [done]
  | cons name rest ih =>
    have below : ∀ place node, (here ++ [name]).length < place.length →
        place.length ≤ (here ++ [name]).length + rest.length → read (place, node) = none := by
      intro place node longer shorter
      simp only [List.length_append, List.length_cons, List.length_nil] at longer shorter
      exact hidden place node (by omega) (by simp only [List.length_cons]; omega)
    simp only [makeFrom] at done
    split at done
    · exact ih done below
    · cases done
    · rw [ih done below]
      apply Table.filterMap_put
      intro node
      apply hidden <;> simp

theorem makeFrom_frame {disk made : Disk} {here : Place} {names : List String}
    (done : disk.makeFrom here names = .ok made) : made.home = disk.home ∧ made.writes = disk.writes := by
  induction names generalizing disk here with
  | nil =>
    simp only [makeFrom, Except.ok.injEq] at done
    simp [done]
  | cons name rest ih =>
    simp only [makeFrom] at done
    split at done
    · exact ih done
    · cases done
    · obtain ⟨home, writes⟩ := ih done
      exact ⟨home, writes⟩

theorem mapError_eq_ok {ε ε' α : Type} {f : ε → ε'} {outcome : Except ε α} {a : α} :
    outcome.mapError f = .ok a ↔ outcome = .ok a := by
  cases outcome with
  | error e => exact ⟨nofun, nofun⟩
  | ok b => exact ⟨fun eq => by cases eq; rfl, fun eq => by cases eq; rfl⟩

theorem makeFolders_ok {disk made : Disk} {path : Path} (done : disk.makeFolders path = .ok made) :
    disk.makeFrom [] path.names = .ok made := by
  unfold makeFolders at done
  exact mapError_eq_ok.mp done

/-- Making folders changes no place where there was something. -/
theorem node?_makeFolders {disk made : Disk} {path : Path} (done : disk.makeFolders path = .ok made)
    (place : Place) :
    made.node? place = disk.node? place ∨ disk.node? place = none ∧ made.node? place = some .folder :=
  node?_makeFrom (makeFolders_ok done) place

/-- Making folders changes no file. -/
theorem bytes?_makeFolders {disk made : Disk} {path : Path} (done : disk.makeFolders path = .ok made)
    (place : Place) : made.bytes? place = disk.bytes? place := by
  unfold bytes?
  rcases node?_makeFolders done place with same | ⟨empty, folder⟩
  · rw [same]
  · rw [empty, folder]

/-! ### Places of paths -/

/-- Names that do not lead back lead to the place that they say. -/
theorem follow_clean {disk : Disk} {here place : Place} {names : List String} (clean : Path.back ∉ names)
    (found : disk.follow here names = .ok place) : place = here ++ names := by
  induction names generalizing here with
  | nil =>
    simp only [follow, Except.ok.injEq] at found
    simp [found]
  | cons name rest ih =>
    simp only [List.mem_cons, not_or] at clean
    simp only [follow] at found
    split at found
    · cases found
    · cases found
    · split at found
      · cases found
      · rw [if_neg fun eq => clean.1 eq.symm] at found
        rw [ih clean.2 found]
        simp

/-- The place that a path leads to if every step along it is there. -/
def aim (disk : Disk) (path : Path) : Place := (if path.absolute then [] else disk.home) ++ path.names

/-- A path without steps back leads to the place that its names say. -/
theorem locate_clean {disk : Disk} {path : Path} {place : Place} (clean : Path.back ∉ path.names)
    (found : disk.locate path = .ok place) : place = disk.aim path := by
  unfold locate at found
  exact follow_clean clean (mapError_eq_ok.mp found)

end Retouch.Files.Disk

namespace Retouch.Files

/-! ### Encodings -/

namespace Encoding

theorem narrow_eq_ok {encoding : Encoding} {text : List Char} {bytes : Text.Bytes}
    (done : narrow encoding text = .ok bytes) :
    (∀ c ∈ text, c.toNat < encoding.limit) ∧ bytes = text.map fun c => UInt8.ofNat c.toNat := by
  unfold narrow at done
  rw [List.span_eq_takeWhile_dropWhile] at done
  split at done
  · rename_i plain split_
    obtain ⟨rfl, none⟩ := Prod.mk.inj split_
    have all : ∀ c ∈ text, c.toNat < encoding.limit := by simpa using List.dropWhile_eq_nil_iff.mp none
    have whole : text.takeWhile (fun c => c.toNat < encoding.limit) = text := by
      rw [List.takeWhile_eq_self_iff]
      simpa using all
    rw [whole] at done
    exact ⟨all, (Except.ok.inj done).symm⟩
  · cases done

/-- Characters with small codes come back from their bytes. -/
theorem map_bytes {text : List Char} (small : ∀ c ∈ text, c.toNat < 256) :
    (text.map fun c => UInt8.ofNat c.toNat).map (fun b => Char.ofNat b.toNat) = text := by
  rw [List.map_map]
  refine (List.map_congr_left fun c member => ?_).trans (List.map_id text)
  show Char.ofNat (UInt8.ofNat c.toNat).toNat = c
  rw [Text.Utf8.toNat_ofNat _ (small c member), Char.ofNat_toNat]

/-- The bytes of a text are read as the text. -/
theorem decode_encode {encoding : Encoding} {text : List Char} {bytes : Text.Bytes}
    (done : encoding.encode text = .ok bytes) : encoding.decode bytes = .ok text := by
  cases encoding with
  | utf8 =>
    cases done
    rw [decode, Text.Utf8.decode_encode]
    rfl
  | signedUtf8 =>
    cases done
    have marked : mark.isPrefixOf (mark ++ Text.Utf8.encode text) = true := by simp
    simp only [decode, marked, if_true, List.drop_left, Text.Utf8.decode_encode]
    rfl
  | latin1 =>
    obtain ⟨small, rfl⟩ := narrow_eq_ok done
    exact congrArg _ (map_bytes small)
  | ascii =>
    obtain ⟨small, rfl⟩ := narrow_eq_ok done
    -- The decoder looks at the bytes once more, whether they are small.
    have wide : ∀ c ∈ text, c.toNat < 256 := fun c member => Nat.lt_trans (small c member) (by decide)
    have plain : ∀ b ∈ text.map (fun c => UInt8.ofNat c.toNat), b.toNat < 128 := by
      intro b member
      obtain ⟨c, inside, rfl⟩ := List.mem_map.mp member
      rw [Text.Utf8.toNat_ofNat _ (wide c inside)]
      exact small c inside
    have first : (text.map fun c => UInt8.ofNat c.toNat).takeWhile (fun b => b.toNat < 128) =
        text.map fun c => UInt8.ofNat c.toNat := by
      rw [List.takeWhile_eq_self_iff]
      simpa using plain
    have behind : (text.map fun c => UInt8.ofNat c.toNat).dropWhile (fun b => b.toNat < 128) = [] := by
      rw [List.dropWhile_eq_nil_iff]
      simpa using plain
    rw [decode, List.span_eq_takeWhile_dropWhile, first, behind]
    exact congrArg _ (map_bytes wide)

end Encoding

/-! ### Places -/

namespace Disk

/-- What is on the way to a place, and at the place, is still there. -/
structure Spares (place : Place) (before after : Disk) : Prop where
  home : after.home = before.home
  kept : ∀ outer node, outer <+: place → before.node? outer = some node → after.node? outer = some node

variable {disk before after : Disk} {place here : Place} {names : List String} {path : Path}
  {bytes : Text.Bytes}

namespace Spares

theorem refl (place : Place) (disk : Disk) : Spares place disk disk := ⟨rfl, fun _ _ _ there => there⟩

theorem trans {first second third : Disk} (early : Spares place first second)
    (late : Spares place second third) : Spares place first third :=
  ⟨late.home.trans early.home, fun outer node inside there =>
    late.kept outer node inside (early.kept outer node inside there)⟩

theorem of_makeFolders (done : before.makeFolders path = .ok after) : Spares place before after := by
  refine ⟨(makeFrom_frame (makeFolders_ok done)).1, fun outer node _ there => ?_⟩
  rcases node?_makeFolders done outer with same | ⟨none, -⟩
  · rw [same, there]
  · rw [none] at there
    cases there

/-- Writing a file that is not on the way. -/
theorem of_write {other : Place} (aside : ¬other <+: place) (bytes : Text.Bytes) :
    Spares place disk (disk.write other bytes) := by
  refine ⟨rfl, fun outer node inside there => ?_⟩
  have inner : other ≠ [] := by
    rintro rfl
    exact aside List.nil_prefix
  rw [node?_write _ _ _ _ inner, if_neg, there]
  rintro rfl
  exact aside inside

end Spares

/-- A path leads where it led while the folders on the way to it are there. -/
theorem follow_of_kept (clean : Path.back ∉ names) (found : before.follow here names = .ok place)
    (kept : ∀ outer, outer <+: place → outer ≠ place → before.node? outer = some .folder →
      after.node? outer = some .folder) : after.follow here names = .ok place := by
  -- Every step goes through a folder, and the folders on the way are still there.
  induction names generalizing here with
  | nil => exact found
  | cons name rest ih =>
    obtain rfl := follow_clean clean found
    simp only [List.mem_cons, not_or] at clean
    unfold follow at found ⊢
    cases there : before.node? here with
    | none =>
      rw [there] at found
      cases found
    | some node =>
      rw [there] at found
      cases node with
      | file f => cases found
      | folder =>
        have still := kept here (List.prefix_append _ _) (by simp) there
        rw [still]
        dsimp only at found ⊢
        split at found
        · cases found
        · rename_i short
          rw [if_neg short]
          rw [if_neg fun eq => clean.1 eq.symm] at found ⊢
          exact ih clean.2 found

theorem Spares.locate (clean : Path.back ∉ path.names) (found : before.locate path = .ok place)
    (spares : Spares place before after) : after.locate path = .ok place := by
  unfold Disk.locate at found ⊢
  rw [spares.home]
  rw [mapError_eq_ok] at found ⊢
  exact follow_of_kept clean found fun outer inside _ there => spares.kept outer _ inside there

theorem read_eq_ok : disk.read path = .ok bytes ↔
    ∃ place age, disk.locate path = .ok place ∧ disk.node? place = some (.file ⟨bytes, age⟩) := by
  unfold read
  cases disk.locate path with
  | error e => simp [bind, Except.bind]
  | ok place =>
    have only : (∃ place' age, (.ok place : Except PathError Place) = .ok place' ∧
        disk.node? place' = some (.file ⟨bytes, age⟩)) ↔ ∃ age, disk.node? place = some (.file ⟨bytes, age⟩) := by
      simp
    rw [only]
    simp only [bind, Except.bind]
    cases disk.node? place with
    | none => simp
    | some node =>
      cases node with
      | folder => simp
      | file f =>
        obtain ⟨held, age⟩ := f
        simp [pure, Except.pure]

/-- What changes elsewhere does not change what a file holds. -/
theorem Spares.read (clean : Path.back ∉ path.names) (held : before.read path = .ok bytes)
    (spares : Spares (before.aim path) before after) : after.read path = .ok bytes := by
  obtain ⟨place, age, found, there⟩ := read_eq_ok.mp held
  obtain rfl := locate_clean clean found
  exact read_eq_ok.mpr ⟨_, age, spares.locate clean found, spares.kept _ _ List.prefix_rfl there⟩

/-- A file holds what was written to it. -/
theorem read_write (clean : Path.back ∉ path.names) (found : disk.locate path = .ok place)
    (inner : place ≠ []) (bytes : Text.Bytes) : (disk.write place bytes).read path = .ok bytes := by
  have there : (disk.write place bytes).node? place = some (.file ⟨bytes, disk.writes⟩) := by
    rw [node?_write _ _ _ _ inner, if_pos rfl]
  refine read_eq_ok.mpr ⟨place, disk.writes, ?_, there⟩
  unfold locate at found ⊢
  rw [mapError_eq_ok] at found ⊢
  -- The write puts a file at the place itself, which no step before the last one passes.
  refine follow_of_kept clean found fun outer _ other folder => ?_
  rw [node?_write _ _ _ _ inner, if_neg fun same => other same.symm, folder]

end Disk

end Retouch.Files
