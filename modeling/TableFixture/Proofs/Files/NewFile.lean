import TableFixture.Files.NewFile
import TableFixture.Proofs.Files.EmptyDirectory

/-!
# What is left of a new file

Where a new file can be created, the system lets it be written, does not create it, or refuses
a call after it was created.  In the last case the file stays with a beginning of its content,
and with the permission bits that it had got by then.

Main definitions:

- `Refusals.Allows`: no call for a file of the given content is refused.
- `Refusals.Leaves`: what is left of a file that was created and not completed.
- `FileStore.WritesNew`: what comes of writing a new file.

Main results:

- Theorem `Refusals.allows_or_leaves`: one of the three cases holds.
- Theorem `FileStore.writesNew`: what comes of writing a new file in any store.
-/

namespace TableFixture

namespace Refusals

/-- No call for a new file of the given content is refused. -/
structure Allows (r : Refusals) (content : List UInt8) : Prop where
  create : r.create = none
  setMode : r.setMode = none
  write : ∀ size e, r.write = some (size, e) → content.length ≤ size
  sync : r.sync = none

/-- The bytes and the permission bits of a file that was created and is left at a refusal. -/
inductive Leaves (r : Refusals) (mask mode : Nat) (content : List UInt8) :
    SystemError → List UInt8 → Nat → Prop where
  /-- The file is empty, and the mask has taken some of its permission bits. -/
  | unset {e : SystemError} : r.setMode = some e →
      Leaves r mask mode content e [] (mode - (mode &&& mask))
  /-- The file ends where writing was refused. -/
  | short {size : Nat} {e : SystemError} : r.setMode = none → r.write = some (size, e) →
      size < content.length → Leaves r mask mode content e (content.take size) mode
  /-- The file is complete, but was not brought to the disk. -/
  | unsynced {e : SystemError} : r.setMode = none →
      (∀ size e, r.write = some (size, e) → content.length ≤ size) → r.sync = some e →
      Leaves r mask mode content e content mode

variable {r : Refusals} {mask mode mode' : Nat} {content bytes : List UInt8} {e : SystemError}

/-- Where nothing is refused every file can be written. -/
theorem allows_nothing (content : List UInt8) : Allows {} content :=
  ⟨rfl, rfl, nofun, rfl⟩

/-- Nothing is cut from bytes that end before writing is refused. -/
theorem cut?_eq_none_iff :
    r.cut? content = none ↔ ∀ size e, r.write = some (size, e) → content.length ≤ size := by
  unfold cut?
  cases hwrite : r.write with
  | none => simp
  | some refusal =>
      rcases refusal with ⟨size, e⟩
      simp

/-- Bytes are cut where writing is refused. -/
theorem cut?_eq_some_iff :
    r.cut? content = some (bytes, e) ↔
      ∃ size, r.write = some (size, e) ∧ size < content.length ∧ bytes = content.take size := by
  unfold cut?
  cases hwrite : r.write with
  | none => simp
  | some refusal =>
      rcases refusal with ⟨size, e'⟩
      simp only [Option.ite_none_right_eq_some, Option.some.injEq, Prod.mk.injEq]
      constructor
      · rintro ⟨hsize, rfl, rfl⟩
        exact ⟨size, ⟨rfl, rfl⟩, hsize, rfl⟩
      · rintro ⟨_, ⟨rfl, rfl⟩, hsize, rfl⟩
        exact ⟨hsize, rfl, rfl⟩

/-- What is left of a file is a beginning of its content. -/
theorem Leaves.prefix_content (h : r.Leaves mask mode content e bytes mode') :
    bytes <+: content := by
  cases h with
  | unset => exact List.nil_prefix
  | short => exact List.take_prefix _ _
  | unsynced => exact List.prefix_rfl

/-- A file is not created, or it is written completely, or something else is left of it. -/
theorem allows_or_leaves (r : Refusals) (mask mode : Nat) (content : List UInt8) :
    (∃ e, r.create = some e) ∨ r.Allows content ∨
      r.create = none ∧ ∃ e bytes mode', r.Leaves mask mode content e bytes mode' := by
  cases hcreate : r.create with
  | some e => exact .inl ⟨e, rfl⟩
  | none =>
      right
      cases hmode : r.setMode with
      | some e => exact .inr ⟨rfl, e, _, _, .unset hmode⟩
      | none =>
          cases hcut : r.cut? content with
          | some cut =>
              rcases cut?_eq_some_iff.1 hcut with ⟨size, hwrite, hsize, -⟩
              exact .inr ⟨rfl, cut.2, _, _, .short hmode hwrite hsize⟩
          | none =>
              have hwrite := cut?_eq_none_iff.1 hcut
              cases hsync : r.sync with
              | some e => exact .inr ⟨rfl, e, _, _, .unsynced hmode hwrite hsync⟩
              | none => exact .inl ⟨hcreate, hmode, hwrite, hsync⟩

end Refusals

namespace FileStore

/-- What comes of writing a new file, with the store that is left. -/
inductive WritesNew (s : FileStore) (r : Refusals) (path : String) (mode : Nat)
    (content : List UInt8) : Except SystemError Unit × FileStore → Prop where
  /-- The file is not created, by its path or by the system. -/
  | notCreated {e : SystemError} : (s.createNew path mode = .error e ∨ r.create = some e) →
      WritesNew s r path mode content (.error e, s)
  /-- The file stands where nothing stood and is complete. -/
  | written {l : Location} : s.locateNew path = .ok l → Path.endsInSlash path = false →
      r.Allows content → WritesNew s r path mode content (.ok (), s.put l (.file content mode))
  /-- The file stands where nothing stood and is left at a refusal. -/
  | unfinished {l : Location} {e : SystemError} {bytes : List UInt8} {mode' : Nat} :
      s.locateNew path = .ok l → Path.endsInSlash path = false → r.create = none →
      r.Leaves s.mask mode content e bytes mode' →
      WritesNew s r path mode content (.error e, s.put l (.file bytes mode'))

variable {s : FileStore} {r : Refusals} {path : String} {mode mode' : Nat}
  {content bytes : List UInt8} {e : SystemError} {l : Location}

theorem createNew_of_locateNew (hlocate : s.locateNew path = .ok l)
    (hslash : Path.endsInSlash path = false) (mode : Nat) :
    s.createNew path mode = .ok (l, s.put l (.file [] (mode - (mode &&& s.mask)))) :=
  createNew_eq_ok_iff.2 ⟨hlocate, hslash, rfl⟩

/-- A file that the system does not create changes nothing. -/
theorem writeNew_of_create (hlocate : s.locateNew path = .ok l)
    (hslash : Path.endsInSlash path = false) (h : r.create = some e) (mode : Nat)
    (content : List UInt8) : s.writeNew r path mode content = (.error e, s) := by
  simp [writeNew, openNew, createNew_of_locateNew hlocate hslash, h]

/-- What is written to a file that was created and has got its permission bits. -/
theorem writeNew_of_setMode (hlocate : s.locateNew path = .ok l)
    (hslash : Path.endsInSlash path = false) (hcreate : r.create = none)
    (hmode : r.setMode = none) :
    s.writeNew r path mode content
      = ((s.put l (.file [] (mode - (mode &&& s.mask)))).setMode l mode).appendAll r l content := by
  simp [writeNew, openNew, createNew_of_locateNew hlocate hslash, hcreate, hmode]

/-- A file of which no call is refused holds its content. -/
theorem writeNew_of_allows (hlocate : s.locateNew path = .ok l)
    (hslash : Path.endsInSlash path = false) (h : r.Allows content) :
    s.writeNew r path mode content = (.ok (), s.put l (.file content mode)) := by
  have hne : l ≠ [] := ne_nil_of_ne_directory (by rw [node?_of_locateNew hlocate]; simp)
  rw [writeNew_of_setMode hlocate hslash h.create h.setMode, appendAll,
    Refusals.cut?_eq_none_iff.2 h.write]
  simp [h.sync, append_setMode_put hne]

/-- A file that was created and not completed stays as it is left. -/
theorem writeNew_of_leaves (hlocate : s.locateNew path = .ok l)
    (hslash : Path.endsInSlash path = false) (hcreate : r.create = none)
    (h : r.Leaves s.mask mode content e bytes mode') :
    s.writeNew r path mode content = (.error e, s.put l (.file bytes mode')) := by
  have hne : l ≠ [] := ne_nil_of_ne_directory (by rw [node?_of_locateNew hlocate]; simp)
  cases h with
  | unset hmode =>
      simp [writeNew, openNew, createNew_of_locateNew hlocate hslash, hcreate, hmode]
  | short hmode hwrite hsize =>
      rw [writeNew_of_setMode hlocate hslash hcreate hmode, appendAll,
        Refusals.cut?_eq_some_iff.2 ⟨_, hwrite, hsize, rfl⟩]
      simp [append_setMode_put hne]
  | unsynced hmode hwrite hsync =>
      rw [writeNew_of_setMode hlocate hslash hcreate hmode, appendAll,
        Refusals.cut?_eq_none_iff.2 hwrite]
      simp [hsync, append_setMode_put hne]

/-- What comes of writing a new file. -/
theorem writesNew (s : FileStore) (r : Refusals) (path : String) (mode : Nat)
    (content : List UInt8) :
    WritesNew s r path mode content (s.writeNew r path mode content) := by
  cases hnew : s.createNew path mode with
  | error e =>
      rw [writeNew_of_createNew_error hnew]
      exact .notCreated (.inl hnew)
  | ok created =>
      rcases createNew_eq_ok hnew with ⟨hlocate, hslash, -⟩
      rcases r.allows_or_leaves s.mask mode content with
        ⟨e, hcreate⟩ | hallows | ⟨hcreate, e, bytes, mode', hleaves⟩
      · rw [writeNew_of_create hlocate hslash hcreate]
        exact .notCreated (.inr hcreate)
      · rw [writeNew_of_allows hlocate hslash hallows]
        exact .written hlocate hslash hallows
      · rw [writeNew_of_leaves hlocate hslash hcreate hleaves]
        exact .unfinished hlocate hslash hcreate hleaves

end FileStore

end TableFixture
