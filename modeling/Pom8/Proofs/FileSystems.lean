import Mathlib.Tactic.Common
import Pom8.CommandLine.FileSystem
import Pom8.Listing

/-!
# What file systems keep

A file system may hold more than files, and its paths may lead anywhere.  What is
asked of it here concerns the files that it keeps: a file that is created starts out
empty, text that is added to it goes to its end and nowhere else, and no other file
changes.  From this follows what lines leave that are written one by one, whether all
of them are taken or a fault stops them.
-/

namespace Pom8.CommandLine

/-- A file system that keeps files. -/
class FileStore (Disk : Type) [FileSystem Disk] where
  /-- The files themselves, whatever paths lead to them. -/
  Node : Type
  /-- What a file holds, as long as it exists. -/
  content : Disk → Node → Option ByteArray
  /-- The file that a path leads to.  There is none if the path leads to nothing, to a
  directory or to a device. -/
  locate : Disk → String → Option Node
  /-- A path that leads to a device, which keeps nothing of what is written to it. -/
  IsDevice : Disk → String → Prop
  /-- The file that is open, unless a device is. -/
  opened : FileSystem.Handle Disk → Option Node
  content_of_read {disk : Disk} {path : String} {file : Node} {bytes : ByteArray} :
    locate disk path = some file → FileSystem.read disk path = .ok bytes →
      content disk file = some bytes
  locate_create {disk created : Disk} {path : String} {handle : FileSystem.Handle Disk} :
    FileSystem.create disk path = .ok (handle, created) →
      locate created path = opened handle
  isSome_opened {disk created : Disk} {path : String}
    {handle : FileSystem.Handle Disk} :
    FileSystem.create disk path = .ok (handle, created) →
      ¬IsDevice disk path → (opened handle).isSome
  /-- A file that exists is opened and not replaced by another one. -/
  opened_of_locate {disk created : Disk} {path : String}
    {handle : FileSystem.Handle Disk} {file : Node} :
    FileSystem.create disk path = .ok (handle, created) →
      locate disk path = some file → opened handle = some file
  content_create {disk created : Disk} {path : String}
    {handle : FileSystem.Handle Disk} {file : Node} :
    FileSystem.create disk path = .ok (handle, created) →
      opened handle = some file → content created file = some .empty
  content_create_of_ne {disk created : Disk} {path : String}
    {handle : FileSystem.Handle Disk} {file : Node} :
    FileSystem.create disk path = .ok (handle, created) →
      opened handle ≠ some file → content created file = content disk file
  locate_append (handle : FileSystem.Handle Disk) (text : String) (disk : Disk)
    (path : String) :
    locate (FileSystem.append handle text disk).2 path = locate disk path
  /-- A beginning of the text is added, and all of it unless there is a fault. -/
  content_append {handle : FileSystem.Handle Disk} {file : Node} {disk : Disk}
    {bytes : ByteArray} (text : String) :
    opened handle = some file → content disk file = some bytes →
      ∃ added rest, text.toUTF8 = added ++ rest ∧
        content (FileSystem.append handle text disk).2 file = some (bytes ++ added) ∧
          ((FileSystem.append handle text disk).1 = none → rest = .empty)
  content_append_of_ne {handle : FileSystem.Handle Disk} {file : Node}
    (text : String) (disk : Disk) :
    opened handle ≠ some file →
      content (FileSystem.append handle text disk).2 file = content disk file

namespace FileSystem

variable {Disk : Type} [FileSystem Disk] {disk created : Disk} {handle : Handle Disk}
  {path : String}

/-! ## Texts -/

/-- A text can be read at a path. -/
def Holds (disk : Disk) (path text : String) : Prop :=
  read disk path = .ok text.toUTF8

theorem fromUTF8?_eq_some_iff {content : ByteArray} {text : String} :
    String.fromUTF8? content = some text ↔ content = text.toUTF8 := by
  unfold String.fromUTF8?
  split
  next hvalid =>
    rw [Option.some.injEq, ← String.toByteArray_inj]
    rfl
  next hinvalid =>
    constructor
    · rintro ⟨⟩
    · rintro rfl
      exact absurd text.isValidUTF8 hinvalid

theorem readText_eq_ok_iff {text : String} :
    readText disk path = .ok text ↔ Holds disk path text := by
  unfold Holds
  rcases hcontent : read disk path with fault | content
  · simp [readText, hcontent, bind, Except.bind]
  · rw [Except.ok.injEq, ← fromUTF8?_eq_some_iff]
    rcases htext : String.fromUTF8? content with _ | other
    · simp [readText, hcontent, bind, Except.bind, htext]
    · simp [readText, hcontent, bind, Except.bind, htext]

/-! ## Lines that are all taken -/

/-- An open file takes lines, one by one, and is completed. -/
inductive Takes (handle : Handle Disk) : List String → Disk → Prop
  | nil {disk : Disk} : flush handle disk = none → Takes handle [] disk
  | cons {line : String} {rest : List String} {disk next : Disk} :
      append handle (line ++ "\n") disk = (none, next) →
        Takes handle rest next → Takes handle (line :: rest) disk

theorem appendLines_eq_none_iff {lines : List String} :
    (appendLines handle lines disk).1 = none ↔ Takes handle lines disk := by
  induction lines generalizing disk with
  | nil =>
      constructor
      · exact .nil
      · rintro ⟨hflush⟩
        exact hflush
  | cons line rest ih =>
      rw [appendLines]
      constructor
      · intro h
        split at h
        next => cases h
        next next happend => exact .cons happend (ih.mp h)
      · rintro (_ | ⟨happend, hrest⟩)
        rw [show Source.lineBreak = "\n" from rfl, happend]
        exact ih.mpr hrest

theorem writeLines_of_create
    (hcreate : create disk path = .ok (handle, created)) (lines : List String) :
    writeLines disk path lines = appendLines handle lines created := by
  rw [writeLines, hcreate]

/-! ## What lines leave behind -/

/-- What one text leaves as it was is left so by any number of lines. -/
theorem appendLines_keeps
    {α : Type} (view : Disk → α)
    (hview : ∀ text disk, view (append handle text disk).2 = view disk)
    (lines : List String) : view (appendLines handle lines disk).2 = view disk := by
  induction lines generalizing disk with
  | nil => rfl
  | cons line rest ih =>
      have hline := hview (line ++ Source.lineBreak) disk
      rw [appendLines]
      split
      next fault next happend => rwa [happend] at hline
      next next happend =>
        rw [happend] at hline
        rw [ih, hline]

open FileStore

variable [FileStore Disk] {file : Node Disk}

/-- Lines are added up to a fault, and so as a beginning of their text. -/
theorem content_appendLines
    {bytes : ByteArray} (hfile : opened handle = some file)
    (hbytes : content disk file = some bytes) (lines : List String) :
    ∃ added rest, (joinLines lines).toUTF8 = added ++ rest ∧
      content (appendLines handle lines disk).2 file = some (bytes ++ added) ∧
        ((appendLines handle lines disk).1 = none → rest = .empty) := by
  induction lines generalizing disk bytes with
  | nil => exact ⟨.empty, .empty, rfl, by simpa [appendLines] using hbytes, fun _ => rfl⟩
  | cons line others ih =>
      obtain ⟨added, rest, htext, hcontent, hall⟩ :=
        content_append (line ++ Source.lineBreak) hfile hbytes
      have hjoin : (joinLines (line :: others)).toUTF8 =
          added ++ rest ++ (joinLines others).toUTF8 := by
        rw [← htext]
        simp [joinLines]
      rw [hjoin, appendLines]
      split
      next fault next happend =>
        rw [happend] at hcontent
        exact ⟨added, rest ++ (joinLines others).toUTF8, ByteArray.append_assoc,
          hcontent, by rintro ⟨⟩⟩
      next next happend =>
        rw [happend] at hcontent hall
        obtain ⟨added', rest', htext', hcontent', hall'⟩ := ih hcontent
        refine ⟨added ++ added', rest', ?_, ?_, hall'⟩
        · rw [hall rfl, htext', ByteArray.append_empty, ByteArray.append_assoc]
        · rw [hcontent', ByteArray.append_assoc]

variable (hcreate : create disk path = .ok (handle, created)) (lines : List String)

include hcreate

theorem locate_writeLines :
    locate (writeLines disk path lines).2 path = opened handle := by
  rw [writeLines_of_create hcreate, ← locate_create hcreate]
  exact appendLines_keeps (locate · path)
    (fun text disk => locate_append handle text disk path) lines

theorem content_writeLines_of_ne (hfile : opened handle ≠ some file) :
    content (writeLines disk path lines).2 file = content disk file := by
  rw [writeLines_of_create hcreate, ← content_create_of_ne hcreate hfile]
  exact appendLines_keeps (content · file)
    (fun text disk => content_append_of_ne text disk hfile) lines

/-- The file at a path to which lines are written holds a beginning of their text, and
all of it if it takes them. -/
theorem exists_content_writeLines (hdevice : ¬IsDevice disk path) :
    ∃ file added rest, locate (writeLines disk path lines).2 path = some file ∧
      content (writeLines disk path lines).2 file = some added ∧
        (joinLines lines).toUTF8 = added ++ rest ∧
          (Takes handle lines created → rest = .empty) := by
  obtain ⟨file, hfile⟩ := Option.isSome_iff_exists.mp (isSome_opened hcreate hdevice)
  obtain ⟨added, rest, htext, hcontent, hall⟩ :=
    content_appendLines hfile (content_create hcreate hfile) lines
  rw [ByteArray.empty_append, ← writeLines_of_create hcreate] at hcontent
  exact ⟨file, added, rest, (locate_writeLines hcreate lines).trans hfile, hcontent,
    htext, fun h => hall (appendLines_eq_none_iff.mpr h)⟩

end FileSystem
end Pom8.CommandLine
