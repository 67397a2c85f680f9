import Pom8.CommandLine.Files
import Pom8.Proofs.FileSystems

/-!
# Files in directories as a file system

Where a path leads depends on the directories, and these never change.  So a path
along which a file was created still leads to it, and what is added to one file is
seen in no other.
-/

namespace Pom8.CommandLine.Files

variable {files created : Files} {path : String} {location : Location} {file : File}

/-! ## Files in their places -/

theorem location_of_find? (h : files.find? location = some file) :
    file.location = location := by
  simpa using List.find?_some h

/-- A file that is put somewhere is found there, and all others as before. -/
theorem find?_put (file : File) :
    (files.put file).find? location =
      if location = file.location then some file else files.find? location := by
  unfold put
  split
  next hsome =>
    -- The file takes the place of the one that stood at its location.
    have hsame : (fun old : File => old.location == location) ∘
        (fun old => if old.location == file.location then file else old) =
          fun old => old.location == location := by
      funext old
      by_cases hold : old.location = file.location
      · simp [hold]
      · simp [hold]
    have hmap : (files.entries.map fun old =>
        if old.location == file.location then file else old).find?
          (fun old => old.location == location) =
          (files.find? location).map fun old =>
            if old.location == file.location then file else old := by
      rw [List.find?_map, hsame]
      rfl
    refine Eq.trans hmap ?_
    by_cases hlocation : location = file.location
    · obtain ⟨old, hold⟩ := Option.isSome_iff_exists.mp hsome
      rw [if_pos hlocation, hlocation, hold]
      simp [location_of_find? hold]
    · rw [if_neg hlocation]
      rcases hold : files.find? location with _ | old
      · rfl
      · simp [location_of_find? hold, hlocation]
  next hnone =>
    have happend : (files.entries ++ [file]).find?
        (fun old => old.location == location) =
          (files.find? location).or ([file].find? fun old => old.location == location) :=
      List.find?_append
    refine Eq.trans happend ?_
    by_cases hlocation : location = file.location
    · rw [Option.not_isSome_iff_eq_none] at hnone
      rw [if_pos hlocation, hlocation, hnone]
      simp
    · rw [if_neg hlocation]
      simp [Ne.symm hlocation]

@[simp] theorem directories_put (files : Files) (file : File) :
    (files.put file).directories = files.directories := by
  unfold put
  split
  next => rfl
  next => rfl

@[simp] theorem working_put (files : Files) (file : File) :
    (files.put file).working = files.working := by
  unfold put
  split
  next => rfl
  next => rfl

/-! ## Paths -/

/-- Files can make a difference to why a path cannot be walked, but not to where it
leads. -/
theorem walk_put_eq_ok_iff
    {directory : Directory} {names : List String} {target : Target} :
    (files.put file).walk directory names = .ok target ↔
      files.walk directory names = .ok target := by
  induction names generalizing directory with
  | nil => rfl
  | cons name rest ih =>
      rw [walk, walk, directories_put]
      split
      next => exact ih
      next =>
        split
        next => exact ih
        next =>
          split
          next => exact ih
          next =>
            split
            next => rfl
            next => simp

theorem locate_put_eq_ok_iff {target : Target} :
    (files.put file).locate path = .ok target ↔ files.locate path = .ok target := by
  unfold locate
  split
  next => rfl
  next =>
    split
    next => rfl
    next =>
      rw [start, working_put, walk_put_eq_ok_iff]
      rfl

/-- The file that a path leads to. -/
def fileAt? (files : Files) (path : String) : Option Location :=
  match files.locate path with
  | .ok (.entry location) =>
    if (files.find? location).isSome then some location else none
  | _ => none

theorem fileAt?_eq_some_iff :
    files.fileAt? path = some location ↔
      files.locate path = .ok (.entry location) ∧ (files.find? location).isSome := by
  unfold fileAt?
  rcases files.locate path with fault | directory | other
  · simp
  · simp
  · by_cases hfound : (files.find? other).isSome = true
    · simp only [if_pos hfound]
      grind
    · simp only [if_neg hfound]
      grind

theorem fileAt?_put :
    (files.put file).fileAt? path = some location ↔
      files.locate path = .ok (.entry location) ∧
        (location = file.location ∨ (files.find? location).isSome) := by
  rw [fileAt?_eq_some_iff, locate_put_eq_ok_iff, find?_put]
  by_cases hlocation : location = file.location
  · simp [hlocation]
  · simp [hlocation]

/-! ## Reading and writing -/

theorem find?_of_read
    {bytes : ByteArray} (hpath : files.fileAt? path = some location)
    (h : files.read path = .ok bytes) :
    (files.find? location).map File.content = some bytes := by
  obtain ⟨hlocate, hfound⟩ := fileAt?_eq_some_iff.mp hpath
  obtain ⟨file, hfile⟩ := Option.isSome_iff_exists.mp hfound
  rw [hfile]
  simp only [read, hlocate, bind, Except.bind, hfile] at h
  split at h
  next => cases h
  next =>
    split at h
    next => cases h
    next => rw [Option.map_some, Except.ok.inj h]

theorem eq_put_of_create
    (h : files.create path = .ok (location, created)) :
    files.locate path = .ok (.entry location) ∧
      created = files.put ⟨location, .empty⟩ := by
  rcases hlocate : files.locate path with fault | directory | other
  · simp [create, hlocate, bind, Except.bind] at h
  · simp [create, hlocate, bind, Except.bind] at h
  · simp only [create, hlocate, bind, Except.bind] at h
    split at h
    next => cases h
    next =>
      split at h
      next => cases h
      next =>
        obtain ⟨rfl, rfl⟩ := Prod.mk.inj (Except.ok.inj h)
        exact ⟨rfl, rfl⟩

/-- What fits of some bytes is a beginning of them. -/
theorem exists_eq_fitting_append (files : Files) (size : Nat) (bytes : ByteArray) :
    ∃ rest, bytes = files.fitting size bytes ++ rest := by
  unfold fitting
  rcases files.largest with _ | largest
  · exact ⟨.empty, ByteArray.append_empty.symm⟩
  · refine ⟨bytes.extract (largest - size) (max (largest - size) bytes.size), ?_⟩
    rw [ByteArray.extract_append_extract, Nat.zero_min,
      Nat.max_eq_right (Nat.le_max_left _ _), ByteArray.extract_zero_max_size]

theorem append_of_find?_eq_none
    (h : files.find? location = none) (text : String) :
    files.append location text = (some .missing, files) := by
  rw [append, h]

theorem append_of_find?_eq_some
    (h : files.find? location = some file) (text : String) :
    files.append location text =
      (if (files.fitting file.content.size text.toUTF8).size = text.utf8ByteSize then
          none
        else some .tooLarge,
      files.put ⟨location,
        file.content ++ files.fitting file.content.size text.toUTF8⟩) := by
  rw [append, h]

/-- Adding to a file leaves every path leading where it led. -/
theorem fileAt?_append (location : Location) (text : String) :
    (files.append location text).2.fileAt? path = files.fileAt? path := by
  rcases hfile : files.find? location with _ | file
  · rw [append_of_find?_eq_none hfile]
  · rw [append_of_find?_eq_some hfile]
    ext other
    rw [fileAt?_put, fileAt?_eq_some_iff]
    constructor
    · rintro ⟨hlocate, rfl | hfound⟩
      · exact ⟨hlocate, Option.isSome_iff_exists.mpr ⟨file, hfile⟩⟩
      · exact ⟨hlocate, hfound⟩
    · rintro ⟨hlocate, hfound⟩
      exact ⟨hlocate, Or.inr hfound⟩

theorem find?_append
    (h : files.find? location = some file) (text : String) :
    ∃ added rest, text.toUTF8 = added ++ rest ∧
      (files.append location text).2.find? location =
          some ⟨location, file.content ++ added⟩ ∧
        ((files.append location text).1 = none → rest = .empty) := by
  obtain ⟨rest, hrest⟩ := files.exists_eq_fitting_append file.content.size text.toUTF8
  rw [append_of_find?_eq_some h]
  refine ⟨_, rest, hrest, ?_, fun hall => ?_⟩
  · rw [find?_put, if_pos rfl]
  · dsimp only at hall
    split at hall
    next hfits =>
      have hsize : text.utf8ByteSize =
          (files.fitting file.content.size text.toUTF8).size + rest.size := by
        rw [← ByteArray.size_append, ← hrest]
        rfl
      rw [← ByteArray.size_eq_zero_iff]
      omega
    next => cases hall

theorem find?_append_of_ne
    {other : Location} (h : other ≠ location) (text : String) :
    (files.append location text).2.find? other = files.find? other := by
  rcases hfile : files.find? location with _ | file
  · rw [append_of_find?_eq_none hfile]
  · rw [append_of_find?_eq_some hfile]
    dsimp only
    rw [find?_put, if_neg h]

instance : FileStore Files where
  Node := Location
  content files location := (files.find? location).map File.content
  locate := fileAt?
  IsDevice _ _ := False
  opened := some
  content_of_read := find?_of_read
  locate_create h := by
    obtain ⟨hlocate, rfl⟩ := eq_put_of_create h
    exact fileAt?_put.mpr ⟨hlocate, Or.inl rfl⟩
  isSome_opened _ _ := rfl
  opened_of_locate h hpath := by
    have hlocate := (eq_put_of_create h).1
    rw [(fileAt?_eq_some_iff.mp hpath).1] at hlocate
    obtain ⟨⟩ := hlocate
    rfl
  content_create h hfile := by
    obtain ⟨-, rfl⟩ := eq_put_of_create h
    obtain ⟨⟩ := hfile
    rw [find?_put, if_pos rfl]
    rfl
  content_create_of_ne h hfile := by
    obtain ⟨-, rfl⟩ := eq_put_of_create h
    rw [find?_put, if_neg fun heq => hfile (congrArg some heq.symm)]
  locate_append location text files path := fileAt?_append location text
  content_append text hfile hbytes := by
    obtain ⟨⟩ := hfile
    obtain ⟨file, hfile, rfl⟩ := Option.map_eq_some_iff.mp hbytes
    obtain ⟨added, rest, htext, hfound, hall⟩ := find?_append hfile text
    exact ⟨added, rest, htext, congrArg (Option.map File.content) hfound, hall⟩
  content_append_of_ne text files hfile :=
    congrArg (Option.map File.content)
      (find?_append_of_ne (fun heq => hfile (congrArg some heq.symm)) text)

end Pom8.CommandLine.Files
