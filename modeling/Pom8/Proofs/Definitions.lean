import Mathlib.Data.List.Dedup
import Pom8.Proofs.CaseFolding

/-!
# Tables and the definitions that made them

Definitions are made one after the other on an empty table, and one that is
refused leaves the table as it is.  What the table says about a name is then
what the first definition of it said, in whatever case the name was written.
-/

namespace Pom8

instance (first second : String) : Decidable (Text.SameLetters first second) :=
  decidable_of_iff _ Text.sameLetters_iff.symm

namespace SymbolTable

/-- The table after one more definition; a refused one leaves it as it is. -/
def attempt (table : SymbolTable) (call : Symbol) : SymbolTable :=
  match table.define call.name call.address call.line with
  | .ok next => next
  | .error _ => table

/-- The table that some definitions, made in order, leave of an empty one. -/
def after (calls : List Symbol) : SymbolTable :=
  calls.foldl attempt empty

/-- The first definition of a name, which may be written in any case. -/
def earliest? (calls : List Symbol) (name : String) : Option Symbol :=
  calls.find? fun call => Text.SameLetters call.name name

/-! ## One definition -/

section Attempt

variable {table : SymbolTable} {call first : Symbol} {name : String}

theorem attempt_of_find?_eq_some (h : table.find? call.name = some first) :
    table.attempt call = table := by
  rw [attempt, define_eq_error h]

theorem entries_attempt_of_find?_eq_none (h : table.find? call.name = none) :
    (table.attempt call).entries =
      table.entries ++ [⟨Text.lower call.name, call.address, call.line⟩] := by
  obtain ⟨next, hnext⟩ :=
    exists_define_eq_ok (find?_eq_none_iff.mp h) call.address call.line
  rw [attempt, hnext]
  exact (define_eq_ok_iff.mp hnext).2

theorem find?_congr (h : Text.SameLetters call.name name) :
    table.find? name = table.find? call.name := by
  rw [find?, find?, Text.sameLetters_iff.mp h]

theorem find?_attempt_of_find?_eq_none (h : table.find? call.name = none) :
    (table.attempt call).find? name =
      (table.find? name).or
        (if Text.SameLetters call.name name then
          some ⟨Text.lower name, call.address, call.line⟩ else none) := by
  rw [find?, entries_attempt_of_find?_eq_none h, List.find?_append, ← find?]
  congr 1
  by_cases hsame : Text.SameLetters call.name name
  · have hlower := Text.sameLetters_iff.mp hsame
    simp [hsame, hlower]
  · have hlower := mt Text.sameLetters_iff.mpr hsame
    simp [hsame, hlower]

/-- A definition is found under its name, unless the table had the name. -/
theorem find?_attempt (table : SymbolTable) (call : Symbol) (name : String) :
    (table.attempt call).find? name =
      (table.find? name).or
        (if Text.SameLetters call.name name then
          some ⟨Text.lower name, call.address, call.line⟩ else none) := by
  cases hfind : table.find? call.name with
  | none => exact find?_attempt_of_find?_eq_none hfind
  | some first =>
      rw [attempt_of_find?_eq_some hfind]
      by_cases hsame : Text.SameLetters call.name name
      · rw [find?_congr hsame, hfind, Option.some_or]
      · rw [if_neg hsame, Option.or_none]

theorem mem_names_attempt_iff :
    name ∈ (table.attempt call).entries.map Symbol.name ↔
      name ∈ table.entries.map Symbol.name ∨ name = Text.lower call.name := by
  cases hfind : table.find? call.name with
  | some first =>
      have hmem : Text.lower call.name ∈ table.entries.map Symbol.name := by
        by_contra hnew
        rw [find?_eq_none_iff.mpr hnew] at hfind
        cases hfind
      rw [attempt_of_find?_eq_some hfind, or_iff_left_of_imp]
      rintro rfl
      exact hmem
  | none => simp [entries_attempt_of_find?_eq_none hfind]

end Attempt

/-! ## Definitions in a row -/

theorem find?_foldl_attempt
    (table : SymbolTable) (calls : List Symbol) (name : String) :
    (calls.foldl attempt table).find? name =
      (table.find? name).or ((earliest? calls name).map fun first =>
        ⟨Text.lower name, first.address, first.line⟩) := by
  induction calls generalizing table with
  | nil => rw [List.foldl_nil, earliest?, List.find?_nil, Option.map_none, Option.or_none]
  | cons call rest ih =>
      rw [List.foldl_cons, ih, find?_attempt, Option.or_assoc]
      congr 1
      by_cases hsame : Text.SameLetters call.name name
      · simp [earliest?, hsame]
      · simp [earliest?, hsame]

theorem mem_names_foldl_attempt_iff
    {table : SymbolTable} {calls : List Symbol} {name : String} :
    name ∈ (calls.foldl attempt table).entries.map Symbol.name ↔
      name ∈ table.entries.map Symbol.name ∨
        name ∈ calls.map fun call => Text.lower call.name := by
  induction calls generalizing table with
  | nil => simp
  | cons call rest ih =>
      rw [List.foldl_cons, ih, mem_names_attempt_iff, List.map_cons, List.mem_cons,
        or_assoc]

theorem find?_after (calls : List Symbol) (name : String) :
    (after calls).find? name =
      (earliest? calls name).map fun first =>
        ⟨Text.lower name, first.address, first.line⟩ := by
  rw [after, find?_foldl_attempt]
  exact Option.none_or

theorem after_concat (calls : List Symbol) (call : Symbol) :
    after (calls ++ [call]) = (after calls).attempt call := by
  rw [after, List.foldl_append]
  rfl

/-- A table has one symbol for each name that was defined. -/
theorem size_after (calls : List Symbol) :
    (after calls).size =
      (calls.map fun call => Text.lower call.name).dedup.length := by
  have hperm : ((after calls).entries.map Symbol.name).Perm
      (calls.map fun call => Text.lower call.name).dedup := by
    rw [List.perm_ext_iff_of_nodup (after calls).names_nodup (List.nodup_dedup _)]
    intro name
    rw [List.mem_dedup, after, mem_names_foldl_attempt_iff]
    simp [empty]
  rw [← hperm.length_eq, List.length_map, size]

theorem earliest?_isSome_iff {calls : List Symbol} {name : String} :
    (earliest? calls name).isSome = true ↔
      ∃ call ∈ calls, Text.SameLetters call.name name := by
  simp [earliest?, List.find?_isSome]

theorem isEmpty_after_iff {calls : List Symbol} :
    (after calls).isEmpty = true ↔ calls = [] := by
  rw [isEmpty, List.isEmpty_iff_length_eq_zero, ← size, size_after,
    List.length_eq_zero_iff, List.dedup_eq_nil, List.map_eq_nil_iff]

/-- A name that was defined is refused, with the line of its first definition. -/
theorem define_after_of_earliest?_eq_some
    {calls : List Symbol} {call first : Symbol}
    (h : earliest? calls call.name = some first) :
    (after calls).define call.name call.address call.line =
      .error (.duplicateLabel call.line call.name first.line) := by
  have hfind := find?_after calls call.name
  rw [h, Option.map_some] at hfind
  exact define_eq_error hfind call.address call.line

theorem exists_define_after_of_earliest?_eq_none
    {calls : List Symbol} {call : Symbol}
    (h : earliest? calls call.name = none) :
    ∃ next, (after calls).define call.name call.address call.line = .ok next := by
  have hfind := find?_after calls call.name
  rw [h, Option.map_none] at hfind
  exact exists_define_eq_ok (find?_eq_none_iff.mp hfind) call.address call.line

/-- The first definition of a name wins, whatever the case of its letters.  A
further definition is refused if and only if its name was defined before; the
fault then gives its own line and spelling and the line of the first definition,
and the table stays as it was.  Every name is found as it was first defined, and
there is one symbol for each name in lower case. -/
theorem first_definition_of_name_wins (calls : List Symbol) :
    (∀ call : Symbol,
      ((∃ fault, (after calls).define call.name call.address call.line =
          .error fault) ↔
        ∃ earlier ∈ calls, Text.SameLetters earlier.name call.name) ∧
      (∀ fault, (after calls).define call.name call.address call.line =
          .error fault →
        (∃ first, earliest? calls call.name = some first ∧
          fault = .duplicateLabel call.line call.name first.line) ∧
        after (calls ++ [call]) = after calls) ∧
      (∀ next, (after calls).define call.name call.address call.line = .ok next →
        after (calls ++ [call]) = next)) ∧
    (∀ name : String,
      (after calls).find? name =
        (earliest? calls name).map (fun first =>
          ⟨Text.lower name, first.address, first.line⟩) ∧
      (after calls).address? name = (earliest? calls name).map Symbol.address ∧
      (after calls).contains name = (earliest? calls name).isSome) ∧
    (after calls).size =
      (calls.map fun call => Text.lower call.name).dedup.length ∧
    ((after calls).isEmpty = true ↔ calls = []) := by
  refine ⟨?_, ?_, size_after calls, isEmpty_after_iff⟩
  · intro call
    rw [← earliest?_isSome_iff, after_concat, attempt]
    cases hearliest : earliest? calls call.name with
    | some first =>
        have hrefused := define_after_of_earliest?_eq_some hearliest
        rw [hrefused]
        refine ⟨⟨fun _ => rfl, fun _ => ⟨_, rfl⟩⟩, ?_, ?_⟩
        · intro fault hfault
          exact ⟨⟨first, rfl, (Except.error.inj hfault).symm⟩, rfl⟩
        · intro next hnext
          cases hnext
    | none =>
        obtain ⟨next, hnext⟩ := exists_define_after_of_earliest?_eq_none hearliest
        rw [hnext]
        refine ⟨⟨?_, ?_⟩, ?_, ?_⟩
        · rintro ⟨fault, hfault⟩
          cases hfault
        · intro hsome
          cases hsome
        · intro fault hfault
          cases hfault
        · intro other hother
          exact Except.ok.inj hother
  · intro name
    rw [address?, contains, find?_after]
    refine ⟨rfl, ?_, ?_⟩
    · rw [Option.map_map]
      rfl
    · exact Option.isSome_map

end SymbolTable

end Pom8
