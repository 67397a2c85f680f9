import Mathlib.Data.Prod.Lex
import Mathlib.Data.String.Basic
import Pom8.Proofs.Scanning

/-!
# The order of symbols in listings

Listings give symbols by address and, where addresses agree, by the code points
of their names.  The names of a table are distinct, so no two of its symbols
share a place in this order.  A table therefore has one listing, whatever the
order in which its symbols were defined or are stored.
-/

namespace Pom8

namespace Text

/-- The code points of a text. -/
def codePoints (text : String) : List Nat :=
  text.toList.map Char.toNat

theorem codePoints_strictMono : StrictMono codePoints := by
  intro first second hlt
  refine List.map_lt ?_ (String.lt_iff_toList_lt.mp hlt)
  intro c d hcd
  exact UInt32.lt_iff_toNat_lt.mp hcd

end Text

namespace Symbol

/-- A symbol comes before another in listings if its address is lower, or if the
addresses agree and the code points of its name come first. -/
def Before (first second : Symbol) : Prop :=
  first.address < second.address ∨
    first.address = second.address ∧
      Text.codePoints first.name < Text.codePoints second.name

instance (first second : Symbol) : Decidable (first.Before second) :=
  inferInstanceAs (Decidable (_ ∨ _ ∧ _))

/-- The place of a symbol in listings. -/
def place (symbol : Symbol) : ℕ ×ₗ List ℕ :=
  toLex (symbol.address, Text.codePoints symbol.name)

section Place

variable {first second : Symbol}

theorem before_iff_place_lt : first.Before second ↔ first.place < second.place := by
  rw [Prod.Lex.lt_iff]
  rfl

theorem le_iff_place_le : first.le second = true ↔ first.place ≤ second.place := by
  rw [Prod.Lex.le_iff]
  simp only [le, Bool.or_eq_true, Bool.and_eq_true, decide_eq_true_eq, beq_iff_eq]
  rw [← Text.codePoints_strictMono.le_iff_le]
  rfl

theorem name_eq_of_place_eq (h : first.place = second.place) :
    first.name = second.name := by
  have hpair := Prod.ext_iff.mp (toLex.injective h)
  exact Text.codePoints_strictMono.injective hpair.2

end Place

/-- Symbols with distinct names are sorted strictly. -/
theorem pairwise_before_mergeSort
    {symbols : List Symbol} (hnames : (symbols.map name).Nodup) :
    (symbols.mergeSort le).Pairwise Before := by
  have hsorted : (symbols.mergeSort le).Pairwise fun first second =>
      first.le second = true := by
    apply List.pairwise_mergeSort
    · intro first second third
      simp only [le_iff_place_le]
      exact le_trans
    · intro first second
      rw [Bool.or_eq_true, le_iff_place_le, le_iff_place_le]
      exact le_total first.place second.place
  have hdistinct : ((symbols.mergeSort le).map name).Nodup :=
    ((List.mergeSort_perm symbols le).map name).nodup_iff.mpr hnames
  -- The sort itself lets neighbours share a place; their names do not.
  refine hsorted.imp₂ ?_ (List.pairwise_map.mp hdistinct)
  intro first second hle hne
  rw [before_iff_place_lt]
  exact lt_of_le_of_ne (le_iff_place_le.mp hle) (mt name_eq_of_place_eq hne)

/-- There is one way to put symbols in the order of listings. -/
theorem eq_of_perm_of_pairwise_before
    {first second : List Symbol} (hperm : first.Perm second)
    (hfirst : first.Pairwise Before) (hsecond : second.Pairwise Before) :
    first = second := by
  refine hperm.eq_of_pairwise ?_ hfirst hsecond
  intro symbol other _ _ hbefore hafter
  rw [before_iff_place_lt] at hbefore hafter
  exact absurd hbefore hafter.asymm

end Symbol

namespace SymbolTable

theorem sorted_perm_entries (table : SymbolTable) :
    table.sorted.Perm table.entries :=
  List.mergeSort_perm _ _

theorem pairwise_before_sorted (table : SymbolTable) :
    table.sorted.Pairwise Symbol.Before :=
  Symbol.pairwise_before_mergeSort table.names_nodup

/-- A table is listed in one way, whatever the order of its symbols. -/
theorem sorted_eq_of_perm
    {table other : SymbolTable} (h : table.entries.Perm other.entries) :
    table.sorted = other.sorted := by
  refine Symbol.eq_of_perm_of_pairwise_before ?_ table.pairwise_before_sorted
    other.pairwise_before_sorted
  exact table.sorted_perm_entries.trans (h.trans other.sorted_perm_entries.symm)

/-! ## Definitions in a row -/

/-- Definitions succeed together if and only if a table can hold their symbols
after those that it had. -/
theorem foldlM_define_eq_ok_iff
    {start table : SymbolTable} {calls : List Symbol} :
    calls.foldlM (fun table symbol =>
        table.define symbol.name symbol.address symbol.line) start = .ok table ↔
      table.entries = start.entries ++ calls.map Symbol.lower := by
  induction calls generalizing start with
  | nil =>
      rw [List.foldlM_nil, List.map_nil, List.append_nil]
      constructor
      · intro h
        rw [← Except.ok.inj h]
      · intro h
        exact congrArg Except.ok (eq_of_entries_eq h.symm)
  | cons call rest ih =>
      rw [List.foldlM_cons]
      constructor
      · intro h
        cases hdefine : start.define call.name call.address call.line with
        | error fault =>
            rw [hdefine] at h
            cases h
        | ok next =>
            rw [hdefine] at h
            rw [ih.mp h, (define_eq_ok_iff.mp hdefine).2, List.append_assoc]
            rfl
      · intro h
        -- The names of `table` are distinct, so the first call finds its name unused.
        have hnew : Text.lower call.name ∉ start.entries.map Symbol.name := by
          have hnames := table.names_nodup
          rw [h, List.map_append, List.nodup_append] at hnames
          intro hmem
          exact hnames.2.2 _ hmem (Text.lower call.name) (by simp [Symbol.lower]) rfl
        obtain ⟨next, hnext⟩ := exists_define_eq_ok hnew call.address call.line
        rw [hnext]
        refine ih.mpr ?_
        rw [h, (define_eq_ok_iff.mp hnext).2, List.append_assoc]
        rfl

/-- A table of definitions holds the symbols that they define. -/
theorem ofList_eq_ok_iff {calls : List Symbol} {table : SymbolTable} :
    ofList calls = .ok table ↔ table.entries = calls.map Symbol.lower :=
  foldlM_define_eq_ok_iff

/-- Definitions that succeed in one order succeed in every other one. -/
theorem exists_ofList_of_perm
    {calls reordered : List Symbol} {table : SymbolTable}
    (hcalls : ofList calls = .ok table) (hperm : reordered.Perm calls) :
    ∃ other, ofList reordered = .ok other ∧
      other.entries.Perm table.entries := by
  have hentries : (reordered.map Symbol.lower).Perm table.entries := by
    rw [ofList_eq_ok_iff.mp hcalls]
    exact hperm.map Symbol.lower
  have hnames : ((reordered.map Symbol.lower).map Symbol.name).Nodup :=
    (hentries.map Symbol.name).nodup_iff.mpr table.names_nodup
  exact ⟨⟨reordered.map Symbol.lower, hnames⟩, ofList_eq_ok_iff.mpr rfl, hentries⟩

/-- A listing is canonical.  After definitions that all succeed it holds the
symbols of the table, which are those that were defined, each once and under its
name in lower case.  They stand in strictly increasing order by address and then
by the code points of the name, and no other arrangement of them does.  The
same definitions in any other order succeed too and give the same listing, as
does sorting the symbols from any order in which they may be stored. -/
theorem listing_is_canonical
    {calls : List Symbol} {table : SymbolTable} (hcalls : ofList calls = .ok table) :
    table.sorted.Perm table.entries ∧
    table.sorted.Perm (calls.map Symbol.lower) ∧
    (table.sorted.map Symbol.name).Nodup ∧
    table.sorted.Pairwise Symbol.Before ∧
    (∀ listing : List Symbol, listing.Perm table.entries →
      listing.Pairwise Symbol.Before → listing = table.sorted) ∧
    (∀ reordered : List Symbol, reordered.Perm calls →
      ∃ other, ofList reordered = .ok other ∧ other.sorted = table.sorted) ∧
    (∀ stored : List Symbol, stored.Perm table.entries →
      stored.mergeSort Symbol.le = table.sorted) := by
  have hperm := table.sorted_perm_entries
  refine ⟨hperm, ?_, ?_, table.pairwise_before_sorted, ?_, ?_, ?_⟩
  · rwa [← ofList_eq_ok_iff.mp hcalls]
  · exact (hperm.map Symbol.name).nodup_iff.mpr table.names_nodup
  · intro listing hlisting hordered
    exact Symbol.eq_of_perm_of_pairwise_before (hlisting.trans hperm.symm) hordered
      table.pairwise_before_sorted
  · intro reordered hreordered
    obtain ⟨other, hother, hentries⟩ := exists_ofList_of_perm hcalls hreordered
    exact ⟨other, hother, sorted_eq_of_perm hentries⟩
  · intro stored hstored
    have hnames : (stored.map Symbol.name).Nodup :=
      (hstored.map Symbol.name).nodup_iff.mpr table.names_nodup
    exact sorted_eq_of_perm (show (⟨stored, hnames⟩ : SymbolTable).entries.Perm _
      from hstored)

/-- Three labels, two of them at one address: they are listed by address and then
by name, whether they are defined in this order or the other way round. -/
theorem listing_is_canonical_tie :
    let calls : List Symbol := [⟨"B", 5, 7⟩, ⟨"a", 5, 6⟩, ⟨"First", 0, 1⟩]
    let listing : List Symbol := [⟨"first", 0, 1⟩, ⟨"a", 5, 6⟩, ⟨"b", 5, 7⟩]
    ∃ table, ofList calls = .ok table ∧ table.sorted = listing ∧
      ∃ other, ofList calls.reverse = .ok other ∧ other.sorted = listing := by
  intro calls listing
  have hentries : listing.Perm (calls.map Symbol.lower) := by decide +kernel
  have hnames : ((calls.map Symbol.lower).map Symbol.name).Nodup := by decide +kernel
  have htable : ofList calls = .ok ⟨calls.map Symbol.lower, hnames⟩ :=
    ofList_eq_ok_iff.mpr rfl
  obtain ⟨-, -, -, -, hunique, hreordered, -⟩ := listing_is_canonical htable
  have hlisting := hunique listing hentries (by decide +kernel)
  obtain ⟨other, hother, hsorted⟩ := hreordered calls.reverse calls.reverse_perm
  exact ⟨_, htable, hlisting.symm, other, hother, hsorted.trans hlisting.symm⟩

end SymbolTable
end Pom8
