import Pom8.Proofs.Fields

/-!
# Registers that reach the word

A word is put together from fields, so two words of one mnemonic are equal
exactly when the fields that its format uses are.  Every register of a drafted
instruction has such a field, apart from the second register of a store.
-/

namespace Pom8

/-! ## Equal words -/

/-- Equal words that are put together alike have equal parts. -/
theorem Word.parts_eq_of_append_eq
    {v w : Nat} {high high' : BitVec v} {low low' : BitVec w}
    (h : high ++ low = high' ++ low') : high = high' ∧ low = low' := by
  constructor
  · rw [← @BitVec.extractLsb'_append_eq_left v w high low, h,
      BitVec.extractLsb'_append_eq_left]
  · rw [← @BitVec.extractLsb'_append_eq_right v w high low, h,
      BitVec.extractLsb'_append_eq_right]

namespace Instruction

section Words

variable {first second : Instruction}

/-- Equal words of register format have equal registers; of an indirect jump,
the first two. -/
theorem registerField_eq_of_registerWord_eq
    (hmnemonic : first.mnemonic = second.mnemonic)
    (hword : first.registerWord = second.registerWord) {position : Nat}
    (hposition : position < 3) (hijmp : first.mnemonic = .ijmp → position < 2) :
    first.registerField position = second.registerField position := by
  obtain ⟨hhigh, -⟩ := Word.parts_eq_of_append_eq (v := 26) (w := 6) hword
  obtain ⟨-, hregisters⟩ := Word.parts_eq_of_append_eq hhigh
  rw [← hmnemonic] at hregisters
  by_cases hjump : first.mnemonic = .ijmp
  · rw [if_pos hjump, if_pos hjump] at hregisters
    obtain ⟨hpair, hsecond⟩ := Word.parts_eq_of_append_eq (v := 8) (w := 4) hregisters
    obtain ⟨-, hfirst⟩ := Word.parts_eq_of_append_eq hpair
    match position, hijmp hjump with
    | 0, _ => exact hfirst
    | 1, _ => exact hsecond
  · rw [if_neg hjump, if_neg hjump] at hregisters
    obtain ⟨hpair, hthird⟩ := Word.parts_eq_of_append_eq (v := 8) (w := 4) hregisters
    obtain ⟨hfirst, hsecond⟩ := Word.parts_eq_of_append_eq hpair
    match position, hposition with
    | 0, _ => exact hfirst
    | 1, _ => exact hsecond
    | 2, _ => exact hthird

theorem immediateWord_eq_iff (hmnemonic : first.mnemonic = second.mnemonic) :
    first.immediateWord = second.immediateWord ↔
      first.registerField 0 = second.registerField 0 ∧
        (first.mnemonic.isStore = true ∨
          first.registerField 1 = second.registerField 1) ∧
          first.valueField = second.valueField := by
  constructor
  · intro hword
    obtain ⟨hhigh, hvalue⟩ := Word.parts_eq_of_append_eq (v := 22) (w := 10) hword
    obtain ⟨-, hregisters⟩ := Word.parts_eq_of_append_eq hhigh
    rw [← hmnemonic] at hregisters
    by_cases hstore : first.mnemonic.isStore = true
    · rw [if_pos hstore, if_pos hstore] at hregisters
      obtain ⟨-, hfirst⟩ := Word.parts_eq_of_append_eq (v := 4) (w := 4) hregisters
      exact ⟨hfirst, Or.inl hstore, hvalue⟩
    · rw [if_neg hstore, if_neg hstore] at hregisters
      obtain ⟨hfirst, hsecond⟩ :=
        Word.parts_eq_of_append_eq (v := 4) (w := 4) hregisters
      exact ⟨hfirst, Or.inr hsecond, hvalue⟩
  · rintro ⟨hfirst, hsecond, hvalue⟩
    rw [immediateWord, immediateWord, codeField, codeField, ← hmnemonic, hfirst, hvalue]
    rcases hsecond with hstore | hsecond
    · rw [if_pos hstore, if_pos hstore]
    · rw [hsecond]

end Words

/-! ## The positions of registers -/

variable {symbols : SymbolTable} {instruction : Instruction} {position index : Nat}

theorem Shaped.format_eq (h : Shaped symbols instruction) :
    instruction.format = instruction.mnemonic.format := by
  cases h <;> rfl

/-- Where the registers of an instruction can stand. -/
theorem Shaped.position_cases
    (h : Shaped symbols instruction)
    (hposition : instruction.operands[position]? = some (.register index)) :
    (instruction.format = .register ∧ position < 3 ∧
        (instruction.mnemonic = .ijmp → position < 2)) ∨
      (instruction.format = .immediate ∧ position < 2 ∧
        (instruction.mnemonic = .push → position = 0)) := by
  have hlt := (List.getElem?_eq_some_iff.mp hposition).1
  cases h with
  | bare => cases hposition
  | branch _ htarget =>
      obtain rfl := List.mem_singleton.mp (List.mem_of_getElem? hposition)
      cases htarget
  | stack hformat =>
      have hzero : position = 0 := Nat.lt_one_iff.mp hlt
      exact Or.inr ⟨hformat, by omega, fun _ => hzero⟩
  | immediate hformat =>
      have hzero : position = 0 := by
        match position, hlt with
        | 0, _ => rfl
        | 1, _ => cases hposition
      exact Or.inr ⟨hformat, by omega, fun _ => hzero⟩
  | longImmediate hformat hstack =>
      have hlt' : position < 2 := by
        match position, hlt with
        | 0, _ | 1, _ => decide
        | 2, _ => cases hposition
      refine Or.inr ⟨hformat, hlt', ?_⟩
      rintro rfl
      exact absurd (by decide) hstack
  | twoRegisters hformat =>
      exact Or.inl ⟨hformat, Nat.lt_succ_of_lt hlt, fun _ => hlt⟩
  | threeRegisters hformat htwo =>
      refine Or.inl ⟨hformat, hlt, ?_⟩
      rintro rfl
      exact absurd (by decide) htwo

/-- An instruction with a register has one in front. -/
theorem Shaped.exists_first_register
    (h : Shaped symbols instruction)
    (hposition : instruction.operands[position]? = some (.register index)) :
    ∃ first, instruction.operands[0]? = some (.register first) := by
  cases h with
  | bare => cases hposition
  | branch _ htarget =>
      obtain rfl := List.mem_singleton.mp (List.mem_of_getElem? hposition)
      exact ⟨_, rfl⟩
  | stack | immediate | longImmediate | twoRegisters | threeRegisters =>
      exact ⟨_, rfl⟩

theorem Shaped.registerField_eq_iff
    {other : Instruction} {index' : Nat}
    (h : Shaped symbols instruction) (h' : Shaped symbols other)
    (hposition : instruction.operands[position]? = some (.register index))
    (hposition' : other.operands[position]? = some (.register index')) :
    instruction.registerField position = other.registerField position ↔
      index = index' := by
  rw [BitVec.toNat_inj.symm, (h.registersFit _ _ hposition).2,
    (h'.registersFit _ _ hposition').2]

theorem isStore_iff {mnemonic : Mnemonic} :
    mnemonic.isStore = true ↔ mnemonic = .sta ∨ mnemonic = .push := by
  cases mnemonic <;> decide

end Instruction

theorem Draft.shaped_of_mem
    {symbols : SymbolTable} {tokens : List Token} {draft : Draft}
    (hdraft : ofTokens symbols tokens = .running draft)
    {instruction : Instruction} (hmem : instruction ∈ draft.instructions.toList) :
    instruction.Shaped symbols := by
  obtain ⟨body, hwritten⟩ := exists_written_of_mem hdraft hmem
  exact hwritten.shaped

/-- Two drafted instructions of one mnemonic that differ in a register have
different words, unless it is the second register of a store: that one has no
field, so the words differ exactly when the first registers or the fields of
the literals do. -/
theorem register_lost_iff_second_of_store
    {symbols : SymbolTable} {tokens tokens' : List Token} {draft draft' : Draft}
    {first second : Instruction} {position index index' : Nat}
    (hdraft : Draft.ofTokens symbols tokens = .running draft)
    (hdraft' : Draft.ofTokens symbols tokens' = .running draft')
    (hfirst : first ∈ draft.instructions.toList)
    (hsecond : second ∈ draft'.instructions.toList)
    (hmnemonic : first.mnemonic = second.mnemonic)
    (hposition : first.operands[position]? = some (.register index))
    (hposition' : second.operands[position]? = some (.register index'))
    (hne : index ≠ index') :
    first.encode symbols = second.encode symbols ↔
      first.mnemonic = .sta ∧ position = 1 ∧
        first.operands[0]? = second.operands[0]? ∧
          first.valueField = second.valueField := by
  have hshaped := Draft.shaped_of_mem hdraft hfirst
  have hshaped' := Draft.shaped_of_mem hdraft' hsecond
  have hfield : first.registerField position ≠ second.registerField position :=
    mt (hshaped.registerField_eq_iff hshaped' hposition hposition').mp hne
  have hformats : second.format = first.format := by
    rw [hshaped.format_eq, hshaped'.format_eq, hmnemonic]
  rcases hshaped.position_cases hposition with
    ⟨hformat, hlt, hijmp⟩ | ⟨hformat, hlt, hpush⟩
  · -- In register format every register has a field, so the words differ.
    rw [Instruction.encode, Instruction.encode, hformats, hformat]
    constructor
    · intro hword
      exact absurd (Instruction.registerField_eq_of_registerWord_eq hmnemonic hword
        hlt hijmp) hfield
    · rintro ⟨hsta, -⟩
      rw [hshaped.format_eq, hsta] at hformat
      cases hformat
  · -- In immediate format a store has a field for its first register only.
    rw [Instruction.encode, Instruction.encode, hformats, hformat]
    change first.immediateWord = second.immediateWord ↔ _
    rw [Instruction.immediateWord_eq_iff hmnemonic]
    constructor
    · rintro ⟨hzero, hone, hvalue⟩
      have hposition_ne : position ≠ 0 := by
        rintro rfl
        exact hfield hzero
      obtain rfl : position = 1 := by omega
      have hsta : first.mnemonic = .sta := by
        rcases Instruction.isStore_iff.mp (hone.resolve_right hfield) with h | h
        · exact h
        · exact absurd (hpush h) (by decide)
      obtain ⟨front, hfront⟩ := hshaped.exists_first_register hposition
      obtain ⟨front', hfront'⟩ := hshaped'.exists_first_register hposition'
      have hfronts := (hshaped.registerField_eq_iff hshaped' hfront hfront').mp hzero
      exact ⟨hsta, rfl, by rw [hfront, hfront', hfronts], hvalue⟩
    · rintro ⟨hsta, -, hoperand, hvalue⟩
      refine ⟨?_, Or.inl (Instruction.isStore_iff.mpr (Or.inl hsta)), hvalue⟩
      rw [Instruction.registerField, Instruction.registerField, hoperand]

theorem exists_draft_of_pair
    {source : String} {first second : Instruction}
    (h : (assemble source).toOption.map Assembly.program = some [first, second]) :
    ∃ scan draft, Scan.ofSource source = .running scan ∧
      Draft.ofTokens scan.symbols scan.tokens.toList = .running draft ∧
        first ∈ draft.instructions.toList ∧ second ∈ draft.instructions.toList := by
  obtain ⟨assembly, hassembly, hprogram⟩ := exists_assembly_of_toOption_eq h
  obtain ⟨scan, draft, hscan, hdraft, rfl⟩ := assemble_eq_ok_iff.mp hassembly
  dsimp only at hprogram
  exact ⟨scan, draft, hscan, hdraft, by simp [hprogram], by simp [hprogram]⟩

/-- Two indirect jumps, whose registers stand in other fields than those of the
other mnemonics. -/
theorem register_lost_iff_second_of_store_indirect :
    ∃ scan draft,
      Scan.ofSource "IJMP r1, r2\nIJMP r1, r3" = .running scan ∧
        Draft.ofTokens scan.symbols scan.tokens.toList = .running draft ∧
          ∃ first ∈ draft.instructions.toList,
            ∃ second ∈ draft.instructions.toList,
              first.operands = [.register 1, .register 2] ∧
                second.operands = [.register 1, .register 3] ∧
                  first.encode scan.symbols ≠ second.encode scan.symbols := by
  obtain ⟨scan, draft, hscan, hdraft, hfirst, hsecond⟩ :=
    exists_draft_of_pair
      (show (assemble "IJMP r1, r2\nIJMP r1, r3").toOption.map Assembly.program =
        some [⟨.ijmp, [.register 1, .register 2], .register, 1⟩,
          ⟨.ijmp, [.register 1, .register 3], .register, 2⟩] by decide +kernel)
  have hlost := @register_lost_iff_second_of_store _ _ _ _ _ _ _ 1 2 3 hdraft hdraft
    hfirst hsecond rfl rfl rfl (by decide)
  refine ⟨scan, draft, hscan, hdraft, _, hfirst, _, hsecond, rfl, rfl, fun hwords => ?_⟩
  cases (hlost.mp hwords).1

/-- Two stores with different second registers are drafted and have one word. -/
theorem second_register_of_store_is_lost :
    ∃ scan draft,
      Scan.ofSource "STA r1, r2, 5\nSTA r1, r3, 5" = .running scan ∧
        Draft.ofTokens scan.symbols scan.tokens.toList = .running draft ∧
          ∃ first ∈ draft.instructions.toList,
            ∃ second ∈ draft.instructions.toList,
              first.mnemonic = second.mnemonic ∧
                first.operands.length = second.operands.length ∧
                  first.operands[1]? = some (.register 2) ∧
                    second.operands[1]? = some (.register 3) ∧
                      first.encode scan.symbols = second.encode scan.symbols := by
  obtain ⟨scan, draft, hscan, hdraft, hfirst, hsecond⟩ :=
    exists_draft_of_pair
      (show (assemble "STA r1, r2, 5\nSTA r1, r3, 5").toOption.map Assembly.program =
        some
          [⟨.sta, [.register 1, .register 2, .immediate 5 .decimal], .immediate, 1⟩,
            ⟨.sta, [.register 1, .register 3, .immediate 5 .decimal], .immediate, 2⟩]
        by decide +kernel)
  exact ⟨scan, draft, hscan, hdraft, _, hfirst, _, hsecond, rfl, rfl, rfl, rfl, rfl⟩

end Pom8
