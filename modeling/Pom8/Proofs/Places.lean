import Pom8.Proofs.Faults
import Pom8.Proofs.Printing

/-!
# Places for an item

A source is seen as a place for one item, with all the text around it.  Every item
of a source stands at such a place, and another item that is no label can be put
there: the lines and items around it, and the symbols, stay as they are.
-/

namespace Pom8.Source

/-- A source with a place for one item: outside of comments, and with no other item
right beside it. -/
structure Place where
  /-- The lines above, each with its line break. -/
  above : List Char
  /-- The part of the line before the item. -/
  start : List Char
  /-- The part of the line after the item. -/
  rest : List Char
  /-- The lines below, with the line break before them. -/
  below : List Char
  above_ends : ∀ c ∈ above.getLast?, c = '\n'
  lineBreak_not_mem_start : '\n' ∉ start
  comment_not_mem_start : ';' ∉ start
  start_ends : ∀ c ∈ start.getLast?, isItemCharacter c = false
  rest_starts : ∀ c ∈ rest.head?, isItemCharacter c = false
  lineBreak_not_mem_rest : '\n' ∉ rest
  below_starts : ∀ c ∈ below.head?, c = '\n'

namespace Place

/-- The line with an item at the place. -/
def fillLine (place : Place) (item : List Char) : List Char :=
  place.start ++ item ++ place.rest

/-- The source with an item at the place. -/
def fill (place : Place) (item : List Char) : String :=
  String.ofList (place.above ++ place.fillLine item ++ place.below)

/-- The number of the line of the place. -/
def line (place : Place) : Nat :=
  place.above.count '\n' + 1

end Place

/-! ## The lines around a place -/

theorem ofList_append_lineBreak (first second : List Char) :
    String.ofList (first ++ '\n' :: second) =
      join (String.ofList first) (String.ofList second) := by
  apply String.toList_inj.mp
  simp [join, lineBreak]

theorem beq_lineBreak_eq_false
    {line : List Char} (h : '\n' ∉ line) : ∀ c ∈ line, (c == '\n') = false := by
  intro c hc
  rw [beq_eq_false_iff_ne]
  rintro rfl
  exact h hc

theorem segments_of_lineBreak_not_mem
    {line : List Char} (h : '\n' ∉ line) : segments (String.ofList line) = [line] := by
  rw [segments, String.toList_ofList,
    List.splitOnP_eq_singleton (beq_lineBreak_eq_false h)]

theorem lines_of_lineBreak_not_mem
    {line : List Char} (hne : line ≠ []) (h : '\n' ∉ line) :
    lines (String.ofList line) = [line] := by
  rw [lines_eq, segments_of_lineBreak_not_mem h, if_neg]
  simpa using hne

theorem lines_concat_lineBreak (front : List Char) :
    lines (String.ofList (front ++ ['\n'])) = segments (String.ofList front) := by
  have hnil : lines (String.ofList []) = [] := rfl
  rw [ofList_append_lineBreak, lines_join, hnil, List.append_nil]

/-- The lines of a text that ends with a line break stand before those of any text
after it. -/
theorem lines_append_of_ends
    {above : List Char} (h : ∀ c ∈ above.getLast?, c = '\n') (text : List Char) :
    lines (String.ofList (above ++ text)) =
      lines (String.ofList above) ++ lines (String.ofList text) := by
  rcases List.eq_nil_or_concat' above with rfl | ⟨front, c, rfl⟩
  · rfl
  · obtain rfl : c = '\n' := h c (by simp)
    rw [lines_concat_lineBreak, List.append_assoc, List.singleton_append,
      ofList_append_lineBreak, lines_join]

/-- A line of text and the lines below it. -/
theorem lines_append_of_starts
    {line below : List Char} (hne : line ≠ []) (hline : '\n' ∉ line)
    (h : ∀ c ∈ below.head?, c = '\n') :
    lines (String.ofList (line ++ below)) =
      line :: (lines (String.ofList below)).tail := by
  cases below with
  | nil =>
      rw [List.append_nil, lines_of_lineBreak_not_mem hne hline]
      rfl
  | cons c back =>
      obtain rfl : c = '\n' := h c rfl
      have hbelow : lines (String.ofList ('\n' :: back)) =
          [] :: lines (String.ofList back) := by
        rw [← List.nil_append ('\n' :: back), ofList_append_lineBreak, lines_join]
        rfl
      rw [ofList_append_lineBreak, lines_join, segments_of_lineBreak_not_mem hline,
        hbelow]
      rfl

theorem length_lines_of_ends
    {above : List Char} (h : ∀ c ∈ above.getLast?, c = '\n') :
    (lines (String.ofList above)).length = above.count '\n' := by
  rcases List.eq_nil_or_concat' above with rfl | ⟨front, c, rfl⟩
  · rfl
  · obtain rfl : c = '\n' := h c (by simp)
    rw [lines_concat_lineBreak, length_segments, offset, String.toList_ofList,
      List.count_append, List.count_singleton_self, Nat.add_comm]

/-! ## The items around a place -/

/-- The items of a line are those of its parts, if no item goes over from one part
to the other and no comment starts in the first. -/
theorem items_append_of_ends
    {start : List Char} (hcomment : ';' ∉ start)
    (hends : ∀ c ∈ start.getLast?, isItemCharacter c = false) (text : List Char) :
    items (start ++ text) = items start ++ items text := by
  have hitemised := itemised_items start
  generalize items start = found at hitemised ⊢
  induction hitemised with
  | nil => rfl
  | comment rest => exact absurd List.mem_cons_self hcomment
  | @separator c rest found hc hrest ih =>
      rw [List.cons_append, items_separator hc]
      refine ih (fun hmem => hcomment (List.mem_cons_of_mem c hmem)) ?_
      intro d hd
      exact hends d (List.mem_getLast?_cons hd)
  | @item run rest found hne hrun hstop hrest ih =>
      -- The run is not the end of the text, which no item character ends.
      have hrestNe : rest ≠ [] := by
        rintro rfl
        rw [List.append_nil] at hends
        have hlast := hends _ (List.getLast?_eq_some_getLast hne)
        rw [hrun _ (List.getLast_mem hne)] at hlast
        cases hlast
      have hhead : ∀ c ∈ (rest ++ text).head?, isItemCharacter c = false := by
        rwa [List.head?_append_of_ne_nil _ hrestNe]
      rw [List.getLast?_append_of_ne_nil _ hrestNe] at hends
      rw [List.append_assoc, items_append hne hrun hhead,
        ih (fun hmem => hcomment (List.mem_append_right run hmem)) hends,
        List.cons_append]

namespace Place

variable {item : List Char}

theorem items_fillLine (place : Place) (h : IsPlain item) :
    items (place.fillLine item) = items place.start ++ item :: items place.rest := by
  rw [fillLine, List.append_assoc,
    items_append_of_ends place.comment_not_mem_start place.start_ends,
    items_append h.1 h.isItemCharacter place.rest_starts]

theorem codeItems_fillLine (place : Place) (h : IsPlain item) :
    codeItems (place.fillLine item) =
      codeItems place.start ++ item :: codeItems place.rest := by
  rw [codeItems, place.items_fillLine h, List.filter_append,
    List.filter_cons_of_pos (by rw [h.isLabel_eq_false]; rfl)]
  rfl

theorem labelItems_fillLine (place : Place) (h : IsPlain item) :
    labelItems (place.fillLine item) =
      labelItems place.start ++ labelItems place.rest := by
  rw [labelItems, place.items_fillLine h, List.filter_append,
    List.filter_cons_of_neg (by rw [h.isLabel_eq_false]; decide)]
  rfl

theorem isCode_fillLine (place : Place) (h : IsPlain item) :
    isCode (place.fillLine item) = true := by
  rw [isCode_iff, place.codeItems_fillLine h]
  simp

theorem fillLine_ne_nil (place : Place) (h : IsPlain item) : place.fillLine item ≠ [] := by
  rw [fillLine]
  simp [h.1]

theorem lineBreak_not_mem_fillLine (place : Place) (h : IsPlain item) :
    '\n' ∉ place.fillLine item := by
  simp [fillLine, place.lineBreak_not_mem_start, place.lineBreak_not_mem_rest,
    h.lineBreak_not_mem]

/-- The lines above a place. -/
def linesAbove (place : Place) : List (List Char) :=
  lines (String.ofList place.above)

/-- The lines below a place. -/
def linesBelow (place : Place) : List (List Char) :=
  (lines (String.ofList place.below)).tail

theorem length_linesAbove (place : Place) :
    place.linesAbove.length + 1 = place.line := by
  rw [linesAbove, length_lines_of_ends place.above_ends, line]

theorem lines_fill (place : Place) (h : IsPlain item) :
    lines (place.fill item) =
      place.linesAbove ++ place.fillLine item :: place.linesBelow := by
  rw [fill, List.append_assoc, lines_append_of_ends place.above_ends,
    lines_append_of_starts (place.fillLine_ne_nil h) (place.lineBreak_not_mem_fillLine h)
      place.below_starts]
  rfl

theorem fillLine_mem_lines (place : Place) (h : IsPlain item) :
    place.fillLine item ∈ lines (place.fill item) := by
  rw [place.lines_fill h]
  exact List.mem_append_right _ List.mem_cons_self

theorem numberedLines_fill (place : Place) (h : IsPlain item) :
    numberedLines (place.fill item) =
      place.linesAbove.zipIdx 1 ++ (place.fillLine item, place.line) ::
        place.linesBelow.zipIdx (place.line + 1) := by
  rw [numberedLines, place.lines_fill h, List.zipIdx_append, List.zipIdx_cons,
    Nat.add_comm 1, place.length_linesAbove]

theorem codeLines_fill (place : Place) (h : IsPlain item) :
    codeLines (place.fill item) =
      (place.linesAbove.zipIdx 1).filter (fun line => isCode line.1) ++
        (place.fillLine item, place.line) ::
          (place.linesBelow.zipIdx (place.line + 1)).filter
            fun line => isCode line.1 := by
  rw [codeLines, place.numberedLines_fill h, List.filter_append,
    List.filter_cons_of_pos (by exact place.isCode_fillLine h)]

/-- The symbols of a source do not depend on the item at a place, as long as it is
no label. -/
theorem symbolsFrom_fill
    {other : List Char} (place : Place) (hitem : IsPlain item) (hother : IsPlain other) :
    symbolsFrom 0 (numberedLines (place.fill item)) =
      symbolsFrom 0 (numberedLines (place.fill other)) := by
  have hdefined : ∀ address,
      definedSymbols place.line address (items (place.fillLine item)) =
        definedSymbols place.line address (items (place.fillLine other)) := by
    intro address
    have hlabels : labelItems (place.fillLine item) = labelItems (place.fillLine other) := by
      rw [place.labelItems_fillLine hitem, place.labelItems_fillLine hother]
    rw [definedSymbols, definedSymbols, ← labelItems, ← labelItems, hlabels]
  rw [place.numberedLines_fill hitem, place.numberedLines_fill hother,
    symbolsFrom_append, symbolsFrom_append, symbolsFrom, symbolsFrom, hdefined,
    place.isCode_fillLine hitem, place.isCode_fillLine hother]

theorem classified_fill
    {other : List Char} (place : Place) (hitem : IsPlain item) (hother : IsCodeItem other)
    (h : ∀ line ∈ lines (place.fill item), ∀ item ∈ items line, Classified item) :
    ∀ line ∈ lines (place.fill other), ∀ item ∈ items line, Classified item := by
  rw [place.lines_fill hitem, List.forall_mem_append, List.forall_mem_cons,
    place.items_fillLine hitem, List.forall_mem_append, List.forall_mem_cons] at h
  rw [place.lines_fill hother.isPlain, List.forall_mem_append, List.forall_mem_cons,
    place.items_fillLine hother.isPlain, List.forall_mem_append, List.forall_mem_cons]
  obtain ⟨habove, ⟨hstart, -, hrest⟩, hbelow⟩ := h
  exact ⟨habove, ⟨hstart, hother.classified, hrest⟩, hbelow⟩

end Place

/-! ## Every item has a place -/

/-- Each item of a line stands between two parts of the line, and the items before
it are those of the first part. -/
theorem exists_parts_of_items_eq
    {line item : List Char} {before after : List (List Char)}
    (h : items line = before ++ item :: after) :
    ∃ start rest, line = start ++ item ++ rest ∧ items start = before ∧
      ';' ∉ start ∧ (∀ c ∈ start.getLast?, isItemCharacter c = false) ∧
        ∀ c ∈ rest.head?, isItemCharacter c = false := by
  have hitemised := items_eq_iff.mp h
  generalize hfound : before ++ item :: after = found at hitemised
  clear h
  induction hitemised generalizing before with
  | nil => simp at hfound
  | comment rest => simp at hfound
  | @separator c line found hc _ ih =>
      obtain ⟨start, rest, rfl, hitems, hcomment, hends, hstarts⟩ := ih hfound
      have hseparator : isItemCharacter c = false :=
        isItemCharacter_eq_false_iff.mpr (Or.inl hc)
      refine ⟨c :: start, rest, rfl, by rw [items_separator hc, hitems], ?_, ?_, hstarts⟩
      · rw [List.mem_cons, not_or]
        refine ⟨?_, hcomment⟩
        rintro rfl
        exact absurd hc (by decide)
      · by_cases hstart : start = []
        · simpa [hstart] using hseparator
        · rwa [← List.singleton_append, List.getLast?_append_of_ne_nil _ hstart]
  | @item run line found hne hrun hstop hline ih =>
      rcases List.append_eq_cons_iff.mp hfound with ⟨rfl, hitem⟩ | ⟨others, rfl, hothers⟩
      · obtain ⟨rfl, -⟩ := List.cons.inj hitem
        exact ⟨[], line, rfl, items_nil, List.not_mem_nil, by simp, hstop⟩
      · obtain ⟨start, rest, rfl, hitems, hcomment, hends, hstarts⟩ := ih hothers.symm
        -- The line goes on with a separator, so the item is not at its front.
        have hstart : start ≠ [] := by
          rintro rfl
          obtain ⟨hitemNe, hitem⟩ := hline.isItemCharacter_of_mem
            (show item ∈ found by simp [hothers])
          obtain ⟨d, others, rfl⟩ := List.exists_cons_of_ne_nil hitemNe
          have hfront := hstop d rfl
          rw [hitem d List.mem_cons_self] at hfront
          cases hfront
        have hhead : ∀ c ∈ start.head?, isItemCharacter c = false := by
          rwa [List.append_assoc, List.head?_append_of_ne_nil _ hstart] at hstop
        refine ⟨run ++ start, rest, by simp, ?_, ?_, ?_, hstarts⟩
        · rw [items_append hne hrun hhead, hitems]
        · rw [List.mem_append, not_or]
          refine ⟨?_, hcomment⟩
          intro hmem
          exact (isItemCharacter_iff.mp (hrun _ hmem)).2 rfl
        · rwa [List.getLast?_append_of_ne_nil _ hstart]

/-- The first piece of a text is all of it or ends at the first line break. -/
theorem splitOnP_eq_cons
    {text first : List Char} {others : List (List Char)}
    (h : text.splitOnP (· == '\n') = first :: others) :
    (text = first ∧ others = []) ∨
      ∃ back, text = first ++ '\n' :: back ∧ back.splitOnP (· == '\n') = others := by
  by_cases hbreak : '\n' ∈ text
  · obtain ⟨front, back, rfl, hfront⟩ := List.eq_append_cons_of_mem hbreak
    rw [List.splitOnP_append_cons_of_forall_mem (beq_lineBreak_eq_false hfront) '\n'
      rfl] at h
    obtain ⟨rfl, rfl⟩ := List.cons.inj h
    exact Or.inr ⟨back, rfl, rfl⟩
  · rw [List.splitOnP_eq_singleton (beq_lineBreak_eq_false hbreak)] at h
    obtain ⟨rfl, rfl⟩ := List.cons.inj h
    exact Or.inl ⟨rfl, rfl⟩

/-- Each line of a source stands between line breaks. -/
theorem exists_text_around_line
    {text line : List Char} {before after : List (List Char)}
    (h : text.splitOnP (· == '\n') = before ++ line :: after) :
    ∃ above below, text = above ++ line ++ below ∧
      (∀ c ∈ above.getLast?, c = '\n') ∧ (∀ c ∈ below.head?, c = '\n') ∧
        above.count '\n' = before.length := by
  induction before generalizing text with
  | nil =>
      rcases splitOnP_eq_cons h with ⟨rfl, -⟩ | ⟨back, rfl, -⟩
      · exact ⟨[], [], by simp, by simp, by simp, rfl⟩
      · exact ⟨[], '\n' :: back, by simp, by simp, by simp, rfl⟩
  | cons first before ih =>
      have hmem : first ∈ text.splitOnP (· == '\n') := by
        rw [h]
        exact List.mem_cons_self
      have hfirst : '\n' ∉ first := lineBreak_not_mem_of_mem_splitOnP hmem
      rcases splitOnP_eq_cons h with ⟨-, hnil⟩ | ⟨back, rfl, hback⟩
      · simp at hnil
      · obtain ⟨above, below, rfl, habove, hbelow, hcount⟩ := ih hback
        refine ⟨first ++ '\n' :: above, below, by simp, ?_, hbelow, ?_⟩
        · by_cases hne : above = []
          · simp [hne]
          · rwa [← List.singleton_append, ← List.append_assoc,
              List.getLast?_append_of_ne_nil _ hne]
        · rw [List.count_append, List.count_cons_self, List.count_eq_zero.mpr hfirst,
            hcount, List.length_cons, Nat.zero_add]

theorem exists_segments_eq_of_mem_numberedLines
    {source : String} {line : List Char} {number : Nat}
    (h : (line, number) ∈ numberedLines source) :
    ∃ before after, segments source = before ++ line :: after ∧
      before.length + 1 = number := by
  obtain ⟨hle, hget⟩ := List.mem_zipIdx_iff_le_and_getElem?_sub.mp h
  obtain ⟨hlt, hget⟩ := List.getElem?_eq_some_iff.mp hget
  dsimp only at hle hlt hget
  have hlines : lines source =
      (lines source).take (number - 1) ++
        line :: (lines source).drop (number - 1 + 1) := by
    rw [← hget, ← List.drop_eq_getElem_cons hlt, List.take_append_drop]
  have hnumber : ((lines source).take (number - 1)).length + 1 = number := by
    rw [List.length_take_of_le hlt.le]
    omega
  rcases segments_eq source with hsegments | hsegments
  · exact ⟨_, _, hsegments.trans hlines, hnumber⟩
  · refine ⟨_, (lines source).drop (number - 1 + 1) ++ [[]], ?_, hnumber⟩
    rw [hsegments, ← List.cons_append, ← List.append_assoc, ← hlines]

/-- Every item of a source stands at a place of it. -/
theorem exists_place
    {source : String} {line item : List Char} {number : Nat}
    {before after : List (List Char)} (hline : (line, number) ∈ numberedLines source)
    (hitems : items line = before ++ item :: after) :
    ∃ place : Place, place.fill item = source ∧ place.line = number ∧
      items place.start = before := by
  obtain ⟨linesBefore, linesAfter, hsegments, hnumber⟩ :=
    exists_segments_eq_of_mem_numberedLines hline
  obtain ⟨above, below, htext, habove, hbelow, hcount⟩ :=
    exists_text_around_line hsegments
  obtain ⟨start, rest, rfl, hbefore, hcomment, hends, hstarts⟩ :=
    exists_parts_of_items_eq hitems
  have hbreak := lineBreak_not_mem_of_mem_lines (exists_mem_numberedLines_iff.mp ⟨_, hline⟩)
  simp only [List.mem_append, not_or] at hbreak
  let place : Place :=
    { above, start, rest, below
      above_ends := habove
      lineBreak_not_mem_start := hbreak.1.1
      comment_not_mem_start := hcomment
      start_ends := hends
      rest_starts := hstarts
      lineBreak_not_mem_rest := hbreak.2
      below_starts := hbelow }
  refine ⟨place, String.toList_inj.mp ?_, ?_, hbefore⟩
  · rw [htext, Place.fill, String.toList_ofList]
    rfl
  · rw [← hnumber, ← hcount]
    rfl

end Pom8.Source
