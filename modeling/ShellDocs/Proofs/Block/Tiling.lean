import ShellDocs.Proofs.Block.DocLines
import ShellDocs.Proofs.Block.Scanned

/-!
# The scan tiles the head of a body

Blocks lie one after another on the lines that a scan has passed, with nothing but white space
between them. `Tiles` states this for the intervals of a scan and says where and why it ends,
`Scanned.tiles` proves it of every scan by induction on its steps, and `scan_tiles` of every
definition. No line is read twice, none but white space is lost, and none is read behind the end.
-/

namespace ShellDocs.Block

/-- The intervals `spans` tile `lines` from the index `start` to the index `stop`, where the scan
ends with the given `fault`. -/
structure Tiles (renderer : Text) (lines : List Text) (start : Nat) (spans : List Span)
    (stop : Nat) (fault : Option Malformed) : Prop where
  start_le : start ≤ stop
  /-- Intervals are disjoint and increase. -/
  increasing : spans.Pairwise fun s t => s.next ≤ t.first
  /-- Intervals are not empty and lie between the start and the end. -/
  inside : ∀ s ∈ spans, start ≤ s.first ∧ s.first < s.next ∧ s.next ≤ stop ∧ s.next ≤ lines.length
  /-- Each block is read from the lines of its interval. -/
  taken : ∀ s ∈ spans, (lines.drop s.first).take (s.next - s.first) = s.lines
  /-- A line before the end that lies in no interval is white space. -/
  gaps : ∀ index, start ≤ index → index < stop →
    (∀ s ∈ spans, ¬ (s.first ≤ index ∧ index < s.next)) →
    ∃ line, lines[index]? = some line ∧ Text.isVoid line = true
  /-- The scan ends behind the last line, or at a line that is not white space and opens nothing or
  is malformed. -/
  ends : (stop = max start lines.length ∧ fault = none) ∨
    ∃ line, lines[stop]? = some line ∧ Text.isVoid line = false ∧
      ((Opening.of? renderer (decide (stop + 1 = lines.length)) line = none ∧ fault = none) ∨
        (Opening.of? renderer (decide (stop + 1 = lines.length)) line = some .malformed ∧
          fault = some ⟨line, stop + 1⟩))
  /-- Blocks account for their lines, and only the last one, at the end of the lines, may be a
  here-document without its marker. -/
  accounts : ∀ s ∈ spans,
    s.block.Accounts s.lines (s.next = lines.length ∧ spans.getLast? = some s)

variable {renderer : Text} {lines : List Text} {start stop : Nat} {spans : List Span}
  {fault : Option Malformed}

/-- The line at an index, from the lines that start there. -/
theorem line_of_drop {line : Text} {rest : List Text} (h : lines.drop start = line :: rest) :
    lines[start]? = some line ∧ lines.drop (start + 1) = rest ∧
      rest.isEmpty = decide (start + 1 = lines.length) := by
  have hline : lines[start]? = some line := by
    rw [← List.head?_drop, h]
    rfl
  have hrest : lines.drop (start + 1) = rest := by
    rw [← List.tail_drop, h]
    rfl
  refine ⟨hline, hrest, ?_⟩
  have hlt : start < lines.length := (List.getElem?_eq_some_iff.1 hline).1
  rw [Bool.eq_iff_iff, List.isEmpty_iff, ← hrest, List.drop_eq_nil_iff, decide_eq_true_eq]
  omega

/-- A scan that ends where it starts tiles nothing. -/
theorem Tiles.nil
    (hends : (start = max start lines.length ∧ fault = none) ∨
      ∃ line, lines[start]? = some line ∧ Text.isVoid line = false ∧
        ((Opening.of? renderer (decide (start + 1 = lines.length)) line = none ∧ fault = none) ∨
          (Opening.of? renderer (decide (start + 1 = lines.length)) line = some .malformed ∧
            fault = some ⟨line, start + 1⟩))) :
    Tiles renderer lines start [] start fault :=
  ⟨le_rfl, by simp, by simp, by simp, fun _ hle hlt => absurd hlt (by omega), hends, by simp⟩

/-- One blank line more at the start keeps a tiling. -/
theorem Tiles.blank {line : Text} (hline : lines[start]? = some line)
    (hvoid : Text.isVoid line = true) (h : Tiles renderer lines (start + 1) spans stop fault) :
    Tiles renderer lines start spans stop fault := by
  have hlt : start < lines.length := (List.getElem?_eq_some_iff.1 hline).1
  refine ⟨by have := h.start_le; omega, h.increasing, ?_, h.taken, ?_, ?_, h.accounts⟩
  · intro s hs
    obtain ⟨hfirst, hrest⟩ := h.inside s hs
    exact ⟨by omega, hrest⟩
  · intro index hle hstop hout
    by_cases heq : index = start
    · subst heq
      exact ⟨line, hline, hvoid⟩
    · exact h.gaps index (by omega) hstop hout
  · rcases h.ends with ⟨hstop, hfault⟩ | hline
    · exact .inl ⟨by omega, hfault⟩
    · exact .inr hline

/-- One block more at the start keeps a tiling. -/
theorem Tiles.block {taken after : List Text} {block : Block}
    (hdrop : lines.drop start = taken ++ after) (hreads : Reads renderer after.isEmpty taken block)
    (hfree : ∀ line ∈ lines, '\n' ∉ line) (hlast : after = [] → spans = [])
    (h : Tiles renderer lines (start + taken.length) spans stop fault) :
    Tiles renderer lines start (⟨start, taken, block⟩ :: spans) stop fault := by
  have hpos := List.length_pos_of_ne_nil hreads.ne_nil
  have hlength : lines.length = start + taken.length + after.length := by
    have hlen := congrArg List.length hdrop
    rw [List.length_drop, List.length_append] at hlen
    omega
  have hstart := h.start_le
  refine ⟨by omega, ?_, ?_, ?_, ?_, ?_, ?_⟩
  · refine List.pairwise_cons.2 ⟨fun s hs => ?_, h.increasing⟩
    exact (h.inside s hs).1
  · intro s hs
    rcases List.mem_cons.1 hs with rfl | hs
    · simp only [Span.next]
      omega
    · obtain ⟨hfirst, hrest⟩ := h.inside s hs
      exact ⟨by omega, hrest⟩
  · intro s hs
    rcases List.mem_cons.1 hs with rfl | hs
    · simp [Span.next, hdrop]
    · exact h.taken s hs
  · intro index hle hstop hout
    have hafter : ¬ (start ≤ index ∧ index < start + taken.length) :=
      hout ⟨start, taken, block⟩ (by simp)
    exact h.gaps index (by omega) hstop fun s hs => hout s (by simp [hs])
  · rcases h.ends with ⟨hstop, hfault⟩ | hline
    · exact .inl ⟨by omega, hfault⟩
    · exact .inr hline
  · intro s hs
    rcases List.mem_cons.1 hs with rfl | hs
    · have htaken : ∀ line ∈ taken, '\n' ∉ line := by
        intro line hline
        exact hfree line (List.mem_of_mem_drop (by rw [hdrop]; simp [hline]))
      -- A here-document without its marker leaves no lines, so no block follows it.
      refine (hreads.accounts htaken).mono fun hempty => ?_
      have hafter : after = [] := List.isEmpty_iff.1 hempty
      refine ⟨?_, ?_⟩
      · simp [Span.next, hlength, hafter]
      · simp [hlast hafter]
    · refine (h.accounts s hs).mono fun ⟨hnext, hgetLast⟩ => ⟨hnext, ?_⟩
      rw [List.getLast?_cons, hgetLast]
      rfl

/-- Every scan tiles the lines that it goes through. -/
theorem Scanned.tiles {rest : List Text} (h : Scanned renderer start rest spans stop fault)
    (hdrop : lines.drop start = rest) (hfree : ∀ line ∈ lines, '\n' ∉ line) :
    Tiles renderer lines start spans stop fault := by
  -- Indices count from the start of all lines, of which the scan has the rest before it.
  induction h with
  | finished index =>
      have hle : lines.length ≤ index := List.drop_eq_nil_iff.1 hdrop
      exact .nil (.inl ⟨by omega, rfl⟩)
  | blank index line rest spans stop fault hvoid _ ih =>
      obtain ⟨hline, hrest, -⟩ := line_of_drop hdrop
      exact (ih hrest).blank hline hvoid
  | stopped index line rest hvoid ho =>
      obtain ⟨hline, -, hlast⟩ := line_of_drop hdrop
      rw [hlast] at ho
      exact .nil (.inr ⟨line, hline, hvoid, .inl ⟨ho, rfl⟩⟩)
  | malformed index line rest ho =>
      obtain ⟨hline, -, -⟩ := line_of_drop hdrop
      have hvoid := Opening.isVoid_eq_false ho
      exact .nil (.inr ⟨line, hline, hvoid, .inr ⟨Opening.of?_of_false ho _, rfl⟩⟩)
  | block index taken after block spans stop fault hreads hrest ih =>
      have hafter : lines.drop (index + taken.length) = after := by
        rw [← List.drop_drop, hdrop, List.drop_left]
      refine Tiles.block hdrop hreads hfree ?_ (ih hafter)
      rintro rfl
      exact hrest.eq_nil.1

end ShellDocs.Block

namespace ShellDocs.Definition

open Block

/-- The lines of a definition before its closing brace. -/
def beforeEnd (d : Definition) : List Text := d.lines.take d.bodyEnd

/-- The index of the first line that may be documentation: a guard on the third line is passed
over. -/
def docsStart (d : Definition) : Nat :=
  if d.body.head?.any isGuard then 3 else 2

theorem bodyEnd_le (d : Definition) : d.bodyEnd ≤ d.lines.length := by
  unfold bodyEnd
  split <;> omega

theorem length_beforeEnd (d : Definition) : d.beforeEnd.length = d.bodyEnd :=
  List.length_take_of_le d.bodyEnd_le

theorem docsStart_eq (d : Definition) : d.docsStart = 2 + guardLines d.body := by
  unfold docsStart guardLines
  split <;> rfl

/-- The blocks of every definition tile its lines from the start of its documentation to the place
where the scan ends, which is not behind the closing brace. -/
theorem scan_tiles (renderer : Text) (d : Definition) (h : ∀ line ∈ d.lines, '\n' ∉ line) :
    d.beforeEnd.length = d.bodyEnd ∧
    ∃ spans stop, (d.scan renderer).blocks = spans.map Span.block ∧
      Tiles renderer d.beforeEnd d.docsStart spans stop (d.scan renderer).malformed := by
  refine ⟨d.length_beforeEnd, ?_⟩
  have hdrop : d.beforeEnd.drop (2 + guardLines d.body) = d.body.drop (guardLines d.body) := by
    rw [← List.drop_drop]
    rfl
  obtain ⟨spans, stop, fault, hscan⟩ := exists_scanned renderer (2 + guardLines d.body)
    (d.body.drop (guardLines d.body))
  obtain ⟨hblocks, hfault⟩ := hscan.scanBody_eq
  refine ⟨spans, stop, hblocks, ?_⟩
  rw [d.docsStart_eq, scan, hfault]
  exact hscan.tiles hdrop fun line hline => h line (List.mem_of_mem_take hline)

/-- A definition with a plain line and, after a blank line, a here-document without its marker. -/
def draft : Definition :=
  ⟨"f", ["f () ", "\x7b ", ": one;", "", ": <<END", "two", "three", "\x7d"]⟩

theorem scan_tiles_draft :
    (∀ line ∈ draft.lines, '\n' ∉ line) ∧
    ∃ spans stop,
      spans.map Span.block = [.plain "one", .hereDoc "END" ["two", "three"]] ∧
      Tiles "docsh" draft.beforeEnd 2 spans stop none := by
  have hlines : ∀ line ∈ draft.lines, '\n' ∉ line := by decide
  have hblocks : (draft.scan "docsh").blocks = [.plain "one", .hereDoc "END" ["two", "three"]] := by
    decide +kernel
  have hfault : (draft.scan "docsh").malformed = none := by decide +kernel
  obtain ⟨-, spans, stop, hspans, htiles⟩ := scan_tiles "docsh" draft hlines
  rw [hfault] at htiles
  exact ⟨hlines, spans, stop, hspans.symm.trans hblocks, htiles⟩

end ShellDocs.Definition
