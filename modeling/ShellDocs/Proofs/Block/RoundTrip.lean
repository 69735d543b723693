import ShellDocs.Proofs.Block.Recognition
import ShellDocs.Proofs.Block.Scanned

/-!
# Documentation is read as it was written

A body is written from `Placed` blocks, each with lines of white space before it, after a guard
or none, and before lines that document nothing. `documentation_written` says that scanning such
a body gives back the blocks in order, and that the documentation is the lines that were meant,
whichever choices the writer made.
-/

namespace ShellDocs.Block

/-! ## Guards -/

/-- What stands before a documentation line's colon is no guard. -/
theorem isGuard_of_afterColon? {line t : Text} (h : afterColon? line = some t) :
    isGuard line = false := by
  unfold afterColon? skipLead at h
  unfold isGuard
  generalize Text.skipBlanks line = u at h ⊢
  split
  · simp at h
  · next rest =>
      have hparen : Text.skipBlanks ('(' :: rest) = '(' :: rest :=
        Text.skipBlanks_cons (by decide) rest
      simp [hparen] at h
  · simp at h
  · simp at h
  · rfl

/-- A render command is no guard. -/
theorem isGuard_of_renderOpening? {line : Text} {found : Quote × Text}
    (h : renderOpening? "docsh" line = some found) : isGuard line = false := by
  by_cases hd : (Text.skipBlanks line).head? = some 'd'
  · obtain ⟨t, ht⟩ := List.head?_eq_some_iff.1 hd
    simp [isGuard, ht]
  · rw [renderOpening?_eq_none hd] at h
    cases h

/-- A line that opens a block is no guard. -/
theorem isGuard_of_opening {line : Text} {last : Bool} {opening : Opening}
    (h : Opening.of? "docsh" last line = some opening) : isGuard line = false := by
  rcases Opening.colon_or_render h with ⟨t, hcolon⟩ | ⟨found, hrender⟩
  · exact isGuard_of_afterColon? hcolon
  · exact isGuard_of_renderOpening? hrender

/-- White space is no guard. -/
theorem isGuard_of_isVoid {line : Text} (h : Text.isVoid line = true) : isGuard line = false := by
  cases hguard : isGuard line with
  | false => rfl
  | true =>
      have hspace : ∀ c t, Text.skipBlanks line = c :: t → Text.isSpace c = true :=
        fun c t heq => Text.isSpace_of_isVoid h (Text.mem_of_mem_skipBlanks (by simp [heq]))
      unfold isGuard at hguard
      split at hguard
      · next heq => exact absurd (hspace _ _ heq) (by decide)
      · next heq => exact absurd (hspace _ _ heq) (by decide)
      · next heq => exact absurd (hspace _ _ heq) (by decide)
      · next heq => exact absurd (hspace _ _ heq) (by decide)
      · cases hguard

/-! ## Bodies -/

/-- A written block with lines of white space before it. -/
structure Placed where
  blanks : List Text
  void : ∀ line ∈ blanks, Text.isVoid line = true
  written : Written

/-- The lines of a placed block. -/
def Placed.lines (p : Placed) : List Text := p.blanks ++ p.written.lines

/-- The first of some lines that is not white space, if there is one, opens no block. -/
def Silent (renderer : Text) (lines : List Text) : Prop :=
  let rest := lines.dropWhile Text.isVoid
  rest.head?.bind (Opening.of? renderer rest.tail.isEmpty) = none

instance (renderer : Text) (lines : List Text) : Decidable (Silent renderer lines) :=
  inferInstanceAs (Decidable (_ = _))

/-- A scan skips white space. -/
theorem Scanned.blanks {renderer : Text} {index stop : Nat} {blanks rest : List Text}
    {spans : List Span} {fault : Option Malformed}
    (hvoid : ∀ line ∈ blanks, Text.isVoid line = true)
    (h : Scanned renderer (index + blanks.length) rest spans stop fault) :
    Scanned renderer index (blanks ++ rest) spans stop fault := by
  induction blanks generalizing index with
  | nil => exact h
  | cons line blanks ih =>
      refine .blank _ _ _ _ _ _ (hvoid line (by simp)) (ih (fun l hl => hvoid l (by simp [hl])) ?_)
      rwa [List.length_cons, Nat.add_comm blanks.length, ← Nat.add_assoc] at h

/-- A scan of silent lines finds nothing. -/
theorem Silent.scanned {renderer : Text} {lines : List Text} (h : Silent renderer lines)
    (index : Nat) : ∃ stop, Scanned renderer index lines [] stop none := by
  induction lines generalizing index with
  | nil => exact ⟨index, .finished index⟩
  | cons line rest ih =>
      cases hvoid : Text.isVoid line with
      | true =>
          have hrest : Silent renderer rest := by simpa [Silent, hvoid] using h
          obtain ⟨stop, hscan⟩ := ih hrest (index + 1)
          exact ⟨stop, .blank _ _ _ _ _ _ hvoid hscan⟩
      | false =>
          have ho : Opening.of? renderer rest.isEmpty line = none := by
            simpa [Silent, hvoid] using h
          exact ⟨index, .stopped _ _ _ hvoid ho⟩

/-- A scan of placed blocks finds their blocks. -/
theorem scanned_placed (placed : List Placed) {tail : List Text} (htail : Silent "docsh" tail)
    (index : Nat) :
    ∃ spans stop, Scanned "docsh" index (placed.flatMap Placed.lines ++ tail) spans stop none ∧
      spans.map Span.block = placed.map fun p => p.written.block := by
  induction placed generalizing index with
  | nil =>
      obtain ⟨stop, hscan⟩ := htail.scanned index
      exact ⟨[], stop, hscan, rfl⟩
  | cons p placed ih =>
      obtain ⟨spans, stop, hscan, hblocks⟩ :=
        ih (index + p.blanks.length + p.written.lines.length)
      have hreads := p.written.reads (placed.flatMap Placed.lines ++ tail).isEmpty
      have hlines : (p :: placed).flatMap Placed.lines ++ tail =
          p.blanks ++ (p.written.lines ++ (placed.flatMap Placed.lines ++ tail)) := by
        simp [Placed.lines]
      rw [hlines]
      refine ⟨_, stop, .blanks p.void (.block _ _ _ _ _ _ _ hreads hscan), ?_⟩
      rw [List.map_cons, List.map_cons, hblocks]

/-- An optional guard before white space and a line that is no guard is what is skipped. -/
theorem guardLines_blanks (guard : Option {line : Text // isGuard line = true})
    {blanks : List Text} (hvoid : ∀ line ∈ blanks, Text.isVoid line = true) {line : Text}
    (hline : isGuard line = false) (rest : List Text) :
    guardLines ((guard.map Subtype.val).toList ++ (blanks ++ line :: rest)) =
      (guard.map Subtype.val).toList.length := by
  cases guard with
  | some guard => simp [guardLines, guard.2]
  | none =>
      cases blanks with
      | nil => simp [guardLines, hline]
      | cons blank blanks =>
          simp [guardLines, isGuard_of_isVoid (hvoid blank List.mem_cons_self)]

/-- An optional guard before at least one block is what is skipped. -/
theorem guardLines_written (guard : Option {line : Text // isGuard line = true})
    {placed : List Placed} (hne : placed ≠ []) (tail : List Text) :
    guardLines ((guard.map Subtype.val).toList ++ placed.flatMap Placed.lines ++ tail) =
      (guard.map Subtype.val).toList.length := by
  obtain ⟨p, placed, rfl⟩ := List.exists_cons_of_ne_nil hne
  obtain ⟨line, rest, opening, hlines, ho, -⟩ := (p.written.reads false).exists_opening
  have hbody : (guard.map Subtype.val).toList ++ (p :: placed).flatMap Placed.lines ++ tail =
      (guard.map Subtype.val).toList ++
        (p.blanks ++ line :: (rest ++ placed.flatMap Placed.lines ++ tail)) := by
    simp [Placed.lines, hlines]
  rw [hbody]
  exact guardLines_blanks guard p.void (isGuard_of_opening ho) _

end ShellDocs.Block

namespace ShellDocs.Definition

open Block

/-- Reading undoes writing: a body that is written from blocks, after a guard or none and before
lines that document nothing, has exactly these blocks and the documentation that was meant. -/
theorem documentation_written (d : Definition)
    (guard : Option {line : Text // isGuard line = true}) (placed : List Placed)
    (tail : List Text) (hne : placed ≠ []) (htail : Silent "docsh" tail)
    (hbody : d.body =
      (guard.map Subtype.val).toList ++ placed.flatMap Placed.lines ++ tail) :
    (d.scan "docsh").blocks = placed.map (fun p => p.written.block) ∧
      (d.documentation "docsh").result = .ok ⟨placed.flatMap fun p => p.written.docs⟩ := by
  have hguard : guardLines d.body = (guard.map Subtype.val).toList.length := by
    rw [hbody]
    exact guardLines_written guard hne tail
  obtain ⟨spans, stop, hscan, hblocks⟩ :=
    scanned_placed placed htail (2 + guardLines d.body)
  have hrest : d.body.drop (guardLines d.body) = placed.flatMap Placed.lines ++ tail := by
    rw [hguard, hbody, List.append_assoc, List.drop_left]
  rw [← hrest] at hscan
  refine ⟨hscan.scanBody_eq.1.trans hblocks, ?_⟩
  have hdocs : docs spans = placed.flatMap fun p => p.written.docs := by
    have hflat := congrArg (List.flatMap docLines) hblocks
    simpa [docs, List.flatMap_map, Written.docLines_block] using hflat
  rw [documentation_of_scanned hscan, outcome, hdocs]

/-- A function with a guard, a multi-line string with escapes, a plain line and a here-document. -/
def greet : Definition :=
  ⟨"greet",
    ["greet () ", "\x7b ", "    [[ $1 == -h ]] && \x7b", "        : \"Say \\\"hi\\\" for \\$1.", "",
      "  Usage: greet\\\\\";", "  ", "\tfalse && : see also; wave;", "( : <<-'EOF'", "EOF;",
      "\t EOF", "        return", "\x7d"]⟩

/-- The blocks that `greet` is written from. -/
def greetBlocks : List Placed :=
  [⟨[], by decide, .quoted (.colon (.bare (.ofText "        " rfl)) (.ofText " " rfl))
      ⟨.double, ["Say \"hi\" for $1.", "", "  Usage: greet\\"], by decide, by decide, by decide⟩⟩,
    ⟨["  "], by decide,
      .plain (.never (.ofText "\t" rfl) (.ofText " " rfl) (.ofText " " rfl)) (.ofText " " rfl)
        ⟨"see also; wave", by decide, ⟨'s', _, rfl, by decide, by decide⟩, by decide⟩⟩,
    ⟨[], by decide, .hereDoc (.paren (.ofText "" rfl) (.ofText " " rfl)) (.ofText " " rfl)
      ⟨true, none, some .single⟩
      ⟨"EOF", by decide, List.all_eq_true.1 rfl, ["EOF;"], by decide⟩ (.ofText "\t " rfl)⟩]

theorem documentation_greet :
    (greet.documentation "docsh").result =
      .ok ⟨["Say \"hi\" for $1.", "", "  Usage: greet\\", "see also; wave", "EOF;"]⟩ :=
  (documentation_written greet (some ⟨"    [[ $1 == -h ]] && \x7b", by decide⟩) greetBlocks
    ["        return"] (by decide) (by decide) (by decide)).2

end ShellDocs.Definition
