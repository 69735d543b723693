import ShellDocs.Proofs.Block.Announcement
import ShellDocs.Proofs.Block.Continuation
import ShellDocs.Proofs.Block.Independence

/-!
# Malformed here-documents

Reading documentation fails at a malformed here-document that the scan reaches, and nowhere else.
`Passed` says, without running the scan, that every line before an index is white space or
belongs to a block that ends before it. What is passed is scanned (`Passed.scanned_append`), and
what was scanned up to an index is passed (`Scanned.passed`). `documentation_malformed` puts both
together.
-/

namespace ShellDocs.Block

/-- The lines from the index `start` up to the index `stop` are passed: each is white space or
lies in the interval of one of `spans`, which are blocks with an end of their own. -/
structure Passed (renderer : Text) (lines : List Text) (start : Nat) (spans : List Span)
    (stop : Nat) : Prop where
  start_le : start ≤ stop
  /-- Intervals are disjoint and increase. -/
  increasing : spans.Pairwise fun s t => s.next ≤ t.first
  inside : ∀ s ∈ spans, start ≤ s.first ∧ s.next ≤ stop
  /-- Each block is read from the lines of its interval. -/
  placed : ∀ s ∈ spans, s.lines <+: lines.drop s.first
  settled : Settled renderer spans
  /-- A line that lies in no interval is white space. -/
  gaps : ∀ index, start ≤ index → index < stop →
    (∀ s ∈ spans, ¬ (s.first ≤ index ∧ index < s.next)) →
    ∃ line, lines[index]? = some line ∧ Text.isVoid line = true

variable {renderer : Text} {lines : List Text} {start stop : Nat} {spans : List Span}
  {fault : Option Malformed}

/-! ## One step -/

theorem Passed.nil (renderer : Text) (lines : List Text) (start : Nat) :
    Passed renderer lines start [] start :=
  ⟨le_rfl, by simp, by simp, by simp, by simp [Settled],
    fun _ hle hlt => absurd hlt (Nat.not_lt.2 hle)⟩

/-- One blank line more at the start is passed. -/
theorem Passed.blank {line : Text} (hline : lines[start]? = some line)
    (hvoid : Text.isVoid line = true) (h : Passed renderer lines (start + 1) spans stop) :
    Passed renderer lines start spans stop := by
  have hstart := h.start_le
  refine ⟨by omega, h.increasing, ?_, h.placed, h.settled, ?_⟩
  · intro s hs
    obtain ⟨hfirst, hnext⟩ := h.inside s hs
    exact ⟨by omega, hnext⟩
  · intro index hle hlt hout
    by_cases heq : index = start
    · subst heq
      exact ⟨line, hline, hvoid⟩
    · exact h.gaps index (by omega) hlt hout

/-- One block more at the start is passed. -/
theorem Passed.block {taken : List Text} {block : Block} (hplaced : taken <+: lines.drop start)
    (hreads : Reads renderer false taken block)
    (h : Passed renderer lines (start + taken.length) spans stop) :
    Passed renderer lines start (⟨start, taken, block⟩ :: spans) stop := by
  have hstart := h.start_le
  refine ⟨by omega, ?_, ?_, ?_, ?_, ?_⟩
  · exact List.pairwise_cons.2 ⟨fun s hs => (h.inside s hs).1, h.increasing⟩
  · intro s hs
    rcases List.mem_cons.1 hs with rfl | hs
    · exact ⟨le_rfl, hstart⟩
    · obtain ⟨hfirst, hnext⟩ := h.inside s hs
      exact ⟨by omega, hnext⟩
  · exact List.forall_mem_cons.2 ⟨hplaced, h.placed⟩
  · exact List.forall_mem_cons.2 ⟨hreads, h.settled⟩
  · intro index hle hlt hout
    have hafter : ¬ (start ≤ index ∧ index < start + taken.length) :=
      hout ⟨start, taken, block⟩ (by simp)
    exact h.gaps index (by omega) hlt fun s hs => hout s (by simp [hs])

/-- The first line that is passed, if any, is white space or the first line of a block. -/
theorem Passed.cases (h : Passed renderer lines start spans stop) :
    (start = stop ∧ spans = []) ∨
    (start < stop ∧ ∃ line, lines[start]? = some line ∧ Text.isVoid line = true ∧
      Passed renderer lines (start + 1) spans stop) ∨
    (start < stop ∧ ∃ taken block more, spans = ⟨start, taken, block⟩ :: more ∧
      taken <+: lines.drop start ∧ Reads renderer false taken block ∧
      Passed renderer lines (start + taken.length) more stop) := by
  obtain ⟨hstart, hincreasing, hinside, hplaced, hsettled, hgaps⟩ := h
  have hfilled (s : Span) (hs : s ∈ spans) : s.first < s.next := by
    have hpos := List.length_pos_of_ne_nil (hsettled s hs).ne_nil
    simp only [Span.next]
    omega
  cases spans with
  | nil =>
      by_cases heq : start = stop
      · exact .inl ⟨heq, rfl⟩
      · obtain ⟨line, hline, hvoid⟩ := hgaps start le_rfl (by omega) (by simp)
        refine .inr (.inl ⟨by omega, line, hline, hvoid, by omega, by simp, by simp, by simp,
          hsettled, fun index hle => hgaps index (by omega)⟩)
  | cons s more =>
      obtain ⟨hfirst, hnext⟩ := hinside s (by simp)
      have hs := hfilled s (by simp)
      obtain ⟨hbefore, hmore⟩ := List.pairwise_cons.1 hincreasing
      by_cases heq : s.first = start
      · -- The block takes the first line, and what is left starts behind it.
        obtain ⟨first, taken, block⟩ := s
        subst heq
        obtain ⟨htaken, hplaced⟩ := List.forall_mem_cons.1 hplaced
        obtain ⟨hreads, hsettled⟩ := List.forall_mem_cons.1 hsettled
        refine .inr (.inr ⟨by omega, taken, block, more, rfl, htaken, hreads, hnext, hmore, ?_,
          hplaced, hsettled, ?_⟩)
        · exact fun s hs => ⟨hbefore s hs, (hinside s (by simp [hs])).2⟩
        · intro index hle hlt hout
          have hfirst : first ≤ index := (Nat.le_add_right first taken.length).trans hle
          refine hgaps index hfirst hlt (List.forall_mem_cons.2 ⟨?_, hout⟩)
          exact fun hin => Nat.not_lt.2 hle hin.2
      · -- No block takes the first line, since the first block starts behind it.
        have hlater (t : Span) (ht : t ∈ s :: more) : start + 1 ≤ t.first := by
          rcases List.mem_cons.1 ht with rfl | ht
          · omega
          · have := hbefore t ht
            omega
        obtain ⟨line, hline, hvoid⟩ := hgaps start le_rfl (by omega) fun t ht hcovered => by
          have := hlater t ht
          omega
        exact .inr (.inl ⟨by omega, line, hline, hvoid, by omega, hincreasing,
          fun t ht => ⟨hlater t ht, (hinside t ht).2⟩, hplaced, hsettled,
          fun index hle => hgaps index (by omega)⟩)

/-! ## Whole scans -/

/-- What is passed is scanned: a scan from where the passed lines end is one from where they
start, with the blocks between found first. -/
theorem Passed.scanned_append {rest : List Text} {more : List Span} {final : Nat}
    (h : Passed renderer lines start spans stop) (hstop : lines.drop stop = rest)
    (hmore : Scanned renderer stop rest more final fault) :
    Scanned renderer start (lines.drop start) (spans ++ more) final fault := by
  subst hstop
  -- Each step passes a line at least, so fewer are left before the stop.
  induction hleft : stop - start using Nat.strong_induction_on generalizing start spans with
  | _ left ih =>
      rcases h.cases with ⟨rfl, rfl⟩ | ⟨hlt, line, hline, hvoid, hrest⟩ |
        ⟨hlt, taken, block, found, rfl, ⟨after, hlines⟩, hreads, hrest⟩
      · exact hmore
      · have hdrop : lines.drop start = line :: lines.drop (start + 1) := by
          obtain ⟨hlength, rfl⟩ := List.getElem?_eq_some_iff.1 hline
          exact List.drop_eq_getElem_cons hlength
        rw [hdrop]
        exact .blank _ _ _ _ _ _ hvoid (ih _ (by omega) hrest rfl)
      · have hafter : after = lines.drop (start + taken.length) := by
          rw [← List.drop_drop, ← hlines, List.drop_left]
        have hpos := List.length_pos_of_ne_nil hreads.ne_nil
        have hscan := ih _ (by omega) hrest rfl
        rw [← hafter] at hscan
        rw [← hlines]
        exact .block _ _ _ _ _ _ _ (hreads.of_false _) hscan

/-- A scan that ends at a line has passed the lines before it. -/
theorem Scanned.passed {rest : List Text} (h : Scanned renderer start rest spans stop fault)
    (hdrop : lines.drop start = rest) (hlt : stop < lines.length) :
    Passed renderer lines start spans stop := by
  induction h with
  | finished index => exact absurd (List.drop_eq_nil_iff.1 hdrop) (Nat.not_le.2 hlt)
  | blank index line rest spans stop fault hvoid _ ih =>
      obtain ⟨hline, hrest, -⟩ := line_of_drop hdrop
      exact (ih hrest hlt).blank hline hvoid
  | stopped index line rest => exact .nil renderer lines index
  | malformed index line rest => exact .nil renderer lines index
  | block index taken after block spans stop fault hreads _ ih =>
      have hafter : lines.drop (index + taken.length) = after := by
        rw [← List.drop_drop, hdrop, List.drop_left]
      have hpassed := ih hafter hlt
      -- A line follows the block, so it does not need the end of the body.
      have hmore : after.isEmpty = false := by
        rw [List.isEmpty_eq_false_iff, ← hafter, Ne, List.drop_eq_nil_iff]
        have := hpassed.start_le
        omega
      rw [hmore] at hreads
      exact hpassed.block (hdrop ▸ List.prefix_append taken after) hreads

end ShellDocs.Block

namespace ShellDocs.Definition

open Block

/-- A malformed here-document is reached at the index `k`: after the guard, the lines before `k`
are passed with the blocks of `spans`, and `line` announces a here-document without a marker. -/
structure MalformedAt (renderer : Text) (d : Definition) (k : Nat) (spans : List Span)
    (line : Text) : Prop where
  passed : Passed renderer d.beforeEnd d.docsStart spans k
  line_eq : d.beforeEnd[k]? = some line
  no_marker : AnnouncesNoMarker line

variable {renderer : Text} {d : Definition} {k stop : Nat} {spans : List Span} {line : Text}
  {fault : Option Malformed}

/-- The lines of the body after its guard are the lines before the end from where documentation
may start. -/
theorem drop_beforeEnd (d : Definition) :
    d.beforeEnd.drop d.docsStart = d.body.drop (guardLines d.body) := by
  rw [d.docsStart_eq, ← List.drop_drop]
  rfl

/-- The documentation comes of a scan of the lines before the end. -/
theorem documentation_of_beforeEnd
    (h : Scanned renderer d.docsStart (d.beforeEnd.drop d.docsStart) spans stop fault) :
    (d.scan renderer).blocks = spans.map Span.block ∧
      (d.documentation renderer).result = outcome spans fault := by
  rw [d.drop_beforeEnd, d.docsStart_eq] at h
  exact ⟨h.scanBody_eq.1, documentation_of_scanned h⟩

theorem newline_free_beforeEnd (h : ∀ line ∈ d.lines, '\n' ∉ line) :
    ∀ line ∈ d.beforeEnd, '\n' ∉ line :=
  fun line hline => h line (List.mem_of_mem_take hline)

/-- A malformed here-document that is reached ends the scan with a fault. -/
theorem MalformedAt.scanned (h : d.MalformedAt renderer k spans line)
    (hfree : ∀ line ∈ d.lines, '\n' ∉ line) :
    Scanned renderer d.docsStart (d.beforeEnd.drop d.docsStart) spans k
      (some ⟨line, k + 1⟩) := by
  obtain ⟨hlength, hline⟩ := List.getElem?_eq_some_iff.1 h.line_eq
  have hnewline := newline_free_beforeEnd hfree line (hline ▸ List.getElem_mem hlength)
  have ho := (Opening.of?_eq_malformed_iff hnewline renderer false).2 h.no_marker
  have hdrop := List.drop_eq_getElem_cons hlength
  rw [hline] at hdrop
  have hscan := h.passed.scanned_append hdrop (.malformed k line _ ho)
  rwa [List.append_nil] at hscan

/-- A fault is found at a malformed here-document that is reached. -/
theorem malformedAt_of_scanned {found : Malformed}
    (h : Scanned renderer d.docsStart (d.beforeEnd.drop d.docsStart) spans stop (some found))
    (hfree : ∀ line ∈ d.lines, '\n' ∉ line) :
    ∃ line, d.MalformedAt renderer stop spans line ∧ found = ⟨line, stop + 1⟩ := by
  have hbefore := newline_free_beforeEnd hfree
  rcases (h.tiles rfl hbefore).ends with ⟨-, hnone⟩ | ⟨line, hline, -, ⟨-, hnone⟩ | ⟨ho, hsome⟩⟩
  · cases hnone
  · cases hnone
  · obtain ⟨hlength, hget⟩ := List.getElem?_eq_some_iff.1 hline
    have hnewline := hbefore line (hget ▸ List.getElem_mem hlength)
    have hannounces := (Opening.of?_eq_malformed_iff hnewline renderer _).1 ho
    exact ⟨line, ⟨h.passed rfl hlength, hline, hannounces⟩, Option.some.inj hsome⟩

/-- Documentation cannot be read exactly when a malformed here-document is reached, and then it is
that line that is told of, and the blocks before it have been found. Its line belongs to the body
after the guard. No line counts that a block takes, whether the block has its end or not, and none
behind a line that opens nothing. -/
theorem documentation_malformed (renderer : Text) (d : Definition)
    (hfree : ∀ line ∈ d.lines, '\n' ∉ line) :
    (∀ failure, (d.documentation renderer).result = .error failure ↔
      ∃ k spans line, d.MalformedAt renderer k spans line ∧
        failure = .malformedHereDoc ⟨line, k + 1⟩) ∧
    (∀ k spans line, d.MalformedAt renderer k spans line →
      (d.scan renderer).blocks = spans.map Span.block ∧ d.docsStart ≤ k ∧ k < d.bodyEnd) ∧
    (∀ k spans line, Passed renderer d.beforeEnd d.docsStart spans k →
      d.beforeEnd[k]? = some line → Text.isVoid line = false →
      Opening.of? renderer (decide (k + 1 = d.bodyEnd)) line = none →
      (d.documentation renderer).result = .ok ⟨docs spans⟩) ∧
    (∀ k spans taken after block, Passed renderer d.beforeEnd d.docsStart spans k →
      d.beforeEnd.drop k = taken ++ after → Reads renderer after.isEmpty taken block →
      ∀ fault, (d.documentation renderer).result = .error (.malformedHereDoc fault) →
        k + taken.length < fault.number) := by
  refine ⟨fun failure => ⟨fun h => ?_, ?_⟩, fun k spans line hat => ?_,
    fun k spans line hpassed hline hvoid ho => ?_,
    fun k spans taken after block hpassed hlines hreads fault hfault => ?_⟩
  · obtain ⟨spans, stop, fault, hscan⟩ :=
      exists_scanned renderer d.docsStart (d.beforeEnd.drop d.docsStart)
    rw [(documentation_of_beforeEnd hscan).2] at h
    cases fault with
    | none => cases h
    | some found =>
        obtain ⟨line, hat, rfl⟩ := malformedAt_of_scanned hscan hfree
        exact ⟨stop, spans, line, hat, (Except.error.inj h).symm⟩
  · rintro ⟨k, spans, line, hat, rfl⟩
    exact (documentation_of_beforeEnd (hat.scanned hfree)).2
  · have hlength := (List.getElem?_eq_some_iff.1 hat.line_eq).1
    rw [d.length_beforeEnd] at hlength
    exact ⟨(documentation_of_beforeEnd (hat.scanned hfree)).1, hat.passed.start_le, hlength⟩
  · obtain ⟨hlength, hget⟩ := List.getElem?_eq_some_iff.1 hline
    have hdrop : d.beforeEnd.drop k = line :: d.beforeEnd.drop (k + 1) := by
      rw [List.drop_eq_getElem_cons hlength, hget]
    rw [← d.length_beforeEnd, ← (line_of_drop hdrop).2.2] at ho
    have hscan := hpassed.scanned_append hdrop (.stopped k line _ hvoid ho)
    rw [List.append_nil] at hscan
    exact (documentation_of_beforeEnd hscan).2
  · obtain ⟨more, stop, found, hafter⟩ := exists_scanned renderer (k + taken.length) after
    have hscan := hpassed.scanned_append hlines (.block _ _ _ _ _ _ _ hreads hafter)
    rw [(documentation_of_beforeEnd hscan).2] at hfault
    cases found with
    | none => cases hfault
    | some found =>
        obtain rfl := Failure.malformedHereDoc.inj (Except.error.inj hfault)
        have hrest : d.beforeEnd.drop (k + taken.length) = after := by
          rw [← List.drop_drop, hlines, List.drop_left]
        have hle := (hafter.tiles hrest (newline_free_beforeEnd hfree)).start_le
        have hnumber := (hafter.stop_of_fault rfl).1
        omega

/-- A definition with a guard, a string that holds a line like a malformed here-document, and,
after a blank line, a here-document between whose quotes no marker stands. -/
def unmarked : Definition :=
  ⟨"f", ["f () ", "\x7b ", "    [[ -t 1 ]] || return", "    : \"one", "    : <<", "two\";", "",
    "    : << \x27\x27", "    echo", "\x7d"]⟩

theorem documentation_malformed_unmarked :
    (∀ line ∈ unmarked.lines, '\n' ∉ line) ∧
      (unmarked.documentation "docsh").result =
        .error (.malformedHereDoc ⟨"    : << \x27\x27", 8⟩) ∧
      (unmarked.scan "docsh").blocks = [.quoted .double "one\n    : <<\ntwo" true] := by
  have hlines : ∀ line ∈ unmarked.lines, '\n' ∉ line := by decide
  have hstart : unmarked.docsStart = 3 := by decide
  have hstring : Reads "docsh" false ["    : \"one", "    : <<", "two\";"]
      (.quoted .double "one\n    : <<\ntwo" true) :=
    .quoted "    : \"one" .double "one" ["    : <<"] "two\";" (by decide) (by decide) (by decide)
  have hpassed : Passed "docsh" unmarked.beforeEnd 3
      [⟨3, ["    : \"one", "    : <<", "two\";"], .quoted .double "one\n    : <<\ntwo" true⟩] 7 :=
    .block ⟨["", "    : << \x27\x27", "    echo"], by decide⟩ hstring
      (.blank (show _ = some [] by decide) (by decide) (.nil _ _ _))
  have hno : AnnouncesNoMarker "    : << \x27\x27" :=
    (Opening.of?_eq_malformed_iff (by decide) "docsh" false).1 (by decide)
  have hat : unmarked.MalformedAt "docsh" 7 _ "    : << \x27\x27" :=
    ⟨hstart ▸ hpassed, by decide, hno⟩
  obtain ⟨hresult, hblocks, -⟩ := documentation_malformed "docsh" unmarked hlines
  exact ⟨hlines, (hresult _).2 ⟨7, _, _, hat, rfl⟩, (hblocks _ _ _ hat).1⟩

end ShellDocs.Definition
