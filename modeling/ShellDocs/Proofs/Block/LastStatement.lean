import ShellDocs.Proofs.Block.Scanned
import ShellDocs.Proofs.Block.Semicolon

/-!
# The last statement of a body

A shell prints no semicolon after the last statement of a body. This makes no difference to the
documentation: a block that ends in a semicolon in the middle of a body is read alike without it
at the end (`Reads.without_semicolon`), and so is everything before that block
(`Scanned.without_semicolon`, by induction on the steps of the scan). The main statement is
`scan_without_semicolon`.
-/

namespace ShellDocs.Block

variable {renderer line after : Text} {index stop : Nat} {lines : List Text} {spans : List Span}
  {fault : Option Malformed} {block : Block}

/-- A block that ends with a semicolon in the middle of a body is read alike from the same lines
without it at the end of a body. -/
theorem Reads.without_semicolon (h : Reads renderer false (lines ++ [line ++ [';']]) block)
    (hline : '\n' ∉ line)
    (hlast : ∀ c, line.getLast? = some c → c ≠ ';' ∧ Text.isBlank c = false) :
    Reads renderer true (lines ++ [line]) block := by
  generalize htaken : lines ++ [line ++ [';']] = taken at h
  cases h with
  | plain first text ho =>
      rw [← List.nil_append [first]] at htaken
      obtain ⟨rfl, hfirst⟩ := List.append_inj' htaken rfl
      cases hfirst
      exact .plain _ _ (Opening.of?_plain_semicolon hline hlast ho)
  | hereDoc first marker body mark ho hbody hmark =>
      rw [← List.cons_append] at htaken
      obtain ⟨rfl, hmem⟩ := List.append_inj' htaken rfl
      cases hmem
      exact absurd hmark (skipBlanks_semicolon_ne ho)
  | hereDocOpen first marker body ho hbody hend => cases hend
  | quotedLine first quote start ho hstart =>
      rw [← List.nil_append [first]] at htaken
      obtain ⟨rfl, hfirst⟩ := List.append_inj' htaken rfl
      cases hfirst
      obtain ⟨rest, rfl, hopens⟩ := Opening.of?_quoted_semicolon hline ho
      obtain ⟨hclosed, hcut⟩ := closes_semicolon hstart
      rw [← hcut]
      exact .quotedLine _ _ _ hopens hclosed
  | quoted first quote start body final ho hbody hfinal =>
      rw [← List.cons_append] at htaken
      obtain ⟨rfl, hmem⟩ := List.append_inj' htaken rfl
      cases hmem
      obtain ⟨hclosed, hcut⟩ := closes_semicolon hfinal
      rw [← hcut]
      exact .quoted _ _ _ _ _ ho hbody hclosed
  | quotedOpen first quote start body ho hbody hfinal hend => cases hend

/-- A line that opens no block, not even as the last of a body, holds none. -/
theorem Scanned.eq_nil_of_shut (h : Scanned renderer index [after] spans stop fault)
    (hvoid : Text.isVoid after = false)
    (hshut : ∀ opening, Opening.of? renderer true after = some opening → opening = .malformed) :
    spans = [] := by
  generalize hlines : [after] = lines at h
  cases h with
  | finished index => rfl
  | blank index first rest spans stop fault hfirst hrest =>
      cases hlines
      rw [hvoid] at hfirst
      cases hfirst
  | stopped index first rest hfirst ho => rfl
  | malformed index first rest ho => rfl
  | block index taken rest block spans stop fault hreads hrest =>
      obtain ⟨first, more, opening, rfl, ho, hne⟩ := hreads.exists_opening
      obtain ⟨rfl, hnil⟩ := List.cons.inj hlines
      obtain ⟨rfl, rfl⟩ := List.append_eq_nil_iff.1 hnil.symm
      exact absurd (hshut opening ho) hne

/-- A beginning of lines that two more follow leaves some of the lines, or only the last of the two,
or nothing. -/
theorem append_eq_append_pair {α : Type} {taken tail lines : List α} {a b : α}
    (h : taken ++ tail = lines ++ [a, b]) :
    (∃ more, lines = taken ++ more ∧ tail = more ++ [a, b]) ∨
      taken = lines ++ [a] ∧ tail = [b] ∨ taken = lines ++ [a, b] ∧ tail = [] := by
  rcases List.append_eq_append_iff.1 h with ⟨more, hlines, htail⟩ | ⟨beyond, htaken, hpair⟩
  · exact .inl ⟨more, hlines, htail⟩
  · match beyond with
    | [] => exact .inl ⟨[], by simpa using htaken.symm, by simpa using hpair.symm⟩
    | [c] =>
        obtain ⟨rfl, rfl⟩ := List.cons.inj hpair
        exact .inr (.inl ⟨htaken, rfl⟩)
    | c :: d :: beyond =>
        simp only [List.cons_append, List.cons.injEq, List.nil_eq, List.append_eq_nil_iff] at hpair
        obtain ⟨rfl, rfl, rfl, rfl⟩ := hpair
        exact .inr (.inr ⟨htaken, rfl⟩)

/-- If a block ends on a line with a semicolon, and the line after it opens none, then the lines
up to there hold the same blocks without the semicolon. -/
theorem Scanned.without_semicolon {all : List Text} {span : Span}
    (h : Scanned renderer index all spans stop fault)
    (hall : all = lines ++ [line ++ [';'], after]) (hline : '\n' ∉ line)
    (hlast : ∀ c, line.getLast? = some c → c ≠ ';' ∧ Text.isBlank c = false)
    (hvoid : Text.isVoid after = false)
    (hshut : ∀ opening, Opening.of? renderer true after = some opening → opening = .malformed)
    (hmem : span ∈ spans) (hends : span.next = index + lines.length + 1) :
    ∃ found stop, Scanned renderer index (lines ++ [line]) found stop none ∧
      found.map Span.block = spans.map Span.block := by
  induction h generalizing lines with
  | finished index => cases hmem
  | blank index first rest spans stop fault hfirst _ ih =>
      cases lines with
      | nil =>
          obtain ⟨rfl, -⟩ := List.cons.inj hall
          have hsome : Text.isVoid (line ++ [';']) = false :=
            Text.isVoid_eq_false_of_mem (c := ';') (by simp) (by decide)
          rw [hsome] at hfirst
          cases hfirst
      | cons l lines =>
          obtain ⟨rfl, hrest⟩ := List.cons.inj hall
          rw [List.length_cons] at hends
          obtain ⟨found, stop, hscan, hblocks⟩ := ih hrest hmem (by omega)
          exact ⟨found, stop, .blank _ _ _ _ _ _ hfirst hscan, hblocks⟩
  | stopped index first rest hfirst ho => cases hmem
  | malformed index first rest ho => cases hmem
  | block index taken tail block spans stop fault hreads hrest ih =>
      -- The block ends before the line, on it, or on the line after it.
      obtain ⟨more, rfl, rfl⟩ | ⟨rfl, rfl⟩ | ⟨rfl, rfl⟩ := append_eq_append_pair hall
      · rw [List.length_append] at hends
        have hlater : span ∈ spans := by
          rcases List.mem_cons.1 hmem with rfl | hlater
          · simp only [Span.next] at hends
            omega
          · exact hlater
        obtain ⟨found, stop, hscan, hblocks⟩ := ih rfl hlater (by omega)
        have hmore : (more ++ [line ++ [';'], after]).isEmpty = false := by simp
        rw [hmore] at hreads
        refine ⟨⟨index, taken, block⟩ :: found, stop, ?_, ?_⟩
        · rw [List.append_assoc]
          exact .block _ _ _ _ _ _ _ (hreads.of_false _) hscan
        · rw [List.map_cons, List.map_cons, hblocks]
      · obtain rfl := hrest.eq_nil_of_shut hvoid hshut
        have hscan := Scanned.block index _ [] block [] _ none
          (hreads.without_semicolon hline hlast) (.finished _)
        rw [List.append_nil] at hscan
        exact ⟨_, _, hscan, rfl⟩
      · obtain ⟨rfl, -⟩ := hrest.eq_nil
        obtain rfl := List.mem_singleton.1 hmem
        simp only [Span.next, List.length_append, List.length_cons, List.length_nil] at hends
        omega

end ShellDocs.Block

namespace ShellDocs.Definition

open Block

/-- The scan of a definition reads a block whose last line has the given index. -/
def BlockEndsAt (renderer : Text) (d : Definition) (index : Nat) : Prop :=
  ∃ spans stop fault, Scanned renderer (2 + guardLines d.body) (d.body.drop (guardLines d.body))
    spans stop fault ∧ ∃ span ∈ spans, span.next = index + 1

/-- A guard is passed over in a body with the semicolon and in one without it, or in neither. -/
theorem guardLines_without_semicolon {d other : Definition} {lines : List Text}
    {line after : Text} (hbody : d.body = lines ++ [line ++ [';'], after])
    (hother : other.body = lines ++ [line]) (hone : lines = [] → guardLines d.body = 0) :
    guardLines other.body = guardLines d.body ∧ guardLines d.body ≤ lines.length := by
  cases lines with
  | nil =>
      have hzero := hone rfl
      refine ⟨?_, hzero.le⟩
      rw [hzero]
      cases hguard : isGuard line with
      | false => simp [hother, guardLines, hguard]
      | true => simp [hbody, guardLines, isGuard_semicolon hguard] at hzero
  | cons first rest =>
      refine ⟨by simp [hbody, hother, guardLines], ?_⟩
      simp only [guardLines, List.length_cons]
      split <;> omega

/-- A body that goes on after a block with a semicolon, with a line that opens no block, has the
same blocks as the body that ends there without it. The block is plain text or a string, since no
here-document ends in a semicolon. -/
theorem scan_without_semicolon (renderer : Text) {d other : Definition} {lines : List Text}
    {line after : Text} (hbody : d.body = lines ++ [line ++ [';'], after])
    (hother : other.body = lines ++ [line]) (hline : '\n' ∉ line)
    (hlast : ∀ c, line.getLast? = some c → c ≠ ';' ∧ Text.isBlank c = false)
    (hvoid : Text.isVoid after = false)
    (hshut : ∀ opening, Opening.of? renderer true after = some opening → opening = .malformed)
    (hends : d.BlockEndsAt renderer (2 + lines.length)) :
    (other.scan renderer).blocks = (d.scan renderer).blocks ∧
      (other.scan renderer).malformed = none := by
  obtain ⟨spans, stop, fault, hscan, span, hmem, hnext⟩ := hends
  obtain ⟨hguard, hle⟩ := guardLines_without_semicolon hbody hother fun hnil => by
    -- A guard on the only line before the last would leave no line for a block.
    by_contra hne
    have hone : guardLines d.body = 1 := by
      simp only [guardLines] at hne ⊢
      split <;> simp_all
    rw [hone, hbody, hnil] at hscan
    obtain rfl := hscan.eq_nil_of_shut hvoid hshut
    cases hmem
  have hdrop : d.body.drop (guardLines d.body) =
      lines.drop (guardLines d.body) ++ [line ++ [';'], after] := by
    rw [← List.drop_append_of_le_length hle, ← hbody]
  have hdrop' : other.body.drop (guardLines other.body) =
      lines.drop (guardLines d.body) ++ [line] := by
    rw [hguard, ← List.drop_append_of_le_length hle, ← hother]
  obtain ⟨found, stop', hfound, hblocks⟩ :=
    hscan.without_semicolon hdrop hline hlast hvoid hshut hmem (by
      rw [List.length_drop]
      omega)
  rw [← hdrop', ← hguard] at hfound
  obtain ⟨hfoundBlocks, hfault⟩ := hfound.scanBody_eq
  exact ⟨by rw [scan, scan, hfoundBlocks, hscan.scanBody_eq.1, hblocks], hfault⟩

/-- A definition with a guard, a here-document, a string over two lines and one statement more. -/
def recipe : Definition :=
  ⟨"f", ["f () ", "\x7b ", "    [[ $1 == -h ]]", "    : <<END", "a;", "END", "",
    "    docsh -T \"one", "two\\\"\";", "    echo", "\x7d"]⟩

/-- The same definition without the statement, as a shell prints it. -/
def recipeCut : Definition :=
  ⟨"f", ["f () ", "\x7b ", "    [[ $1 == -h ]]", "    : <<END", "a;", "END", "",
    "    docsh -T \"one", "two\\\"\"", "\x7d"]⟩

theorem blockEndsAt_recipe : recipe.BlockEndsAt "docsh" 8 := by
  have hdoc : Reads "docsh" false ["    : <<END", "a;", "END"] (.hereDoc "END" ["a;"]) :=
    .hereDoc _ _ ["a;"] _ (by decide +kernel) (by decide) (by decide)
  have hquoted : Reads "docsh" false ["    docsh -T \"one", "two\\\"\";"]
      (.quoted .double "one\ntwo\"" true) :=
    .quoted _ _ "one" [] "two\\\"\";" (by decide +kernel) (by decide) (by decide)
  have hscan : Scanned "docsh" 3 (recipe.body.drop 1) [⟨3, _, _⟩, ⟨7, _, _⟩] 9 none :=
    .block 3 _ _ _ _ _ _ hdoc (.blank _ _ _ _ _ _ (by decide)
      (.block 7 _ ["    echo"] _ _ _ _ hquoted (.stopped _ _ _ (by decide) (by decide +kernel))))
  exact ⟨_, _, _, hscan, _, List.mem_cons_of_mem _ List.mem_cons_self, rfl⟩

theorem scan_without_semicolon_recipe :
    recipe.BlockEndsAt "docsh" 8 ∧
    (recipe.scan "docsh").blocks =
      [.hereDoc "END" ["a;"], .quoted .double "one\ntwo\"" true] ∧
    (recipeCut.scan "docsh").blocks = (recipe.scan "docsh").blocks ∧
    (recipeCut.scan "docsh").malformed = none := by
  have hbody : recipe.body =
      recipe.body.take 6 ++ [("two\\\"\"" : Text) ++ [';'], "    echo"] := by decide
  have hcut : recipeCut.body = recipe.body.take 6 ++ [("two\\\"\"" : Text)] := by decide
  have hnone : Opening.of? "docsh" true "    echo" = none := by decide +kernel
  have hshut : ∀ opening, Opening.of? "docsh" true "    echo" = some opening →
      opening = .malformed := fun opening h => by
    rw [hnone] at h
    cases h
  have hlast : ∀ c, ("two\\\"\"" : Text).getLast? = some c →
      c ≠ ';' ∧ Text.isBlank c = false := by
    intro c hc
    obtain rfl := Option.some.inj hc
    decide
  exact ⟨blockEndsAt_recipe, by decide +kernel,
    scan_without_semicolon "docsh" hbody hcut (by decide) hlast (by decide) hshut
      blockEndsAt_recipe⟩

end ShellDocs.Definition
