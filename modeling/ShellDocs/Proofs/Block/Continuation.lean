import ShellDocs.Proofs.Block.DocLines
import ShellDocs.Proofs.Block.Scanned

/-!
# What lines after a body change

Whether lines after a body change its documentation depends on its blocks alone. A body is
`Settled` when each of its blocks has an end of its own: a semicolon after plain text, the quote
and a semicolon after a string, the marker line after a here-document. Lines that document nothing
leave the documentation of a settled body alone (`Scanned.append_of_settled`), and lines that end
no block (`Runover`) change the number of its lines otherwise (`Scanned.append_of_unsettled`).
-/

namespace ShellDocs.Block

variable {renderer : Text} {index stop : Nat} {lines tail : List Text} {spans : List Span}
  {fault : Option Malformed}

/-- Every block is read from its lines without the rules for the end of a body. -/
def Settled (renderer : Text) (spans : List Span) : Prop :=
  ∀ s ∈ spans, Reads renderer false s.lines s.block

/-- Lines that end no block: none but the last closes a string, and none is a marker. -/
structure Runover (tail : List Text) : Prop where
  ne_nil : tail ≠ []
  newline_free : ∀ line ∈ tail, '\n' ∉ line
  unclosed : ∀ quote, Unclosed quote tail.dropLast
  unmarked : ∀ marker, marker ≠ [] → (∀ c ∈ marker, isMarkerChar c = true) → Unmarked marker tail

/-- Lines after a body whose blocks are settled are not read, if the first of them is not white
space and opens nothing. -/
theorem Scanned.append_of_settled (h : Scanned renderer index lines spans stop fault)
    (hsettled : Settled renderer spans) {line : Text} {rest : List Text}
    (hvoid : Text.isVoid line = false) (ho : Opening.of? renderer rest.isEmpty line = none) :
    ∃ stop, Scanned renderer index (lines ++ line :: rest) spans stop fault := by
  induction h with
  | finished index => exact ⟨index, .stopped _ _ _ hvoid ho⟩
  | blank index first more spans stop fault hfirst _ ih =>
      obtain ⟨stop, hscan⟩ := ih hsettled
      exact ⟨stop, .blank _ _ _ _ _ _ hfirst hscan⟩
  | stopped index first more hfirst hnone =>
      have hmore : (more ++ line :: rest).isEmpty = false := by simp
      have hfalse : Opening.of? renderer (more ++ line :: rest).isEmpty first = none := by
        rw [hmore]
        exact Opening.of?_false_eq_none hnone
      exact ⟨index, .stopped _ _ _ hfirst hfalse⟩
  | malformed index first more hmalformed => exact ⟨index, .malformed _ _ _ hmalformed⟩
  | block index taken after block spans stop fault hreads _ ih =>
      obtain ⟨hblock, hspans⟩ := List.forall_mem_cons.1 hsettled
      obtain ⟨stop, hscan⟩ := ih hspans
      rw [List.append_assoc]
      exact ⟨stop, .block _ _ _ _ _ _ _ (hblock.of_false _) hscan⟩

/-- A string that needs the end of its body goes on in the lines after it. -/
theorem exists_scanned_quoted {line first : Text} {quote : Quote} {body : List Text}
    (ho : Opening.of? renderer false line = some (.quoted quote first))
    (hbody : Unclosed quote (first :: body)) (hlines : ∀ l ∈ body, '\n' ∉ l)
    (htail : Runover tail) (index : Nat) :
    ∃ spans stop, Scanned renderer index (line :: body ++ tail) spans stop none ∧
      (docs spans).length = body.length + 1 + tail.length := by
  have hunclosed : Unclosed quote (first :: (body ++ tail)).dropLast := by
    rw [← List.cons_append, List.dropLast_append_of_ne_nil htail.ne_nil]
    intro l hl
    rcases List.mem_append.1 hl with hl | hl
    · exact hbody l hl
    · exact htail.unclosed quote l hl
  have hfree : ∀ l ∈ body ++ tail, '\n' ∉ l := by
    intro l hl
    rcases List.mem_append.1 hl with hl | hl
    · exact hlines l hl
    · exact htail.newline_free l hl
  obtain ⟨block, hreads, hlength, -⟩ := Reads.exists_quoted_last ho hunclosed hfree
  have hscan := Scanned.block index _ [] block [] _ none hreads (.finished _)
  rw [List.append_nil] at hscan
  refine ⟨_, _, hscan, ?_⟩
  rw [docs_cons, docs_nil, List.append_nil, hlength, List.length_append]
  omega

/-- A block that needs the end of its body documents another number of lines when more follow. -/
theorem Reads.exists_scanned_append {taken : List Text} {block : Block}
    (h : Reads renderer true taken block) (hunsettled : ¬ Reads renderer false taken block)
    (hlines : ∀ line ∈ taken, '\n' ∉ line) (htail : Runover tail) (index : Nat) :
    ∃ spans stop, Scanned renderer index (taken ++ tail) spans stop none ∧
      (docs spans).length ≠ block.docLines.length := by
  have hpos := List.length_pos_of_ne_nil htail.ne_nil
  have haccounts := h.accounts hlines
  cases h with
  | plain line text ho =>
      -- Without its semicolon the line opens nothing, and the scan stops there.
      have hnone : Opening.of? renderer false line = none := by
        cases hfalse : Opening.of? renderer false line with
        | none => rfl
        | some opening =>
            have hsame := Opening.of?_of_false hfalse true
            rw [ho] at hsame
            cases hsame
            exact absurd (.plain _ _ hfalse) hunsettled
      have hempty : tail.isEmpty = false := List.isEmpty_eq_false_iff.2 htail.ne_nil
      refine ⟨[], index, .stopped _ _ _ (Opening.isVoid_eq_false ho) (hempty ▸ hnone), ?_⟩
      simp [docLines]
  | hereDoc line marker body mark ho hbody hmark =>
      exact absurd (.hereDoc _ _ _ _ ho hbody hmark) hunsettled
  | hereDocOpen line marker body ho hbody hend =>
      obtain ⟨hne, hchars⟩ := Opening.marker_spec ho
      have hunmarked : Unmarked marker (body ++ tail) := by
        intro l hl
        rcases List.mem_append.1 hl with hl | hl
        · exact hbody l hl
        · exact htail.unmarked marker hne hchars l hl
      have hscan := Scanned.block index _ [] _ [] _ none
        (.hereDocOpen _ _ _ ho hunmarked rfl) (.finished _)
      rw [List.append_nil] at hscan
      refine ⟨_, _, hscan, ?_⟩
      simp only [docs_cons, docs_nil, docLines, List.length_append, List.length_nil]
      omega
  | quotedLine line quote first ho hfirst =>
      have hopen : closes quote false first = false := by
        cases hfalse : closes quote false first with
        | false => rfl
        | true => exact absurd (.quotedLine _ _ _ ho hfalse) hunsettled
      have hunclosed : Unclosed quote [first] := by
        simpa [Unclosed] using hopen
      obtain ⟨spans, stop, hscan, hlength⟩ := exists_scanned_quoted ho hunclosed (by simp) htail
        index
      refine ⟨spans, stop, hscan, ?_⟩
      simp only [Accounts, List.length_cons, List.length_nil] at haccounts hlength
      omega
  | quoted line quote first body final ho hbody hfinal =>
      have hopen : closes quote false final = false := by
        cases hfalse : closes quote false final with
        | false => rfl
        | true => exact absurd (.quoted _ _ _ _ _ ho hbody hfalse) hunsettled
      have hunclosed : Unclosed quote (first :: (body ++ [final])) := by
        intro l hl
        rw [← List.cons_append] at hl
        rcases List.mem_append.1 hl with hl | hl
        · exact hbody l hl
        · rw [List.mem_singleton.1 hl]
          exact hopen
      obtain ⟨spans, stop, hscan, hlength⟩ := exists_scanned_quoted ho hunclosed
        (fun l hl => hlines l (List.mem_cons_of_mem line hl)) htail index
      refine ⟨spans, stop, hscan, ?_⟩
      simp only [Accounts, List.length_cons] at haccounts
      omega
  | quotedOpen line quote first body ho hbody hfinal hend =>
      obtain ⟨spans, stop, hscan, hlength⟩ := exists_scanned_quoted ho hbody
        (fun l hl => hlines l (List.mem_cons_of_mem line hl)) htail index
      refine ⟨spans, stop, hscan, ?_⟩
      simp only [Accounts, List.length_cons] at haccounts
      omega

/-- Lines after a body with a block that is not settled change the number of lines that are
documented. -/
theorem Scanned.append_of_unsettled (h : Scanned renderer index lines spans stop fault)
    (hunsettled : ¬ Settled renderer spans) (hlines : ∀ line ∈ lines, '\n' ∉ line)
    (htail : Runover tail) :
    fault = none ∧ ∃ more stop, Scanned renderer index (lines ++ tail) more stop none ∧
      (docs more).length ≠ (docs spans).length := by
  induction h with
  | finished index => exact absurd (by simp [Settled]) hunsettled
  | blank index line rest spans stop fault hvoid _ ih =>
      obtain ⟨hfault, more, stop, hscan, hdocs⟩ :=
        ih hunsettled fun l hl => hlines l (List.mem_cons_of_mem line hl)
      exact ⟨hfault, more, stop, .blank _ _ _ _ _ _ hvoid hscan, hdocs⟩
  | stopped index line rest hvoid ho => exact absurd (by simp [Settled]) hunsettled
  | malformed index line rest ho => exact absurd (by simp [Settled]) hunsettled
  | block index taken after block spans stop fault hreads hrest ih =>
      by_cases hblock : Reads renderer false taken block
      · have hspans : ¬ Settled renderer spans := fun hspans =>
          hunsettled (List.forall_mem_cons.2 ⟨hblock, hspans⟩)
        obtain ⟨hfault, more, stop, hscan, hdocs⟩ :=
          ih hspans fun l hl => hlines l (by simp [hl])
        refine ⟨hfault, ⟨index, taken, block⟩ :: more, stop, ?_, ?_⟩
        · rw [List.append_assoc]
          exact .block _ _ _ _ _ _ _ (hblock.of_false _) hscan
        · rw [docs_cons, docs_cons, List.length_append, List.length_append]
          omega
      · -- The block needs the end of the body, so no other line follows it.
        cases after with
        | cons line rest => exact absurd hreads hblock
        | nil =>
            obtain ⟨rfl, rfl⟩ := hrest.eq_nil
            obtain ⟨more, stop, hscan, hdocs⟩ := hreads.exists_scanned_append hblock
              (fun l hl => hlines l (by simp [hl])) htail index
            refine ⟨rfl, more, stop, ?_, ?_⟩
            · rw [List.append_nil]
              exact hscan
            · rw [docs_cons, docs_nil, List.append_nil]
              exact hdocs

/-! ## Bodies -/

/-- Every block at the head of a body has an end of its own. -/
def SettledBody (renderer : Text) (body : List Text) : Prop :=
  ∃ spans stop fault, Scanned renderer (2 + guardLines body) (body.drop (guardLines body)) spans
    stop fault ∧ Settled renderer spans

/-- Lines after a body are scanned after it, if they have no guard that an empty body would let
pass for its own. -/
theorem guardLines_append (body : List Text) {tail : List Text} (h : guardLines tail = 0) :
    guardLines (body ++ tail) = guardLines body ∧
      (body ++ tail).drop (guardLines body) = body.drop (guardLines body) ++ tail := by
  cases body with
  | nil => exact ⟨h, rfl⟩
  | cons line rest =>
      refine ⟨rfl, ?_⟩
      rw [List.drop_append_of_le_length]
      unfold guardLines
      split
      · exact Nat.le_add_left 1 rest.length
      · exact Nat.zero_le _

end ShellDocs.Block
