import ShellDocs.Proofs.Block.DocLines
import ShellDocs.Proofs.Block.Scanned

/-!
# Documentation of a body that was cut short

A body that was cut short has the documentation of the whole body up to its last line: rules that
hold only at the end of a body may change that line, and no other. `Reads.take` says so for one
block, `Scanned.take` for a scan by induction on its steps, and `documentation_take` for
definitions. In particular a body that is cut short has no malformed here-document that the whole
body has not.
-/

namespace ShellDocs.Block

variable {renderer : Text}

/-- Lines that agree but for the last one still do after others that are equal. -/
theorem dropLast_append_isPrefix {lines short long : List Text} (h : short.dropLast <+: long) :
    (lines ++ short).dropLast <+: lines ++ long := by
  cases short with
  | nil =>
      rw [List.append_nil]
      exact (List.dropLast_prefix lines).trans (List.prefix_append lines long)
  | cons line short =>
      rw [List.dropLast_append_of_ne_nil (List.cons_ne_nil line short)]
      exact (List.prefix_append_right_inj lines).2 h

/-- A string that is cut short documents the lines before the cut but for the last one. -/
theorem exists_reads_take {line first : Text} {quote : Quote} {body : List Text}
    (ho : Opening.of? renderer false line = some (.quoted quote first))
    (hbody : Unclosed quote (first :: body)) (hlines : ∀ l ∈ body, '\n' ∉ l) (m : Nat) :
    ∃ cut, Reads renderer true (line :: body.take m) cut ∧
      cut.docLines.dropLast <+: (first :: body).map (unquote quote) := by
  have htake : first :: body.take m <+: first :: body :=
    (List.prefix_cons_inj first).2 (List.take_prefix m body)
  have hinit : (first :: body.take m).dropLast <+: first :: body :=
    (List.dropLast_prefix _).trans htake
  obtain ⟨cut, hreads, -, hdocs⟩ := Reads.exists_quoted_last ho (hbody.of_subset hinit.subset)
    (fun l hl => hlines l (List.mem_of_mem_take hl))
  refine ⟨cut, hreads, ?_⟩
  rw [hdocs]
  exact hinit.map (unquote quote)

/-- A block that is cut short documents the same lines but for the last one. -/
theorem Reads.take {last : Bool} {taken : List Text} {block : Block}
    (h : Reads renderer last taken block) (hlines : ∀ line ∈ taken, '\n' ∉ line) {m : Nat}
    (hm : m + 1 < taken.length) :
    ∃ cut, Reads renderer true (taken.take (m + 1)) cut ∧
      cut.docLines.dropLast <+: block.docLines := by
  cases h with
  | plain line text ho => simp at hm
  | hereDoc line marker body mark ho hbody hmark =>
      -- The cut is before the marker, so what is left is a here-document without one.
      simp only [List.length_cons, List.length_append, List.length_nil] at hm
      have htake : (line :: (body ++ [mark])).take (m + 1) = line :: body.take m := by
        rw [List.take_succ_cons, List.take_append_of_le_length (by omega)]
      rw [htake]
      refine ⟨_, .hereDocOpen _ _ _ ho (hbody.of_subset (List.take_subset m body)) rfl, ?_⟩
      exact (List.dropLast_prefix _).trans (List.take_prefix m body)
  | hereDocOpen line marker body ho hbody hend =>
      rw [List.take_succ_cons]
      refine ⟨_, .hereDocOpen _ _ _ ho (hbody.of_subset (List.take_subset m body)) rfl, ?_⟩
      exact (List.dropLast_prefix _).trans (List.take_prefix m body)
  | quotedLine line quote first ho hfirst => simp at hm
  | quoted line quote first body final ho hbody hfinal =>
      simp only [List.length_cons, List.length_append, List.length_nil] at hm
      have hfree : ∀ l ∈ body ++ [final], '\n' ∉ l := fun l hl => hlines l (by simp [hl])
      have htake : (line :: (body ++ [final])).take (m + 1) = line :: body.take m := by
        rw [List.take_succ_cons, List.take_append_of_le_length (by omega)]
      obtain ⟨cut, hreads, hdocs⟩ :=
        exists_reads_take ho hbody (fun l hl => hfree l (by simp [hl])) m
      rw [htake, docLines_closed ho hfree, ← List.cons_append, List.map_append]
      exact ⟨cut, hreads, hdocs.trans (List.prefix_append _ _)⟩
  | quotedOpen line quote first body ho hbody hfinal hend =>
      have hfree : ∀ l ∈ body, '\n' ∉ l := fun l hl => hlines l (by simp [hl])
      rw [List.take_succ_cons, docLines_open ho hfree]
      exact exists_reads_take ho hbody hfree m

/-- A scan of lines that are cut short finds the same documentation but for its last line, and no
fault that was not there before. -/
theorem Scanned.take {index stop : Nat} {lines : List Text} {spans : List Span}
    (h : Scanned renderer index lines spans stop none) (hlines : ∀ line ∈ lines, '\n' ∉ line)
    (m : Nat) :
    ∃ cut stop, Scanned renderer index (lines.take m) cut stop none ∧
      (docs cut).dropLast <+: docs spans := by
  generalize hfault : none = fault at h
  induction h generalizing m with
  | finished index =>
      rw [List.take_nil]
      exact ⟨[], index, .finished index, List.nil_prefix⟩
  | blank index line rest spans stop fault hvoid _ ih =>
      subst hfault
      cases m with
      | zero => exact ⟨[], index, .finished index, List.nil_prefix⟩
      | succ m =>
          obtain ⟨cut, stop, hscan, hdocs⟩ :=
            ih (fun l hl => hlines l (List.mem_cons_of_mem line hl)) m rfl
          rw [List.take_succ_cons]
          exact ⟨cut, stop, .blank _ _ _ _ _ _ hvoid hscan, hdocs⟩
  | stopped index line rest hvoid ho =>
      cases m with
      | zero => exact ⟨[], index, .finished index, List.nil_prefix⟩
      | succ m =>
          rw [List.take_succ_cons]
          cases hcut : Opening.of? renderer (rest.take m).isEmpty line with
          | none => exact ⟨[], index, .stopped _ _ _ hvoid hcut, List.nil_prefix⟩
          | some opening =>
              -- The line opens a block only because it has become the last one.
              have hfalse := Opening.of?_false_eq_none ho
              have hempty : (rest.take m).isEmpty = true := by
                cases hlast : (rest.take m).isEmpty with
                | true => rfl
                | false => simp [hlast, hfalse] at hcut
              rw [hempty] at hcut
              obtain ⟨text, rfl⟩ := Opening.of?_true_eq_plain hfalse hcut
              rw [List.isEmpty_iff.1 hempty]
              refine ⟨_, _, .block _ [line] [] _ _ _ _ (.plain _ _ hcut) (.finished _), ?_⟩
              exact List.nil_prefix
  | malformed index line rest ho => cases hfault
  | block index taken after block spans stop fault hreads _ ih =>
      subst hfault
      -- The cut is inside this block or behind it.
      by_cases hm : m < taken.length
      · rw [List.take_append_of_le_length (Nat.le_of_lt hm)]
        cases m with
        | zero => exact ⟨[], index, .finished index, List.nil_prefix⟩
        | succ m =>
            obtain ⟨cut, hcut, hdocs⟩ := hreads.take (fun l hl => hlines l (by simp [hl])) hm
            have hscan := Scanned.block index _ [] cut [] _ none hcut (.finished _)
            rw [List.append_nil] at hscan
            refine ⟨_, _, hscan, ?_⟩
            rw [docs_cons, docs_cons, docs_nil, List.append_nil]
            exact hdocs.trans (List.prefix_append _ _)
      · obtain ⟨cut, stop, hscan, hdocs⟩ :=
          ih (fun l hl => hlines l (by simp [hl])) (m - taken.length) rfl
        have hreads : Reads renderer (after.take (m - taken.length)).isEmpty taken block := by
          refine hreads.of_imp fun hempty => ?_
          simp [List.isEmpty_iff.1 hempty]
        rw [List.take_append, List.take_of_length_le (by omega)]
        refine ⟨_, _, .block _ _ _ _ _ _ _ hreads hscan, ?_⟩
        rw [docs_cons, docs_cons]
        exact dropLast_append_isPrefix hdocs

end ShellDocs.Block

namespace ShellDocs.Definition

open Block

/-- A definition whose body was cut short is documented if the whole one is, and without its last
line its documentation is the beginning of that of the whole one. -/
theorem documentation_take (renderer : Text) (d cut : Definition) (m : Nat)
    (hlines : ∀ line ∈ d.body, '\n' ∉ line) (hbody : cut.body = d.body.take m) (docs : Docstring)
    (h : (d.documentation renderer).result = .ok docs) :
    ∃ cutDocs, (cut.documentation renderer).result = .ok cutDocs ∧
      cutDocs.lines.dropLast <+: docs.lines := by
  obtain ⟨spans, stop, fault, hscan⟩ := exists_scanned renderer (2 + guardLines d.body)
    (d.body.drop (guardLines d.body))
  rw [documentation_of_scanned hscan] at h
  cases fault with
  | some fault => cases h
  | none =>
      cases h
      have hrest : ∀ line ∈ d.body.drop (guardLines d.body), '\n' ∉ line :=
        fun line hline => hlines line (List.mem_of_mem_drop hline)
      obtain ⟨found, stop, hfound, hdocs⟩ := hscan.take hrest (m - guardLines d.body)
      cases m with
      | zero =>
          -- The guard may be cut off too, and then nothing is left to scan.
          have hnil : cut.body = [] := by simpa using hbody
          have hempty : Scanned renderer (2 + guardLines cut.body)
              (cut.body.drop (guardLines cut.body)) [] 2 none := by
            rw [hnil]
            exact .finished 2
          exact ⟨_, documentation_of_scanned hempty, List.nil_prefix⟩
      | succ m =>
          have hguard : guardLines cut.body = guardLines d.body := by
            simp [hbody, guardLines, List.head?_take]
          rw [← List.drop_take, ← hbody, ← hguard] at hfound
          exact ⟨_, documentation_of_scanned hfound, hdocs⟩

/-- A definition with a string of three lines. -/
def verse : Definition :=
  ⟨"f", ["f () ", "\x7b ", ": \"one", "two\"", "three\";", "\x7d"]⟩

/-- The same definition without the last line of its string. The quote that was text in the string
is now its end. -/
def verseCut : Definition :=
  ⟨"f", ["f () ", "\x7b ", ": \"one", "two\"", "\x7d"]⟩

theorem documentation_take_verse :
    (verse.documentation "docsh").result = .ok ⟨["one", "two\"", "three"]⟩ ∧
    (verseCut.documentation "docsh").result = .ok ⟨["one", "two"]⟩ ∧
    (["one", "two"] : List Text).dropLast <+: ["one", "two\"", "three"] := by
  have hverse : (verse.documentation "docsh").result = .ok ⟨["one", "two\"", "three"]⟩ := by cbv
  have hcut : (verseCut.documentation "docsh").result = .ok ⟨["one", "two"]⟩ := by cbv
  obtain ⟨docs, hdocs, hbegin⟩ :=
    documentation_take "docsh" verse verseCut 2 (by decide) (by decide) _ hverse
  rw [hcut] at hdocs
  cases hdocs
  exact ⟨hverse, hcut, hbegin⟩

end ShellDocs.Definition
