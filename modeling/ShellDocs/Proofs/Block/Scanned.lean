import ShellDocs.Extraction
import ShellDocs.Proofs.Block.Reads

/-!
# The scan as a relation

`Scanned renderer index lines spans stop fault` says how a scan goes through `lines`, of which
the first has the given index: it finds the blocks of `spans`, each with the lines it was read
from, and it ends at the index `stop`, with a `fault` if a here-document is malformed there.
`exists_scanned` says that every list of lines is scanned, and `Scanned.scanFrom_eq` that the
executable scan finds what the relation says. Later modules reason about `Scanned` only.
-/

namespace ShellDocs.Block

/-- A block with the lines it was read from, of which the first has the index `first`. -/
structure Span where
  first : Nat
  lines : List Text
  block : Block
  deriving DecidableEq, Repr

/-- The index of the first line after a block. -/
def Span.next (s : Span) : Nat := s.first + s.lines.length

/-- The documentation in blocks, in order. -/
def docs (spans : List Span) : List Text := spans.flatMap fun s => s.block.docLines

@[simp] theorem docs_nil : docs [] = [] := rfl

@[simp] theorem docs_cons (s : Span) (spans : List Span) :
    docs (s :: spans) = s.block.docLines ++ docs spans := by
  simp [docs]

/-- `Scanned renderer index lines spans stop fault` says that a scan from the line with the given
index finds the blocks of `spans` and ends at the index `stop`, with the `fault` found there. -/
inductive Scanned (renderer : Text) :
    Nat → List Text → List Span → Nat → Option Malformed → Prop where
  | finished (index) : Scanned renderer index [] [] index none
  | blank (index line rest spans stop fault) :
      Text.isVoid line = true → Scanned renderer (index + 1) rest spans stop fault →
      Scanned renderer index (line :: rest) spans stop fault
  | stopped (index line rest) :
      Text.isVoid line = false → Opening.of? renderer rest.isEmpty line = none →
      Scanned renderer index (line :: rest) [] index none
  | malformed (index line rest) :
      Opening.of? renderer false line = some .malformed →
      Scanned renderer index (line :: rest) [] index (some ⟨line, index + 1⟩)
  | block (index taken after block spans stop fault) :
      Reads renderer after.isEmpty taken block →
      Scanned renderer (index + taken.length) after spans stop fault →
      Scanned renderer index (taken ++ after) (⟨index, taken, block⟩ :: spans) stop fault

variable {renderer : Text}

/-- Nothing is found where there are no lines. -/
theorem Scanned.eq_nil {index stop : Nat} {spans : List Span} {fault : Option Malformed}
    (h : Scanned renderer index [] spans stop fault) : spans = [] ∧ fault = none := by
  generalize hlines : ([] : List Text) = lines at h
  cases h with
  | finished index => exact ⟨rfl, rfl⟩
  | blank index line rest spans stop fault hvoid hrest => cases hlines
  | stopped index line rest hvoid ho => cases hlines
  | malformed index line rest ho => cases hlines
  | block index taken after block spans stop fault hreads hrest =>
      have htaken : taken = [] := (List.append_eq_nil_iff.1 hlines.symm).1
      exact absurd htaken hreads.ne_nil

/-! ## One step of the executable scan -/

/-- A line that opens a block is not white space. -/
theorem Opening.isVoid_eq_false {line : Text} {last : Bool} {opening : Opening}
    (h : Opening.of? renderer last line = some opening) : Text.isVoid line = false := by
  cases hvoid : Text.isVoid line with
  | false => rfl
  | true => simp [Opening.of?_of_isVoid hvoid] at h

theorem scanFrom_nil (number : Nat) : scanFrom renderer number [] = ⟨[], [], none⟩ := by
  rw [scanFrom]

theorem scanFrom_blank {line : Text} (h : Text.isVoid line = true) (number : Nat)
    (rest : List Text) :
    scanFrom renderer number (line :: rest) = scanFrom renderer (number + 1) rest := by
  rw [scanFrom, if_pos h]

theorem scanFrom_stopped {line : Text} {rest : List Text} (hvoid : Text.isVoid line = false)
    (ho : Opening.of? renderer rest.isEmpty line = none) (number : Nat) :
    scanFrom renderer number (line :: rest) = ⟨[], [.stopped number (Text.strip line)], none⟩ := by
  rw [scanFrom, if_neg (by simp [hvoid])]
  simp only [ho]

theorem scanFrom_malformed {line : Text}
    (ho : Opening.of? renderer false line = some .malformed) (number : Nat) (rest : List Text) :
    scanFrom renderer number (line :: rest) = ⟨[], [], some ⟨line, number⟩⟩ := by
  rw [scanFrom, if_neg (by simp [Opening.isVoid_eq_false ho])]
  simp only [Opening.of?_of_false ho]

/-- The number of the line after a block, from the number of its first line. The scan counts the
lines of a block by what is left after it. -/
theorem number_after (number : Nat) (more after : List Text) :
    number + 1 + ((more ++ after).length - after.length) = number + (more.length + 1) := by
  rw [List.length_append]
  omega

/-- A scan with blocks and remarks before its own. -/
def Scan.prepend (blocks : List Block) (notices : List Notice) (s : Scan) : Scan :=
  ⟨blocks ++ s.blocks, notices ++ s.notices, s.malformed⟩

/-- The scan goes on after a here-document, with the lines counted. -/
theorem scanFrom_hereDoc {line marker : Text} {more after : List Text} {block : Block}
    {notices : List Notice} (ho : Opening.of? renderer false line = some (.hereDoc marker))
    (hread : readHereDoc marker (more ++ after) = ⟨block, after, notices⟩) (number : Nat) :
    scanFrom renderer number (line :: (more ++ after)) =
      (scanFrom renderer (number + (more.length + 1)) after).prepend [block] notices := by
  rw [scanFrom, if_neg (by simp [Opening.isVoid_eq_false ho])]
  simp only [Opening.of?_of_false ho, hread, number_after]
  rfl

/-- The scan goes on after a quoted block, with the lines counted. -/
theorem scanFrom_quoted {line first : Text} {quote : Quote} {more after : List Text}
    {block : Block} {notices : List Notice}
    (ho : Opening.of? renderer false line = some (.quoted quote first))
    (hread : readQuoted quote first (more ++ after) = ⟨block, after, notices⟩) (number : Nat) :
    scanFrom renderer number (line :: (more ++ after)) =
      (scanFrom renderer (number + (more.length + 1)) after).prepend [block] notices := by
  rw [scanFrom, if_neg (by simp [Opening.isVoid_eq_false ho])]
  simp only [Opening.of?_of_false ho, hread, number_after]
  rfl

/-- The scan takes exactly the lines of the first block and goes on after them. Only a block that
lacks its end is remarked on, and no remark tells that the scan stops. -/
theorem scanFrom_reads {taken after : List Text} {block : Block}
    (h : Reads renderer after.isEmpty taken block) (number : Nat) :
    ∃ notices, (after ≠ [] → notices = []) ∧ (∀ m line, Notice.stopped m line ∉ notices) ∧
      scanFrom renderer number (taken ++ after) =
        (scanFrom renderer (number + taken.length) after).prepend [block] notices := by
  cases h with
  | plain line text ho =>
      refine ⟨[], fun _ => rfl, by simp, ?_⟩
      rw [List.singleton_append, scanFrom, if_neg (by simp [Opening.isVoid_eq_false ho])]
      simp only [ho]
      rfl
  | hereDoc line marker body mark ho hbody hmark =>
      have htake := takeHereDoc_append hbody hmark after
      have hread : readHereDoc marker ((body ++ [mark]) ++ after) =
          ⟨.hereDoc marker body, after, []⟩ := by
        rw [List.append_assoc, List.singleton_append]
        simp [readHereDoc, htake]
      exact ⟨[], fun _ => rfl, by simp, scanFrom_hereDoc ho hread number⟩
  | hereDocOpen line marker body ho hbody hend =>
      obtain rfl : after = [] := List.isEmpty_iff.1 hend
      have hread : readHereDoc marker (body ++ []) =
          ⟨.hereDoc marker body, [], [.hereDocOpen marker]⟩ := by
        simp [readHereDoc, takeHereDoc_unmarked hbody]
      exact ⟨_, fun hne => absurd rfl hne, by simp, scanFrom_hereDoc ho hread number⟩
  | quotedLine line quote first ho hfirst =>
      have hread : readQuoted quote first ([] ++ after) =
          ⟨.quoted quote (unquote quote (cutClosing quote first)) false, after, []⟩ := by
        simp [readQuoted, hfirst]
      exact ⟨[], fun _ => rfl, by simp, scanFrom_quoted ho hread number⟩
  | quoted line quote first body final ho hbody hfinal =>
      have hfirst : closes quote false first = false := hbody first (by simp)
      have htake := takeQuoted_append (hbody.of_subset (List.subset_cons_self first body)) hfinal
      have hread : readQuoted quote first ((body ++ [final]) ++ after) =
          ⟨.quoted quote (Text.joinNewlines
            ((first :: (body ++ [cutClosing quote final])).map (unquote quote))) true,
            after, []⟩ := by
        have hmore : (body ++ final :: after).isEmpty = false := by simp
        rw [List.append_assoc, List.singleton_append]
        simp [readQuoted, hmore, hfirst, htake]
      exact ⟨[], fun _ => rfl, by simp, scanFrom_quoted ho hread number⟩
  | quotedOpen line quote first body ho hbody hfinal hend =>
      obtain rfl : after = [] := List.isEmpty_iff.1 hend
      have htake := takeQuoted_unclosed (hbody.of_subset (List.subset_cons_self first body))
        (fun final hlast => hfinal final (by simp [List.getLast?_cons, hlast]))
      have hfirst : closes quote body.isEmpty first = false := by
        cases body with
        | nil => exact hfinal first rfl
        | cons line body => exact hbody first (by simp)
      have hread : readQuoted quote first (body ++ []) =
          ⟨.quoted quote (Text.joinNewlines ((first :: body).map (unquote quote))) true,
            [], [.quoteOpen]⟩ := by
        simp [readQuoted, hfirst, htake]
      exact ⟨_, fun hne => absurd rfl hne, by simp, scanFrom_quoted ho hread number⟩

/-! ## Agreement -/

/-- The executable scan finds the blocks and the fault that the relation says. -/
theorem Scanned.scanFrom_eq {index stop : Nat} {lines : List Text} {spans : List Span}
    {fault : Option Malformed} (h : Scanned renderer index lines spans stop fault) :
    (scanFrom renderer (index + 1) lines).blocks = spans.map Span.block ∧
      (scanFrom renderer (index + 1) lines).malformed = fault := by
  induction h with
  | finished index => simp [scanFrom_nil]
  | blank index line rest spans stop fault hvoid _ ih =>
      rw [scanFrom_blank hvoid]
      exact ih
  | stopped index line rest hvoid ho => simp [scanFrom_stopped hvoid ho]
  | malformed index line rest ho => simp [scanFrom_malformed ho]
  | block index taken after block spans stop fault hreads _ ih =>
      obtain ⟨notices, -, -, hscan⟩ := scanFrom_reads hreads (index + 1)
      rw [Nat.add_right_comm] at hscan
      rw [hscan, Scan.prepend, ih.1]
      exact ⟨rfl, ih.2⟩

/-- Every list of lines is scanned to some end. -/
theorem exists_scanned (renderer : Text) (index : Nat) (lines : List Text) :
    ∃ spans stop fault, Scanned renderer index lines spans stop fault := by
  induction lines using (measure List.length).wf.induction generalizing index with
  | _ lines ih =>
      cases lines with
      | nil => exact ⟨[], index, none, .finished index⟩
      | cons line rest =>
          cases hvoid : Text.isVoid line with
          | true =>
              have hshort : rest.length < (line :: rest).length := Nat.lt_succ_self rest.length
              obtain ⟨spans, stop, fault, h⟩ := ih rest hshort (index + 1)
              exact ⟨spans, stop, fault, .blank _ _ _ _ _ _ hvoid h⟩
          | false =>
              cases ho : Opening.of? renderer rest.isEmpty line with
              | none => exact ⟨[], index, none, .stopped _ _ _ hvoid ho⟩
              | some opening =>
                  by_cases hne : opening = .malformed
                  · subst hne
                    have ho := Opening.of?_eq_of_ne_plain ho (by simp) false
                    exact ⟨[], index, _, .malformed _ _ _ ho⟩
                  · obtain ⟨taken, after, block, hlines, hreads⟩ := Reads.exists_of_opening ho hne
                    -- A block takes at least one line, so fewer are left to scan.
                    have hshort : after.length < (line :: rest).length := by
                      have hpos := List.length_pos_of_ne_nil hreads.ne_nil
                      rw [hlines, List.length_append]
                      omega
                    obtain ⟨spans, stop, fault, h⟩ := ih after hshort (index + taken.length)
                    rw [hlines]
                    exact ⟨_, stop, fault, .block _ _ _ _ _ _ _ hreads h⟩

/-! ## Bodies and definitions -/

/-- The number of guard lines at the head of a body, none or one. -/
def guardLines (body : List Text) : Nat := if body.head?.any isGuard then 1 else 0

/-- What a scan remarks on the guard of a body. -/
def guardNotices (body : List Text) : List Notice :=
  (body.take (guardLines body)).map fun line => .guardSkipped (Text.strip line)

/-- A body is scanned after its guard. -/
theorem scanBody_eq (renderer : Text) (body : List Text) :
    scanBody renderer body =
      (scanFrom renderer (2 + guardLines body + 1) (body.drop (guardLines body))).prepend []
        (guardNotices body) := by
  cases body with
  | nil => rfl
  | cons line rest =>
      by_cases hguard : isGuard line = true
      · simp [scanBody, Scan.prepend, guardNotices, guardLines, hguard]
      · simp [scanBody, Scan.prepend, guardNotices, guardLines, hguard]

/-- The blocks and the fault of a body, from the relation. -/
theorem Scanned.scanBody_eq {body : List Text} {spans : List Span} {stop : Nat}
    {fault : Option Malformed}
    (h : Scanned renderer (2 + guardLines body) (body.drop (guardLines body)) spans stop fault) :
    (scanBody renderer body).blocks = spans.map Span.block ∧
      (scanBody renderer body).malformed = fault := by
  rw [Block.scanBody_eq]
  exact h.scanFrom_eq

end ShellDocs.Block

namespace ShellDocs.Definition

/-- A definition has the documentation of its blocks, unless a here-document is malformed. -/
theorem documentation_result (renderer : Text) (d : Definition) :
    (d.documentation renderer).result =
      match (d.scan renderer).malformed with
      | some fault => .error (.malformedHereDoc fault)
      | none => .ok (d.scan renderer).docstring := by
  cases hfault : (d.scan renderer).malformed with
  | some fault => simp [documentation, bind, Traced.bind, Traced.notes, hfault, Traced.fail]
  | none =>
      by_cases hfound : (d.scan renderer).docstring.found = true
      · simp [documentation, bind, Traced.bind, Traced.notes, hfault, hfound, pure, Traced.pure]
      · simp [documentation, bind, Traced.bind, Traced.notes, hfault, hfound, pure, Traced.pure,
          Traced.note]

/-- What comes of blocks that a scan found before it ended with or without a fault. -/
def outcome (spans : List Block.Span) : Option Block.Malformed → Except Failure Docstring
  | some fault => .error (.malformedHereDoc fault)
  | none => .ok ⟨Block.docs spans⟩

/-- The documentation of a definition comes of the scan of its body. -/
theorem documentation_of_scanned {renderer : Text} {d : Definition} {spans : List Block.Span}
    {stop : Nat} {fault : Option Block.Malformed}
    (h : Block.Scanned renderer (2 + Block.guardLines d.body)
      (d.body.drop (Block.guardLines d.body)) spans stop fault) :
    (d.documentation renderer).result = outcome spans fault := by
  obtain ⟨hblocks, hfault⟩ := h.scanBody_eq
  rw [documentation_result]
  simp only [scan, hfault, Block.Scan.docstring, hblocks, List.flatMap_map]
  cases fault <;> rfl

end ShellDocs.Definition
