import ShellDocs.Proofs.Block.Tiling

/-!
# Independence from what follows the documentation

A scan that stops at a line has read nothing behind it. `Scanned.scanFrom_append` says that the
lines before the stop are read alike whatever follows them, so the whole result of a scan depends
on the lines up to its stop. The one exception is plain text without its semicolon, which is read
only if it has become the last line of a body. `scan_eq_of_agree` states this for definitions.
-/

namespace ShellDocs.Block

variable {renderer : Text} {index stop : Nat} {lines : List Text} {spans : List Span}
  {fault : Option Malformed}

/-- The scan stops at the line with the given number: the line opens no block, or it announces a
here-document that has no marker. -/
def Scan.StopsAt (s : Scan) (number : Nat) : Prop :=
  (∃ line, Notice.stopped number line ∈ s.notices) ∨ ∃ line, s.malformed = some ⟨line, number⟩

/-- What a scan finds at the line where it stops, with `rest` after it. -/
inductive Halts (renderer : Text) (line : Text) (rest : List Text) : Option Malformed → Prop where
  | stopped : Text.isVoid line = false → Opening.of? renderer rest.isEmpty line = none →
      Halts renderer line rest none
  | malformed (number) : Opening.of? renderer false line = some .malformed →
      Halts renderer line rest (some ⟨line, number⟩)

/-! ## The lines before the stop -/

/-- A scan that stops at some line reads the lines before it whatever stands behind them. -/
theorem Scanned.scanFrom_append (h : Scanned renderer index lines spans stop fault)
    (hstop : stop < index + lines.length) :
    ∃ before line rest, lines = before ++ line :: rest ∧ stop = index + before.length ∧
      Halts renderer line rest fault ∧
      ∀ tail, tail ≠ [] → scanFrom renderer (index + 1) (before ++ tail) =
        (scanFrom renderer (stop + 1) tail).prepend (spans.map Span.block) [] := by
  induction h with
  | finished index => simp at hstop
  | blank index line rest spans stop fault hvoid _ ih =>
      rw [List.length_cons] at hstop
      obtain ⟨before, final, after, rfl, rfl, hhalts, hread⟩ := ih (by omega)
      refine ⟨line :: before, final, after, rfl, ?_, hhalts, fun tail htail => ?_⟩
      · rw [List.length_cons]
        omega
      · rw [List.cons_append, scanFrom_blank hvoid]
        exact hread tail htail
  | stopped index line rest hvoid ho =>
      exact ⟨[], line, rest, rfl, rfl, .stopped hvoid ho, fun _ _ => rfl⟩
  | malformed index line rest ho =>
      exact ⟨[], line, rest, rfl, rfl, .malformed _ ho, fun _ _ => rfl⟩
  | block index taken after block spans stop fault hreads _ ih =>
      rw [List.length_append] at hstop
      obtain ⟨before, final, rest, rfl, rfl, hhalts, hread⟩ := ih (by omega)
      -- A line follows the block, so the block has an end of its own.
      have hsettled : Reads renderer false taken block := by
        have hmore : (before ++ final :: rest).isEmpty = false := by simp
        rwa [hmore] at hreads
      refine ⟨taken ++ before, final, rest, by simp, ?_, hhalts, fun tail htail => ?_⟩
      · rw [List.length_append]
        omega
      · obtain ⟨notices, hnil, -, hscan⟩ :=
          scanFrom_reads (hsettled.of_false (before ++ tail).isEmpty) (index + 1)
        have hne : before ++ tail ≠ [] := fun heq => htail (List.append_eq_nil_iff.1 heq).2
        rw [Nat.add_right_comm, hnil hne, hread tail htail] at hscan
        rw [List.append_assoc, hscan]
        rfl

/-- A scan that tells of a stop ends there. -/
theorem Scanned.stop_of_mem (h : Scanned renderer index lines spans stop fault) {number : Nat}
    {line : Text}
    (hmem : Notice.stopped number line ∈ (scanFrom renderer (index + 1) lines).notices) :
    number = stop + 1 ∧ stop < index + lines.length := by
  induction h with
  | finished index => simp [scanFrom_nil] at hmem
  | blank index first rest spans stop fault hvoid _ ih =>
      rw [scanFrom_blank hvoid] at hmem
      obtain ⟨hnumber, hstop⟩ := ih hmem
      rw [List.length_cons]
      exact ⟨hnumber, by omega⟩
  | stopped index first rest hvoid ho =>
      rw [scanFrom_stopped hvoid ho, List.mem_singleton] at hmem
      cases hmem
      simp
  | malformed index first rest ho => simp [scanFrom_malformed ho] at hmem
  | block index taken after block spans stop fault hreads _ ih =>
      obtain ⟨notices, -, hnone, hscan⟩ := scanFrom_reads hreads (index + 1)
      rw [hscan, Nat.add_right_comm] at hmem
      rcases List.mem_append.1 hmem with hmem | hmem
      · exact absurd hmem (hnone _ _)
      · obtain ⟨hnumber, hstop⟩ := ih hmem
        rw [List.length_append]
        exact ⟨hnumber, by omega⟩

/-- A malformed here-document is found where the scan ends. -/
theorem Scanned.stop_of_fault (h : Scanned renderer index lines spans stop fault)
    {found : Malformed} (hfault : fault = some found) :
    found.number = stop + 1 ∧ stop < index + lines.length := by
  induction h with
  | finished index => cases hfault
  | blank index first rest spans stop fault hvoid _ ih =>
      obtain ⟨hnumber, hstop⟩ := ih hfault
      rw [List.length_cons]
      exact ⟨hnumber, by omega⟩
  | stopped index first rest hvoid ho => cases hfault
  | malformed index first rest ho =>
      cases hfault
      simp
  | block index taken after block spans stop fault hreads _ ih =>
      obtain ⟨hnumber, hstop⟩ := ih hfault
      rw [List.length_append]
      exact ⟨hnumber, by omega⟩

/-- A scan stops where the relation says that it ends. -/
theorem Scanned.stop_of_stopsAt (h : Scanned renderer index lines spans stop fault) {number : Nat}
    (hstops : (scanFrom renderer (index + 1) lines).StopsAt number) :
    number = stop + 1 ∧ stop < index + lines.length := by
  rcases hstops with ⟨line, hmem⟩ | ⟨line, hfault⟩
  · exact h.stop_of_mem hmem
  · rw [h.scanFrom_eq.2] at hfault
    exact h.stop_of_fault hfault

/-! ## The line of the stop -/

/-- A line at which a scan stops is read alike whatever follows it, unless it is plain text without
a semicolon that has become the last line. -/
theorem Halts.scanFrom_eq {line : Text} {rest : List Text} (h : Halts renderer line rest fault)
    (number : Nat) (other : List Text) :
    scanFrom renderer number (line :: other) = scanFrom renderer number (line :: rest) ∨
      (other = [] ∧ rest ≠ [] ∧ (scanFrom renderer number (line :: rest)).blocks = [] ∧
        ∃ text, (afterColon? line).bind (plainText? true) = some text ∧
          scanFrom renderer number [line] = ⟨[.plain text], [], none⟩) := by
  cases h with
  | malformed found ho =>
      exact .inl (by rw [scanFrom_malformed ho, scanFrom_malformed ho])
  | stopped hvoid ho =>
      cases hother : Opening.of? renderer other.isEmpty line with
      | none => exact .inl (by rw [scanFrom_stopped hvoid hother, scanFrom_stopped hvoid ho])
      | some opening =>
          have hfalse := Opening.of?_false_eq_none ho
          -- What opens nothing in the middle of a body opens something here: the line is the last.
          have hempty : other.isEmpty = true := by
            cases hlast : other.isEmpty with
            | true => rfl
            | false => simp [hlast, hfalse] at hother
          obtain rfl : other = [] := List.isEmpty_iff.1 hempty
          obtain ⟨text, rfl⟩ := Opening.of?_true_eq_plain hfalse hother
          refine .inr ⟨rfl, ?_, by rw [scanFrom_stopped hvoid ho], text,
            Opening.plainText?_of_plain hother, ?_⟩
          · rintro rfl
            rw [hother] at ho
            cases ho
          · rw [scanFrom, if_neg (by simp [Opening.isVoid_eq_false hother])]
            simp only [List.isEmpty_nil] at hother
            simp only [List.isEmpty_nil, hother, scanFrom_nil, List.append_nil]

/-! ## Bodies -/

/-- A remark on a guard tells of no stop, so a body stops where the lines after its guard do. -/
theorem Scan.StopsAt.of_scanBody {body : List Text} {number : Nat}
    (h : (scanBody renderer body).StopsAt number) :
    (scanFrom renderer (2 + guardLines body + 1) (body.drop (guardLines body))).StopsAt number := by
  rw [scanBody_eq] at h
  rcases h with ⟨line, hmem⟩ | hfault
  · rcases List.mem_append.1 hmem with hmem | hmem
    · obtain ⟨_, -, hguard⟩ := List.mem_map.1 hmem
      cases hguard
    · exact .inl ⟨line, hmem⟩
  · exact .inr hfault

/-- Lines after a line of a body have no part in its guard. -/
theorem guard_append (lead : List Text) (line : Text) (rest other : List Text) :
    guardLines (lead ++ line :: other) = guardLines (lead ++ line :: rest) ∧
      guardNotices (lead ++ line :: other) = guardNotices (lead ++ line :: rest) := by
  cases lead with
  | nil =>
      by_cases hguard : isGuard line = true
      · simp [guardNotices, guardLines, hguard]
      · simp [guardNotices, guardLines, hguard]
  | cons first lead =>
      by_cases hguard : isGuard first = true
      · simp [guardNotices, guardLines, hguard]
      · simp [guardNotices, guardLines, hguard]

/-- A body whose scan stops at some line is scanned up to that line whatever follows it. -/
theorem exists_scanBody_append {body : List Text} {number : Nat}
    (hstops : (scanBody renderer body).StopsAt number) :
    ∃ lead line rest fault blocks notices, body = lead ++ line :: rest ∧
      number = lead.length + 3 ∧ Halts renderer line rest fault ∧
      ∀ after, scanBody renderer (lead ++ line :: after) =
        (scanFrom renderer number (line :: after)).prepend blocks notices := by
  obtain ⟨spans, stop, fault, hscan⟩ := exists_scanned renderer (2 + guardLines body)
    (body.drop (guardLines body))
  obtain ⟨hnumber, hstop⟩ := hscan.stop_of_stopsAt hstops.of_scanBody
  obtain ⟨before, line, rest, hdrop, rfl, hhalts, hread⟩ := hscan.scanFrom_append hstop
  have htake : (body.take (guardLines body)).length = guardLines body := by
    have hlength := congrArg List.length hdrop
    rw [List.length_drop, List.length_append, List.length_cons] at hlength
    exact List.length_take_of_le (by omega)
  have hbody : body = (body.take (guardLines body) ++ before) ++ line :: rest := by
    rw [List.append_assoc, ← hdrop, List.take_append_drop]
  refine ⟨body.take (guardLines body) ++ before, line, rest, fault, spans.map Span.block,
    guardNotices body, hbody, ?_, hhalts, fun after => ?_⟩
  · rw [List.length_append, htake]
    omega
  · obtain ⟨hguard, hnotices⟩ :=
      guard_append (body.take (guardLines body) ++ before) line rest after
    rw [← hbody] at hguard hnotices
    have hafter : ((body.take (guardLines body) ++ before) ++ line :: after).drop
        (guardLines body) = before ++ line :: after := by
      rw [List.append_assoc, List.drop_append_of_le_length htake.ge,
        List.drop_of_length_le htake.le, List.nil_append]
    rw [scanBody_eq, hguard, hnotices, hafter, hread _ (List.cons_ne_nil line after), ← hnumber]
    simp [Scan.prepend]

/-- A list that begins with the same elements as another goes on after them on its own. -/
theorem exists_append_of_take {lead rest other : List Text} {line : Text}
    (h : other.take (lead.length + 1) = (lead ++ line :: rest).take (lead.length + 1)) :
    ∃ after, other = lead ++ line :: after := by
  refine ⟨other.drop (lead.length + 1), ?_⟩
  have htake : (lead ++ line :: rest).take (lead.length + 1) = lead ++ [line] := by
    rw [List.take_append, List.take_of_length_le (Nat.le_succ _)]
    simp
  rw [htake] at h
  calc other = other.take (lead.length + 1) ++ other.drop (lead.length + 1) :=
        (List.take_append_drop _ _).symm
    _ = lead ++ line :: other.drop (lead.length + 1) := by rw [h, List.append_assoc]; rfl

/-- A body whose scan stops at the line `m` is scanned like every other that has the same lines up
to `m`, unless that line is plain text without a semicolon and has become the last one. -/
theorem scanBody_eq_of_take {body other : List Text} {m : Nat}
    (hstops : (scanBody renderer body).StopsAt (m + 3))
    (hagree : other.take (m + 1) = body.take (m + 1)) :
    scanBody renderer other = scanBody renderer body ∨
      (m + 1 = other.length ∧ m + 1 ≠ body.length ∧
        ∃ line text, body[m]? = some line ∧
          (afterColon? line).bind (plainText? true) = some text ∧
          (scanBody renderer other).blocks = (scanBody renderer body).blocks ++ [.plain text] ∧
          (scanBody renderer other).malformed = none) := by
  obtain ⟨lead, line, rest, fault, blocks, notices, rfl, hnumber, hhalts, hscan⟩ :=
    exists_scanBody_append hstops
  obtain rfl : m = lead.length := Nat.add_right_cancel hnumber
  obtain ⟨after, rfl⟩ := exists_append_of_take hagree
  rcases hhalts.scanFrom_eq (lead.length + 3) after with
    heq | ⟨rfl, hrest, hstopped, text, htext, hplain⟩
  · exact .inl (by rw [hscan, hscan, heq])
  · refine .inr ⟨by simp, ?_, line, text, by simp, htext, ?_, ?_⟩
    · have hpos := List.length_pos_of_ne_nil hrest
      rw [List.length_append, List.length_cons]
      omega
    · rw [hscan, hscan, hplain]
      simp [Scan.prepend, hstopped]
    · rw [hscan, hplain]
      rfl

end ShellDocs.Block

namespace ShellDocs.Definition

open Block

theorem length_body (d : Definition) : d.body.length = d.bodyEnd - 2 := by
  rw [body, List.length_drop, List.length_take_of_le d.bodyEnd_le]

/-- The first lines of a body stand behind the first two lines of its definition. -/
theorem take_body (d : Definition) {m : Nat} (h : m + 2 ≤ d.bodyEnd) :
    d.body.take m = (d.lines.take (m + 2)).drop 2 := by
  rw [body, List.take_drop, List.take_take, Nat.add_comm 2 m, Nat.min_eq_left h]

theorem getElem?_body (d : Definition) {m : Nat} (h : m + 2 < d.bodyEnd) :
    d.body[m]? = d.lines[m + 2]? := by
  rw [body, List.getElem?_drop, Nat.add_comm 2 m, List.getElem?_take_of_lt h]

/-- The scan of a definition depends on its body alone, and of the body on the lines up to the one
where the scan stops: whatever else another definition has, its scan has the same result. The only
exception is plain text without a semicolon at the stop, if it is the last line of the other body
and not of this one; then that text is found too. -/
theorem scan_eq_of_agree (renderer : Text) (d other : Definition) :
    (other.body = d.body → other.scan renderer = d.scan renderer) ∧
    ∀ k, (d.scan renderer).StopsAt (k + 1) →
      (other.lines.take (k + 1)).drop 2 = (d.lines.take (k + 1)).drop 2 → k < other.bodyEnd →
      other.scan renderer = d.scan renderer ∨
        (k + 1 = other.bodyEnd ∧ k + 1 ≠ d.bodyEnd ∧
          ∃ line text, d.lines[k]? = some line ∧
            (afterColon? line).bind (plainText? true) = some text ∧
            (other.scan renderer).blocks = (d.scan renderer).blocks ++ [.plain text] ∧
            (other.scan renderer).malformed = none) := by
  refine ⟨fun hbody => by rw [scan, scan, hbody], fun k hstops hagree hk => ?_⟩
  obtain ⟨lead, line, rest, _, _, _, hbody, hnumber, -, -⟩ := exists_scanBody_append hstops
  obtain rfl : k = lead.length + 2 := Nat.add_right_cancel hnumber
  have hend : lead.length + 2 < d.bodyEnd := by
    have hlength := congrArg List.length hbody
    rw [d.length_body, List.length_append, List.length_cons] at hlength
    omega
  have htake : other.body.take (lead.length + 1) = d.body.take (lead.length + 1) := by
    rw [other.take_body hk, d.take_body hend]
    exact hagree
  rcases scanBody_eq_of_take hstops htake with heq | ⟨hlast, hmore, line, text, hline, hfound⟩
  · exact .inl heq
  · rw [d.getElem?_body hend] at hline
    rw [other.length_body] at hlast
    rw [d.length_body] at hmore
    exact .inr ⟨by omega, by omega, line, text, hline, hfound⟩

/-- A definition with a documented line, a plain line without its semicolon, and a command. -/
def greeting : Definition :=
  ⟨"f", ["f () ", "\x7b ", ": one;", ": two", "echo", "\x7d"]⟩

/-- Another definition with the same two lines, other lines around them, and no end. -/
def salute : Definition :=
  ⟨"g", ["function g", "\x7b", ": one;", ": two", ": three;"]⟩

/-- The definition ends with the line that was not documentation before. -/
def farewell : Definition :=
  ⟨"h", ["h () ", "\x7b ", ": one;", ": two", "\x7d"]⟩

theorem scan_eq_of_agree_greeting :
    (greeting.scan "docsh").StopsAt 4 ∧ salute.scan "docsh" = greeting.scan "docsh" ∧
      (farewell.scan "docsh").blocks = (greeting.scan "docsh").blocks ++ [.plain "two"] := by
  have hnotices : (greeting.scan "docsh").notices = [.stopped 4 ": two"] := by decide +kernel
  have hstops : (greeting.scan "docsh").StopsAt 4 :=
    .inl ⟨": two", hnotices ▸ List.mem_singleton_self _⟩
  refine ⟨hstops, ?_, ?_⟩
  · rcases (scan_eq_of_agree "docsh" greeting salute).2 3 hstops (by decide) (by decide) with
      heq | ⟨hlast, -⟩
    · exact heq
    · exact absurd hlast (by decide)
  · rcases (scan_eq_of_agree "docsh" greeting farewell).2 3 hstops (by decide) (by decide) with
      heq | ⟨-, -, line, text, hline, htext, hblocks, -⟩
    · have hmore : (farewell.scan "docsh").notices = [] := by decide +kernel
      rw [heq, hnotices] at hmore
      cases hmore
    · cases hline
      have hplain : (afterColon? ": two").bind (plainText? true) = some "two".toList := by decide
      cases hplain.symm.trans htext
      exact hblocks

end ShellDocs.Definition
