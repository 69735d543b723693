import Mathlib.Algebra.Group.Nat.Even
import Mathlib.Data.List.DropRight
import ShellDocs.Proofs.Block.Escape

/-!
# Escapes in parts of a text

Escapes are read in one pass from left to right. A text can be cut into parts that are read by
themselves wherever the cut does not separate a protecting backslash from its character
(`unescape_append`). Backslashes in front of the cut protect each other in pairs, so only whether
their number is odd matters. The main statement is `unescape_parts`.
-/

namespace ShellDocs.Block

variable {t u : Text} {lines : List Text}

/-- The number of backslashes at the end of a text. -/
def slashes (t : Text) : Nat := (t.rtakeWhile (· == '\x5c')).length

/-- A text ends in its backslashes, and what stands before them ends in another character. -/
theorem exists_slashes (t : Text) :
    ∃ lead, lead.getLast? ≠ some '\x5c' ∧ t = lead ++ List.replicate (slashes t) '\x5c' := by
  refine ⟨t.rdropWhile (· == '\x5c'), fun hlast => ?_, ?_⟩
  · have hne : t.rdropWhile (· == '\x5c') ≠ [] := by
      intro hnil
      rw [hnil] at hlast
      contradiction
    have hslash := (List.getLast_eq_iff_getLast?_eq_some hne).2 hlast
    exact List.rdropWhile_last_not _ t hne (by simp [hslash])
  · have hslashes : t.rtakeWhile (· == '\x5c') = List.replicate (slashes t) '\x5c' :=
      List.eq_replicate_of_mem fun c hc => by simpa using List.mem_rtakeWhile_imp hc
    rw [← hslashes, List.rdropWhile_append_rtakeWhile]

/-- A text is read in parts if the first does not end in a backslash, or the second does not start
with a character that one protects. -/
theorem unescape_append
    (h : t.getLast? = some '\x5c' → ∀ c, u.head? = some c → isProtected c = false) :
    unescape (t ++ u) = unescape t ++ unescape u := by
  fun_induction unescape t with
  | case1 => rfl
  | case2 c =>
      cases u with
      | nil => rfl
      | cons d u =>
          have hcut : ¬ (c = '\x5c' ∧ isProtected d = true) := by
            rintro ⟨rfl, hprotected⟩
            rw [h rfl d rfl] at hprotected
            contradiction
          simp only [List.singleton_append, unescape, if_neg hcut]
  | case3 c d rest hprotected ih =>
      have hlast (hrest : rest.getLast? = some '\x5c') :
          (c :: d :: rest).getLast? = some '\x5c' := by
        simp [List.getLast?_cons, hrest]
      rw [List.cons_append, List.cons_append, unescape, if_pos hprotected,
        ih fun hrest => h (hlast hrest), List.cons_append]
  | case4 c d rest hplain ih =>
      rw [List.cons_append, List.cons_append, unescape, if_neg hplain, ← List.cons_append,
        ih fun hrest => h (by rwa [List.getLast?_cons_cons]), List.cons_append]

/-- Backslashes protect each other in pairs. -/
theorem unescape_replicate (n : Nat) (t : Text) :
    unescape (List.replicate (2 * n) '\x5c' ++ t) = List.replicate n '\x5c' ++ unescape t := by
  induction n with
  | zero => rfl
  | succ n ih =>
      have hpair : List.replicate (2 * (n + 1)) '\x5c' =
          '\x5c' :: '\x5c' :: List.replicate (2 * n) '\x5c' := rfl
      rw [hpair, List.cons_append, List.cons_append, unescape, if_pos ⟨rfl, rfl⟩, ih]
      rfl

/-- A text that ends in an even number of backslashes is read by itself. -/
theorem unescape_append_of_even (h : Even (slashes t)) (u : Text) :
    unescape (t ++ u) = unescape t ++ unescape u := by
  obtain ⟨lead, hlead, ht⟩ := exists_slashes t
  obtain ⟨n, hn⟩ := h
  have hcut (v : Text) : unescape (t ++ v) =
      unescape lead ++ (List.replicate n '\x5c' ++ unescape v) := by
    rw [ht, hn, ← Nat.two_mul, List.append_assoc, unescape_append fun hlast => absurd hlast hlead,
      unescape_replicate]
  have halone := hcut []
  rw [List.append_nil] at halone
  rw [hcut, halone]
  simp [unescape]

/-- A newline is not protected, so lines are read one by one. -/
theorem unescape_joinNewlines (lines : List Text) :
    unescape (Text.joinNewlines lines) = Text.joinNewlines (lines.map unescape) := by
  induction lines with
  | nil => rfl
  | cons line rest ih =>
      by_cases hrest : rest = []
      · subst hrest
        rfl
      · have hnewline : ∀ c, ('\n' :: Text.joinNewlines rest).head? = some c →
            isProtected c = false := by
          rintro c hc
          obtain rfl := Option.some.inj hc
          rfl
        rw [Text.joinNewlines_cons hrest, unescape_append fun _ => hnewline,
          unescape_cons (by decide), ih, List.map_cons,
          Text.joinNewlines_cons (by simpa using hrest)]

theorem unquote_joinNewlines (quote : Quote) (lines : List Text) :
    unquote quote (Text.joinNewlines lines) = Text.joinNewlines (lines.map (unquote quote)) := by
  cases quote with
  | single =>
      have hsame : unquote .single = id := rfl
      rw [hsame, List.map_id]
      rfl
  | double => exact unescape_joinNewlines lines

/-- The lines of a string that is not closed on its first line are read as one text. -/
theorem readQuoted_block {quote : Quote} {first : Text}
    (h : closes quote lines.isEmpty first = false) :
    (readQuoted quote first lines).block =
      .quoted quote (unquote quote (Text.joinNewlines (first :: (takeQuoted quote lines).1)))
        true := by
  rw [unquote_joinNewlines]
  simp [readQuoted, h]

/-- A text that ends in an even number of backslashes is read by itself, whatever follows it; lines
are read one by one or together, as the lines of a string are; and what is escaped is read back. -/
theorem unescape_parts :
    (∀ t u, Even (slashes t) → unescape (t ++ u) = unescape t ++ unescape u) ∧
    (∀ lines, Text.joinNewlines (lines.map unescape) = unescape (Text.joinNewlines lines)) ∧
    (∀ quote first lines, closes quote lines.isEmpty first = false →
      (readQuoted quote first lines).block =
        .quoted quote (unquote quote (Text.joinNewlines (first :: (takeQuoted quote lines).1)))
          true) ∧
    ∀ t, unescape (escape t) = t := by
  refine ⟨?_, ?_, ?_, unescape_escape⟩
  · intro t u heven
    exact unescape_append_of_even heven u
  · intro lines
    exact (unescape_joinNewlines lines).symm
  · intro quote first lines hopen
    exact readQuoted_block hopen

/-- The second of two backslashes protects nothing, so the dollar sign after them is protected by
the third. -/
theorem unescape_parts_dollar :
    Even (slashes "a\\\\") ∧ unescape ("a\\\\" ++ "\\$b") = "a\\$b".toList ∧
    closes .double false "a\\\\" = false ∧
    (readQuoted .double "a\\\\" ["\\$b\";"]).block = .quoted .double "a\\\n$b" true := by
  have heven : Even (slashes "a\\\\") := by decide
  have hopen : closes .double false "a\\\\" = false := by decide
  obtain ⟨happend, -, hquoted, -⟩ := unescape_parts
  refine ⟨heven, ?_, hopen, ?_⟩
  · rw [happend _ _ heven]
    rfl
  · rw [hquoted .double "a\\\\" ["\\$b\";"] hopen]
    rfl

end ShellDocs.Block
