import ShellDocs.Proofs.Command.Lookup

/-!
# Documentation in words

The words of a request are its documentation unless a dash stands for the input or a single word is
the name of a function that is looked up and found. They are then joined by newlines and cut again,
so a word may hold several lines of documentation. The main statement is `Sources.collect_words`.
-/

namespace ShellDocs.Command.Sources

variable {s : Sources} {r : Request}

/-- Whether the words of a request are its documentation. -/
def TakesWords (s : Sources) (r : Request) : Prop :=
  r.words ≠ [] ∧ ¬ r.IsInput ∧ ∀ n, r.impliedName? = some n →
    ∃ f, (s.lookup n).result = .error f ∧ f.Reported

/-- Words that are documentation are joined by newlines. -/
theorem result_collect_of_takesWords (h : s.TakesWords r) :
    (s.collect r).result = .ok (Docstring.ofText (Text.joinNewlines r.words), r.function) := by
  obtain ⟨hwords, hinput, hlookup⟩ := h
  cases himplied : r.impliedName? with
  | none =>
      rw [collect_literal hwords himplied hinput]
      rfl
  | some n =>
      obtain ⟨rfl, hname⟩ := Request.impliedName?_eq_some.1 himplied
      obtain ⟨f, hresult, hreported⟩ := hlookup n himplied
      rw [collect_word_of_reported hname hresult hreported, ofText_of_isFunctionName hname]

/-- Documentation that is made of a text has this text. Lines are found again in the text that they
are joined to if they hold no newlines, and words that are documentation are cut at theirs. In both
cases a single empty one is the only exception: it comes to no documentation at all. -/
theorem collect_words (s : Sources) :
    (∀ t, (Docstring.ofText t).text = t) ∧
    (∀ lines, Docstring.ofText (Text.joinNewlines lines) = ⟨lines⟩ ↔
      (∀ line ∈ lines, '\n' ∉ line) ∧ lines ≠ [[]]) ∧
    ∀ r, s.TakesWords r →
      ((s.collect r).result = .ok (⟨r.words.flatMap Text.splitNewlines⟩, r.function) ↔
        r.words ≠ [[]]) := by
  refine ⟨Docstring.text_ofText, fun lines => Docstring.ofText_joinNewlines, ?_⟩
  intro r htakes
  rw [result_collect_of_takesWords htakes, Except.ok.injEq, Prod.mk.injEq, and_iff_left rfl]
  exact Docstring.ofText_joinNewlines_eq_flatMap htakes.1

/-- Words with an empty one and one of two lines. -/
def greetingWords : Request := ⟨["Say hello", "", "Usage:\n  greet you"], some "greet"⟩

theorem collect_words_greet :
    greetingSources.TakesWords greetingWords ∧
    (greetingSources.collect greetingWords).result =
      .ok (⟨["Say hello", "", "Usage:", "  greet you"]⟩, some "greet") ∧
    greetingSources.TakesWords ⟨["hello"], none⟩ ∧
    (greetingSources.collect ⟨["hello"], none⟩).result = .ok (⟨["hello"]⟩, none) := by
  have hwords : greetingSources.TakesWords greetingWords := by
    refine ⟨by decide, by decide, ?_⟩
    intro n himplied
    contradiction
  have hword : greetingSources.TakesWords ⟨["hello"], none⟩ := by
    refine ⟨by decide, by decide, ?_⟩
    intro n himplied
    obtain ⟨hrequest, -⟩ := Request.impliedName?_eq_some.1 himplied
    cases hrequest
    exact ⟨.unknownFunction "hello", rfl, fun _ h => nomatch h⟩
  obtain ⟨-, -, hcollect⟩ := collect_words greetingSources
  exact ⟨hwords, (hcollect _ hwords).2 (by decide), hword, (hcollect _ hword).2 (by decide)⟩

end ShellDocs.Command.Sources
