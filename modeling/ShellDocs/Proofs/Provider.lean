import ShellDocs.Proofs.Traced
import ShellDocs.Provider

/-!
# Lookups of a provider

What a lookup leaves in its trace and what it can come to. Every lookup asks for its one name
(`Provider.names_lookup`). A catalog runs no command. A shell runs one, unless its command is one
that cannot even be given to the system (`Provider.calls_lookup_shell`).
-/

namespace ShellDocs

/-- Whether a shell is asked for a function and gives this reply. -/
structure Inquiry.Answers (i : Inquiry) (shell : Shell) (name : Text) (reply : ShellReply) :
    Prop where
  fit : i.unfit? name = none
  reply : shell (i.call name) = reply

/-- A text of ASCII characters other than NUL can be given to the system in every locale. -/
theorem Locale.canPass_of_ascii (l : Locale) {t : Text}
    (h : t.all (fun c => c != '\x00' && c.val < 128) = true) : l.canPass t = true := by
  refine List.all_eq_true.2 fun c hc => ?_
  obtain ⟨hnul, hascii⟩ := Bool.and_eq_true_iff.1 (List.all_eq_true.1 h c hc)
  rw [hnul, l.has_ascii c (by simpa using hascii)]
  rfl

/-- A command can be given to the system just if the shell is named by a text, and this text, the
name of the function and the files can be given to it. -/
theorem Inquiry.unfit?_eq_none {i : Inquiry} {name : Text} : i.unfit? name = none ↔
    (∃ t, i.shell.name = .text t ∧ i.shell.locale.canPass t = true) ∧
      i.shell.locale.canPass name = true ∧ ∀ f ∈ i.files, i.shell.locale.canPass f = true := by
  have hdash : i.shell.locale.canPass ("-c" : Text) = true := Locale.canPass_of_ascii _ (by decide)
  have hdocsh : i.shell.locale.canPass ("docsh" : Text) = true :=
    Locale.canPass_of_ascii _ (by decide)
  have hscript : i.shell.locale.canPass script = true :=
    Locale.canPass_of_ascii _ (by decide +kernel)
  rw [unfit?]
  split
  · next program hprogram =>
      simp only [call, List.all_cons, List.cons_append, List.nil_append, hdash, hscript, hdocsh,
        Bool.true_and, ite_eq_left_iff, reduceCtorEq, imp_false, not_not, Bool.and_eq_true,
        List.all_eq_true, hprogram, Toml.Value.text.injEq, exists_eq_left']
  · next hother =>
      refine iff_of_false (by simp) ?_
      rintro ⟨⟨t, ht, -⟩, -⟩
      exact hother t ht

namespace Provider

variable {p : Provider} {c : Catalog} {i : Inquiry} {shell : Shell} {name : Text} {f : Failure}
  {cause : Escape}

/-- What a catalog gives. -/
theorem lookup_catalog : (Provider.catalog c).lookup shell name =
    ⟨[.asked name], match c.find? name with
      | some d => .ok d
      | none => .error (.unknownFunction name)⟩ := by
  rw [lookup, Traced.bind_of_ok (x := Traced.asked name) rfl]
  cases c.find? name <;> rfl

/-- What a shell gives that is asked. -/
theorem lookup_of_fit (h : i.unfit? name = none) : (Provider.shell i).lookup shell name =
    ⟨[.asked name, .notice (.lookup name i.shell.name), .call (i.call name)],
      i.definition name (shell (i.call name))⟩ := by
  have hsteps : i.lookup shell name = ⟨[.notice (.lookup name i.shell.name), .call (i.call name)],
      i.definition name (shell (i.call name))⟩ := by
    rw [Inquiry.lookup, h]
    rfl
  rw [lookup, Traced.bind_of_ok (x := Traced.asked name) rfl]
  simp only [hsteps]
  rfl

/-- What comes of a command that cannot be given to the system. -/
theorem lookup_of_unfit (h : i.unfit? name = some cause) : (Provider.shell i).lookup shell name =
    ⟨[.asked name, .notice (.lookup name i.shell.name)], .error (.escape cause)⟩ := by
  have hsteps : i.lookup shell name =
      ⟨[.notice (.lookup name i.shell.name)], .error (.escape cause)⟩ := by
    rw [Inquiry.lookup, h]
    rfl
  rw [lookup, Traced.bind_of_ok (x := Traced.asked name) rfl]
  simp only [hsteps]
  rfl

/-- A lookup asks for its name and for no other. -/
theorem names_lookup (p : Provider) (shell : Shell) (name : Text) :
    (p.lookup shell name).names = [name] := by
  cases p with
  | catalog c =>
      rw [lookup_catalog]
      rfl
  | shell i =>
      cases h : i.unfit? name with
      | none =>
          rw [lookup_of_fit h]
          rfl
      | some cause =>
          rw [lookup_of_unfit h]
          rfl

theorem calls_lookup_catalog : ((Provider.catalog c).lookup shell name).calls = [] := by
  rw [lookup_catalog]
  rfl

/-- A shell runs one command, if it is one that can be given to the system. -/
theorem calls_lookup_shell : ((Provider.shell i).lookup shell name).calls =
    if i.unfit? name = none then [i.call name] else [] := by
  cases h : i.unfit? name with
  | none =>
      rw [lookup_of_fit h]
      rfl
  | some cause =>
      rw [lookup_of_unfit h]
      rfl

/-- One lookup runs one command at most. -/
theorem length_calls_lookup (p : Provider) (shell : Shell) (name : Text) :
    (p.lookup shell name).calls.length ≤ 1 := by
  cases p with
  | catalog c =>
      rw [calls_lookup_catalog]
      exact Nat.zero_le 1
  | shell i =>
      rw [calls_lookup_shell]
      split_ifs
      · exact Nat.le_refl 1
      · exact Nat.zero_le 1

/-- A lookup shows nothing and changes nothing. -/
theorem only_inquires_lookup (p : Provider) (shell : Shell) (name : Text) :
    (p.lookup shell name).Only Event.Inquires := by
  cases p with
  | catalog c =>
      rw [lookup_catalog]
      exact List.forall_mem_singleton.2 trivial
  | shell i =>
      cases h : i.unfit? name with
      | none =>
          rw [lookup_of_fit h]
          simp [Traced.Only, Event.Inquires]
      | some cause =>
          rw [lookup_of_unfit h]
          simp [Traced.Only, Event.Inquires]

/-- Why a lookup may fail: nobody knows the function, there is no shell to ask, or a cause that is
not reported. -/
theorem lookup_failure (h : (p.lookup shell name).result = .error f) :
    f = .unknownFunction name ∨ (∃ v, f = .shellMissing v) ∨ (∃ v, f = .lookupTimeout v) ∨
      ∃ cause, f = .escape cause := by
  cases p with
  | catalog c =>
      rw [lookup_catalog] at h
      dsimp only at h
      split at h
      · contradiction
      · exact .inl (Except.error.inj h).symm
  | shell i =>
      cases hfit : i.unfit? name with
      | some cause =>
          rw [lookup_of_unfit hfit] at h
          exact .inr (.inr (.inr ⟨cause, (Except.error.inj h).symm⟩))
      | none =>
          rw [lookup_of_fit hfit] at h
          have hreply : i.definition name (shell (i.call name)) = .error f := h
          cases hshell : shell (i.call name) with
          | missing =>
              rw [hshell] at hreply
              exact .inr (.inl ⟨_, (Except.error.inj hreply).symm⟩)
          | timeout =>
              rw [hshell] at hreply
              exact .inr (.inr (.inl ⟨_, (Except.error.inj hreply).symm⟩))
          | refused =>
              rw [hshell] at hreply
              exact .inr (.inr (.inr ⟨_, (Except.error.inj hreply).symm⟩))
          | garbled =>
              rw [hshell] at hreply
              exact .inr (.inr (.inr ⟨_, (Except.error.inj hreply).symm⟩))
          | finished status output =>
              rw [hshell, Inquiry.definition] at hreply
              split_ifs at hreply
              exact .inl (Except.error.inj hreply).symm

end Provider

end ShellDocs
