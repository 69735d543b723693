import Mathlib.Data.List.Basic
import ShellDocs.Command.Collect
import ShellDocs.Proofs.Docstring
import ShellDocs.Proofs.Provider

/-!
# Lookups for a request

Which name a request has looked up, if any, is decided before the lookup (`Sources.asked?`), and
nothing but the reply to this one lookup matters for what is collected (`Sources.collect_congr`).
A word that may be the name of a function is looked up as if it were asked for; the two requests
differ only if the lookup fails in a way that is reported. The main statement is
`Sources.collect_lookup`.
-/

namespace ShellDocs

/-- Whether some part of the program reports a failure. -/
def Failure.Reported (f : Failure) : Prop := ∀ cause, f ≠ .escape cause

/-! ## Parts that only tell -/

theorem Definition.quiet_documentation (renderer : Text) (d : Definition) :
    (d.documentation renderer).Quiet := by
  refine Traced.Only.bind (Traced.only_notes _ fun _ => trivial) fun _ => ?_
  split
  · exact Traced.only_fail _
  · split
    · exact Traced.only_note _ trivial
    · exact Traced.only_pure _

namespace Reference

theorem quiet_readFrom (d : Disk) (base : Option Path) (reference : Text) :
    (readFrom d base reference).Quiet := by
  rw [readFrom]
  split
  · exact Traced.only_fail _
  · dsimp only
    split
    · exact Traced.only_fail _
    · split
      · exact Traced.only_fail _
      · exact Traced.Only.bind (Traced.only_note _ trivial) fun _ => Traced.only_pure _

theorem quiet_resolveFrom (d : Disk) (base : Option Path) (docs : Docstring) :
    (resolveFrom d base docs).Quiet := by
  rw [resolveFrom]
  split
  · split
    · exact Traced.only_pure _
    · next reference _ =>
        refine Traced.Only.orElse (quiet_readFrom d base reference) fun failure => ?_
        split
        · exact Traced.Only.bind (Traced.only_note _ trivial) fun _ => Traced.only_pure _
        · exact Traced.only_fail _
  · exact Traced.only_pure _

end Reference

namespace Command

/-! ## Names -/

theorem newline_not_mem_of_isFunctionName {n : Text} (h : isFunctionName n = true) : '\n' ∉ n := by
  cases n with
  | nil => simp
  | cons c rest =>
      simp only [isFunctionName, Bool.and_eq_true, List.all_eq_true] at h
      obtain ⟨hfirst, hrest⟩ := h
      rw [List.mem_cons]
      rintro (rfl | hmem)
      · revert hfirst
        decide
      · have hchar := hrest _ hmem
        revert hchar
        decide

/-- The text of a name is one line. -/
theorem ofText_of_isFunctionName {n : Text} (h : isFunctionName n = true) :
    Docstring.ofText (Text.joinNewlines [n]) = ⟨[n]⟩ := by
  have hfree : ∀ line ∈ [n], '\n' ∉ line :=
    List.forall_mem_singleton.2 (newline_not_mem_of_isFunctionName h)
  refine Docstring.ofText_joinNewlines.2 ⟨hfree, ?_⟩
  rintro ⟨rfl⟩
  contradiction

namespace Request

/-- A name is implied just by a single word of that form when no function is asked for. -/
theorem impliedName?_eq_some {r : Request} {n : Text} :
    r.impliedName? = some n ↔ r = ⟨[n], none⟩ ∧ isFunctionName n = true := by
  constructor
  · intro h
    simp only [impliedName?] at h
    split at h
    · next word hfunction hwords =>
        split_ifs at h with hname
        obtain rfl := Option.some.inj h
        obtain ⟨words, function⟩ := r
        subst hfunction hwords
        exact ⟨rfl, hname⟩
    · contradiction
  · rintro ⟨rfl, hname⟩
    simp [impliedName?, hname]

/-- Whether the documentation is to be read from the standard input. -/
def IsInput (r : Request) : Prop := r.function = none ∧ r.words = [['-']]

instance (r : Request) : Decidable r.IsInput := inferInstanceAs (Decidable (_ ∧ _))

theorem IsInput.impliedName? {r : Request} (h : r.IsInput) : r.impliedName? = none := by
  obtain ⟨words, function⟩ := r
  obtain ⟨rfl, rfl⟩ := h
  rfl

end Request

namespace Sources

/-- The definition that the provider gives for a name. -/
def lookup (s : Sources) (name : Text) : Traced Definition := s.provider.lookup s.shell name

/-- The name that a request has looked up: a single word that may be one, or without words the
function that is asked for, or the first of a catalog. -/
def asked? (s : Sources) (r : Request) : Option Text :=
  r.impliedName?.or
    (if r.words.isEmpty then r.function.or s.provider.firstName? else none)

variable {s s' : Sources} {r : Request} {n : Text}

theorem quiet_documentation (s : Sources) (name : Text) (d : Definition) :
    (s.documentation name d).Quiet := by
  refine Traced.Only.bind (d.quiet_documentation s.renderer) fun docs => ?_
  split
  · exact Reference.quiet_resolveFrom _ _ _
  · exact Traced.only_fail _

/-! ## Words that may be names -/

theorem findFunction_of_ok {d : Definition} (h : (s.lookup n).result = .ok d) :
    s.findFunction n = ⟨(s.lookup n).trace, .ok (some d)⟩ := by
  have hfound : (s.lookup n >>= fun d => pure (some d)) =
      (⟨(s.lookup n).trace, .ok (some d)⟩ : Traced (Option Definition)) := by
    rw [Traced.bind_of_ok h]
    simp [pure, Traced.pure]
  simp only [lookup] at hfound
  simp only [findFunction, hfound, Traced.orElse]
  rfl

/-- A lookup that fails is no failure if the name was not asked for and the failure is reported. -/
theorem result_findFunction_of_error {f : Failure} (h : (s.lookup n).result = .error f) :
    (f.Reported → (s.findFunction n).result = .ok none) ∧
      ∀ cause, f = .escape cause → (s.findFunction n).result = .error f := by
  have hfound : (s.lookup n >>= fun d => pure (some d)) =
      (⟨(s.lookup n).trace, .error f⟩ : Traced (Option Definition)) := Traced.bind_of_error h
  simp only [lookup] at hfound
  simp only [findFunction, hfound, Traced.orElse]
  obtain rfl | ⟨v, rfl⟩ | ⟨v, rfl⟩ | ⟨cause, rfl⟩ := Provider.lookup_failure h
  · exact ⟨fun _ => rfl, fun _ h => nomatch h⟩
  · exact ⟨fun _ => rfl, fun _ h => nomatch h⟩
  · exact ⟨fun _ => rfl, fun _ h => nomatch h⟩
  · exact ⟨fun hreported => absurd rfl (hreported cause), fun _ _ => rfl⟩

/-- What is read from the trace of a lookup does not depend on whether the name was asked for. -/
theorem filterMap_findFunction {γ : Type} {read : Event → Option γ}
    (hread : ∀ m, read (.notice m) = none) (s : Sources) (n : Text) :
    (s.findFunction n).trace.filterMap read = (s.lookup n).trace.filterMap read := by
  rw [findFunction, Traced.filterMap_orElse_of_quiet hread]
  · exact Traced.filterMap_bind_of_quiet hread fun _ => Traced.only_pure _
  · intro failure
    split
    · exact Traced.only_pure _
    · exact Traced.Only.bind (Traced.only_note _ trivial) fun _ => Traced.only_pure _
    · exact Traced.Only.bind (Traced.only_note _ trivial) fun _ => Traced.only_pure _
    · exact Traced.only_fail _

/-! ## Requests -/

theorem collect_of_isInput (h : r.IsInput) :
    s.collect r = pure (Docstring.ofFile s.input, none) :=
  if_pos h

theorem collect_of_not_implied (h : r.impliedName? = none) (hinput : ¬ r.IsInput) :
    s.collect r = s.explicitDocumentation r := by
  simp only [collect, h]
  exact if_neg hinput

/-- A single word that may be a name is looked up first. -/
theorem collect_word (h : isFunctionName n = true) :
    s.collect ⟨[n], none⟩ = (s.findFunction n >>= fun found =>
      match found with
      | none => pure (⟨[n]⟩, none)
      | some d => s.documentation n d >>= fun docs => pure (docs, some n)) := by
  have himplied : Request.impliedName? ⟨[n], none⟩ = some n :=
    Request.impliedName?_eq_some.2 ⟨rfl, h⟩
  have hinput : ¬ Request.IsInput ⟨[n], none⟩ := by
    intro hinput
    rw [hinput.impliedName?] at himplied
    contradiction
  have hexplicit : s.explicitDocumentation ⟨[n], none⟩ = pure (⟨[n]⟩, none) := by
    simp [explicitDocumentation, ofText_of_isFunctionName h]
  refine (if_neg hinput).trans ?_
  rw [himplied]
  refine congrArg (s.findFunction n >>= ·) (funext fun found => ?_)
  cases found with
  | none => exact hexplicit
  | some d => rfl

/-- A function that is asked for is looked up. -/
theorem collect_function (n : Text) :
    s.collect ⟨[], some n⟩ = (s.lookup n >>= fun d =>
      s.documentation n d >>= fun docs => pure (docs, some n)) := rfl

/-- A word and a function of the same name come to the same if the lookup succeeds. -/
theorem collect_word_of_ok (hname : isFunctionName n = true) {d : Definition}
    (h : (s.lookup n).result = .ok d) : s.collect ⟨[n], none⟩ = s.collect ⟨[], some n⟩ := by
  have hfound : (s.findFunction n).result = .ok (some d) := by rw [findFunction_of_ok h]
  rw [collect_word hname, Traced.bind_of_ok hfound, findFunction_of_ok h, collect_function,
    Traced.bind_of_ok h]

/-- Documentation of a function comes with its name. -/
theorem name_of_collect_function {docs : Docstring} {name : Option Text}
    (h : (s.collect ⟨[], some n⟩).result = .ok (docs, name)) : name = some n := by
  rw [collect_function] at h
  obtain ⟨d, -, h⟩ := Traced.exists_of_bind_eq_ok h
  obtain ⟨docs', -, h⟩ := Traced.exists_of_bind_eq_ok h
  exact (Prod.mk.inj (Except.ok.inj h)).2.symm

/-- The word itself is the documentation if the lookup fails in a way that is reported. -/
theorem collect_word_of_reported (hname : isFunctionName n = true) {f : Failure}
    (h : (s.lookup n).result = .error f) (hf : f.Reported) :
    (s.collect ⟨[n], none⟩).result = .ok (⟨[n]⟩, none) := by
  rw [collect_word hname, Traced.bind_of_ok ((result_findFunction_of_error h).1 hf)]
  rfl

/-- A cause that nobody reports ends the lookup of a word as well. -/
theorem collect_word_of_escape (hname : isFunctionName n = true) {cause : Escape}
    (h : (s.lookup n).result = .error (.escape cause)) :
    (s.collect ⟨[n], none⟩).result = .error (.escape cause) := by
  rw [collect_word hname]
  exact Traced.result_bind_of_error ((result_findFunction_of_error h).2 cause rfl)

/-! ## The one lookup of a request -/

theorem asked?_of_implied (h : r.impliedName? = some n) : s.asked? r = some n := by
  simp [asked?, h]

theorem functionDocumentation_eq (s : Sources) (function : Option Text) :
    s.functionDocumentation function =
      match function.or s.provider.firstName? with
      | none => .fail (.usage .nothingToShow)
      | some name => s.lookup name >>= fun d =>
          s.documentation name d >>= fun docs => pure (docs, some name) := rfl

/-- What is collected is the documentation of the one function that is looked up, if it is found. -/
theorem result_collect {d : Definition} (h : s.asked? r = some n)
    (hd : (s.lookup n).result = .ok d) :
    (s.collect r).result = (s.documentation n d).result.map fun docs => (docs, some n) := by
  have hdocs : (s.documentation n d >>= fun docs => (pure (docs, some n) : Traced _)).result =
      (s.documentation n d).result.map fun docs => (docs, some n) := by
    rw [Traced.result_bind]
    cases (s.documentation n d).result <;> rfl
  rw [← hdocs]
  cases himplied : r.impliedName? with
  | some m =>
      rw [asked?_of_implied himplied] at h
      obtain rfl := Option.some.inj h
      obtain ⟨rfl, hname⟩ := Request.impliedName?_eq_some.1 himplied
      rw [collect_word_of_ok hname hd, collect_function, Traced.bind_of_ok hd]
  | none =>
      rw [asked?, himplied, Option.none_or] at h
      split_ifs at h with hwords
      have hinput : ¬ r.IsInput := fun hinput => by simp [hinput.2] at hwords
      rw [collect_of_not_implied himplied hinput, explicitDocumentation, if_pos hwords,
        functionDocumentation_eq, h]
      simp only [Traced.bind_of_ok hd]

/-- What is read from the trace of a request, remarks apart, is what the lookup of the one name
leaves that it asks for. -/
theorem filterMap_collect {γ : Type} {read : Event → Option γ}
    (hread : ∀ m, read (.notice m) = none) (s : Sources) (r : Request) :
    (s.collect r).trace.filterMap read =
      ((s.asked? r).map fun n => (s.lookup n).trace.filterMap read).getD [] := by
  have hquiet (n : Text) (d : Definition) :
      (s.documentation n d >>= fun docs => (pure (docs, some n) : Traced _)).Quiet :=
    Traced.Only.bind (s.quiet_documentation n d) fun _ => Traced.only_pure _
  -- In each case all that follows the first lookup is quiet.
  cases himplied : r.impliedName? with
  | some n =>
      rw [asked?_of_implied himplied]
      obtain ⟨rfl, hname⟩ := Request.impliedName?_eq_some.1 himplied
      rw [collect_word hname, Traced.filterMap_bind_of_quiet hread, filterMap_findFunction hread]
      · rfl
      · intro found
        cases found with
        | none => exact Traced.only_pure _
        | some d => exact hquiet n d
  | none =>
      by_cases hinput : r.IsInput
      · rw [collect_of_isInput hinput, asked?, himplied, hinput.2]
        rfl
      · rw [collect_of_not_implied himplied hinput, explicitDocumentation, asked?, himplied,
          Option.none_or]
        split_ifs
        · rw [functionDocumentation_eq]
          cases r.function.or s.provider.firstName? with
          | none => rfl
          | some n => exact Traced.filterMap_bind_of_quiet hread (hquiet n)
        · rfl

/-- The commands of a request are those of the one lookup that it makes. -/
theorem calls_collect (s : Sources) (r : Request) :
    (s.collect r).calls = ((s.asked? r).map fun n => (s.lookup n).calls).getD [] :=
  filterMap_collect (fun _ => rfl) s r

/-- A request has the one name looked up that it asks for. -/
theorem names_collect (s : Sources) (r : Request) : (s.collect r).names = (s.asked? r).toList := by
  have hnames : (s.collect r).names = ((s.asked? r).map fun n => (s.lookup n).names).getD [] :=
    filterMap_collect (fun _ => rfl) s r
  rw [hnames]
  cases s.asked? r with
  | none => rfl
  | some n => exact s.provider.names_lookup s.shell n

/-- What is collected depends on the provider only by the first name that it lists and by its reply
to the one lookup. -/
theorem collect_congr (hdisk : s'.disk = s.disk) (hrenderer : s'.renderer = s.renderer)
    (hinput : s'.input = s.input) (hfirst : s'.provider.firstName? = s.provider.firstName?)
    (hlookup : ∀ n, s.asked? r = some n → s'.lookup n = s.lookup n) :
    s'.collect r = s.collect r := by
  have hdocs : s'.documentation = s.documentation := by
    funext name d
    simp only [documentation, hdisk, hrenderer]
  cases himplied : r.impliedName? with
  | some n =>
      have hreply := hlookup n (asked?_of_implied himplied)
      obtain ⟨rfl, hname⟩ := Request.impliedName?_eq_some.1 himplied
      have hfind : s'.findFunction n = s.findFunction n := by
        simp only [lookup] at hreply
        simp only [findFunction, hreply]
      rw [collect_word hname, collect_word hname, hfind, hdocs]
  | none =>
      by_cases hisInput : r.IsInput
      · rw [collect_of_isInput hisInput, collect_of_isInput hisInput, hinput]
      · rw [collect_of_not_implied himplied hisInput, collect_of_not_implied himplied hisInput,
          explicitDocumentation, explicitDocumentation]
        split_ifs with hwords
        · simp only [asked?, himplied, hwords, Option.none_or, if_true] at hlookup
          rw [functionDocumentation_eq, functionDocumentation_eq, hfirst, hdocs]
          cases hname : r.function.or s.provider.firstName? with
          | none => rfl
          | some n => simp only [hlookup n hname]
        · rfl

/-- Words are the documentation themselves, without a lookup, if they cannot be a name. -/
theorem collect_literal (hwords : r.words ≠ []) (himplied : r.impliedName? = none)
    (hinput : ¬ r.IsInput) :
    s.collect r = pure (Docstring.ofText (Text.joinNewlines r.words), r.function) := by
  rw [collect_of_not_implied himplied hinput, explicitDocumentation, if_neg]
  simpa using hwords

/-- A word that may be a name and the function of that name come to the same if the lookup
succeeds. If it fails in a way that is reported, the word is the documentation, and the function is
a failure; a cause that nobody reports ends both. A request has the one name looked up that it asks
for and no other: the commands are those of this lookup, one at most, and all other replies of the
provider make no difference. Words that cannot be a name are taken as they are. -/
theorem collect_lookup (s : Sources) :
    (∀ n, isFunctionName n = true →
      (∀ d, (s.lookup n).result = .ok d →
        s.collect ⟨[n], none⟩ = s.collect ⟨[], some n⟩ ∧
        ∀ docs name, (s.collect ⟨[n], none⟩).result = .ok (docs, name) → name = some n) ∧
      ∀ f, (s.lookup n).result = .error f →
        (f.Reported → (s.collect ⟨[n], none⟩).result = .ok (⟨[n]⟩, none)) ∧
        (∀ cause, f = .escape cause → (s.collect ⟨[n], none⟩).result = .error f) ∧
        (s.collect ⟨[], some n⟩).result = .error f) ∧
    ∀ r,
      (s.collect r).names = (s.asked? r).toList ∧
      (s.collect r).calls = ((s.asked? r).map fun n => (s.lookup n).calls).getD [] ∧
      (s.collect r).calls.length ≤ 1 ∧
      (∀ provider shell, provider.firstName? = s.provider.firstName? →
        (∀ n, s.asked? r = some n → provider.lookup shell n = s.lookup n) →
        collect { s with provider := provider, shell := shell } r = s.collect r) ∧
      (r.words ≠ [] → r.impliedName? = none → ¬ r.IsInput →
        s.collect r = pure (Docstring.ofText (Text.joinNewlines r.words), r.function)) := by
  refine ⟨fun n hname => ⟨fun d hd => ?_, fun f hf => ?_⟩, fun r => ?_⟩
  · have hsame := collect_word_of_ok hname hd
    refine ⟨hsame, fun docs name h => ?_⟩
    rw [hsame] at h
    exact name_of_collect_function h
  · refine ⟨collect_word_of_reported hname hf, ?_, ?_⟩
    · rintro cause rfl
      exact collect_word_of_escape hname hf
    · rw [collect_function, Traced.bind_of_error hf]
  · have hcalls := s.calls_collect r
    refine ⟨s.names_collect r, hcalls, ?_, fun provider shell hfirst hlookup => ?_,
      collect_literal⟩
    · rw [hcalls]
      cases s.asked? r with
      | none => exact Nat.zero_le 1
      | some n => exact s.provider.length_calls_lookup s.shell n
    · exact collect_congr rfl rfl rfl hfirst hlookup

/-- A shell that knows one function. -/
def greetingShell : Shell := fun call =>
  if call.arguments.contains ("greet" : Text) then
    .finished 0 "greet () \n\x7b \n    : Say hello\n\x7d\n"
  else .finished 1 []

def greetingSources : Sources where
  disk := ⟨.empty, [], "/"⟩
  shell := greetingShell
  provider := .shell ⟨[], (.text "bash" : Toml.Value), .int 10⟩
  renderer := "docsh"
  input := []

/-- The function is found by its bare name, and another word is taken as text. -/
theorem collect_greeting :
    greetingSources.collect ⟨["greet"], none⟩ = greetingSources.collect ⟨[], some "greet"⟩ ∧
      (greetingSources.collect ⟨["hello"], none⟩).result = .ok (⟨["hello"]⟩, none) ∧
      (greetingSources.collect ⟨[], some "hello"⟩).result =
        .error (.unknownFunction "hello") ∧
      (greetingSources.collect ⟨["hello"], none⟩).names = ["hello"] ∧
      (greetingSources.collect ⟨["hello"], none⟩).calls.length ≤ 1 := by
  obtain ⟨hnames, hrequests⟩ := collect_lookup greetingSources
  obtain ⟨hfound, -⟩ := hnames "greet" (by decide +kernel)
  obtain ⟨-, hmissing⟩ := hnames "hello" (by decide +kernel)
  obtain ⟨hword, -, hfunction⟩ := hmissing (.unknownFunction "hello") rfl
  have hreported : (Failure.unknownFunction "hello").Reported := fun _ h => nomatch h
  obtain ⟨hasked, -, hcalls, -⟩ := hrequests ⟨["hello"], none⟩
  exact ⟨(hfound _ rfl).1, hword hreported, hfunction, hasked, hcalls⟩

end Sources

end Command

end ShellDocs
