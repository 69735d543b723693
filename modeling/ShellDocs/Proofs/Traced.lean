import Mathlib.Data.List.Basic
import ShellDocs.Traced

/-!
# Traces of computations

What the parts of a computation leave in its trace. A computation whose events are all of one kind
stays so when it goes on in the same way (`Only.bind`, `Only.orElse`). One that only tells is quiet:
it adds nothing to what is looked up (`filterMap_bind_of_quiet`, `filterMap_orElse_of_quiet`). One
that shows something does so as its last step, and only if it succeeds (`Shows`).
-/

namespace ShellDocs

namespace Event

/-- A remark. -/
def Tells : Event → Prop
  | .notice _ => True
  | _ => False

/-- A remark or a question: nothing is shown and nothing is changed. -/
def Inquires : Event → Prop
  | .notice _ | .asked _ | .call _ => True
  | _ => False

/-- Nothing is shown. -/
def Hides : Event → Prop
  | .printed _ | .paged _ => False
  | _ => True

/-- No file is changed. -/
def Keeps : Event → Prop
  | .stored _ => False
  | _ => True

variable {event : Event}

theorem Tells.inquires (h : event.Tells) : event.Inquires := by
  cases event <;> first | exact trivial | exact h.elim

theorem Inquires.hides (h : event.Inquires) : event.Hides := by
  cases event <;> first | exact trivial | exact h.elim

theorem Inquires.keeps (h : event.Inquires) : event.Keeps := by
  cases event <;> first | exact trivial | exact h.elim

end Event

namespace Traced

variable {α β : Type} {x : Traced α} {f : α → Traced β} {handle : Failure → Traced α}
  {P Q : Event → Prop}

/-! ## Results -/

/-- A computation that succeeds goes on with its value. -/
theorem bind_of_ok {a : α} (h : x.result = .ok a) :
    x >>= f = ⟨x.trace ++ (f a).trace, (f a).result⟩ := by
  simp only [Bind.bind, bind, h]

/-- A computation that fails ends there. -/
theorem bind_of_error {failure : Failure} (h : x.result = .error failure) :
    x >>= f = ⟨x.trace, .error failure⟩ := by
  simp only [Bind.bind, bind, h]

theorem result_bind_of_ok {a : α} (h : x.result = .ok a) : (x >>= f).result = (f a).result := by
  rw [bind_of_ok h]

theorem result_bind_of_error {failure : Failure} (h : x.result = .error failure) :
    (x >>= f).result = .error failure := by
  rw [bind_of_error h]

/-- The results of two parts, one after the other. -/
theorem result_bind : (x >>= f).result = x.result >>= fun a => (f a).result := by
  cases hx : x.result with
  | error failure => exact congrArg Traced.result (bind_of_error hx)
  | ok a =>
      rw [bind_of_ok hx]
      rfl

/-- The result of a computation whose failure is handled. -/
theorem result_orElse :
    (x.orElse handle).result = match x.result with
      | .ok a => .ok a
      | .error failure => (handle failure).result := by
  unfold orElse
  cases hx : x.result with
  | ok a => exact hx
  | error failure => rfl

/-- A computation of two parts succeeds only if both do. -/
theorem exists_of_bind_eq_ok {b : β} (h : (x >>= f).result = .ok b) :
    ∃ a, x.result = .ok a ∧ (f a).result = .ok b := by
  cases hx : x.result with
  | error failure =>
      rw [bind_of_error hx] at h
      contradiction
  | ok a =>
      rw [bind_of_ok hx] at h
      exact ⟨a, rfl, h⟩

/-! ## Events of one kind -/

/-- Whether all events of a trace are of one kind. -/
def Only (P : Event → Prop) (x : Traced α) : Prop := ∀ event ∈ x.trace, P event

theorem Only.mono (hPQ : ∀ {event}, P event → Q event) (h : x.Only P) : x.Only Q :=
  fun event hevent => hPQ (h event hevent)

theorem only_pure (a : α) : (Pure.pure a : Traced α).Only P := fun _ h => nomatch h

theorem only_fail (failure : Failure) : (fail failure : Traced α).Only P := fun _ h => nomatch h

theorem only_ofExcept (r : Except Failure α) : (ofExcept r).Only P := fun _ h => nomatch h

theorem only_note (n : Notice) (h : P (.notice n)) : (note n).Only P :=
  List.forall_mem_singleton.2 h

theorem only_notes (ns : List Notice) (h : ∀ n, P (.notice n)) : (notes ns).Only P := by
  intro event hevent
  obtain ⟨n, -, rfl⟩ := List.mem_map.1 hevent
  exact h n

/-- What follows a computation is traced after it, if anything follows. -/
theorem exists_trace_bind : ∃ more, (x >>= f).trace = x.trace ++ more ∧
    (more = [] ∨ ∃ a, x.result = .ok a ∧ more = (f a).trace) := by
  cases hx : x.result with
  | error failure => exact ⟨[], by rw [bind_of_error hx, List.append_nil], .inl rfl⟩
  | ok a => exact ⟨_, by rw [bind_of_ok hx], .inr ⟨a, rfl, rfl⟩⟩

theorem exists_trace_orElse (x : Traced α) (handle : Failure → Traced α) :
    ∃ more, (x.orElse handle).trace = x.trace ++ more ∧
    (more = [] ∨ ∃ failure, x.result = .error failure ∧ more = (handle failure).trace) := by
  unfold orElse
  cases hx : x.result with
  | ok a => exact ⟨[], (List.append_nil _).symm, .inl rfl⟩
  | error failure => exact ⟨_, rfl, .inr ⟨failure, rfl, rfl⟩⟩

theorem Only.bind (hx : x.Only P) (hf : ∀ a, (f a).Only P) : (x >>= f).Only P := by
  obtain ⟨more, htrace, rfl | ⟨a, -, rfl⟩⟩ := exists_trace_bind (x := x) (f := f)
  · rw [Only, htrace, List.append_nil]
    exact hx
  · rw [Only, htrace]
    exact List.forall_mem_append.2 ⟨hx, hf a⟩

theorem Only.orElse (hx : x.Only P) (h : ∀ failure, (handle failure).Only P) :
    (x.orElse handle).Only P := by
  obtain ⟨more, htrace, rfl | ⟨failure, -, rfl⟩⟩ := exists_trace_orElse x handle
  · rw [Only, htrace, List.append_nil]
    exact hx
  · rw [Only, htrace]
    exact List.forall_mem_append.2 ⟨hx, h failure⟩

/-! ## Computations that only tell -/

/-- Whether a computation only tells what it does. -/
def Quiet (x : Traced α) : Prop := x.Only Event.Tells

/-- What only tells adds nothing that is read from a trace but its remarks. -/
theorem filterMap_of_tells {γ : Type} {read : Event → Option γ}
    (hread : ∀ n, read (.notice n) = none) {events : List Event}
    (h : ∀ event ∈ events, event.Tells) : events.filterMap read = [] := by
  refine List.filterMap_eq_nil_iff.2 fun event hevent => ?_
  have htells := h event hevent
  cases event with
  | notice n => exact hread n
  | asked _ | call _ | printed _ | paged _ | stored _ => exact htells.elim

theorem filterMap_bind_of_quiet {γ : Type} {read : Event → Option γ}
    (hread : ∀ n, read (.notice n) = none) (hf : ∀ a, (f a).Quiet) :
    (x >>= f).trace.filterMap read = x.trace.filterMap read := by
  obtain ⟨more, htrace, rfl | ⟨a, -, rfl⟩⟩ := exists_trace_bind (x := x) (f := f)
  · rw [htrace, List.append_nil]
  · rw [htrace, List.filterMap_append, filterMap_of_tells hread (hf a), List.append_nil]

theorem filterMap_orElse_of_quiet {γ : Type} {read : Event → Option γ}
    (hread : ∀ n, read (.notice n) = none) (h : ∀ e, (handle e).Quiet) :
    (x.orElse handle).trace.filterMap read = x.trace.filterMap read := by
  obtain ⟨more, htrace, rfl | ⟨e, -, rfl⟩⟩ := exists_trace_orElse x handle
  · rw [htrace, List.append_nil]
  · rw [htrace, List.filterMap_append, filterMap_of_tells hread (h e), List.append_nil]

/-! ## What is shown and what is changed -/

theorem output_of_hides (h : x.Only Event.Hides) : x.output = [] := by
  refine List.flatMap_eq_nil_iff.2 fun event hevent => ?_
  have hhides := h event hevent
  cases event with
  | printed t => exact hhides.elim
  | notice _ | asked _ | call _ | paged _ | stored _ => rfl

theorem pages_of_hides (h : x.Only Event.Hides) : x.pages = [] := by
  refine List.filterMap_eq_nil_iff.2 fun event hevent => ?_
  have hhides := h event hevent
  cases event with
  | paged p => exact hhides.elim
  | notice _ | asked _ | call _ | printed _ | stored _ => rfl

/-- A computation leaves the disk as it is unless it changes files. -/
theorem diskAfter_of_keeps {d : Disk} (h : x.Only Event.Keeps) : x.diskAfter d = d := by
  obtain ⟨trace, result⟩ := x
  have hfold : ∀ events : List Event, (∀ event ∈ events, event.Keeps) →
      events.foldl (fun d event =>
        match event with
        | .stored d' => d'
        | _ => d) d = d := by
    intro events hevents
    induction events with
    | nil => rfl
    | cons event rest ih =>
        obtain ⟨hevent, hrest⟩ := List.forall_mem_cons.1 hevents
        rw [List.foldl_cons]
        cases event with
        | stored d' => exact hevent.elim
        | notice _ | asked _ | call _ | printed _ | paged _ => exact ih hrest
  exact hfold trace h

theorem diskAfter_bind_of_ok {a : α} {d : Disk} (h : x.result = .ok a) :
    (x >>= f).diskAfter d = (f a).diskAfter (x.diskAfter d) := by
  rw [bind_of_ok h, diskAfter, List.foldl_append]
  rfl

/-- A computation that changes files leaves the disk as it says. -/
theorem diskAfter_storing (d d' : Disk) : (x.storing d').diskAfter d = d' := by
  rw [diskAfter, storing, List.foldl_append]
  rfl

theorem output_bind_of_hides {a : α} (hx : x.Only Event.Hides) (h : x.result = .ok a) :
    (x >>= f).output = (f a).output := by
  have hnone := output_of_hides hx
  rw [bind_of_ok h, output, List.flatMap_append]
  rw [output] at hnone
  rw [hnone, List.nil_append]
  rfl

/-- Whether a computation shows something just if it succeeds: nothing is shown on the way to a
failure, and something on the way to a value. -/
structure Shows (x : Traced α) : Prop where
  hides : ∀ failure, x.result = .error failure → x.Only Event.Hides
  shows : ∀ a, x.result = .ok a → x.output ≠ [] ∨ x.pages ≠ []

/-- A computation that shows nothing can come before one that does. -/
theorem Shows.bind (hx : x.Only Event.Hides) (hf : ∀ a, (f a).Shows) : (x >>= f).Shows := by
  cases hresult : x.result with
  | error failure =>
      rw [bind_of_error hresult]
      exact ⟨fun _ _ => hx, fun _ h => nomatch h⟩
  | ok a =>
      rw [bind_of_ok hresult]
      refine ⟨fun failure h => List.forall_mem_append.2 ⟨hx, (hf a).hides failure h⟩, fun b h => ?_⟩
      refine ((hf a).shows b h).imp (fun hshown hnone => hshown ?_) fun hshown hnone => hshown ?_
      · rw [output, List.flatMap_append] at hnone
        exact (List.append_eq_nil_iff.1 hnone).2
      · rw [pages, List.filterMap_append] at hnone
        exact (List.append_eq_nil_iff.1 hnone).2

theorem shows_fail (failure : Failure) : (fail failure : Traced α).Shows :=
  ⟨fun _ _ => only_fail failure, fun _ h => nomatch h⟩

theorem shows_print {t : Text} (ht : t ≠ []) : (print t).Shows :=
  ⟨fun _ h => (nomatch h), fun _ _ => .inl (by simpa [print, output] using ht)⟩

theorem shows_page (p : Paging) : (page p).Shows :=
  ⟨fun _ h => (nomatch h), fun _ _ => .inr (List.cons_ne_nil p [])⟩

end Traced

end ShellDocs
