import ShellDocs.Proofs.Association
import ShellDocs.Proofs.Toml.Lines
import ShellDocs.Toml.Library

/-!
# What a library promises

Two promises of a library that reads and edits TOML, for the values that `value` says a document
gives to its top-level keys. An editor that `Assigns` sets exactly the keys that it is asked to set
(`Library.Assigns.assignAll`); a document that `ReadsBack` is read as the table of what it says. The
library of this project assigns (`Library.assigns_builtin`), and it reads plain layouts back, such
as that of a new file (`Library.readsBack_of_new`).
-/

namespace ShellDocs.Toml

namespace Library

/-- Whether setting a top-level key of a document to a plain value sets this key and no other. -/
def Assigns (lib : Library) (value : lib.Document → Text → Option Value) : Prop :=
  ∀ doc key v new, v.Plain → lib.assign doc key v = .ok new →
    ∀ k, value new k = if k = key then some v else value doc k

/-- Whether the text of a document is read as a table of what the document says. -/
def ReadsBack (lib : Library) (value : lib.Document → Text → Option Value) (doc : lib.Document) :
    Prop :=
  ∃ t, lib.read (lib.dump doc) = .ok t ∧ ∀ key, t.lookup key = value doc key

variable {lib : Library} {value : lib.Document → Text → Option Value} {doc new : lib.Document}
  {entries : Table}

/-- A document in which several keys were set says the new values for them, and all else as
before. -/
theorem Assigns.assignAll (h : lib.Assigns value) (hentries : ∀ e ∈ entries, e.2.Plain)
    (hkeys : (entries.map Prod.fst).Nodup) (hnew : lib.assignAll doc entries = .ok new) (k : Text) :
    value new k = (entries.lookup k).or (value doc k) := by
  induction entries generalizing doc with
  | nil =>
      obtain rfl := Except.ok.inj hnew
      rfl
  | cons e rest ih =>
      obtain ⟨key, v⟩ := e
      rw [Library.assignAll, List.foldlM_cons] at hnew
      obtain ⟨next, hset, hrest⟩ := exists_of_bind_eq_ok hnew
      obtain ⟨hv, hplain⟩ := List.forall_mem_cons.1 hentries
      obtain ⟨hother, hrestKeys⟩ := List.nodup_cons.1 hkeys
      rw [ih hplain hrestKeys hrest, h doc key v next hv hset]
      by_cases hk : k = key
      · subst hk
        simp [Association.lookup_eq_none_of_not_mem hother]
      · simp [Association.lookup_cons_of_ne hk, hk]

/-! ## The library of this project -/

theorem assign_eq_ok {l m : Layout} {key : Text} {v : Value} :
    l.assign key v = .ok m ↔ l.set? key v = some m := by
  rw [Layout.assign]
  split
  · next hset => simp [hset]
  · next hset => simp [hset]

/-- A plain layout in which keys are set to plain values stays plain. -/
theorem plain_assignAll {l m : builtin.Document} (hl : Layout.Plain l)
    (hentries : ∀ e ∈ entries, e.2.Plain) (h : builtin.assignAll l entries = .ok m) :
    Layout.Plain m := by
  induction entries generalizing l with
  | nil => exact Except.ok.inj h ▸ hl
  | cons e rest ih =>
      obtain ⟨he, hrest⟩ := List.forall_mem_cons.1 hentries
      rw [Library.assignAll, List.foldlM_cons] at h
      obtain ⟨next, hset, hall⟩ := exists_of_bind_eq_ok h
      exact ih (hl.set? he (assign_eq_ok.1 hset)) hrest hall

/-- The library of this project reads a plain layout back. -/
theorem readsBack_of_plain {l : Layout} (hl : l.Plain) : builtin.ReadsBack Layout.value? l := by
  obtain ⟨t, htable, hlookup⟩ := hl.readsBack
  refine ⟨t, ?_, hlookup⟩
  have hread : builtin.read l.text =
      (tableOf (Text.joinCarriageReturns l.text)).mapError (refusal _) := rfl
  have hdump : builtin.dump l = l.text := rfl
  rw [hdump, hread, htable]
  rfl

/-- The layout of a new file is plain. -/
theorem plain_newLayout : newLayout.Plain := by
  have hcomment : newLayout = [.comment ('#' :: " docsh configuration".toList ++ ['\n'])] := rfl
  refine ⟨?_, List.nodup_nil⟩
  rw [hcomment, List.forall_mem_singleton]
  exact .comment fun _ hc => Text.eq_false_of_any rfl hc

/-- A new file in which keys are set to plain values is read back. -/
theorem readsBack_of_new {m : builtin.Document} (hentries : ∀ e ∈ entries, e.2.Plain)
    (h : builtin.assignAll builtin.fresh entries = .ok m) :
    builtin.ReadsBack Layout.value? m :=
  readsBack_of_plain (plain_assignAll plain_newLayout hentries h)

end Library

end ShellDocs.Toml
