import ShellDocs.Proofs.Config.Accepted
import ShellDocs.Proofs.Glob.Order
import ShellDocs.Proofs.Glob.Reached
import ShellDocs.Proofs.Provider

/-!
# The files that a shell reads

What the patterns of library files come to, and the one command that a lookup makes of them. The
files of a pattern are those of its matches that are files, in order and each of them once, and the
pattern covers their paths (`FilesOf`, `filesOf_files`). They are written as paths, which drops a
leading `./`: a file right in the current directory has no slash in its written form even if the
pattern has one, and a shell looks for such a file in the directories of its search path first.
-/

namespace ShellDocs

namespace Library

open Toml (Value)

variable {d : Disk} {pattern found f : Text} {fs paths patterns : List Text}

/-- What the files of a pattern are, once the home directory is put in. -/
structure FilesOf (d : Disk) (pattern : Text) (files : List Text) : Prop where
  /-- They are the matches that are files, each written as a path. -/
  matched : files = ((Glob.matching d pattern).map fun found => (Path.ofText found).toText).filter
    fun f => d.isFile? f = .ok true
  /-- A file leads where the match leads that it is written for. -/
  same : ∀ found l e, d.seek found = .ok (.taken l e) → (Path.ofText found).toText ∈ files →
    d.seek (Path.ofText found).toText = .ok (.taken l e)
  /-- A match has a slash if the pattern has one. -/
  slash_of_pattern : ∀ found ∈ Glob.matching d pattern, '/' ∈ pattern → '/' ∈ found
  /-- The pattern ends in a step and covers the paths of the files. -/
  covers : ∀ f ∈ files, Path.EndsInStep pattern ∧ ∃ p, Glob.Covers pattern p ∧ p.toText = f
  sorted : files.Pairwise fun f g => Text.le f g = true
  distinct : files.Nodup
  /-- A file has a slash only by a root or by two parts of the pattern. -/
  slash_iff : ∀ f ∈ files, '/' ∈ f ↔
    (Path.ofText pattern).isAbsolute = true ∨ 1 < (Path.ofText pattern).parts.length
  /-- In a tree without links in which the process may do everything they are all files whose paths
  the pattern covers, if the system takes a path as long as the path and the pattern together. -/
  complete : d.tree.Plain → Path.EndsInStep pattern → ∀ p l content, Glob.Covers pattern p →
    d.seek p.toText = .ok (.taken l (.file content)) →
    (Utf8.encode p.toText).length + (Utf8.encode pattern).length + 1 < Disk.pathLimit →
    p.toText ∈ files

/-! ## Tests that may fail -/

theorem filterAuxM_eq_ok {ε α : Type} {test : α → Except ε Bool} {xs acc ys : List α}
    [DecidableEq ε] : xs.filterAuxM test acc = .ok ys ↔
      (∀ x ∈ xs, ∃ b, test x = .ok b) ∧
        ys = (xs.filter fun x => test x = .ok true).reverse ++ acc := by
  induction xs generalizing acc with
  | nil => simp [List.filterAuxM, Pure.pure, Except.pure, eq_comm]
  | cons x rest ih =>
      rw [List.filterAuxM, Config.bind_eq_ok, List.forall_mem_cons]
      cases hx : test x with
      | error e => simp
      | ok b => cases b <;> simp [hx, ih]

/-- A list is filtered by a test if all tests of its members come to an end. -/
theorem filterM_eq_ok {ε α : Type} {test : α → Except ε Bool} {xs ys : List α} [DecidableEq ε] :
    xs.filterM test = .ok ys ↔
      (∀ x ∈ xs, ∃ b, test x = .ok b) ∧ ys = xs.filter fun x => test x = .ok true := by
  rw [List.filterM, Config.bind_eq_ok]
  simp only [filterAuxM_eq_ok, List.append_nil]
  constructor
  · rintro ⟨zs, ⟨hall, rfl⟩, hys⟩
    obtain rfl := Except.ok.inj hys
    exact ⟨hall, List.reverse_reverse _⟩
  · rintro ⟨hall, rfl⟩
    exact ⟨_, ⟨hall, rfl⟩, congrArg Except.ok (List.reverse_reverse _)⟩

/-! ## The files of one pattern -/

/-- The files that a pattern stands for. -/
def files (d : Disk) (pattern : Text) : Except Failure (List Text) :=
  if seeksUnnamed d pattern then .error (.escape .badPath)
  else filesAmong d (matching d pattern)

theorem filesAmong_eq_ok : filesAmong d paths = .ok fs ↔
    (∀ f ∈ paths, ∃ b, d.isFile? f = .ok b) ∧
      fs = paths.filter fun f => d.isFile? f = .ok true := by
  rw [← filterM_eq_ok, filesAmong]
  cases paths.filterM d.isFile? <;> simp

/-- The files among some paths are not found just if the system cannot tell of one of them. -/
theorem filesAmong_eq_error {failure : Failure} : filesAmong d paths = .error failure ↔
    (∃ f ∈ paths, ∃ fault, d.isFile? f = .error fault) ∧ failure = .escape .unanswered := by
  cases hfiles : filesAmong d paths with
  | ok fs =>
      refine iff_of_false (by simp) ?_
      rintro ⟨⟨f, hf, fault, hfault⟩, -⟩
      obtain ⟨b, hb⟩ := (filesAmong_eq_ok.1 hfiles).1 f hf
      rw [hfault] at hb
      contradiction
  | error other =>
      have hother : other = .escape .unanswered := by
        rw [filesAmong] at hfiles
        split at hfiles
        · contradiction
        · exact (Except.error.inj hfiles).symm
      have huntold : ∃ f ∈ paths, ∃ fault, d.isFile? f = .error fault := by
        by_contra hnone
        have hall : ∀ f ∈ paths, ∃ b, d.isFile? f = .ok b := by
          intro f hf
          cases htold : d.isFile? f with
          | ok b => exact ⟨b, rfl⟩
          | error fault => exact absurd ⟨f, hf, fault, htold⟩ hnone
        rw [filesAmong_eq_ok.2 ⟨hall, rfl⟩] at hfiles
        contradiction
      simp [hother, huntold, @eq_comm _ _ failure]

theorem files_eq_error {failure : Failure} : files d pattern = .error failure ↔
    seeksUnnamed d pattern = true ∧ failure = .escape .badPath ∨
      seeksUnnamed d pattern = false ∧
        (∃ f ∈ matching d pattern, ∃ fault, d.isFile? f = .error fault) ∧
          failure = .escape .unanswered := by
  rw [files]
  cases seeksUnnamed d pattern with
  | true => simp [@eq_comm _ _ failure]
  | false => simp [filesAmong_eq_error]

/-- The files of a pattern are those of its matches, each written as a path, that are files. -/
theorem eq_filter_of_files (h : files d pattern = .ok fs) :
    fs = (matching d pattern).filter fun f => d.isFile? f = .ok true := by
  rw [files] at h
  split_ifs at h
  exact (filesAmong_eq_ok.1 h).2

/-! ## What the files of a pattern are -/

/-- The matches that are files, each written as a path. -/
def filesOf (d : Disk) (pattern : Text) : List Text :=
  ((Glob.matching d pattern).map fun found => (Path.ofText found).toText).filter
    fun f => d.isFile? f = .ok true

theorem mem_matching :
    found ∈ Glob.matching d pattern ↔
      found ∈ Glob.expand d (pattern.length + 1) false pattern := by
  rw [Glob.matching, Text.sort, List.mem_mergeSort]

theorem found_of_mem_matching (ht : d.tree.Proper) (h : found ∈ Glob.matching d pattern) :
    Glob.Found pattern found :=
  Glob.found_of_mem_expand ht (mem_matching.1 h)

/-- A match ends in a step if it is that of a file. -/
theorem endsInStep_of_isFile? (ht : d.tree.Proper) (h : found ∈ Glob.matching d pattern)
    (hfile : d.isFile? (Path.ofText found).toText = .ok true) : Path.EndsInStep found := by
  by_contra hends
  obtain ⟨l, content, hseek⟩ := Disk.isFile?_eq_ok_true.1 hfile
  obtain ⟨l', hdir⟩ :=
    Glob.exists_seek_toText_of_mem_expand ht (mem_matching.1 h) hends (.of_reach hseek)
  cases hseek.symm.trans hdir

theorem mem_filesOf : f ∈ filesOf d pattern ↔ ∃ found ∈ Glob.matching d pattern,
    d.isFile? (Path.ofText found).toText = .ok true ∧ (Path.ofText found).toText = f := by
  simp only [filesOf, List.mem_filter, List.mem_map, decide_eq_true_eq]
  constructor
  · rintro ⟨⟨found, hfound, rfl⟩, hfile⟩
    exact ⟨found, hfound, hfile, rfl⟩
  · rintro ⟨found, hfound, hfile, rfl⟩
    exact ⟨⟨found, hfound, rfl⟩, hfile⟩

theorem same_of_mem_filesOf {l : Location} {e : Entry} (hseek : d.seek found = .ok (.taken l e))
    (h : (Path.ofText found).toText ∈ filesOf d pattern) :
    d.seek (Path.ofText found).toText = .ok (.taken l e) := by
  obtain ⟨m, content, hfile⟩ :=
    Disk.isFile?_eq_ok_true.1 (by simpa using (List.mem_filter.1 h).2)
  exact Disk.seek_toText_ofText hseek (.of_reach hfile)

theorem covers_of_mem_filesOf (ht : d.tree.Proper) (h : f ∈ filesOf d pattern) :
    Path.EndsInStep pattern ∧ ∃ p, Glob.Covers pattern p ∧ p.toText = f := by
  obtain ⟨found, hmatch, hfile, rfl⟩ := mem_filesOf.1 h
  have hfound := found_of_mem_matching ht hmatch
  exact ⟨hfound.ends.1 (endsInStep_of_isFile? ht hmatch hfile), _, hfound.covers, rfl⟩

theorem sorted_filesOf (ht : d.tree.Proper) (pattern : Text) :
    (filesOf d pattern).Pairwise fun f g => Text.le f g = true := by
  rw [filesOf, List.filter_map]
  refine List.pairwise_map.2 (((Text.pairwise_sort _).filter _).imp_of_mem ?_)
  intro found found' hmem hmem' hle
  obtain ⟨hmatch, hfile⟩ := List.mem_filter.1 hmem
  obtain ⟨hmatch', -⟩ := List.mem_filter.1 hmem'
  have hroot : Path.rootOf found = Path.rootOf found' :=
    (found_of_mem_matching ht hmatch).covers.root.trans
      (found_of_mem_matching ht hmatch').covers.root.symm
  have hbeside := Glob.beside_of_mem_expand ht (mem_matching.1 hmatch) (mem_matching.1 hmatch')
  rwa [hbeside.le_toText hroot (endsInStep_of_isFile? ht hmatch (by simpa using hfile))]

theorem nodup_filesOf (ht : d.tree.Proper) (pattern : Text) : (filesOf d pattern).Nodup := by
  have hpaths : ((Glob.matching d pattern).map Path.ofText).Nodup := by
    have hperm : (Glob.matching d pattern).Perm
        (Glob.expand d (pattern.length + 1) false pattern) := List.mergeSort_perm _ _
    exact (hperm.map Path.ofText).nodup_iff.2 (Glob.nodup_map_ofText_expand ht)
  refine (hpaths.of_map.map_on fun found hmem found' hmem' heq => ?_).filter _
  refine List.inj_on_of_nodup_map hpaths hmem hmem' ?_
  have hread := congrArg Path.ofText heq
  rwa [(Path.plain_ofText found).ofText_toText, (Path.plain_ofText found').ofText_toText] at hread

theorem slash_mem_of_mem_filesOf (ht : d.tree.Proper) (h : f ∈ filesOf d pattern) : '/' ∈ f ↔
    (Path.ofText pattern).isAbsolute = true ∨ 1 < (Path.ofText pattern).parts.length := by
  obtain ⟨-, p, hcovers, rfl⟩ := covers_of_mem_filesOf ht h
  have hroot : p.isAbsolute = (Path.ofText pattern).isAbsolute := by
    rw [Path.isAbsolute, Path.isAbsolute, hcovers.root]
    rfl
  rw [hcovers.plain.slash_mem_toText, hroot, hcovers.parts.length_eq]

/-- In a tree without links every file whose path the pattern covers is one of its files. -/
theorem mem_filesOf_of_covers (ht : d.tree.Proper) (hd : d.tree.Plain)
    (hends : Path.EndsInStep pattern) {p : Path} {l : Location} {content : Bytes}
    (hcovers : Glob.Covers pattern p) (hseek : d.seek p.toText = .ok (.taken l (.file content)))
    (hroom : (Utf8.encode p.toText).length + (Utf8.encode pattern).length + 1 < Disk.pathLimit) :
    p.toText ∈ filesOf d pattern := by
  obtain ⟨htakes, hwalk⟩ := (Disk.seek_eq_ok_iff hd).1 hseek
  have hread := hcovers.plain.ofText_toText
  have hnamed : Path.Named d.user p := hread ▸ Path.named_ofText htakes.named
  have hne : pattern ≠ [] := by
    rintro rfl
    exact absurd hends (by decide)
  have hextent := Glob.extent_le p
  obtain ⟨found, hmem, rfl⟩ := Glob.exists_mem_expand hd ht hcovers hwalk
    (fun h => absurd h Bool.false_ne_true) (.inr hends) hne hnamed (by omega) (Nat.lt_succ_self _)
  exact mem_filesOf.2 ⟨found, mem_matching.2 hmem, Disk.isFile?_eq_ok_true.2 ⟨l, content, hseek⟩,
    rfl⟩

theorem filesOf_files (ht : d.tree.Proper) (h : files d pattern = .ok fs) :
    FilesOf d (Path.expandHomeText d.user pattern) fs := by
  obtain rfl : fs = filesOf d (Path.expandHomeText d.user pattern) := eq_filter_of_files h
  exact {
    matched := rfl
    same := fun _ _ _ => same_of_mem_filesOf
    slash_of_pattern := fun _ hfound => (found_of_mem_matching ht hfound).slash
    covers := fun _ => covers_of_mem_filesOf ht
    sorted := sorted_filesOf ht _
    distinct := nodup_filesOf ht _
    slash_iff := fun _ => slash_mem_of_mem_filesOf ht
    complete := fun hd hends _ _ _ => mem_filesOf_of_covers ht hd hends }

/-! ## All patterns -/

/-- The patterns come to the files of one after the other, up to the first that fails. -/
theorem result_expand (d : Disk) (patterns : List Text) :
    (expand d patterns).result = (patterns.mapM (files d)).map List.flatten := by
  induction patterns with
  | nil => rfl
  | cons pattern rest ih =>
      rw [expand, List.mapM_cons]
      cases hseeks : seeksUnnamed d pattern with
      | true =>
          rw [if_pos rfl, files, hseeks]
          rfl
      | false =>
          have hfiles : files d pattern = filesAmong d (matching d pattern) := by
            rw [files, hseeks, if_neg Bool.false_ne_true]
          have hrest : (Traced.ofExcept (filesAmong d (matching d pattern)) >>= fun group =>
              expand d rest >>= fun others => (pure (group ++ others) : Traced _)).result =
              ((pattern :: rest).mapM (files d)).map List.flatten := by
            rw [List.mapM_cons, hfiles, Traced.result_bind]
            simp only [Traced.result_bind, ih]
            cases filesAmong d (matching d pattern) with
            | error failure => rfl
            | ok group => cases rest.mapM (files d) <;> rfl
          rw [if_neg Bool.false_ne_true, ← List.mapM_cons, ← hrest]
          dsimp only
          split
          · exact Traced.result_bind_of_ok rfl
          · rfl

/-- A slash in a pattern stays when the home directory is put in. -/
theorem slash_mem_expandHomeText (u : User) (h : '/' ∈ pattern) :
    '/' ∈ Path.expandHomeText u pattern := by
  fun_cases Path.expandHomeText u pattern with
  | case1 rest home hhome =>
      have hrest : '/' ∈ rest.takeWhile (· != '/') ++ rest.dropWhile (· != '/') := by
        rw [List.takeWhile_append_dropWhile]
        exact (List.mem_cons.1 h).resolve_left (by decide)
      have hslash : '/' ∈ rest.dropWhile (· != '/') :=
        (List.mem_append.1 hrest).resolve_left fun hname => by
          simpa using List.mem_takeWhile_imp hname
      rw [Path.homeText]
      split_ifs
      · exact List.mem_singleton_self _
      · exact List.mem_append_right _ hslash
  | case2 rest hnone => exact h
  | case3 => exact h

theorem exists_of_mem_mapM {ε α β : Type} {g : α → Except ε β} {xs : List α} {ys : List β}
    (h : xs.mapM g = .ok ys) {y : β} (hy : y ∈ ys) : ∃ x ∈ xs, g x = .ok y := by
  induction xs generalizing ys with
  | nil =>
      obtain rfl := Except.ok.inj h
      contradiction
  | cons x rest ih =>
      rw [List.mapM_cons] at h
      obtain ⟨first, hfirst, h⟩ := Config.bind_eq_ok.1 h
      obtain ⟨others, hothers, h⟩ := Config.bind_eq_ok.1 h
      obtain rfl := Except.ok.inj h
      obtain rfl | hy := List.mem_cons.1 hy
      · exact ⟨x, List.mem_cons_self, hfirst⟩
      · obtain ⟨x', hx', hg⟩ := ih hothers hy
        exact ⟨x', List.mem_cons_of_mem x hx', hg⟩

/-- The system takes the path of a file that the patterns come to. -/
theorem canName_of_mem_expand (h : (expand d patterns).result = .ok fs) (hf : f ∈ fs) :
    d.user.canName f = true := by
  rw [result_expand] at h
  cases hgroups : patterns.mapM (files d) with
  | error failure =>
      rw [hgroups] at h
      contradiction
  | ok groups =>
      rw [hgroups] at h
      obtain rfl := Except.ok.inj h
      obtain ⟨group, hgroup, hf⟩ := List.mem_flatten.1 hf
      obtain ⟨pattern, -, hfiles⟩ := exists_of_mem_mapM hgroups hgroup
      rw [eq_filter_of_files hfiles, List.mem_filter, decide_eq_true_eq] at hf
      obtain ⟨l, content, hseek⟩ := Disk.isFile?_eq_ok_true.1 hf.2
      exact (Disk.Takes.of_reach hseek).named

/-- The patterns come to the files of one after the other, up to the first that fails. What the
files of one pattern are is told by `FilesOf`. A lookup runs one command, unless the system does not
take it, and the name is one of the arguments, as it is given, and the files follow it. -/
theorem lookup_command (d : Disk) (patterns : List Text) :
    (expand d patterns).result = (patterns.mapM (files d)).map List.flatten ∧
    (∀ pattern failure, files d pattern = .error failure ↔
      seeksUnnamed d pattern = true ∧ failure = .escape .badPath ∨
        seeksUnnamed d pattern = false ∧
          (∃ f ∈ matching d pattern, ∃ fault, d.isFile? f = .error fault) ∧
            failure = .escape .unanswered) ∧
    (d.tree.Proper → ∀ pattern fs, files d pattern = .ok fs →
      FilesOf d (Path.expandHomeText d.user pattern) fs ∧
        ('/' ∈ pattern → '/' ∈ Path.expandHomeText d.user pattern)) ∧
    ∀ fs, (expand d patterns).result = .ok fs → ∀ program timeout shell name,
      let i : Inquiry := ⟨fs, ⟨program, d.user.locale⟩, timeout⟩
      ((Provider.shell i).lookup shell name).calls =
          (if i.unfit? name = none then
            [⟨program, [("-c" : Text), Inquiry.script, ("docsh" : Text), name] ++ fs, timeout⟩]
          else []) ∧
        (i.unfit? name = none ↔ (∃ t, program = .text t ∧ d.user.canName t = true) ∧
          d.user.canName name = true) := by
  refine ⟨result_expand d patterns, fun _ _ => files_eq_error, fun ht pattern fs hfiles =>
    ⟨filesOf_files ht hfiles, slash_mem_expandHomeText d.user⟩,
    fun fs hfs program timeout shell name => ⟨Provider.calls_lookup_shell, ?_⟩⟩
  rw [Inquiry.unfit?_eq_none]
  exact and_congr_right fun _ => and_iff_left fun f hf => canName_of_mem_expand hfs hf

/-- A process with one file in its directory, which is the home directory of another user. -/
def toolsDisk : Disk where
  tree := Tree.empty.plant [("tools" : Text), ("lib.sh" : Text)] (.file [])
  cwd := [("tools" : Text)]
  user := { home := "/home", others := [("root", "/tools")] }

/-- A pattern with one match that is a file comes to this file. -/
theorem files_of_expand (found : Text)
    (h : Glob.expand d ((Path.expandHomeText d.user pattern).length + 1) false
      (Path.expandHomeText d.user pattern) = [found]) (hseeks : seeksUnnamed d pattern = false)
    (hf : (Path.ofText found).toText = f) (hfile : d.isFile? f = .ok true) :
    files d pattern = .ok [f] := by
  have hmatching : matching d pattern = [f] := by
    rw [matching, Glob.matching, h, Text.sort, List.mergeSort_singleton, List.map_singleton, hf]
  rw [files, hseeks, if_neg Bool.false_ne_true, filesAmong_eq_ok, hmatching]
  simp [hfile]

/-- A pattern with a slash whose file has none, and one that starts at the home directory of another
user. -/
theorem lookup_command_tools :
    toolsDisk.tree.Proper ∧
      (expand toolsDisk ["./lib.sh", "~root/*.sh"]).result = .ok ["lib.sh", "/tools/lib.sh"] ∧
      ((Provider.shell ⟨["lib.sh", "/tools/lib.sh"], ⟨.text "bash", toolsDisk.user.locale⟩,
          .int 10⟩).lookup (fun _ => .missing) "greet").calls =
        [⟨.text "bash", ["-c", Inquiry.script, "docsh", "greet", "lib.sh", "/tools/lib.sh"],
          .int 10⟩] ∧
      FilesOf toolsDisk "./lib.sh" ["lib.sh"] ∧
      '/' ∈ ("./lib.sh" : Text) ∧ '/' ∉ ("lib.sh" : Text) := by
  have hnames : ∀ part ∈ [("tools" : Text), ("lib.sh" : Text)], Tree.IsEntryName part := by decide
  have hproper : toolsDisk.tree.Proper := Tree.proper_empty.plant hnames (.file [])
  have hhere : files toolsDisk "./lib.sh" = .ok ["lib.sh"] :=
    files_of_expand "./lib.sh" (by decide +kernel) (by decide) (by decide) (by decide +kernel)
  have hhome : files toolsDisk "~root/*.sh" = .ok ["/tools/lib.sh"] :=
    files_of_expand "/tools/lib.sh" (by decide +kernel) (by decide) (by decide) (by decide +kernel)
  obtain ⟨hresult, -, hpatterns, hlookup⟩ :=
    lookup_command toolsDisk ["./lib.sh", "~root/*.sh"]
  have hexpand : (expand toolsDisk ["./lib.sh", "~root/*.sh"]).result =
      .ok ["lib.sh", "/tools/lib.sh"] := by
    rw [hresult]
    simp only [List.mapM_cons, List.mapM_nil, hhere, hhome]
    rfl
  obtain ⟨hcalls, hfit⟩ := hlookup _ hexpand (.text "bash") (.int 10) (fun _ => .missing) "greet"
  rw [if_pos (hfit.2 ⟨⟨_, rfl, by decide⟩, by decide⟩)] at hcalls
  exact ⟨hproper, hexpand, hcalls, (hpatterns hproper _ _ hhere).1, by decide, by decide⟩

end Library

end ShellDocs
