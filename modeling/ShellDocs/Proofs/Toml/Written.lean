import Mathlib.Data.List.Basic
import ShellDocs.Toml.Printer

/-!
# Reading back written values

A text in double quotes, a decimal integer, a truth value and a list of texts are read back from
their written form, with the text that follows left over: `value_written`. The values of settings
are of these kinds, which are called plain.
-/

namespace ShellDocs.Toml

theorem ok_bind {ε α β : Type} (a : α) (f : α → Except ε β) : (Except.ok a >>= f) = f a := rfl

/-! ## Texts -/

/-- The digits of a control character are read back as its number. -/
theorem hex_control : ∀ n < 0x80, n < 0x20 ∨ n = 0x7F →
    (Text.hex 4 n).length = 4 ∧ (Text.hex 4 n).all isHexDigit = true ∧
      numberOf 16 (Text.hex 4 n) = n := by
  decide +kernel

/-- A control character is read back from its digits. -/
theorem hexChar_control {c : Char} (hc : c.toNat < 0x20 ∨ c.toNat = 0x7F) (rest : Text) :
    hexChar 4 (Text.hex 4 c.toNat ++ rest) = .ok ([c], rest) := by
  obtain ⟨hlength, hall, hnumber⟩ := hex_control c.toNat (by omega) hc
  have hvalid : c.toNat.isValidChar := .inl (by omega)
  simp only [hexChar, List.take_left' hlength, List.drop_left' hlength, hlength, hall, hnumber]
  simp [hvalid, Char.ofNat_toNat]

/-- A character is written as a short escape, as the number of a control character, or as
itself. -/
theorem writtenChar_cases (c : Char) :
    (∃ d, writtenChar c = ['\x5c', d] ∧ shortEscape? d = some c ∧ d ≠ 'x' ∧ d ≠ 'u' ∧ d ≠ 'U') ∨
      ((c.toNat < 0x20 ∨ c.toNat = 0x7F) ∧
        writtenChar c = '\x5c' :: 'u' :: Text.hex 4 c.toNat) ∨
      writtenChar c = [c] ∧ c ≠ '\x22' ∧ c ≠ '\x5c' ∧ isIllegal c = false := by
  by_cases hshort : c ∈ ['\x22', '\x5c', '\x08', '\t', '\n', '\x0c', '\r']
  · left
    simp only [List.mem_cons, List.not_mem_nil, or_false] at hshort
    obtain rfl | rfl | rfl | rfl | rfl | rfl | rfl := hshort
    all_goals exact ⟨_, rfl, by decide⟩
  · right
    simp only [List.mem_cons, List.not_mem_nil, or_false, not_or] at hshort
    obtain ⟨hquote, hslash, hback, htab, hnewline, hfeed, hreturn⟩ := hshort
    have hlong : writtenChar c = if c.toNat < 0x20 ∨ c.toNat = 0x7F then
        '\x5c' :: 'u' :: Text.hex 4 c.toNat else [c] := by
      simp [writtenChar, hquote, hslash, hback, htab, hnewline, hfeed, hreturn]
    by_cases hcontrol : c.toNat < 0x20 ∨ c.toNat = 0x7F
    · exact .inl ⟨hcontrol, by rw [hlong, if_pos hcontrol]⟩
    · refine .inr ⟨by rw [hlong, if_neg hcontrol], hquote, hslash, ?_⟩
      simp only [isIllegal, Bool.or_eq_false_iff, Bool.and_eq_false_iff, decide_eq_false_iff_not,
        beq_eq_false_iff_ne]
      omega

/-- A written character is read back by one step. -/
theorem basicString_writtenChar (c : Char) (fuel : Nat) (rest : Text) :
    basicString false (fuel + 1) (writtenChar c ++ rest) =
      (basicString false fuel rest).map fun r => (c :: r.1, r.2) := by
  obtain ⟨d, hwritten, hshort, hx, hu, hU⟩ | ⟨hcontrol, hwritten⟩ | ⟨hwritten, hq, hb, hlegal⟩ :=
    writtenChar_cases c
  · have hescape : escape false (d :: rest) = .ok ([c], rest) := by
      simp [escape, hshort, hx, hu, hU]
    simp [hwritten, basicString, hescape]
  · have hescape : escape false ('u' :: (Text.hex 4 c.toNat ++ rest)) = .ok ([c], rest) := by
      simp [escape, hexChar_control hcontrol]
    simp [hwritten, basicString, hescape]
  · simp [hwritten, basicString, hq, hb, hlegal]

/-- A text is read back from its characters and the closing quote. -/
theorem basicString_written (t : Text) {fuel : Nat} (hfuel : t.length < fuel) (rest : Text) :
    basicString false fuel (t.flatMap writtenChar ++ '\x22' :: rest) = .ok (t, rest) := by
  induction t generalizing fuel with
  | nil =>
      obtain ⟨fuel, rfl⟩ := Nat.exists_eq_succ_of_ne_zero (Nat.ne_of_gt hfuel)
      simp [basicString]
  | cons c t ih =>
      obtain ⟨fuel, rfl⟩ := Nat.exists_eq_succ_of_ne_zero (Nat.ne_of_gt (Nat.zero_lt_of_lt hfuel))
      rw [List.flatMap_cons, List.append_assoc, basicString_writtenChar,
        ih (by simpa using hfuel)]
      rfl

/-- A written character starts with no quote. -/
theorem exists_writtenChar (c : Char) : ∃ d t, writtenChar c = d :: t ∧ d ≠ '\x22' := by
  obtain ⟨d, hwritten, -⟩ | ⟨-, hwritten⟩ | ⟨hwritten, hq, -⟩ := writtenChar_cases c
  · exact ⟨_, _, hwritten, by decide⟩
  · exact ⟨_, _, hwritten, by decide⟩
  · exact ⟨_, _, hwritten, hq⟩

theorem length_le_flatMap_writtenChar (t : Text) : t.length ≤ (t.flatMap writtenChar).length := by
  induction t with
  | nil => simp
  | cons c t ih =>
      obtain ⟨d, more, hwritten, -⟩ := exists_writtenChar c
      simp only [List.flatMap_cons, List.length_append, hwritten, List.length_cons]
      omega

/-- The length of what is read bounds the number of steps. -/
theorem basicString_written_of_length (t rest : Text) :
    basicString false ((t.flatMap writtenChar ++ '\x22' :: rest).length + 1)
        (t.flatMap writtenChar ++ '\x22' :: rest) = .ok (t, rest) := by
  refine basicString_written t ?_ rest
  have hlength := length_le_flatMap_writtenChar t
  simp only [List.length_append]
  omega

/-- A string in double quotes is taken for one, unless another quote follows. -/
theorem string?_writtenText (t : Text) {rest : Text} (hrest : rest.head? ≠ some '\x22') :
    string? (writtenText t ++ rest) = some (.ok (t, rest)) := by
  have hread := basicString_written_of_length t rest
  have hsplit : writtenText t ++ rest = '\x22' :: (t.flatMap writtenChar ++ '\x22' :: rest) := by
    simp [writtenText]
  rw [hsplit, string?]
  · rw [hread]
  · -- Three quotes would start a string of several lines.
    intro more heq
    cases t with
    | nil =>
        simp only [List.flatMap_nil, List.nil_append, List.cons.injEq, true_and] at heq
        simp [heq] at hrest
    | cons c t =>
        obtain ⟨d, tail, hwritten, hd⟩ := exists_writtenChar c
        simp only [List.flatMap_cons, hwritten, List.cons_append, List.cons.injEq] at heq
        exact hd heq.1

/-! ## Integers -/

theorem isDigit_of_mem_ofNat {n : Nat} {c : Char} (h : c ∈ Text.ofNat n) : c.isDigit = true :=
  Nat.isDigit_of_mem_toDigits (by decide) (by decide) h

theorem ofNat_ne_nil (n : Nat) : Text.ofNat n ≠ [] := Nat.toDigits_ne_nil

/-- The digits of a number stand for it. -/
theorem numberOf_ofNat (n : Nat) : numberOf 10 (Text.ofNat n) = n := by
  have hdigits (t : Text) (ht : ∀ c ∈ t, c.isDigit = true) (start : Nat) :
      t.foldl (fun n c => n * 10 + digitValue c) start = Nat.ofDigitChars 10 t start := by
    induction t generalizing start with
    | nil => rfl
    | cons c t ih =>
        obtain ⟨hc, hrest⟩ := List.forall_mem_cons.1 ht
        rw [List.foldl_cons, ih hrest, Nat.ofDigitChars_cons, digitValue, if_pos hc, Nat.mul_comm]
  rw [numberOf, hdigits _ (fun c hc => isDigit_of_mem_ofNat hc), Text.ofNat,
    Nat.ofDigitChars_toDigits (by decide) (by decide)]

/-- Only the digits of zero start with a zero. -/
theorem eq_zero_of_head_ofNat {n : Nat} {t : Text} (h : Text.ofNat n = '0' :: t) : n = 0 := by
  induction n using Nat.strongRecOn generalizing t with
  | ind n ih =>
      rw [Text.ofNat, Nat.toDigits_eq_if (by decide)] at h
      split_ifs at h with hsmall
      · have hchar : n.digitChar = '0' := (List.cons.inj h).1
        have hzero : ∀ m < 10, m.digitChar = '0' → m = 0 := by decide
        exact hzero n hsmall hchar
      · obtain ⟨first, rest, hcons⟩ := List.exists_cons_of_ne_nil (ofNat_ne_nil (n / 10))
        rw [Text.ofNat] at hcons
        rw [hcons, List.cons_append, List.cons.injEq] at h
        have hzero := ih (n / 10) (by omega) (t := rest) (by rw [Text.ofNat, hcons, h.1])
        omega

/-- A number starts with a digit, which is zero only if the number is. -/
theorem exists_ofNat (n : Nat) :
    ∃ c t, Text.ofNat n = c :: t ∧ c.isDigit = true ∧ (c = '0' → n = 0) := by
  obtain ⟨c, t, hcons⟩ := List.exists_cons_of_ne_nil (ofNat_ne_nil n)
  refine ⟨c, t, hcons, isDigit_of_mem_ofNat (hcons ▸ List.mem_cons_self), ?_⟩
  rintro rfl
  exact eq_zero_of_head_ofNat hcons

/-- A run of digits ends where they end. -/
theorem digitRun_append {digits : Text} (hdigits : ∀ c ∈ digits, c.isDigit = true) (rest : Text) :
    digitRun Char.isDigit (digits ++ '\n' :: rest) = (digits, '\n' :: rest) := by
  induction digits with
  | nil => cases rest <;> rfl
  | cons c digits ih =>
      obtain ⟨hc, hrest⟩ := List.forall_mem_cons.1 hdigits
      have ih := ih hrest
      cases digits with
      | nil => simp_all [digitRun]
      | cons d digits =>
          have hd : d ≠ '_' := by
            rintro rfl
            exact absurd (hrest _ List.mem_cons_self) (by decide)
          rw [List.cons_append] at ih ⊢
          rw [digitRun.eq_def]
          simp only [List.cons_append, hc, if_true, hd, false_and, if_false]
          rw [ih]

/-- No mark follows a number of a fixed width where only digits and a newline stand. -/
theorem afterChar?_fixedNumber? {digits rest t : Text} (hdigits : ∀ c ∈ digits, c.isDigit = true)
    {count low high n : Nat}
    (h : fixedNumber? count low high (digits ++ '\n' :: rest) = some (n, t)) {c : Char}
    (hc : c.isDigit = false) (hnewline : c ≠ '\n') : afterChar? c t = none := by
  rw [fixedNumber?] at h
  split_ifs at h with hfixed
  obtain ⟨-, rfl⟩ := Prod.mk.inj (Option.some.inj h)
  simp only [Bool.and_eq_true, List.all_eq_true] at hfixed
  have hcount : count ≤ digits.length := by
    by_contra hlong
    have hmem : '\n' ∈ (digits ++ '\n' :: rest).take count := by
      rw [List.take_append, List.mem_append]
      right
      obtain ⟨k, hk⟩ := Nat.exists_eq_succ_of_ne_zero (n := count - digits.length) (by omega)
      simp [hk]
    exact absurd (hfixed.1.1.2 _ hmem) (by decide)
  rw [List.drop_append_of_le_length hcount]
  cases hdrop : digits.drop count with
  | nil => simp [afterChar?, hnewline]
  | cons d more =>
      have hd : d.isDigit = true := hdigits d (List.mem_of_mem_drop (hdrop ▸ List.mem_cons_self))
      have hne : c ≠ d := by
        rintro rfl
        rw [hd] at hc
        contradiction
      simp [afterChar?, hne]

/-- Digits and a newline are no date. -/
theorem date?_digits {digits : Text} (hdigits : ∀ c ∈ digits, c.isDigit = true) (rest : Text) :
    date? (digits ++ '\n' :: rest) = none := by
  rw [date?]
  cases hyear : fixedNumber? 4 0 9999 (digits ++ '\n' :: rest) with
  | none => rfl
  | some found =>
      have hmark := afterChar?_fixedNumber? hdigits hyear (c := '-') (by decide) (by decide)
      simp [dateIn?, hmark]

/-- Digits and a newline are no time. -/
theorem time?_digits {digits : Text} (hdigits : ∀ c ∈ digits, c.isDigit = true) (rest : Text) :
    time? (digits ++ '\n' :: rest) = none := by
  rw [time?]
  cases hhour : fixedNumber? 2 0 23 (digits ++ '\n' :: rest) with
  | none => rfl
  | some found =>
      have hmark := afterChar?_fixedNumber? hdigits hhour (c := ':') (by decide) (by decide)
      simp [hmark]

/-- Only a sign that is a minus, and no digits of a fixed width, stand before a negative number. -/
theorem fixedNumber?_minus (count low high : Nat) (t : Text) :
    fixedNumber? (count + 1) low high ('-' :: t) = none := by
  simp [fixedNumber?]

/-- The digits of a number are read as a whole number. -/
theorem wholeDigits?_ofNat (n : Nat) (rest : Text) :
    wholeDigits? (Text.ofNat n ++ '\n' :: rest) = some (Text.ofNat n, '\n' :: rest) := by
  obtain ⟨first, tail, hcons, -, hfirst⟩ := exists_ofNat n
  by_cases hzero : first = '0'
  · obtain rfl := hfirst hzero
    rfl
  · have hrun := digitRun_append (fun c hc => isDigit_of_mem_ofNat (n := n) hc) rest
    rw [hcons, List.cons_append] at hrun ⊢
    rw [wholeDigits?]
    · simp [digitRun?, hrun]
    · simp [hzero]

theorem basedNumber?_ofNat (n : Nat) (rest : Text) :
    basedNumber? (Text.ofNat n ++ '\n' :: rest) = none := by
  obtain ⟨first, tail, hcons, -, hfirst⟩ := exists_ofNat n
  by_cases hzero : first = '0'
  · obtain rfl := hfirst hzero
    rfl
  · rw [hcons, List.cons_append, basedNumber?]
    simp [hzero]

theorem signOf_ofNat (n : Nat) (rest : Text) :
    signOf (Text.ofNat n ++ rest) = (false, Text.ofNat n ++ rest) := by
  obtain ⟨first, tail, hcons, hdigit, -⟩ := exists_ofNat n
  rw [hcons, List.cons_append, signOf]
  all_goals
    intro more heq
    obtain rfl := (List.cons.inj heq).1
    exact absurd hdigit (by decide)

/-- A number in decimal digits is read back. -/
theorem decimalNumber?_ofInt (n : Int) (rest : Text) :
    decimalNumber? (Text.ofInt n ++ '\n' :: rest) = some (.int n, '\n' :: rest) := by
  have hfraction : fraction? ('\n' :: rest) = none := rfl
  have hexponent : exponent? ('\n' :: rest) = none := rfl
  cases n with
  | ofNat m =>
      simp only [decimalNumber?, Text.ofInt, signOf_ofNat, wholeDigits?_ofNat,
        Option.bind_eq_bind, Option.bind_some, hfraction, hexponent, Option.getD_none]
      simp [numberOf_ofNat]
  | negSucc m =>
      simp only [decimalNumber?, Text.ofInt, List.cons_append, signOf, wholeDigits?_ofNat,
        Option.bind_eq_bind, Option.bind_some, hfraction, hexponent, Option.getD_none]
      simp [numberOf_ofNat, Int.negSucc_eq]

theorem countP_isDigit_ofNat (n : Nat) :
    (Text.ofNat n).countP Char.isDigit = (Text.ofNat n).length :=
  List.countP_eq_length.2 fun _ hc => isDigit_of_mem_ofNat hc

/-- An integer has as many digits as its size. -/
theorem countP_isDigit_ofInt (n : Int) :
    (Text.ofInt n).countP Char.isDigit = (Text.ofNat n.natAbs).length := by
  cases n with
  | ofNat m => exact countP_isDigit_ofNat m
  | negSucc m =>
      rw [Text.ofInt, List.countP_cons_of_neg (by decide), countP_isDigit_ofNat]
      rfl

theorem consumed_append (t rest : Text) : Text.consumed (t ++ rest) rest = t := by
  rw [Text.consumed, List.length_append, Nat.add_sub_cancel, List.take_left]

/-- An integer of not too many digits is read back. -/
theorem scalar_ofInt {n : Int} (hn : isLong n = false) (rest : Text) :
    scalar (Text.ofInt n ++ '\n' :: rest) = .ok (.int n, '\n' :: rest) := by
  have hdate : date? (Text.ofInt n ++ '\n' :: rest) = none := by
    cases n with
    | ofNat m => exact date?_digits (fun c hc => isDigit_of_mem_ofNat hc) rest
    | negSucc m => simp [Text.ofInt, date?, fixedNumber?_minus]
  have htime : time? (Text.ofInt n ++ '\n' :: rest) = none := by
    cases n with
    | ofNat m => exact time?_digits (fun c hc => isDigit_of_mem_ofNat hc) rest
    | negSucc m => simp [Text.ofInt, time?, fixedNumber?_minus]
  have hbased : basedNumber? (Text.ofInt n ++ '\n' :: rest) = none := by
    cases n with
    | ofNat m => exact basedNumber?_ofNat m rest
    | negSucc m => rfl
  have hlimit : ¬ digitLimit < (Text.ofNat n.natAbs).length := by
    simpa [isLong] using hn
  rw [scalar, hdate, htime, hbased, decimalNumber?_ofInt]
  simp only [Option.orElse_eq_orElse, Option.orElse_some, limited, consumed_append,
    countP_isDigit_ofInt, if_neg hlimit]

/-! ## Values -/

/-- The values that settings have: truth values, integers, texts and lists of texts. -/
inductive Value.Plain : Value → Prop where
  | bool (b : Bool) : Plain (.bool b)
  | int (n : Int) : Plain (.int n)
  | text (t : Text) : Plain (.text t)
  | texts (ts : List Text) : Plain (.list (ts.map .text))

/-- A plain value is written in place. -/
theorem Value.Plain.isHeaded {v : Value} (hv : v.Plain) : v.isHeaded = false := by
  cases hv with
  | texts ts => cases ts <;> rfl
  | _ => rfl

/-- A text is read back as a value. -/
theorem value_writtenText (fuel : Nat) {depth : Nat} (hdepth : depth ≤ 400) (t : Text)
    {rest : Text} (hrest : rest.head? ≠ some '\x22') :
    value .exact (fuel + 1) depth (writtenText t ++ rest) = .ok (.text t, rest) := by
  have hshallow : Reading.isTooDeep .exact depth = false := by
    simpa [Reading.isTooDeep] using hdepth
  rw [value]
  · rw [hshallow, string?_writtenText t hrest]
    rfl
  all_goals simp [writtenText]

/-- A value that starts with a digit or a sign is read as a number, a date or a time. -/
theorem value_scalar (fuel : Nat) {c : Char} {t : Text} (hc : c.isDigit = true ∨ c = '-') :
    value .exact (fuel + 1) 0 (c :: t) = scalar (c :: t) := by
  have hstart : c ∉ ['\x22', '\x27', 't', 'f', '[', '\x7b'] := by
    intro hmem
    have hnone : ['\x22', '\x27', 't', 'f', '[', '\x7b'].all
        (fun d => !(d.isDigit || d == '-')) = true := by decide
    have hother := List.all_eq_true.1 hnone c hmem
    obtain hdigit | rfl := hc
    · simp [hdigit] at hother
    · contradiction
  simp only [List.mem_cons, List.not_mem_nil, or_false, not_or] at hstart
  obtain ⟨hquote, hapostrophe, ht, hf, hlist, htable⟩ := hstart
  have hstring : string? (c :: t) = none := by
    rw [string?] <;> simp_all
  rw [value]
  · rw [hstring]
    rfl
  all_goals simp_all

theorem skipGaps_of_dropWhile {t rest : Text} {c : Char} (h : t.dropWhile isGap = c :: rest)
    (hc : c ≠ '#') (fuel : Nat) : skipGaps fuel t = .ok (c :: rest) := by
  cases fuel with
  | zero => rw [skipGaps, h]
  | succ fuel =>
      rw [skipGaps, h]
      split
      · next heq => exact absurd (List.cons.inj heq).1 hc
      · rfl

/-- The texts of a list are read back, up to the closing bracket. -/
theorem items_written (ts : List Text) (hts : ts ≠ []) {fuel : Nat} (hfuel : ts.length < fuel)
    (rest : Text) :
    items .exact fuel 1 (Text.join ", " (ts.map writtenText) ++ ']' :: rest) =
      .ok (ts.map .text, rest) := by
  induction ts generalizing fuel with
  | nil => contradiction
  | cons t ts ih =>
      obtain ⟨fuel, rfl⟩ : ∃ k, fuel = k + 2 := by
        refine ⟨fuel - 2, ?_⟩
        simp only [List.length_cons] at hfuel
        omega
      have hbracket (k : Nat) : skipGaps k (']' :: rest) = .ok (']' :: rest) :=
        skipGaps_of_dropWhile rfl (by decide) k
      cases ts with
      | nil =>
          rw [items, List.map_singleton, Text.join,
            value_writtenText fuel (by decide) t (by simp)]
          simp only [ok_bind, hbracket]
          rfl
      | cons u ts =>
          have hsplit : Text.join ", " ((t :: u :: ts).map writtenText) ++ ']' :: rest =
              writtenText t ++ ',' :: ' ' ::
                (Text.join ", " ((u :: ts).map writtenText) ++ ']' :: rest) := by
            simp [Text.join]
          obtain ⟨tail, hmore⟩ : ∃ tail,
              Text.join ", " ((u :: ts).map writtenText) ++ ']' :: rest = '\x22' :: tail := by
            cases ts <;> exact ⟨_, rfl⟩
          have hrest := @ih (by simp) (fuel + 1) (by simpa using hfuel)
          rw [hmore] at hsplit hrest
          have hcomma (k : Nat) : skipGaps k (',' :: ' ' :: '\x22' :: tail) =
              .ok (',' :: ' ' :: '\x22' :: tail) := skipGaps_of_dropWhile rfl (by decide) k
          have hblank (k : Nat) : skipGaps k (' ' :: '\x22' :: tail) = .ok ('\x22' :: tail) :=
            skipGaps_of_dropWhile rfl (by decide) k
          rw [hsplit, items, value_writtenText fuel (by decide) t (by simp)]
          simp only [ok_bind, hcomma, hblank, hrest]
          rfl

theorem writtenItems?_texts (ts : List Text) :
    Value.writtenItems? (ts.map .text) = some (ts.map writtenText) := by
  induction ts with
  | nil => rfl
  | cons t ts ih => simp [Value.writtenItems?, Value.written?, ih]

/-- An integer starts with a digit or a minus sign. -/
theorem exists_ofInt (n : Int) :
    ∃ c t, Text.ofInt n = c :: t ∧ (c.isDigit = true ∨ c = '-') := by
  cases n with
  | ofNat m =>
      obtain ⟨c, t, hcons, hdigit, -⟩ := exists_ofNat m
      exact ⟨c, t, hcons, .inl hdigit⟩
  | negSucc m => exact ⟨'-', Text.ofNat (m + 1), rfl, .inr rfl⟩

theorem length_le_join_writtenText (ts : List Text) :
    ts.length ≤ (Text.join ", " (ts.map writtenText)).length := by
  induction ts with
  | nil => simp
  | cons t ts ih =>
      cases ts with
      | nil => simp [Text.join, writtenText]
      | cons u ts =>
          have hfirst : 0 < (writtenText t).length := by simp [writtenText]
          simp only [List.map_cons, Text.join, List.length_append, List.length_cons] at ih ⊢
          omega

/-- A list of texts is read back. -/
theorem value_texts (ts : List Text) {fuel : Nat} (hfuel : ts.length < fuel) (rest : Text) :
    value .exact (fuel + 1) 0
        ('[' :: (Text.join ", " (ts.map writtenText) ++ ']' :: rest)) =
      .ok (.list (ts.map .text), rest) := by
  rw [value]
  cases ts with
  | nil =>
      have hgap (k : Nat) : skipGaps k (']' :: rest) = .ok (']' :: rest) :=
        skipGaps_of_dropWhile rfl (by decide) k
      simp only [List.map_nil, Text.join, List.nil_append, hgap]
      rfl
  | cons t ts =>
      have hitems := items_written (t :: ts) (by simp) hfuel rest
      obtain ⟨tail, hmore⟩ : ∃ tail,
          Text.join ", " ((t :: ts).map writtenText) ++ ']' :: rest = '\x22' :: tail := by
        cases ts <;> exact ⟨_, rfl⟩
      rw [hmore] at hitems ⊢
      have hgap (k : Nat) : skipGaps k ('\x22' :: tail) = .ok ('\x22' :: tail) :=
        skipGaps_of_dropWhile rfl (by decide) k
      simp only [hgap, ok_bind, hitems]
      rfl

/-- A plain value is read back from its written form at the end of a line. -/
theorem value_written {v : Value} (hv : v.Plain) {written : Text}
    (hwritten : v.written? = some written) (rest : Text) :
    readValue .exact (written ++ '\n' :: rest) = .ok (v, '\n' :: rest) := by
  rw [readValue]
  generalize hfuel : 2 * (written ++ '\n' :: rest).length + 2 = fuel
  obtain ⟨fuel, rfl⟩ := Nat.exists_eq_succ_of_ne_zero (n := fuel) (by omega)
  cases hv with
  | bool b =>
      cases b with
      | true =>
          obtain rfl : "true" = written := by simpa [Value.written?] using hwritten
          rfl
      | false =>
          obtain rfl : "false" = written := by simpa [Value.written?] using hwritten
          rfl
  | int n =>
      rw [Value.written?] at hwritten
      split_ifs at hwritten with hlong
      obtain rfl := Option.some.inj hwritten
      obtain ⟨c, t, hcons, hc⟩ := exists_ofInt n
      rw [← scalar_ofInt (by simpa using hlong), hcons, List.cons_append]
      exact value_scalar _ hc
  | text t =>
      obtain rfl : writtenText t = written := by simpa [Value.written?] using hwritten
      exact value_writtenText _ (by decide) t (by simp)
  | texts ts =>
      rw [Value.written?, writtenItems?_texts] at hwritten
      obtain rfl : ("[" : Text) ++ Text.join ", " (ts.map writtenText) ++ "]" = written :=
        Option.some.inj hwritten
      have hlength := length_le_join_writtenText ts
      have hsplit : ("[" : Text) ++ Text.join ", " (ts.map writtenText) ++ "]" ++ '\n' :: rest =
          '[' :: (Text.join ", " (ts.map writtenText) ++ ']' :: '\n' :: rest) := by simp
      rw [hsplit] at hfuel ⊢
      refine value_texts ts ?_ _
      simp only [List.length_cons, List.length_append] at hfuel
      omega

end ShellDocs.Toml
