import ThreadedForth.Text
import ThreadedForth.Token
/-!
# ThreadedForth.Proofs.Literal

Which texts are integer literals. The grammar is written down by itself (`Literal`): a sign or none,
then decimal digits of which there may be only so many, or a marker and digits of its base. Digits
are worth what their places say (`Base.Digits`).

The reader works the other way round. It peels off a sign and a marker, rules some texts out, and
hands what is left to a reader of numbers that forgives padding, a sign and a marker. Every literal
is read as what it is worth (`literal?_of_literal`); and in a text without blanks, padding and a
second sign are ruled out before they can be forgiven. A second marker is not: the reader takes
`0x0x10` for sixteen (`Doubled`). That is all it reads beyond the grammar
(`literals_recognised`), and such a text is no literal (`Doubled.not_literal`).
-/

namespace ThreadedForth.Numeral

/-! ### The grammar -/

namespace Base

/-- The letters that announce the base after a leading zero. -/
def markers : Base → List Char
  | binary => ['b', 'B']
  | octal => ['o', 'O']
  | decimal => []
  | hexadecimal => ['x', 'X']

/-- The character is the digit `d` of the base, a letter in either case. -/
def Digit (b : Base) (c : Char) (d : Nat) : Prop :=
  d < b.radix ∧ (c = d.digitChar ∨ c = d.digitChar.toUpper)

instance (b : Base) (c : Char) (d : Nat) : Decidable (b.Digit c d) := by
  unfold Digit
  infer_instance

/-- The characters are digits of the base, one or more, and are worth `n` together. -/
inductive Digits (b : Base) : List Char → Nat → Prop where
  /-- A digit is worth itself. -/
  | one {c : Char} {d : Nat} : b.Digit c d → b.Digits [c] d
  /-- One digit more moves all others up by one place. -/
  | more {cs : List Char} {c : Char} {n d : Nat} : b.Digits cs n → b.Digit c d →
      b.Digits (cs ++ [c]) (b.radix * n + d)

end Base

/-- What may stand before a number. -/
inductive Sign where
  /-- No sign. -/
  | absent
  /-- `+` -/
  | plus
  /-- `-` -/
  | minus
  deriving DecidableEq, Repr

namespace Sign

/-- How the sign is written. -/
def chars : Sign → List Char
  | absent => []
  | plus => ['+']
  | minus => ['-']

/-- Is the number after the sign to be negated? -/
def negates : Sign → Bool
  | minus => true
  | _ => false

end Sign

/-- The text is an integer literal that is worth `v`. -/
inductive Literal : List Char → Int → Prop where
  /-- Decimal digits, not too many. -/
  | decimal (s : Sign) {cs : List Char} {n : Nat} : Base.decimal.Digits cs n →
      cs.length ≤ digitLimit → Literal (s.chars ++ cs) (signed s.negates n)
  /-- A zero, a marker, and digits of its base. -/
  | marked (s : Sign) {b : Base} {c : Char} {cs : List Char} {n : Nat} : c ∈ b.markers →
      b.Digits cs n → Literal (s.chars ++ '0' :: c :: cs) (signed s.negates n)

/-- The text would be a literal that is worth `v`, if it did not have its marker twice. -/
inductive Doubled : List Char → Int → Prop where
  /-- A zero and a marker twice, and digits of its base. -/
  | intro (s : Sign) {b : Base} {c c' : Char} {cs : List Char} {n : Nat} : c ∈ b.markers →
      c' ∈ b.markers → b.Digits cs n →
      Doubled (s.chars ++ '0' :: c :: '0' :: c' :: cs) (signed s.negates n)

/-! ### Digits -/

namespace Base

variable {b : Base} {c : Char} {cs ds : List Char} {d m n : Nat}

theorem radix_le (b : Base) : b.radix ≤ 16 := by
  cases b <;> decide

/-- What holds of all ways to write the digits of a base holds of a digit. -/
theorem Digit.of_forall {P : Char → Prop} (hc : b.Digit c d)
    (h : ∀ d < b.radix, P d.digitChar ∧ P d.digitChar.toUpper) : P c := by
  obtain ⟨hd, rfl | rfl⟩ := hc
  · exact (h d hd).1
  · exact (h d hd).2

/-- What holds of all ways to write the digits of a base holds of each of them in a text. -/
theorem Digits.of_forall {P : Char → Prop} (hcs : b.Digits cs n)
    (h : ∀ d < b.radix, P d.digitChar ∧ P d.digitChar.toUpper) : ∀ c ∈ cs, P c := by
  induction hcs with
  | one hc =>
      intro c' hc'
      exact List.mem_singleton.1 hc' ▸ hc.of_forall h
  | more _ hc ih =>
      intro c' hc'
      rcases List.mem_append.1 hc' with hc' | hc'
      · exact ih c' hc'
      · exact List.mem_singleton.1 hc' ▸ hc.of_forall h

theorem Digits.ne_nil (h : b.Digits cs n) : cs ≠ [] := by
  cases h <;> simp

/-- A character between two others is found by counting from the lower one. -/
theorem eq_of_between {low high : Char} {f : Nat → Char} (hc : low ≤ c ∧ c ≤ high)
    (hf : ∀ k ≤ high.toNat - low.toNat, (f k).toNat = low.toNat + k) :
    c = f (c.toNat - low.toNat) := by
  have hlow : low.toNat ≤ c.toNat := UInt32.le_iff_toNat_le.1 hc.1
  have hhigh : c.toNat ≤ high.toNat := UInt32.le_iff_toNat_le.1 hc.2
  refine Char.toNat_inj.1 ?_
  rw [hf _ (by omega)]
  omega

/-- A character is read as the digit it is. -/
theorem digit?_eq_some_iff : b.digit? c = some d ↔ b.Digit c d := by
  constructor
  · intro h
    obtain ⟨hvalue, hd⟩ := Option.filter_eq_some_iff.1 h
    refine ⟨by simpa using hd, ?_⟩
    split at hvalue
    next hc =>
      obtain rfl := Option.some.inj hvalue
      exact .inl (eq_of_between (by simpa using hc) (by decide))
    split at hvalue
    next hc =>
      obtain rfl := Option.some.inj hvalue
      exact .inl (eq_of_between (f := fun k => (k + 10).digitChar) (by simpa using hc) (by decide))
    split at hvalue
    next hc =>
      obtain rfl := Option.some.inj hvalue
      exact .inr (eq_of_between (f := fun k => (k + 10).digitChar.toUpper) (by simpa using hc)
        (by decide))
    · cases hvalue
  · rintro ⟨hd, hc⟩
    have hall : ∀ d < 16, d < b.radix →
        b.digit? d.digitChar = some d ∧ b.digit? d.digitChar.toUpper = some d := by
      cases b <;> decide
    rcases hc with rfl | rfl
    · exact (hall d (Nat.lt_of_lt_of_le hd b.radix_le) hd).1
    · exact (hall d (Nat.lt_of_lt_of_le hd b.radix_le) hd).2

/-- The first digit is worth most. -/
theorem digitsFrom?_eq_some (hds : b.Digits ds m) :
    b.digitsFrom? m cs = some n → b.Digits (ds ++ cs) n := by
  induction cs generalizing ds m with
  | nil =>
      intro h
      obtain rfl := Option.some.inj h
      simpa using hds
  | cons c cs ih =>
      intro h
      rw [digitsFrom?_cons] at h
      obtain ⟨d, hd, h⟩ := Option.bind_eq_some_iff.1 h
      simpa using ih (hds.more (digit?_eq_some_iff.1 hd)) h

/-- Digits are read from the front, but the last one may be split off. -/
theorem digitsFrom?_concat (m : Nat) : b.digitsFrom? m (cs ++ [c]) =
    (b.digitsFrom? m cs).bind fun n => (b.digit? c).map fun d => b.radix * n + d := by
  induction cs generalizing m with
  | nil =>
      rw [List.nil_append, digitsFrom?_cons]
      cases b.digit? c <;> rfl
  | cons c' cs ih =>
      simp only [List.cons_append, digitsFrom?_cons]
      cases b.digit? c' with
      | none => rfl
      | some d => exact ih _

theorem digits?_of_ne_nil (h : cs ≠ []) : b.digits? cs = b.digitsFrom? 0 cs := by
  cases cs with
  | nil => exact absurd rfl h
  | cons c cs => rfl

/-- Digits are read as what their places say, and nothing else is read. -/
theorem digits?_eq_some_iff : b.digits? cs = some n ↔ b.Digits cs n := by
  constructor
  · intro h
    cases cs with
    | nil => cases h
    | cons c cs =>
        rw [digits?_of_ne_nil (List.cons_ne_nil c cs), digitsFrom?_cons] at h
        obtain ⟨d, hd, h⟩ := Option.bind_eq_some_iff.1 h
        rw [Nat.mul_zero, Nat.zero_add] at h
        exact digitsFrom?_eq_some (.one (digit?_eq_some_iff.1 hd)) h
  · intro h
    rw [digits?_of_ne_nil h.ne_nil]
    induction h with
    | one hc => simp [digitsFrom?_cons, digit?_eq_some_iff.2 hc]
    | more _ hc ih => simp [digitsFrom?_concat, ih, digit?_eq_some_iff.2 hc]

/-! ### Markers -/

/-- A letter announces the base it marks. -/
theorem ofMarker?_eq_some_iff : ofMarker? c = some b ↔ c ∈ b.markers := by
  unfold ofMarker?
  cases b <;> simp [markers] <;> grind

/-- A letter that announces a base is not one of its digits. -/
theorem Digits.not_mem_markers (h : b.Digits cs n) : ∀ c ∈ cs, c ∉ b.markers := by
  refine h.of_forall (P := (· ∉ b.markers)) ?_
  cases b <;> decide

/-- Either there is no marker and the number is decimal, or the marker is taken off. -/
theorem split_cases (cs : List Char) :
    Base.split cs = (decimal, cs) ∨
      ∃ b c rest, c ∈ b.markers ∧ cs = '0' :: c :: rest ∧ Base.split cs = (b, rest) := by
  unfold Base.split
  split
  next c rest =>
    split
    next b hb => exact .inr ⟨b, c, rest, ofMarker?_eq_some_iff.1 hb, rfl, rfl⟩
    · exact .inl rfl
  · exact .inl rfl

theorem split_marked (h : c ∈ b.markers) (cs : List Char) :
    Base.split ('0' :: c :: cs) = (b, cs) := by
  simp [Base.split, ofMarker?_eq_some_iff.2 h]

/-- Decimal digits have no marker to be split off. -/
theorem split_digits (h : decimal.Digits cs n) : Base.split cs = (decimal, cs) := by
  rcases split_cases cs with hsplit | ⟨b, c, rest, hc, rfl, -⟩
  · exact hsplit
  · -- A marker of any base is no decimal digit.
    have hdigit := h.of_forall (P := (· ∉ b.markers)) (by cases b <;> decide)
    exact absurd hc (hdigit c (by simp))

/-- A marker is dropped with its zero, or nothing is. -/
theorem dropMarker_cases (b : Base) (cs : List Char) :
    b.dropMarker cs = cs ∨
      ∃ c rest, c ∈ b.markers ∧ cs = '0' :: c :: rest ∧ b.dropMarker cs = rest := by
  unfold dropMarker
  split
  next c rest =>
    split
    next hc => exact .inr ⟨c, rest, ofMarker?_eq_some_iff.1 hc, rfl, rfl⟩
    · exact .inl rfl
  · exact .inl rfl

theorem dropMarker_marked (h : c ∈ b.markers) (cs : List Char) :
    b.dropMarker ('0' :: c :: cs) = cs := by
  simp [dropMarker, ofMarker?_eq_some_iff.2 h]

/-- Digits of a base have no marker of it to be dropped. -/
theorem dropMarker_digits (h : b.Digits cs n) : b.dropMarker cs = cs := by
  rcases b.dropMarker_cases cs with hdrop | ⟨c, rest, hc, rfl, -⟩
  · exact hdrop
  · exact absurd hc (h.not_mem_markers c (by simp))

end Base

/-! ### Reading -/

/-- The character has no part to play but that of a digit or a letter. -/
def Plain (c : Char) : Prop :=
  c.toNat < 128 ∧ Text.isBlank c = false ∧ c ∉ ['+', '-', '_', '\\', '(']

instance (c : Char) : Decidable (Plain c) := by
  unfold Plain
  infer_instance

variable {b : Base} {c : Char} {text cs body : List Char} {n : Nat} {v : Int} {negative : Bool}

theorem plain_of_mem_markers (h : c ∈ b.markers) : Plain c := by
  have hall : ∀ c ∈ b.markers, Plain c := by
    cases b <;> simp only [Base.markers] <;> simp <;> decide
  exact hall c h

/-- Digits are plain, in whichever base. -/
theorem Base.Digits.plain (h : b.Digits cs n) : ∀ c ∈ cs, Plain c := by
  refine h.of_forall (P := Plain) ?_
  cases b <;> decide

theorem plain_marked (hc : c ∈ b.markers) (hcs : ∀ c ∈ cs, Plain c) :
    ∀ c' ∈ '0' :: c :: cs, Plain c' := by
  intro c' hc'
  rcases List.mem_cons.1 hc' with rfl | hc'
  · decide
  rcases List.mem_cons.1 hc' with rfl | hc'
  · exact plain_of_mem_markers hc
  · exact hcs c' hc'

/-- Everything that counts as padding is blank. -/
theorem isBlank_of_isPadding (h : isPadding c = true) : Text.isBlank c = true := by
  have hnat : ∀ {x y : Char}, x ≤ y → x.toNat ≤ y.toNat := UInt32.le_iff_toNat_le.1
  obtain ⟨hlow, hhigh⟩ | rfl : ('\t' ≤ c ∧ c ≤ '\r') ∨ c = ' ' := by simpa [isPadding] using h
  · exact (Text.coveredBy_iff _ _).2 ⟨(0x9, 0xD), by simp [Text.blankRanges], hnat hlow, hnat hhigh⟩
  · exact Text.isBlank_space

/-- Padding is made of blanks, so without them nothing is dropped. -/
theorem dropPadding_eq (h : ∀ c ∈ cs, Text.isBlank c = false) : dropPadding cs = cs := by
  have hdrop : ∀ {ds : List Char}, (∀ c ∈ ds, Text.isBlank c = false) →
      ds.dropWhile isPadding = ds := by
    intro ds hds
    cases ds with
    | nil => rfl
    | cons d ds =>
        have hd : isPadding d = false := by
          refine Bool.eq_false_iff.2 fun hpadding => ?_
          simp [isBlank_of_isPadding hpadding] at hds
        simp [hd]
  rw [dropPadding, hdrop h, hdrop (by simpa using h), List.reverse_reverse]

theorem Plain.ne_sign (h : Plain c) : c ≠ '+' ∧ c ≠ '-' := by
  have hc := h.2.2
  simp only [List.mem_cons, not_or] at hc
  exact ⟨hc.1, hc.2.1⟩

/-- The sign in front of a text without one is split off. -/
theorem splitSign_chars (s : Sign) (h : ∀ c ∈ cs.head?, c ≠ '+' ∧ c ≠ '-') :
    splitSign (s.chars ++ cs) = (s.negates, cs) := by
  cases s with
  | plus | minus => rfl
  | absent =>
      cases cs with
      | nil => rfl
      | cons c cs =>
          have hc := h c rfl
          simp [Sign.chars, Sign.negates, splitSign, hc.1, hc.2]

/-- Every text is a sign, perhaps none, and the rest. -/
theorem exists_sign (text : List Char) : ∃ (s : Sign) (cs : List Char),
    text = s.chars ++ cs ∧ splitSign text = (s.negates, cs) := by
  unfold splitSign
  split
  next cs => exact ⟨.minus, cs, rfl, rfl⟩
  next cs => exact ⟨.plus, cs, rfl, rfl⟩
  · exact ⟨.absent, text, rfl, rfl⟩

/-- Without blanks, what is left after sign and marker is another marker, perhaps, and digits. -/
theorem literal?_eq (htext : splitSign text = (negative, cs)) (hcs : Base.split cs = (b, body))
    (hbody : ∀ c ∈ body, Text.isBlank c = false) :
    literal? text = if badBody body || b.tooLong (b.dropMarker body) then none
      else (b.digits? (b.dropMarker body)).map fun n : Nat => signed negative n := by
  unfold literal?
  simp only [htext, hcs]
  cases hbad : badBody body with
  | true => rfl
  | false =>
      have hsign : splitSign body = (false, body) := by
        refine splitSign_chars .absent fun c hc => ?_
        have hhead := (Bool.or_eq_false_iff.1 hbad).1
        rw [hc] at hhead
        simpa using hhead
      simp only [Base.body?, dropPadding_eq hbody, hsign]
      cases b.tooLong (b.dropMarker body) with
      | true => rfl
      | false => cases b.digits? (b.dropMarker body) <;> rfl

/-- Plain characters are no reason to reject a text. -/
theorem badBody_eq_false (h : ∀ c ∈ cs, Plain c) : badBody cs = false := by
  have hany : cs.any (fun c => c = '_' || 128 ≤ c.toNat) = false := by
    refine List.any_eq_false.2 fun c hc => ?_
    obtain ⟨hascii, -, hc⟩ := h c hc
    simp only [List.mem_cons, not_or] at hc
    simp [hc, hascii]
  cases cs with
  | nil => rfl
  | cons c cs =>
      have hc := (h c List.mem_cons_self).2.2
      simp only [List.mem_cons, not_or] at hc
      simpa [badBody, hc] using hany

/-- Digits are read, with a sign or none before them, after one marker, two, or none. -/
theorem literal?_of_digits (s : Sign) (hsplit : Base.split text = (b, body))
    (htext : ∀ c ∈ text, Plain c) (hbody : ∀ c ∈ body, Plain c)
    (hlong : b.tooLong (b.dropMarker body) = false) (hdigits : b.Digits (b.dropMarker body) n) :
    literal? (s.chars ++ text) = some (signed s.negates n) := by
  have hsign : splitSign (s.chars ++ text) = (s.negates, text) :=
    splitSign_chars s fun c hc => (htext c (List.mem_of_head? hc)).ne_sign
  rw [literal?_eq hsign hsplit fun c hc => (hbody c hc).2.1, badBody_eq_false hbody, hlong,
    Base.digits?_eq_some_iff.2 hdigits]
  rfl

/-- A base with a marker has no limit on its digits. -/
theorem Base.tooLong_of_mem_markers (h : c ∈ b.markers) (cs : List Char) :
    b.tooLong cs = false := by
  cases b <;> simp [Base.markers] at h <;> simp [Base.tooLong]

/-- A literal is read as what it is worth. -/
theorem literal?_of_literal (h : Literal text v) : literal? text = some v := by
  cases h with
  | @decimal s cs n hcs hlength =>
      have hdrop := Base.dropMarker_digits hcs
      refine literal?_of_digits s (Base.split_digits hcs) hcs.plain hcs.plain ?_ (hdrop.symm ▸ hcs)
      simp [hdrop, Base.tooLong, hlength]
  | @marked s b c cs n hc hcs =>
      have hdrop := Base.dropMarker_digits hcs
      exact literal?_of_digits s (Base.split_marked hc cs) (plain_marked hc hcs.plain) hcs.plain
        (Base.tooLong_of_mem_markers hc _) (hdrop.symm ▸ hcs)

/-- So is a literal with its marker written twice. -/
theorem literal?_of_doubled (h : Doubled text v) : literal? text = some v := by
  obtain ⟨s, hc, hc', hcs⟩ := h
  have hbody := plain_marked hc' hcs.plain
  exact literal?_of_digits s (Base.split_marked hc _) (plain_marked hc hbody) hbody
    (Base.tooLong_of_mem_markers hc _) ((Base.dropMarker_marked hc' _).symm ▸ hcs)

/-- What is read after sign and marker are digits, but for one more marker. -/
theorem digits_of_literal? (htext : splitSign text = (negative, cs))
    (hcs : Base.split cs = (b, body)) (hbody : ∀ c ∈ body, Text.isBlank c = false)
    (h : literal? text = some v) :
    ∃ n : Nat, b.tooLong (b.dropMarker body) = false ∧ b.Digits (b.dropMarker body) n ∧
      signed negative n = v := by
  rw [literal?_eq htext hcs hbody] at h
  split at h
  · cases h
  next hgood =>
    obtain ⟨n, hn, hv⟩ := Option.map_eq_some_iff.1 h
    exact ⟨n, by simp_all, Base.digits?_eq_some_iff.1 hn, hv⟩

/-- Nothing else is read, as long as there are no blanks to be taken for padding. -/
theorem literal_or_doubled (hblank : ∀ c ∈ text, Text.isBlank c = false)
    (h : literal? text = some v) : Literal text v ∨ Doubled text v := by
  obtain ⟨s, cs, rfl, hsign⟩ := exists_sign text
  have hcs : ∀ c ∈ cs, Text.isBlank c = false := fun c hc => hblank c (List.mem_append_right _ hc)
  rcases Base.split_cases cs with hsplit | ⟨b, c, body, hc, rfl, hsplit⟩
  · obtain ⟨n, hlong, hdigits, rfl⟩ := digits_of_literal? hsign hsplit hcs h
    have hdrop : Base.decimal.dropMarker cs = cs := by
      rcases Base.dropMarker_cases .decimal cs with hdrop | ⟨c, -, hc, -⟩
      · exact hdrop
      · cases hc
    rw [hdrop] at hlong hdigits
    exact .inl (.decimal s hdigits (by simpa [Base.tooLong] using hlong))
  · have hbody : ∀ c ∈ body, Text.isBlank c = false := fun c hc => hcs c (by simp [hc])
    obtain ⟨n, -, hdigits, rfl⟩ := digits_of_literal? hsign hsplit hbody h
    rcases b.dropMarker_cases body with hdrop | ⟨c', rest, hc', rfl, hdrop⟩
    · exact .inl (.marked s hc (hdrop ▸ hdigits))
    · exact .inr (.intro s hc hc' (hdrop ▸ hdigits))

/-- What follows the sign is found again. -/
theorem Sign.chars_append_inj {s s' : Sign} (hcs : ∀ c ∈ cs, Plain c)
    (hbody : ∀ c ∈ body, Plain c) (h : s.chars ++ cs = s'.chars ++ body) : cs = body := by
  have hsplit := congrArg splitSign h
  rw [splitSign_chars s fun c hc => (hcs c (List.mem_of_head? hc)).ne_sign,
    splitSign_chars s' fun c hc => (hbody c (List.mem_of_head? hc)).ne_sign] at hsplit
  exact (Prod.mk.inj hsplit).2

/-- A second marker is not a digit, so it makes the text no literal. -/
theorem Doubled.not_literal (h : Doubled text v) (w : Int) : ¬ Literal text w := by
  intro hw
  obtain ⟨s, hc, hc', hcs⟩ := h
  have hplain := plain_marked hc (plain_marked hc' hcs.plain)
  generalize htext : s.chars ++ _ = text at hw
  cases hw with
  | decimal s' hdigits =>
      obtain rfl := Sign.chars_append_inj hplain hdigits.plain htext
      have hsplit := Base.split_digits hdigits
      rw [Base.split_marked hc] at hsplit
      cases hsplit
  | marked s' hmarker hdigits =>
      obtain ⟨rfl, rfl⟩ : _ ∧ _ := by
        simpa using Sign.chars_append_inj hplain (plain_marked hmarker hdigits.plain) htext
      obtain rfl := Option.some.inj
        ((Base.ofMarker?_eq_some_iff.2 hc).symm.trans (Base.ofMarker?_eq_some_iff.2 hmarker))
      exact hdigits.not_mem_markers _ (by simp) hc'

/-- A literal is plain after its sign. -/
theorem Literal.plain (h : Literal text v) :
    ∃ (s : Sign) (cs : List Char), text = s.chars ++ cs ∧ cs ≠ [] ∧ ∀ c ∈ cs, Plain c := by
  cases h with
  | decimal s hcs _ => exact ⟨s, _, rfl, hcs.ne_nil, hcs.plain⟩
  | marked s hc hcs => exact ⟨s, _, rfl, List.cons_ne_nil _ _, plain_marked hc hcs.plain⟩

/-- Integer literals are recognised exactly, but for a marker that is written twice. A text without
blanks is read as a number if the grammar makes it a literal of this worth, or would without the
second marker of the same base; every other one is a name. -/
theorem literals_recognised (hblank : ∀ c ∈ text, Text.isBlank c = false) :
    (∀ v, literal? text = some v ↔ Literal text v ∨ Doubled text v) ∧
      (∀ v w, Doubled text v → ¬ Literal text w) ∧
      ((∀ v, ¬ Literal text v ∧ ¬ Doubled text v) ↔
        literal? text = none ∧ Token.ofWord text = .name (String.ofList text)) := by
  have hread : ∀ v, literal? text = some v ↔ Literal text v ∨ Doubled text v := fun v =>
    ⟨literal_or_doubled hblank, fun h => h.elim literal?_of_literal literal?_of_doubled⟩
  have hnone : literal? text = none ↔ ∀ v, ¬ Literal text v ∧ ¬ Doubled text v := by
    simp only [Option.eq_none_iff_forall_ne_some, ne_eq, hread, not_or]
  refine ⟨hread, fun v w h => h.not_literal w, hnone.symm.trans ⟨fun h => ⟨h, ?_⟩, And.left⟩⟩
  simp [Token.ofWord, h]

/-- A negative number in hexadecimal. -/
theorem literals_recognised_hexadecimal :
    (∀ c ∈ ['-', '0', 'X', '1', 'f'], Text.isBlank c = false) ∧
      literal? ['-', '0', 'X', '1', 'f'] = some (-31) := by
  have hblank : ∀ c ∈ ['-', '0', 'X', '1', 'f'], Text.isBlank c = false := by simp; decide
  have hdigits : Base.hexadecimal.Digits ['1', 'f'] 31 :=
    .more (.one (c := '1') (d := 1) (by decide)) (c := 'f') (d := 15) (by decide)
  exact ⟨hblank, ((literals_recognised hblank).1 (-31)).2
    (.inl (.marked .minus (c := 'X') (by decide) hdigits))⟩

/-- A text with its marker twice is read, and is no literal. -/
theorem second_marker_is_read :
    (∀ c ∈ ['0', 'x', '0', 'x', '1', '0'], Text.isBlank c = false) ∧
      literal? ['0', 'x', '0', 'x', '1', '0'] = some 16 ∧
      ∀ v, ¬ Literal ['0', 'x', '0', 'x', '1', '0'] v := by
  have hdigits : Base.hexadecimal.Digits ['1', '0'] 16 :=
    .more (.one (c := '1') (d := 1) (by decide)) (c := '0') (d := 0) (by decide)
  have hmarker : 'x' ∈ Base.hexadecimal.markers := by decide
  have hdoubled : Doubled ['0', 'x', '0', 'x', '1', '0'] 16 :=
    .intro .absent hmarker hmarker hdigits
  exact ⟨by simp; decide, literal?_of_doubled hdoubled, hdoubled.not_literal⟩

end ThreadedForth.Numeral
