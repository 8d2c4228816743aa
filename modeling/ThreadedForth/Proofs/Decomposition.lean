import Mathlib.Data.List.Forall2
import ThreadedForth.Token.Lexer
/-!
# ThreadedForth.Proofs.Decomposition

The lexical grammar. What may be set off at the front of a text is said for each kind of lexeme by
itself, without a scanner (`Lexeme.Leads`), and a decomposition of a text sets off one lexeme after
another until nothing is left (`Decomposes`).

The grammar leaves no choice: wherever a text begins, there is one lexeme to set off, and it is the
one the scanner finds (`Lexeme.leads_first`, `Lexeme.Leads.first_eq`). So every text has exactly one
decomposition, and it is the scanner's (`decomposes_iff`); the tokens of the text are its words.

The one lexeme that is not found by looking for a character is the parenthesised comment. The
scanner keeps a count of open parentheses; the grammar says where the comment ends (`Lexeme.Closes`)
by what all of the comment contains.
-/

namespace ThreadedForth

namespace Lexeme

/-! ### The grammar -/

/-- The text is at its end, or goes on with a blank. -/
def Pauses (rest : List Char) : Prop := ∀ c ∈ rest.head?, Text.isBlank c = true

/-- The text ends with a `)` at which as many parentheses are closed as were opened, `depth` of them
before the text. -/
def Closes (depth : Nat) (text : List Char) : Prop :=
  text.getLast? = some ')' ∧ depth + text.count '(' = text.count ')'

/-- The text goes on up to where all parentheses are closed for the first time; where they never
are, nothing is left after it. -/
def Encloses (depth : Nat) (text rest : List Char) : Prop :=
  (∀ front, front <+: text → front ≠ text → ¬ Closes depth front) ∧ (Closes depth text ∨ rest = [])

/-- The lexeme may be set off in front of the rest of a text. -/
inductive Leads : Lexeme → List Char → Prop where
  /-- A blank by itself. -/
  | blank {c : Char} {rest : List Char} : Text.isBlank c = true → Leads (.blank c) rest
  /-- A backslash that stands alone, and what follows it up to the end of the line. -/
  | lineComment {body rest : List Char} : Pauses (body ++ rest) → '\n' ∉ body →
      (∀ c ∈ rest.head?, c = '\n') → Leads (.lineComment ('\\' :: body)) rest
  /-- A parenthesis that stands alone, and what follows it up to where it is closed first, or to the
  end of the text. -/
  | parenComment {body rest : List Char} : Pauses (body ++ rest) → Encloses 0 ('(' :: body) rest →
      Leads (.parenComment ('(' :: body)) rest
  /-- Characters that are not blank, as many as there are, where no comment begins. -/
  | word {c : Char} {cs rest : List Char} : (∀ d ∈ c :: cs, Text.isBlank d = false) →
      ¬ ((c = '\\' ∨ c = '(') ∧ Pauses (cs ++ rest)) → Pauses rest → Leads (.word (c :: cs)) rest

/-- The characters of a word. -/
def word? : Lexeme → Option (List Char)
  | word text => some text
  | _ => none

end Lexeme

/-- The lexemes make up the text, each one set off in front of those that follow. -/
inductive Decomposes : List Char → List Lexeme → Prop where
  | nil : Decomposes [] []
  | cons {l : Lexeme} {ls : List Lexeme} {rest : List Char} : l.Leads rest → Decomposes rest ls →
      Decomposes (l.chars ++ rest) (l :: ls)

/-- The token has the text of the word, and is the integer that the word is read as, or else a
name. -/
def Token.Classifies (t : Token) (word : List Char) : Prop :=
  t.text = String.ofList word ∧
    (∀ v, (∃ s, t = .int v s) ↔ Numeral.literal? word = some v) ∧
    ((∃ s, t = .name s) ↔ Numeral.literal? word = none)

namespace Lexeme

/-! ### Runs of characters -/

theorem pauses_nil : Pauses [] := by
  simp [Pauses]

theorem standsAlone_iff {rest : List Char} : standsAlone rest = true ↔ Pauses rest := by
  simp [standsAlone, Pauses, Option.all_eq_true]

/-- A longest run of characters ends where one fails the test. -/
theorem of_mem_head?_dropWhile {p : Char → Bool} {cs : List Char} {c : Char}
    (h : c ∈ (cs.dropWhile p).head?) : p c = false := by
  have hnot := List.head?_dropWhile_not p cs
  rw [Option.mem_def.1 h] at hnot
  exact hnot

/-- A run of characters that pass the test, in front of one that fails it, is a longest one. -/
theorem takeWhile_dropWhile_append (p : Char → Bool) {run rest : List Char}
    (hrun : ∀ c ∈ run, p c = true) (hrest : ∀ c ∈ rest.head?, p c = false) :
    (run ++ rest).takeWhile p = run ∧ (run ++ rest).dropWhile p = rest := by
  have hstop : rest.takeWhile p = [] ∧ rest.dropWhile p = rest := by
    cases rest with
    | nil => exact ⟨rfl, rfl⟩
    | cons c rest => simp [hrest c rfl]
  simp [List.takeWhile_append_of_pos hrun, List.dropWhile_append_of_pos hrun, hstop]

/-! ### Parenthesised comments -/

variable {c : Char} {depth depth' : Nat} {text rest : List Char}

theorem not_closes_nil (depth : Nat) : ¬ Closes depth [] := by
  simp [Closes]

/-- A character that leaves parentheses open counts for the depth of what follows it. -/
theorem closes_cons (h : depth + [c].count '(' = depth' + 1 + [c].count ')') :
    Closes depth (c :: text) ↔ Closes (depth' + 1) text := by
  unfold Closes
  cases text with
  | nil => simp [h]
  | cons d text =>
      have hcount : ∀ a, (c :: d :: text).count a = [c].count a + (d :: text).count a := by
        intro a
        rw [← List.count_append, List.singleton_append]
      rw [List.getLast?_cons_cons, hcount, hcount]
      refine and_congr_right fun _ => ?_
      omega

theorem encloses_cons (h : depth + [c].count '(' = depth' + 1 + [c].count ')') :
    Encloses depth (c :: text) rest ↔ Encloses (depth' + 1) text rest := by
  unfold Encloses
  rw [closes_cons h]
  refine and_congr_left fun _ =>
    ⟨fun hfronts front hfront hne => ?_, fun hfronts front hfront hne => ?_⟩
  · rw [← closes_cons h]
    exact hfronts (c :: front) ((List.prefix_cons_inj c).2 hfront) (by simpa using hne)
  · rcases List.prefix_cons_iff.1 hfront with rfl | ⟨front, rfl, hfront'⟩
    · exact not_closes_nil depth
    · rw [closes_cons h]
      exact hfronts front hfront' (by simpa using hne)

theorem encloses_nil : Encloses depth [] rest ↔ rest = [] := by
  simp [Encloses, not_closes_nil, List.prefix_nil]

/-- A parenthesis that closes the only one that is open ends the text. -/
theorem encloses_close : Encloses 1 (')' :: text) rest ↔ text = [] := by
  have hcloses : Closes 1 [')'] := ⟨rfl, rfl⟩
  constructor
  · rintro ⟨hfronts, -⟩
    cases text with
    | nil => rfl
    | cons d text => exact absurd hcloses (hfronts [')'] (by simp) (by simp))
  · rintro rfl
    refine ⟨fun front hfront hne => ?_, .inl hcloses⟩
    rcases List.prefix_cons_iff.1 hfront with rfl | ⟨front, rfl, hfront'⟩
    · exact not_closes_nil 1
    · simp [List.prefix_nil.1 hfront'] at hne

/-- A text in which something is left is not enclosed before its first character. -/
theorem Encloses.exists_cons {cs : List Char} (h : Encloses depth text rest)
    (hcs : c :: cs = text ++ rest) : ∃ inside, text = c :: inside ∧ cs = inside ++ rest := by
  cases text with
  | nil =>
      rw [encloses_nil.1 h] at hcs
      cases hcs
  | cons d inside =>
      obtain ⟨rfl, rfl⟩ := List.cons.inj hcs
      exact ⟨inside, rfl, rfl⟩

/-- Counting parentheses finds the end of the comment. -/
theorem splitNested_eq_iff {cs : List Char} :
    splitNested (depth + 1) cs = (text, rest) ↔
      cs = text ++ rest ∧ Encloses (depth + 1) text rest := by
  induction cs generalizing depth text with
  | nil =>
      constructor
      · rintro ⟨rfl, rfl⟩
        exact ⟨rfl, encloses_nil.2 rfl⟩
      · rintro ⟨hnil, -⟩
        obtain ⟨rfl, rfl⟩ := List.append_eq_nil_iff.1 hnil.symm
        rfl
  | cons c cs ih =>
      by_cases hlast : c = ')' ∧ depth = 0
      · obtain ⟨rfl, rfl⟩ := hlast
        have hsplit : splitNested (0 + 1) (')' :: cs) = ([')'], cs) := by simp [splitNested]
        rw [hsplit]
        constructor
        · rintro ⟨rfl, rfl⟩
          exact ⟨rfl, encloses_close.2 rfl⟩
        · rintro ⟨hcs, h⟩
          obtain ⟨inside, rfl, rfl⟩ := h.exists_cons hcs
          obtain rfl := encloses_close.1 h
          rfl
      -- Otherwise some parentheses are still open after this character.
      obtain ⟨depth', hdepth, hcount⟩ : ∃ depth', (if c = '(' then depth + 2 else
          if c = ')' then depth else depth + 1) = depth' + 1 ∧
          depth + 1 + [c].count '(' = depth' + 1 + [c].count ')' := by
        by_cases hopen : c = '('
        · exact ⟨depth + 1, by simp [hopen], by simp [hopen]⟩
        by_cases hclose : c = ')'
        · obtain ⟨k, rfl⟩ := Nat.exists_eq_succ_of_ne_zero fun hzero => hlast ⟨hclose, hzero⟩
          exact ⟨k, by simp [hclose], by simp [hclose]⟩
        · exact ⟨depth, by simp [hopen, hclose], by simp [hopen, hclose]⟩
      rw [splitNested, hdepth]
      constructor
      · rintro ⟨rfl, rfl⟩
        obtain ⟨hcs, h⟩ := ih.1 (rfl : splitNested (depth' + 1) cs = (_, _))
        exact ⟨congrArg (c :: ·) hcs, (encloses_cons hcount).2 h⟩
      · rintro ⟨hcs, h⟩
        obtain ⟨inside, rfl, hrest⟩ := h.exists_cons hcs
        rw [ih.2 ⟨hrest, (encloses_cons hcount).1 h⟩]

/-! ### The scanner finds what the grammar allows -/

/-- What the scanner sets off may be set off. -/
theorem leads_first (c : Char) (cs : List Char) : (first c cs).1.Leads (first c cs).2 := by
  unfold first
  split
  next hblank => exact .blank hblank
  next hblank =>
    split
    next hline =>
      obtain ⟨rfl, halone⟩ : c = '\\' ∧ standsAlone cs = true := by simpa using hline
      refine .lineComment ?_ (fun h => ?_) fun c hc => ?_
      · rw [List.takeWhile_append_dropWhile]
        exact standsAlone_iff.1 halone
      · simpa using List.all_eq_true.1 List.all_takeWhile _ h
      · simpa using of_mem_head?_dropWhile hc
    next hline =>
      split
      next hparen =>
        obtain ⟨rfl, halone⟩ : c = '(' ∧ standsAlone cs = true := by simpa using hparen
        obtain ⟨hcs, hencloses⟩ := splitNested_eq_iff.1 (rfl : splitNested 1 cs = (_, _))
        refine .parenComment ?_ ((encloses_cons rfl).2 hencloses)
        rw [← hcs]
        exact standsAlone_iff.1 halone
      next hparen =>
        refine .word (fun d hd => ?_) ?_ fun d hd => ?_
        · rcases List.mem_cons.1 hd with rfl | hd
          · simpa using hblank
          · simpa using List.all_eq_true.1 List.all_takeWhile d hd
        · rw [List.takeWhile_append_dropWhile, ← standsAlone_iff]
          rintro ⟨rfl | rfl, halone⟩
          · exact hline (by simp [halone])
          · exact hparen (by simp [halone])
        · simpa using of_mem_head?_dropWhile hd

/-- What may be set off is what the scanner sets off. -/
theorem Leads.first_eq {l : Lexeme} (h : l.Leads rest) :
    ∃ c cs, l.chars ++ rest = c :: cs ∧ first c cs = (l, rest) := by
  cases h with
  | @blank c _ hc => exact ⟨c, rest, rfl, by simp [first, hc]⟩
  | @lineComment body _ halone hbody hrest =>
      obtain ⟨htake, hdrop⟩ := takeWhile_dropWhile_append (· ≠ '\n')
        (fun c hc => decide_eq_true fun heq => hbody (heq ▸ hc)) (by simpa using hrest)
      refine ⟨'\\', body ++ rest, rfl, ?_⟩
      rw [first, if_neg (by decide), if_pos (by simp [standsAlone_iff.2 halone]), htake, hdrop]
  | @parenComment body _ halone hbody =>
      have hsplit : splitNested 1 (body ++ rest) = (body, rest) :=
        splitNested_eq_iff.2 ⟨rfl, (encloses_cons rfl).1 hbody⟩
      refine ⟨'(', body ++ rest, rfl, ?_⟩
      rw [first, if_neg (by decide), if_neg (by simp), if_pos (by simp [standsAlone_iff.2 halone]),
        hsplit]
  | @word c cs _ hcs hopener hrest =>
      have hrun : ∀ d ∈ cs, (!Text.isBlank d) = true := fun d hd => by
        simp [hcs d (List.mem_cons_of_mem c hd)]
      obtain ⟨htake, hdrop⟩ := takeWhile_dropWhile_append (!Text.isBlank ·) hrun
        fun d hd => by simp [hrest d hd]
      refine ⟨c, cs ++ rest, rfl, ?_⟩
      simp only [← standsAlone_iff, not_and, or_imp, Bool.not_eq_true] at hopener
      rw [first, if_neg (by simp [hcs c List.mem_cons_self]), if_neg (by simpa using hopener.1),
        if_neg (by simpa using hopener.2), htake, hdrop]

end Lexeme

/-- Every text has one decomposition, the one that the scanner finds. -/
theorem decomposes_iff {cs : List Char} {ls : List Lexeme} : Decomposes cs ls ↔ ls = scan cs := by
  constructor
  · intro h
    induction h with
    | nil => exact scan_nil.symm
    | cons hl _ ih =>
        obtain ⟨c, cs, hcs, hfirst⟩ := hl.first_eq
        rw [hcs, scan_cons, hfirst, ih]
  · rintro rfl
    fun_induction scan cs with
    | case1 => exact .nil
    | case2 c rest ih => exact Lexeme.first_append c rest ▸ .cons (Lexeme.leads_first c rest) ih

theorem Token.classifies_ofWord (word : List Char) : (Token.ofWord word).Classifies word := by
  unfold Token.Classifies Token.ofWord
  cases Numeral.literal? word <;> simp

/-- The tokens of a text are its words. The lexical grammar decomposes every text in exactly one
way, into blanks, comments and words; the tokens are the words of this decomposition in their order,
each with the text of its word, an integer where the word is a literal and a name otherwise. -/
theorem tokens_of_decomposition (source : String) :
    ∃ ls, (∀ ls', Decomposes source.toList ls' ↔ ls' = ls) ∧
      List.Forall₂ Token.Classifies (tokenize source) (ls.filterMap Lexeme.word?) := by
  refine ⟨scan source.toList, fun ls' => decomposes_iff, ?_⟩
  unfold tokenize
  induction scan source.toList with
  | nil => exact .nil
  | cons l ls ih =>
      cases l with
      | word text => exact .cons (Token.classifies_ofWord text) ih
      | _ => exact ih

end ThreadedForth
