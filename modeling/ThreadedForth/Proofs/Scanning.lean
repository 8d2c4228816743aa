import Mathlib
import ThreadedForth.Token.Lexer
/-!
# ThreadedForth.Proofs.Scanning

Source text can be cut at the end of a line. What stands before the cut is scanned as if nothing
came after it, and what stands after it as if nothing had come before (`scan_append_line`), because
a line's end separates words and ends a line comment. Only a parenthesised comment goes on beyond
it; so the one condition is that the text before the cut leaves none open (`Lexeme.Closed`).
-/

namespace ThreadedForth

namespace Lexeme

/-- No parenthesis of the lexeme is still open at its end. Only a comment nests parentheses, and
one that is left open goes on to the end of the text. -/
def Closed : Lexeme → Prop
  | parenComment text => text.count '(' = text.count ')'
  | _ => True

instance (l : Lexeme) : Decidable l.Closed := by
  cases l <;> unfold Closed <;> infer_instance

theorem takeWhile_append_stop {p : Char → Bool} {c : Char} (hc : p c = false)
    (as bs : List Char) : (as ++ c :: bs).takeWhile p = as.takeWhile p := by
  induction as with
  | nil => simp [hc]
  | cons a as ih =>
      cases ha : p a
      · simp [ha]
      · simp [ha, ih]

theorem dropWhile_append_stop {p : Char → Bool} {c : Char} (hc : p c = false)
    (as bs : List Char) : (as ++ c :: bs).dropWhile p = as.dropWhile p ++ c :: bs := by
  induction as with
  | nil => simp [hc]
  | cons a as ih =>
      cases ha : p a
      · simp [ha]
      · simp [ha, ih]

/-- An opener at the end of the text stands alone, and so it does before a line's end. -/
theorem standsAlone_append_line (as bs : List Char) :
    standsAlone (as ++ '\n' :: bs) = standsAlone as := by
  cases as with
  | nil => simp [standsAlone, Text.isBlank_newline]
  | cons a as => rfl

/-- If all `depth` parentheses are closed, the same is split off from any longer text. -/
theorem splitNested_append_of_count {depth : Nat} {as : List Char}
    (h : depth + (splitNested depth as).1.count '(' = (splitNested depth as).1.count ')')
    (bs : List Char) :
    splitNested depth (as ++ bs) = ((splitNested depth as).1, (splitNested depth as).2 ++ bs) := by
  fun_induction splitNested depth as with
  | case1 as => rw [splitNested]
  | case2 depth => simp at h
  | case3 depth c as deeper inside after hsplit ih =>
      -- What the first character does to the depth, it does to the counts.
      have hinside : deeper + inside.count '(' = inside.count ')' := by
        simp only [List.count_cons] at h
        by_cases hopen : c = '('
        · subst hopen
          simp [deeper] at h ⊢
          omega
        by_cases hclose : c = ')'
        · subst hclose
          simp [deeper] at h ⊢
          omega
        · simp [deeper, hopen, hclose] at h ⊢
          omega
      rw [hsplit] at ih
      rw [List.cons_append, splitNested]
      simp only
      rw [ih hinside]

/-- A lexeme that leaves nothing open is the same if more lines follow. -/
theorem first_append_line {c : Char} {as : List Char} (h : (first c as).1.Closed)
    (bs : List Char) :
    first c (as ++ '\n' :: bs) = ((first c as).1, (first c as).2 ++ '\n' :: bs) := by
  unfold first at h ⊢
  rw [standsAlone_append_line]
  split
  · rfl
  split
  · rw [takeWhile_append_stop (by decide), dropWhile_append_stop (by decide)]
  split
  next hblank hline hparen =>
    rw [if_neg hblank, if_neg hline, if_pos hparen] at h
    obtain ⟨rfl, -⟩ : c = '(' ∧ standsAlone as := by simpa using hparen
    -- The comment begins with a parenthesis of its own.
    have hcount : 1 + (splitNested 1 as).1.count '(' = (splitNested 1 as).1.count ')' := by
      simpa [Closed, Nat.add_comm] using h
    rw [splitNested_append_of_count hcount]
  · have hstop : (!Text.isBlank '\n') = false := by simp [Text.isBlank_newline]
    rw [takeWhile_append_stop hstop, dropWhile_append_stop hstop]

end Lexeme

/-- Lines are scanned one by one, as long as no comment is open at the end of the first ones. -/
theorem scan_append_line {as : List Char} (h : ∀ l ∈ scan as, l.Closed) (bs : List Char) :
    scan (as ++ '\n' :: bs) = scan as ++ .blank '\n' :: scan bs := by
  fun_induction scan as with
  | case1 =>
      have hfirst : Lexeme.first '\n' bs = (.blank '\n', bs) := by
        simp [Lexeme.first, Text.isBlank_newline]
      rw [List.nil_append, scan_cons, hfirst]
      rfl
  | case2 c as ih =>
      have hfirst := Lexeme.first_append_line (h _ List.mem_cons_self) bs
      rw [List.cons_append, scan_cons, hfirst, ih fun l hl => h l (List.mem_cons_of_mem _ hl)]
      rfl

/-- So the tokens of two pieces of source, joined by a line's end, are the tokens of both. -/
theorem tokenize_append_line {a : String} (h : ∀ l ∈ scan a.toList, l.Closed) (b : String) :
    tokenize (a ++ "\n" ++ b) = tokenize a ++ tokenize b := by
  have hchars : (a ++ "\n" ++ b).toList = a.toList ++ '\n' :: b.toList := by simp
  rw [tokenize, hchars, scan_append_line h, List.filterMap_append]
  rfl

end ThreadedForth
