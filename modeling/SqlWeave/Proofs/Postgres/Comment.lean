/-
SqlWeave/Proofs/Postgres/Comment.lean

The end of a comment.  A comment that ends in a text ends there still when more text comes, and
what follows it begins with a line break or stands behind a slash.

Main results: `afterComment?_append`, and where the text goes on after a comment
(`afterComment?_eq`).
-/
import SqlWeave.Postgres.Lexer

namespace SqlWeave.Postgres

open Text

/-! ### Line comments -/

theorem afterLine?_append {a b rest : Text} (h : afterLine? a = some rest) :
    afterLine? (a ++ b) = some (rest ++ b) := by
  unfold afterLine? at h ⊢
  cases hd : a.dropWhile (fun c => !isLineBreak c) with
  | nil => simp [hd] at h
  | cons c t =>
    obtain rfl : c :: t = rest := by simpa [hd] using h
    rw [List.dropWhile_append, hd]
    rfl

/-- A line comment ends just before the first line break. -/
theorem afterLine?_eq {a rest : Text} (h : afterLine? a = some rest) :
    ∃ front c t, a = front ++ c :: t ∧ rest = c :: t ∧ isLineBreak c ∧
      ∀ d ∈ front, isLineBreak d = false := by
  unfold afterLine? at h
  cases hd : a.dropWhile (fun c => !isLineBreak c) with
  | nil => simp [hd] at h
  | cons c t =>
    obtain rfl : c :: t = rest := by simpa [hd] using h
    refine ⟨a.takeWhile fun c => !isLineBreak c, c, t, ?_, rfl, ?_, ?_⟩
    · rw [← hd, List.takeWhile_append_dropWhile]
    · have hne : a.dropWhile (fun c => !isLineBreak c) ≠ [] := by simp [hd]
      simpa [hd] using List.head_dropWhile_not (fun c => !isLineBreak c) hne
    · intro d hd
      simpa using List.all_eq_true.1 List.all_takeWhile d hd

theorem afterLine?_of_break {body t : Text} {c : Char} (hbody : ∀ d ∈ body, isLineBreak d = false)
    (hc : isLineBreak c) : afterLine? (body ++ c :: t) = some (c :: t) := by
  have hall : ∀ d ∈ body, !isLineBreak d := fun d hd => by simp [hbody d hd]
  rw [afterLine?, List.dropWhile_append_of_pos hall, List.dropWhile_cons_of_neg (by simp [hc])]

theorem afterLine?_of_forall {body : Text} (hbody : ∀ d ∈ body, isLineBreak d = false) :
    afterLine? body = none := by
  have hall : ∀ d ∈ body, !isLineBreak d := fun d hd => by simp [hbody d hd]
  rw [afterLine?, ← List.append_nil body, List.dropWhile_append_of_pos hall]
  rfl

/-! ### Block comments -/

theorem afterBlock?_append {depth : Nat} {a b rest : Text} (h : afterBlock? depth a = some rest) :
    afterBlock? depth (a ++ b) = some (rest ++ b) := by
  -- The induction is on the reading, which takes a marker of two characters or a single one.
  fun_induction afterBlock? depth a with
  | case1 text =>
    obtain rfl : text = rest := by simpa using h
    rw [afterBlock?.eq_def]
  | case2 => simp at h
  | case3 => simp at h
  | case4 depth c d rest' hc ih =>
    rw [List.cons_append, List.cons_append, afterBlock?.eq_def]
    simp only [hc, and_self, if_true]
    exact ih h
  | case5 depth c d rest' hc hc' ih =>
    rw [List.cons_append, List.cons_append, afterBlock?.eq_def]
    simp only [hc', and_self, if_true]
    rw [if_neg (by simp)]
    exact ih h
  | case6 depth c d rest' hc hc' ih =>
    rw [List.cons_append, List.cons_append, afterBlock?.eq_def]
    simp only [hc, hc', if_false]
    exact ih h

/-- The part of a text that a block comment takes up. -/
theorem exists_of_afterBlock? {depth : Nat} {a rest : Text} (h : afterBlock? depth a = some rest) :
    ∃ u, a = u ++ rest ∧ afterBlock? depth u = some [] := by
  fun_induction afterBlock? depth a with
  | case1 text => exact ⟨[], by simpa using h, by rw [afterBlock?.eq_def]⟩
  | case2 => simp at h
  | case3 => simp at h
  | case4 depth c d rest' hc ih =>
    obtain ⟨u, rfl, hu⟩ := ih h
    refine ⟨c :: d :: u, rfl, ?_⟩
    rw [afterBlock?.eq_def]
    simp only [hc, and_self, if_true]
    exact hu
  | case5 depth c d rest' hc hc' ih =>
    obtain ⟨u, rfl, hu⟩ := ih h
    refine ⟨c :: d :: u, rfl, ?_⟩
    rw [afterBlock?.eq_def]
    simp only [hc', and_self, if_true]
    rw [if_neg (by simp)]
    exact hu
  | case6 depth c d rest' hc hc' ih =>
    obtain ⟨u, hu, hread⟩ := ih h
    cases u with
    | nil => simp [afterBlock?.eq_def] at hread
    | cons e u =>
      obtain ⟨rfl, rfl⟩ := List.cons.inj hu
      refine ⟨c :: d :: u, rfl, ?_⟩
      rw [afterBlock?.eq_def]
      simp only [hc, hc', if_false]
      exact hread

/-- A block comment that is open ends with a slash. -/
theorem afterBlock?_eq {depth : Nat} {a rest : Text} (hd : depth ≠ 0)
    (h : afterBlock? depth a = some rest) : ∃ front, a = front ++ '/' :: rest := by
  fun_induction afterBlock? depth a with
  | case1 => contradiction
  | case2 => simp at h
  | case3 => simp at h
  | case4 depth c d rest' hc ih =>
    by_cases h0 : depth = 0
    · subst h0
      obtain rfl : rest' = rest := by simpa [afterBlock?.eq_def] using h
      exact ⟨[c], by rw [hc.2]; rfl⟩
    · obtain ⟨front, rfl⟩ := ih h0 h
      exact ⟨c :: d :: front, rfl⟩
  | case5 depth c d rest' hc hc' ih =>
    obtain ⟨front, rfl⟩ := ih (by omega) h
    exact ⟨c :: d :: front, rfl⟩
  | case6 depth c d rest' hc hc' ih =>
    obtain ⟨front, hfront⟩ := ih (by omega) h
    exact ⟨c :: front, by rw [hfront]; rfl⟩

/-! ### Either kind -/

theorem afterComment?_append {k : Comment} {a b rest : Text}
    (h : afterComment? k a = some rest) : afterComment? k (a ++ b) = some (rest ++ b) := by
  cases k with
  | block => exact afterBlock?_append h
  | dashes | hash => exact afterLine?_append h

/-- After a comment, the text goes on behind a slash or with a line break. -/
theorem afterComment?_eq {k : Comment} {a rest : Text} (h : afterComment? k a = some rest) :
    ∃ front, a = front ++ rest ∧
      (front.getLast? = some '/' ∨ ∃ c, rest.head? = some c ∧ isLineBreak c) := by
  have hline {a : Text} (h : afterLine? a = some rest) : ∃ front, a = front ++ rest ∧
      (front.getLast? = some '/' ∨ ∃ c, rest.head? = some c ∧ isLineBreak c) := by
    obtain ⟨front, c, t, rfl, rfl, hc, -⟩ := afterLine?_eq h
    exact ⟨front, rfl, .inr ⟨c, rfl, hc⟩⟩
  cases k with
  | block =>
    obtain ⟨front, rfl⟩ := afterBlock?_eq (by decide) h
    exact ⟨front ++ ['/'], by simp, .inl (by simp)⟩
  | dashes | hash => exact hline h

end SqlWeave.Postgres
