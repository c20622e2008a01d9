/-
SqlWeave/Proofs/Lexer/Body.lean

Bodies of quoted constructs, cut in two.  Quotes and backslashes are read in pairs from the
left, so a text that a body takes up whole leaves nothing pending: whatever follows is read
as if the body started there.

Main results: a text that stays inside its body is transparent to what follows it
(`readBody_append_of_inside`), and what follows a closing quote stays the same when more
text comes, unless that text doubles the quote (`readBody_append_of_closed`).  A text whose
quotes are doubled stays inside (`readBody_doubled`).
-/
import SqlWeave.Lexer.Body
import SqlWeave.Text.Meta

namespace SqlWeave

open Text

variable {mark : Char} {escapes : Bool} {a b rest : Text}

/-! ### One character, or one pair -/

theorem readBody_cons_of_ne {c : Char} (hc : c ≠ mark) (he : ¬(escapes ∧ c = backslash)) :
    readBody mark escapes (c :: a) = readBody mark escapes a := by
  rw [readBody.eq_def]
  simp [hc, he]

theorem readBody_twice : readBody mark escapes (mark :: mark :: a) = readBody mark escapes a := by
  simp [readBody]

theorem readBody_of_head?_ne (h : a.head? ≠ some mark) :
    readBody mark escapes (mark :: a) = .closed a := by
  cases a with
  | nil => simp [readBody]
  | cons c a =>
    have hc : c ≠ mark := by simpa using h
    simp [readBody, hc]

theorem readBody_escaped {c : Char} (hm : mark ≠ backslash) :
    readBody mark true (backslash :: c :: a) = readBody mark true a := by
  simp [readBody, hm.symm]

/-- Where there is no backslash, it does not matter whether one would escape something. -/
theorem readBody_eq_of_not_mem {escapes' : Bool} (h : backslash ∉ a) :
    readBody mark escapes a = readBody mark escapes' a := by
  fun_induction readBody mark escapes a with
  | case1 => rw [readBody]
  | case2 => rw [readBody_of_head?_ne (by simp)]
  | case3 a ih => rw [readBody_twice, ih (by simp_all)]
  | case4 d a hd => rw [readBody_of_head?_ne (by simpa using hd)]
  | case5 c hc he => exact absurd (by simp [he.2]) h
  | case6 c hc he d a ih => exact absurd (by simp [he.2]) h
  | case7 c a hc he ih =>
    have hb : c ≠ backslash := by
      rintro rfl
      simp at h
    rw [readBody_cons_of_ne hc fun he => hb he.2, ih (by simp_all)]

/-! ### Two pieces of a body -/

theorem readBody_append_of_inside (h : readBody mark escapes a = .inside) :
    readBody mark escapes (a ++ b) = readBody mark escapes b := by
  -- Each case takes a character, a doubled quote or an escaped character off `a`.
  fun_induction readBody mark escapes a with
  | case1 => rfl
  | case2 => simp at h
  | case3 rest ih => rw [List.cons_append, List.cons_append, readBody_twice, ih h]
  | case4 d rest hd => simp at h
  | case5 => simp at h
  | case6 c hc he d rest ih =>
    obtain ⟨rfl, rfl⟩ := he
    rw [List.cons_append, List.cons_append, readBody_escaped (Ne.symm hc), ih h]
  | case7 c rest hc he ih => rw [List.cons_append, readBody_cons_of_ne hc he, ih h]

/-- The closing quote may be the last character read so far; then a second one right after
it would make the two a doubled quote. -/
theorem readBody_append_of_closed (h : readBody mark escapes a = .closed rest)
    (hb : rest = [] → b.head? ≠ some mark) :
    readBody mark escapes (a ++ b) = .closed (rest ++ b) := by
  fun_induction readBody mark escapes a with
  | case1 => simp at h
  | case2 =>
    obtain rfl : rest = [] := by simpa using h.symm
    exact readBody_of_head?_ne (hb rfl)
  | case3 rest' ih => rw [List.cons_append, List.cons_append, readBody_twice, ih h]
  | case4 d rest' hd =>
    obtain rfl : d :: rest' = rest := by simpa using h
    exact readBody_of_head?_ne (by simpa using hd)
  | case5 => simp at h
  | case6 c hc he d rest' ih =>
    obtain ⟨rfl, rfl⟩ := he
    rw [List.cons_append, List.cons_append, readBody_escaped (Ne.symm hc), ih h]
  | case7 c rest' hc he ih => rw [List.cons_append, readBody_cons_of_ne hc he, ih h]

/-- What follows a closing quote is a tail of the text, with the quote in front of it. -/
theorem readBody_closed_eq (h : readBody mark escapes a = .closed rest) :
    ∃ front, a = front ++ mark :: rest := by
  fun_induction readBody mark escapes a with
  | case1 => simp at h
  | case2 => exact ⟨[], by simpa using h.symm⟩
  | case3 rest' ih =>
    obtain ⟨front, rfl⟩ := ih h
    exact ⟨_ :: _ :: front, rfl⟩
  | case4 d rest' => exact ⟨[], by simpa using h⟩
  | case5 => simp at h
  | case6 c hc he d rest' ih =>
    obtain ⟨front, rfl⟩ := ih h
    exact ⟨_ :: _ :: front, rfl⟩
  | case7 c rest' hc he ih =>
    obtain ⟨front, rfl⟩ := ih h
    exact ⟨_ :: front, rfl⟩

/-- The part of a text that a body takes up with its closing quote. -/
theorem exists_of_readBody_closed (h : readBody mark escapes a = .closed rest) :
    ∃ u, a = u ++ rest ∧ readBody mark escapes u = .closed [] ∧ rest.head? ≠ some mark := by
  fun_induction readBody mark escapes a with
  | case1 => simp at h
  | case2 =>
    obtain rfl : rest = [] := by simpa using h.symm
    exact ⟨[mark], rfl, readBody_of_head?_ne (by simp), by simp⟩
  | case3 rest' ih =>
    obtain ⟨u, rfl, hu, hne⟩ := ih h
    exact ⟨mark :: mark :: u, rfl, by rw [readBody_twice, hu], hne⟩
  | case4 d rest' hd =>
    obtain rfl : d :: rest' = rest := by simpa using h
    exact ⟨[mark], rfl, readBody_of_head?_ne (by simp), by simpa using hd⟩
  | case5 => simp at h
  | case6 c hc he d rest' ih =>
    obtain ⟨u, rfl, hu, hne⟩ := ih h
    obtain ⟨rfl, rfl⟩ := he
    exact ⟨backslash :: d :: u, rfl, by rw [readBody_escaped (Ne.symm hc), hu], hne⟩
  | case7 c rest' hc he ih =>
    obtain ⟨u, rfl, hu, hne⟩ := ih h
    exact ⟨c :: u, rfl, by rw [readBody_cons_of_ne hc he, hu], hne⟩

/-! ### Texts that stay inside -/

theorem readBody_singleton {c : Char} (hc : c ≠ mark) (he : ¬(escapes ∧ c = backslash)) :
    readBody mark escapes [c] = .inside := by
  rw [readBody_cons_of_ne hc he, readBody]

/-- A text without the quote and without escapes stays inside. -/
theorem readBody_of_forall (h : ∀ c ∈ a, c ≠ mark ∧ ¬(escapes ∧ c = backslash)) :
    readBody mark escapes a = .inside := by
  induction a with
  | nil => rw [readBody]
  | cons c a ih =>
    obtain ⟨hc, he⟩ := h c (by simp)
    rw [readBody_cons_of_ne hc he]
    exact ih fun d hd => h d (by simp [hd])

/-- If every character is written so that it stays inside, every text is. -/
theorem readBody_flatMap {write : Char → Text} {t : Text}
    (h : ∀ c ∈ t, readBody mark escapes (write c) = .inside) :
    readBody mark escapes (t.flatMap write) = .inside := by
  induction t with
  | nil => simp [readBody]
  | cons c t ih =>
    rw [List.flatMap_cons, readBody_append_of_inside (h c (by simp))]
    exact ih fun d hd => h d (by simp [hd])

/-- With every quote written twice, the body does not end. -/
theorem readBody_doubled {t : Text} (h : ∀ c ∈ t, ¬(escapes ∧ c = backslash)) :
    readBody mark escapes (doubled mark t) = .inside := by
  apply readBody_flatMap
  intro c hc
  by_cases hm : c = mark
  · rw [if_pos hm, hm, readBody_twice, readBody]
  · rw [if_neg hm]
    exact readBody_singleton hm (h c hc)

end SqlWeave
