/-
SqlWeave/Proofs/Decoding.lean

Reading the body of a quoted construct back as the text that it stands for.  The quote written
twice stands for itself, and a lone one ends the body; what a backslash and the text after it
stand for is a rule of its own, and in that alone the strings of the dialects differ.

A piece of a body that is read in the same way whatever comes after it can be followed by any
other: this is what keeps pairs of quotes, pairs of backslashes and escapes of several digits
apart.

Main results: a text written character by character reads back if each character does
(`Stands.flatMap`, `Stands.decode_eq`), and a body that is read back to its end leaves its quote
open (`readBody_of_decode`).
-/
import SqlWeave.Proofs.Lexer.Body
import SqlWeave.Text.Meta

namespace SqlWeave

open Text

/-! ### The reader -/

/-- What a backslash stands for. -/
structure EscapeRule where
  /-- From the text behind a backslash, the text that is meant and what is left to read. -/
  read : Text → Option (Text × Text)
  read_suffix : ∀ {text meant rest}, read text = some (meant, rest) → rest <:+ text

/-- The rule of bodies without escapes: a backslash is a character like any other. -/
def EscapeRule.noEscapes : EscapeRule where
  read text := some ([backslash], text)
  read_suffix h := by simp_all

/-- A text in front of what has been read of the rest. -/
def prepend (meant : Text) (read : Text × Text) : Text × Text := (meant ++ read.1, read.2)

theorem prepend_nil : prepend [] = id := rfl

theorem prepend_comp_prepend (a b : Text) : prepend a ∘ prepend b = prepend (a ++ b) := by
  funext read
  simp [prepend]

/-- The text that a body stands for, up to a lone quote if there is one, and what is left from
that quote on.  Nothing is read if an escape is not complete. -/
def decode (mark : Char) (rule : EscapeRule) : Text → Option (Text × Text)
  | [] => some ([], [])
  | c :: rest =>
    if c = mark then
      match rest with
      | [] => some ([], [c])
      | d :: rest' =>
        if d = mark then (decode mark rule rest').map (prepend [mark])
        else some ([], c :: d :: rest')
    else if c = backslash then
      match _h : rule.read rest with
      | none => none
      | some (meant, rest') => (decode mark rule rest').map (prepend meant)
    else (decode mark rule rest).map (prepend [c])
termination_by text => text.length
decreasing_by
  · simp only [List.length_cons]
    omega
  · have := (rule.read_suffix _h).length_le
    simp only [List.length_cons]
    omega
  · simp only [List.length_cons]
    omega

section

variable {mark : Char} {rule : EscapeRule} {a b t u rest : Text} {c : Char}

theorem decode_nil : decode mark rule [] = some ([], []) := by
  rw [decode]

theorem decode_twice :
    decode mark rule (mark :: mark :: rest) = (decode mark rule rest).map (prepend [mark]) := by
  rw [decode.eq_def]
  simp

theorem decode_lone (h : rest.head? ≠ some mark) :
    decode mark rule (mark :: rest) = some ([], mark :: rest) := by
  rw [decode.eq_def]
  simp only [if_true]
  cases rest with
  | nil => rfl
  | cons d rest =>
    have hd : d ≠ mark := by simpa using h
    simp [hd]

theorem decode_escaped {meant : Text} (hm : mark ≠ backslash)
    (h : rule.read t = some (meant, rest)) :
    decode mark rule (backslash :: t) = (decode mark rule rest).map (prepend meant) := by
  rw [decode.eq_def]
  simp only [hm.symm, if_false, if_true]
  split
  · rename_i hnone
    simp [h] at hnone
  · rename_i he
    obtain ⟨rfl, rfl⟩ : _ = meant ∧ _ = rest := by simpa using he.symm.trans h
    rfl

theorem decode_cons_of_ne (hm : c ≠ mark) (hb : c ≠ backslash) :
    decode mark rule (c :: rest) = (decode mark rule rest).map (prepend [c]) := by
  rw [decode.eq_def]
  simp only [hm, hb, if_false]

/-- Where there is no backslash, the rule does not matter. -/
theorem decode_eq_of_not_mem {rule' : EscapeRule} (h : backslash ∉ t) :
    decode mark rule t = decode mark rule' t := by
  fun_induction decode mark rule t with
  | case1 => rw [decode_nil]
  | case2 => rw [decode_lone (by simp)]
  | case3 t ih => rw [decode_twice, ih (by simp_all)]
  | case4 d t hd => rw [decode_lone (by simpa using hd)]
  | case5 => simp at h
  | case6 => simp at h
  | case7 c t hm hb ih => rw [decode_cons_of_ne hm hb, ih (by simp_all)]

/-- Without escapes every body is read. -/
theorem exists_decode_noEscapes (mark : Char) (t : Text) :
    ∃ read, decode mark .noEscapes t = some read := by
  fun_induction decode mark .noEscapes t with
  | case1 | case2 | case4 => exact ⟨_, rfl⟩
  | case3 t ih | case6 _ _ _ _ _ ih | case7 c t hm hb ih =>
    obtain ⟨read, hread⟩ := ih
    exact ⟨_, by rw [hread]; rfl⟩
  | case5 => contradiction

/-! ### Pieces of a body -/

/-- A piece of a body that stands for `t`, whatever comes after it. -/
def Stands (mark : Char) (rule : EscapeRule) (u t : Text) : Prop :=
  ∀ rest, decode mark rule (u ++ rest) = (decode mark rule rest).map (prepend t)

namespace Stands

theorem nil : Stands mark rule [] [] := by
  intro rest
  rw [prepend_nil, Option.map_id_fun]
  rfl

theorem append {a' b' : Text} (ha : Stands mark rule a a') (hb : Stands mark rule b b') :
    Stands mark rule (a ++ b) (a' ++ b') := by
  intro rest
  rw [List.append_assoc, ha, hb, Option.map_map, prepend_comp_prepend]

/-- A text is written character by character if every character stands for itself. -/
theorem flatMap {write : Char → Text} (h : ∀ c ∈ t, Stands mark rule (write c) [c]) :
    Stands mark rule (t.flatMap write) t := by
  induction t with
  | nil => exact nil
  | cons c t ih =>
    rw [List.flatMap_cons]
    exact (h c (by simp)).append (ih fun d hd => h d (by simp [hd]))

theorem decode_eq (h : Stands mark rule u t) : decode mark rule u = some (t, []) := by
  simpa [decode_nil, prepend] using h []

/-- The body in its quote: what is left is the closing quote and what comes after it. -/
theorem decode_append_mark (h : Stands mark rule u t) (hrest : rest.head? ≠ some mark) :
    decode mark rule (u ++ mark :: rest) = some (t, mark :: rest) := by
  rw [h, decode_lone hrest]
  simp [prepend]

theorem twice : Stands mark rule [mark, mark] [mark] := fun _ => decode_twice

theorem single (hm : c ≠ mark) (hb : c ≠ backslash) : Stands mark rule [c] [c] :=
  fun _ => decode_cons_of_ne hm hb

theorem escaped (hm : mark ≠ backslash) (h : ∀ rest, rule.read (u ++ rest) = some (t, rest)) :
    Stands mark rule (backslash :: u) t :=
  fun rest => decode_escaped hm (h rest)

end Stands

/-- Where there are no escapes, a text is written with its quotes doubled. -/
theorem stands_doubled (hm : mark ≠ backslash) (t : Text) :
    Stands mark .noEscapes (doubled mark t) t := by
  apply Stands.flatMap
  intro c _
  by_cases hc : c = mark
  · rw [if_pos hc, hc]
    exact .twice
  rw [if_neg hc]
  by_cases hb : c = backslash
  · rw [hb]
    exact .escaped hm fun _ => rfl
  · exact .single hc hb

/-! ### The end of a body -/

/-- How the lexer leaves a body off from which `rest` is left to read. -/
def endOf : (rest : Text) → BodyEnd
  | [] => .inside
  | _ :: rest => .closed rest

theorem exists_of_map_prepend_eq_some {meant : Text} {read : Option (Text × Text)}
    (h : read.map (prepend meant) = some (u, rest)) :
    ∃ u', u = meant ++ u' ∧ read = some (u', rest) := by
  obtain ⟨⟨u', rest'⟩, hread, he⟩ := Option.map_eq_some_iff.1 h
  obtain ⟨rfl, rfl⟩ := Prod.mk.inj he
  exact ⟨u', rfl, hread⟩

/-- Where the lexer and the reader go past an escape to the same place, they go on to the same
end of the body. -/
theorem readBody_of_decode {escapes : Bool}
    (hrule : ∀ {text meant rest}, rule.read text = some (meant, rest) →
      readBody mark escapes (backslash :: text) = readBody mark escapes rest)
    (h : decode mark rule t = some (u, rest)) : readBody mark escapes t = endOf rest := by
  fun_induction decode mark rule t generalizing u rest with
  | case1 =>
    obtain ⟨-, rfl⟩ : [] = u ∧ [] = rest := by simpa using h
    rw [readBody, endOf]
  | case2 =>
    obtain ⟨-, rfl⟩ : [] = u ∧ [mark] = rest := by simpa using h
    exact readBody_of_head?_ne (by simp)
  | case3 t ih =>
    obtain ⟨u', -, hread⟩ := exists_of_map_prepend_eq_some h
    rw [readBody_twice, ih hread]
  | case4 d t hd =>
    obtain ⟨-, rfl⟩ : [] = u ∧ mark :: d :: t = rest := by simpa using h
    exact readBody_of_head?_ne (by simpa using hd)
  | case5 => contradiction
  | case6 t meant t' hescape _ ih =>
    obtain ⟨u', -, hread⟩ := exists_of_map_prepend_eq_some h
    rw [hrule hescape, ih hread]
  | case7 c t hm hb ih =>
    obtain ⟨u', -, hread⟩ := exists_of_map_prepend_eq_some h
    rw [readBody_cons_of_ne hm fun he => hb he.2, ih hread]

end

end SqlWeave
