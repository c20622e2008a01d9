/-
SqlWeave/Proofs/Template/Seam.lean

The two ends of a value that is set off from its neighbours.

Main results: a blank is put at an end exactly where that end is a quote which meets its like
(`setOff_eq`), and so a value between tokens stands in the finished text (`exists_placed`).
-/
import SqlWeave.Proofs.Template.Run

namespace SqlWeave.Template

open Text

/-! ### Blanks -/

/-- The blank between an end that may be a quote and what it meets. -/
inductive Blank (end? neighbour : Option Char) : Text → Prop
  | needed {c : Char} (hc : isQuote c) (hend : end? = some c) (hmeets : neighbour = some c) :
      Blank end? neighbour [' ']
  | none (h : ∀ c, isQuote c → end? = some c → neighbour ≠ some c) : Blank end? neighbour []

theorem ne_of_isQuote {c : Char} (hc : isQuote c) : c ≠ '-' ∧ c ≠ '/' ∧ c ≠ ' ' := by
  refine ⟨?_, ?_, ?_⟩ <;> rintro rfl <;> contradiction

theorem Blank.eq_or_eq {end? neighbour : Option Char} {blank : Text}
    (h : Blank end? neighbour blank) : blank = [] ∨ blank = [' '] := by
  cases h <;> simp

theorem exists_blank (end? neighbour : Option Char) (c : Char) (hend : end? = some c) :
    Blank end? neighbour (if isQuote c ∧ neighbour = some c then [' '] else []) := by
  split
  · rename_i h
    exact .needed h.1 hend h.2
  · rename_i h
    refine .none fun d hd he hn => h ?_
    obtain rfl : c = d := Option.some.inj (hend.symm.trans he)
    exact ⟨hd, hn⟩

/-- A value that is set off from a text before it and one after it. -/
theorem setOff_eq (escaped front after : Text) :
    ∃ blank blank', Blank escaped.head? front.getLast? blank ∧
      Blank escaped.getLast? after.head? blank' ∧
      setOff (lastChar [] front) escaped after = blank ++ escaped ++ blank' := by
  by_cases hne : escaped = []
  · exact ⟨[], [], .none (by simp [hne]), .none (by simp [hne]), by simp [hne]⟩
  obtain ⟨head, hhead⟩ := Option.ne_none_iff_exists'.1 (mt List.head?_eq_none_iff.1 hne)
  obtain ⟨tail, htail⟩ := Option.ne_none_iff_exists'.1 (mt List.getLast?_eq_none_iff.1 hne)
  have hbefore : lastChar [] front = [head] ↔ front.getLast? = some head := by
    unfold lastChar
    cases front.getLast? <;> simp
  refine ⟨_, _, exists_blank _ front.getLast? head hhead, exists_blank _ after.head? tail htail, ?_⟩
  simp only [setOff, hhead, htail, hbefore]

/-! ### Values in their places -/

variable {σ : Type} {G : Grammar σ} {s : Surroundings} {options : Options}
  {chunks fs : List Text} {values : List Value}

/-- A value between tokens in the finished text: its own text `t`, a blank at most on either
side, and the chunk after it, from which the weaving goes on. -/
structure Placed (G : Grammar σ) (s : Surroundings) (options : Options) (chunks : List Text)
    (values : List Value) (fs : List Text) (i : Nat) (v : Value) (t blank blank' chunk : Text) :
    Prop where
  escape : G.escape s options v = .ok t
  check : G.checkFreeStanding t chunk (!(values.drop (i + 1)).isEmpty) = .ok ()
  before : Blank t.head? (written chunks fs i).getLast? blank
  after : Blank t.getLast? chunk.head? blank'
  next : chunks.drop (i + 1) = chunk :: chunks.drop (i + 2)
  weave : weave G s options chunks values =
    .ok (written chunks fs i ++ blank ++ t ++ (blank' ++ unwritten chunks fs i))
  later : ∃ k ks, G.lexer.transition none chunk = .ok k ∧
    Woven G s options (lastChar [] (written chunks fs i ++ (blank ++ t ++ blank') ++ chunk)) k
      (chunks.drop (i + 2)) (values.drop (i + 1)) (fs.drop (i + 1)) ks

/-- Every value between tokens has its place in the finished text. -/
theorem exists_placed {ks : List (Option σ)} {i : Nat} {v : Value}
    (hk : G.lexer.contexts chunks = .ok ks) (hf : fillings G s options chunks values = .ok fs)
    (hi : ks[i]? = some none) (hvi : values[i]? = some v) :
    ∃ t blank blank' chunk, Placed G s options chunks values fs i v t blank blank' chunk := by
  obtain ⟨front, later, k, rfl, -, hwoven⟩ := woven_of_fillings hk hf
  obtain ⟨w, f, chunk, k', hwi, hfi, hdrop, hfill, hnext, hlater⟩ := hwoven.exists_gap hi
  obtain rfl : w = v := Option.some.inj (hwi.symm.trans hvi)
  obtain ⟨t, ht, hcheck, rfl⟩ := fill_none_eq_ok_iff.1 hfill
  obtain ⟨blank, blank', hblank, hblank', he⟩ :=
    setOff_eq t (written (front :: later) fs i) chunk
  rw [he] at hfi hlater
  have hlen : i < (front :: later).length := by
    have hlength := congrArg List.length hdrop
    simp only [List.length_drop, List.length_cons] at hlength ⊢
    omega
  refine ⟨t, blank, blank', chunk, ht, hcheck, hblank, hblank', by simpa using hdrop, ?_,
    k', _, hnext, by simpa using hlater⟩
  rw [weave, hf, Except.map, interleave_eq_append hlen hfi]
  simp

end SqlWeave.Template
