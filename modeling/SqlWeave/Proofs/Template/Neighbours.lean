/-
SqlWeave/Proofs/Template/Neighbours.lean

What stands next to a value in the finished text.  A blank is put where a quote at either end of
a value meets its like, but the two ends are not treated alike: what comes before is the whole
text so far, and what comes after is only the next chunk.  If that chunk is empty, the blank is
left to the value after it, which puts one before itself unless it is written as nothing.

Main results: a value never begins with the quote that it follows, and it ends with the quote
that comes next only across empty chunks and values that are written as nothing
(`weave_setApart`); `weave_fuses_over_empty_series` is the least such statement.
-/
import Mathlib
import SqlWeave.Proofs.Beginnings
import SqlWeave.Proofs.Template.Run
import SqlWeave.Proofs.Template.Seam

namespace SqlWeave.Template

open Text

/-- Whether empty chunks and silent values, at least one, come before a chunk that begins with
`c`.  The chunks are those that are left, and the values stand between them. -/
inductive Meets (options : Options) (c : Char) : (chunks : List Text) → (values : List Value) → Prop
  | here {chunk : Text} {chunks : List Text} {v : Value} {vs : List Value}
      (hv : v.isSilent options) (h : chunk.head? = some c) :
      Meets options c ([] :: chunk :: chunks) (v :: vs)
  | later {chunk : Text} {chunks : List Text} {v : Value} {vs : List Value}
      (hv : v.isSilent options) (h : Meets options c (chunk :: chunks) vs) :
      Meets options c ([] :: chunk :: chunks) (v :: vs)

section Meets

variable {options : Options} {c : Char} {chunk : Text} {chunks : List Text} {v : Value}
  {vs : List Value}

theorem Meets.eq_nil (h : Meets options c (chunk :: chunks) vs) : chunk = [] := by
  cases h <;> rfl

theorem Meets.isSilent (h : Meets options c chunks (v :: vs)) : v.isSilent options := by
  cases h <;> assumption

theorem meets_cons_cons_iff (hv : v.isSilent options) :
    Meets options c ([] :: chunk :: chunks) (v :: vs) ↔
      chunk.head? = some c ∨ Meets options c (chunk :: chunks) vs := by
  constructor
  · rintro (⟨-, h⟩ | ⟨-, h⟩)
    · exact .inl h
    · exact .inr h
  · rintro (h | h)
    · exact .here hv h
    · exact .later hv h

end Meets

/-! ### The text after a value -/

theorem head?_setOff_append_ne {c : Char} (hc : isQuote c) {t : Text} (hne : t ≠ [])
    (after rest : Text) : (setOff [c] t after ++ rest).head? ≠ some c := by
  obtain ⟨blank, blank', hblank, -, he⟩ := setOff_eq t [c] after
  rw [show [c] = lastChar [] [c] from rfl, he]
  obtain ⟨d, t, rfl⟩ := List.exists_cons_of_ne_nil hne
  cases hblank with
  | needed hd hend hmeets =>
    rintro ⟨⟩
    contradiction
  | none h =>
    intro hhead
    exact h c hc hhead rfl

variable {f : Family} {s : Surroundings} {options : Options} {chunks fs : List Text}
  {values : List Value}

/-- Behind a quote, the rest of a run begins with the same quote only where empty chunks and
silent values lead to a chunk that does. -/
theorem Woven.head?_eq_iff {c : Char} (hc : isQuote c) {k : Option f.Open}
    {ks : List (Option f.Open)} (h : Woven f.grammar s options [c] k chunks values fs ks)
    (hk : k = none) (hv : ∀ v ∈ values, v.holdsFragment s.trust = false) :
    (interleave ([] :: chunks) fs).head? = some c ↔ Meets options c ([] :: chunks) values := by
  generalize hbefore : [c] = before at h
  induction h with
  | done h => exact ⟨nofun, nofun⟩
  | @gap before chunk filling k k' chunks fs v vs ks hfill hnext hlater ih =>
    subst hbefore hk
    obtain ⟨t, ht, -, rfl⟩ := fill_none_eq_ok_iff.1 hfill
    have hnil := escape_eq_nil_iff f (hv v (by simp)) ht
    by_cases hsilent : v.isSilent options
    · -- Nothing is written, so the chunk after the value comes next.
      rw [hnil.2 hsilent, setOff_nil] at hlater ih ⊢
      rw [meets_cons_cons_iff hsilent]
      by_cases hchunk : chunk = []
      · subst hchunk
        obtain rfl : none = k' := by simpa using hnext
        simpa [interleave] using ih rfl (fun w hw => hv w (by simp [hw])) rfl
      · have hmeets : ¬Meets options c (chunk :: chunks) vs := fun h => hchunk h.eq_nil
        simp [interleave, head?_interleave hchunk, hmeets]
    · have hmeets : ¬Meets options c ([] :: chunk :: chunks) (v :: vs) := fun h =>
        hsilent h.isSilent
      have hhead := head?_setOff_append_ne hc (mt hnil.1 hsilent) chunk
        (interleave (chunk :: chunks) fs)
      exact iff_of_false hhead hmeets

/-! ### Whole statements -/

/-- A value between tokens is written with a blank at most on either side.  Where it begins with
a quote, the text before it does not end with that quote; where it ends with a quote, the text
after it begins with that quote only across empty chunks and silent values. -/
theorem weave_setApart {ks : List (Option f.Open)} {i : Nat} {v : Value}
    (hk : f.grammar.lexer.contexts chunks = .ok ks)
    (hf : fillings f.grammar s options chunks values = .ok fs)
    (hv : ∀ v ∈ values, v.holdsFragment s.trust = false) (hi : ks[i]? = some none)
    (hvi : values[i]? = some v) :
    ∃ t blank blank', f.grammar.escape s options v = .ok t ∧
      (blank = [] ∨ blank = [' ']) ∧ (blank' = [] ∨ blank' = [' ']) ∧
      weave f.grammar s options chunks values =
        .ok (written chunks fs i ++ blank ++ t ++ (blank' ++ unwritten chunks fs i)) ∧
      (∀ c, isQuote c → t.head? = some c → (written chunks fs i ++ blank).getLast? ≠ some c) ∧
      ∀ c, isQuote c → t.getLast? = some c →
        ((blank' ++ unwritten chunks fs i).head? = some c ↔
          Meets options c (chunks.drop (i + 1)) (values.drop (i + 1))) := by
  obtain ⟨t, blank, blank', chunk, hplaced⟩ := exists_placed hk hf hi hvi
  obtain ⟨k', ks', hnext, hlater⟩ := hplaced.later
  refine ⟨t, blank, blank', hplaced.escape, hplaced.before.eq_or_eq, hplaced.after.eq_or_eq,
    hplaced.weave, ?_, ?_⟩
  · intro c hc hhead hlast
    cases hplaced.before with
    | needed => exact (ne_of_isQuote hc).2.2 (by simpa using hlast.symm)
    | none h => exact h c hc hhead (by simpa using hlast)
  · intro c hc hlast
    have hafter := hplaced.after
    rw [unwritten, hplaced.next]
    by_cases hchunk : chunk = []
    · -- Nothing stands after the value yet: it is the last of the text so far.
      subst hchunk
      obtain rfl : [] = blank' := by
        cases hafter with
        | needed hd hend hmeets => contradiction
        | none h => rfl
      obtain rfl : none = k' := by simpa using hnext
      have hquote : lastChar [] (written chunks fs i ++ (blank ++ t ++ []) ++ []) = [c] := by
        simp [lastChar, List.getLast?_append, hlast]
      rw [hquote] at hlater
      exact hlater.head?_eq_iff hc rfl fun v hmem => hv v (List.mem_of_mem_drop hmem)
    · refine iff_of_false ?_ fun h => hchunk h.eq_nil
      cases hafter with
      | needed =>
        intro hhead
        exact (ne_of_isQuote hc).2.2 (by simpa using hhead.symm)
      | none h =>
        rw [List.nil_append, head?_interleave hchunk]
        exact h c hc hlast

/-- Where nothing stands between two strings but an empty series, the later one brings the blank
between them. -/
theorem weave_setApart_across_empty_series :
    let chunks := ["SELECT 'a'".toList, [], [], "'b'".toList]
    let values : List Value := [.ofText ['x'], .series .list [], .ofText ['y']]
    let s : Surroundings := ⟨defaultMinter.policy, .zero⟩
    let fs := [" 'x'".toList, [], " 'y' ".toList]
    let ks : List (Option Family.mysql.Open) := [none, none, none]
    MySQL.grammar.lexer.contexts chunks = .ok ks ∧
      fillings MySQL.grammar s .default chunks values = .ok fs ∧
      (∀ v ∈ values, v.holdsFragment s.trust = false) ∧
      ∃ t blank blank', MySQL.grammar.escape s .default (.ofText ['x']) = .ok t ∧
        (blank = [] ∨ blank = [' ']) ∧ (blank' = [] ∨ blank' = [' ']) ∧
        weave MySQL.grammar s .default chunks values =
          .ok (written chunks fs 0 ++ blank ++ t ++ (blank' ++ unwritten chunks fs 0)) ∧
        (∀ c, isQuote c → t.head? = some c → (written chunks fs 0 ++ blank).getLast? ≠ some c) ∧
        ∀ c, isQuote c → t.getLast? = some c →
          ((blank' ++ unwritten chunks fs 0).head? = some c ↔
            Meets .default c (chunks.drop 1) (values.drop 1)) := by
  intro chunks values s fs ks
  have hk : MySQL.grammar.lexer.contexts chunks = .ok ks := by cbv
  have hf : fillings MySQL.grammar s .default chunks values = .ok fs := by cbv
  have hv : ∀ v ∈ values, v.holdsFragment s.trust = false := by decide
  exact ⟨hk, hf, hv, weave_setApart (f := .mysql) (i := 0) hk hf hv rfl rfl⟩

/-- Behind an empty series the same string is one with the value before it. -/
theorem weave_fuses_over_empty_series :
    let chunks := [[], [], "'x'".toList]
    let values : List Value := [.ofText ['a'], .series .list []]
    let s : Surroundings := ⟨defaultMinter.policy, .zero⟩
    MySQL.grammar.escape s .default (.ofText ['a']) = .ok "'a'".toList ∧
      MySQL.grammar.lexer.contexts chunks = .ok [none, none] ∧
      weave MySQL.grammar s .default chunks values = .ok ("'a'".toList ++ "'x'".toList) ∧
      Postgres.grammar.escape s .default (.ofText ['a']) = .ok "'a'".toList ∧
      Postgres.grammar.lexer.contexts chunks = .ok [none, none] ∧
      weave Postgres.grammar s .default chunks values = .ok ("'a'".toList ++ "'x'".toList) := by
  intro chunks values s
  refine ⟨?_, ?_, ?_, ?_, ?_, ?_⟩ <;> cbv

end SqlWeave.Template
