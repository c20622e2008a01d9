/-
SqlWeave/Proofs/Postgres/Joining.lean

Strings of Postgres that are joined across a gap.  A value that ends in an apostrophe is refused
if the chunk after it begins with a gap that breaks the line and an apostrophe comes next.  The
check sees that one chunk and whether another value follows, so a gap can get past it that is
spread over more of the text.

Main results: a weaving that is not refused has no such gap behind a value, but for two kinds
that the check cannot see (`weave_refused_or_overlooked`): a value that is written as nothing
stands before the line break, or the gap holds a comment of which one dash ends the chunk and
the other one comes after it.  Both kinds exist (`weave_overlooks_both_kinds`).
-/
import SqlWeave.Proofs.Postgres.Gap
import SqlWeave.Proofs.Postgres.Statement

namespace SqlWeave.Postgres

open Text Template

variable {s : Surroundings} {options : Options}

/-! ### Weaving without the check -/

/-- Postgres without the check of what follows a value. -/
def unchecked : Grammar State := { grammar with checkFreeStanding := fun _ _ _ => .ok () }

theorem fill_unchecked {before f : Text} {slot : Slot State} {flag : Bool}
    (h : fill unchecked s options before slot flag = .ok f) :
    fill grammar s options before slot flag = .ok f ∨
      fill grammar s options before slot flag = .error (.ambiguousContinuation slot.after) := by
  obtain ⟨context, v, after⟩ := slot
  cases context with
  | some k => exact .inl h
  | none =>
    obtain ⟨t, ht, -, rfl⟩ := fill_none_eq_ok_iff.1 h
    have ht : grammar.escape s options v = .ok t := ht
    by_cases hcheck : t.getLast? = some apostrophe ∧ continues after flag
    · right
      have hrefused : grammar.checkFreeStanding t after flag =
          .error (.ambiguousContinuation after) := if_pos hcheck
      rw [fill, render, ht]
      simp only [bind, Except.bind, hrefused]
    · left
      refine fill_none_eq_ok_iff.2 ⟨t, ht, ?_, rfl⟩
      exact if_neg hcheck

theorem fillAll_unchecked {before : Text} {slots : List (Slot State)} {fs : List Text}
    (h : fillAll unchecked s options before slots = .ok fs) :
    fillAll grammar s options before slots = .ok fs ∨
      ∃ slot ∈ slots, fillAll grammar s options before slots =
        .error (.ambiguousContinuation slot.after) := by
  induction slots generalizing before fs with
  | nil => exact .inl h
  | cons slot later ih =>
    obtain ⟨f, fs', hf, hfs', rfl⟩ := fillAll_cons_eq_ok_iff.1 h
    rcases fill_unchecked hf with hf | hf
    · rcases ih hfs' with hfs' | ⟨slot', hmem, hfs'⟩
      · exact .inl (fillAll_cons_eq_ok_iff.2 ⟨f, fs', hf, hfs', rfl⟩)
      · refine .inr ⟨slot', by simp [hmem], ?_⟩
        rw [fillAll, hf]
        simp [bind, Except.bind, hfs']
    · refine .inr ⟨slot, by simp, ?_⟩
      rw [fillAll, hf]
      rfl

/-- The check is all that can stop a weaving that goes through without it. -/
theorem fillings_unchecked {chunks fs : List Text} {values : List Value}
    (h : fillings unchecked s options chunks values = .ok fs) :
    fillings grammar s options chunks values = .ok fs ∨
      ∃ chunk ∈ chunks, fillings grammar s options chunks values =
        .error (.ambiguousContinuation chunk) := by
  rw [fillings] at h
  split at h
  · rename_i harity
    obtain ⟨analysis, ha, hf⟩ := Except.bind_eq_ok_iff.1 h
    have ha : analyze grammar chunks = .ok analysis := ha
    have hafter : ∀ slot ∈ slots analysis values, slot.after ∈ chunks := by
      intro slot hslot
      obtain ⟨ks, -, rfl⟩ := Except.map_eq_ok_iff.1 ha
      obtain ⟨⟨k, v, after⟩, hmem, rfl⟩ := List.mem_map.1 hslot
      exact List.mem_of_mem_tail (List.of_mem_zip (List.of_mem_zip hmem).2).2
    rw [fillings, if_pos harity, ha]
    rcases fillAll_unchecked hf with hf | ⟨slot, hslot, hf⟩
    · exact .inl hf
    · exact .inr ⟨slot.after, hafter slot hslot, hf⟩
  · cases h

/-! ### What the check overlooks -/

/-- How a string value at a gap can be joined to a later string past the check. -/
inductive Overlooked (options : Options) (chunks : List Text) (values : List Value)
    (fs : List Text) (i : Nat) : Prop
  /-- Only blanks and a silent value come before the gap that breaks the line. -/
  | silent {chunk : Text} {v : Value} (hchunk : chunks[i + 1]? = some chunk)
      (hblank : ∀ c ∈ chunk, isGapBlank c) (hv : values[i + 1]? = some v)
      (hsilent : v.isSilent options) (h : Continues (unwritten chunks fs (i + 1)))
  /-- The chunk ends in the first dash of a comment in the gap. -/
  | dashes {chunk rest : Text} (hchunk : chunks[i + 1]? = some chunk)
      (hfirst : chunk.getLast? = some '-') (hsecond : unwritten chunks fs i = chunk ++ '-' :: rest)
      (h : Continues (unwritten chunks fs i))

theorem not_continues_nil : ¬Continues [] := by
  rintro ⟨gap, rest, h, -⟩
  simp at h

theorem interleave_cons_eq_append (chunk : Text) (chunks fs : List Text) :
    interleave (chunk :: chunks) fs = chunk ++ interleave ([] :: chunks) fs := by
  cases fs <;> simp [interleave]

section Gap

variable {t chunk before : Text} {chunks fs : List Text} {vs : List Value}
  {k : Option State} {ks : List (Option State)}

/-- A gap that goes on behind a chunk that the check lets pass: the chunk is blank, or it ends
in the first dash of a comment. -/
theorem forall_isGapBlank_or_dash {gap rest : Text}
    (hcheck : continues chunk (!vs.isEmpty) = false)
    (hnext : lexer.transition none chunk = .ok k)
    (hrest : Woven grammar s options before k chunks vs fs ks)
    (hgap : IsGap (chunk ++ gap)) (htext : interleave ([] :: chunks) fs = gap ++ apostrophe :: rest) :
    (∀ c ∈ chunk, isGapBlank c) ∧ IsGap gap ∨
      chunk.getLast? = some '-' ∧ ∃ rest, interleave ([] :: chunks) fs = '-' :: rest := by
  cases hgap.of_append with
  | between ha hb =>
    refine .inl ⟨ha.forall_isGapBlank ?_, hb⟩
    intro c hc hbreak
    -- The gap takes up the whole chunk, so a value after it would have been counted as a string.
    rw [continues_of_isGap ha ⟨c, hc, hbreak⟩] at hcheck
    cases hrest with
    | done h => simp [interleave] at htext
    | gap => simp at hcheck
  | inComment ha hgap hbody =>
    rw [ha] at hnext
    have hopen := inComment_of_cut hgap hbody hnext
    rw [inComment_of_usable hrest.usable] at hopen
    contradiction
  | inOpener ha hb =>
    obtain ⟨u, rfl⟩ := List.head?_eq_some_iff.1 hb
    exact .inr ⟨ha, u ++ apostrophe :: rest, htext⟩

theorem halts_setOff (h : Halts t) (before after : Text) : Halts (setOff before t after) := by
  unfold setOff
  split
  · refine Halts.append ?_ _
    split
    · exact .space h
    · exact h
  · exact h

theorem eq_nil_of_isSilent {v : Value} {flag : Bool} {f : Text}
    (hfill : fill grammar s options before ⟨none, v, chunk⟩ flag = .ok f)
    (hsilent : v.isSilent options) : f = [] := by
  obtain ⟨t, ht, -, rfl⟩ := fill_none_eq_ok_iff.1 hfill
  rw [Grammar.escape_of_isSilent hsilent] at ht
  rw [← Except.ok.inj ht, setOff_nil]

/-- Only a silent value lets a gap go on. -/
theorem isSilent_of_continues {v : Value} {flag : Bool} {f rest : Text}
    (hfill : fill grammar s options before ⟨none, v, chunk⟩ flag = .ok f)
    (hv : v.holdsFragment s.trust = false) (h : Continues (f ++ rest)) : v.isSilent options := by
  obtain ⟨t, ht, -, rfl⟩ := fill_none_eq_ok_iff.1 hfill
  cases hsilent : v.isSilent options with
  | true => rfl
  | false =>
    have hhalts := (begins_halts s.trust).of_escape hv hsilent ht
    exact absurd h ((halts_setOff hhalts before chunk).append rest).not_continues

theorem transition_none_of_isGap {gap : Text} (h : IsGap gap) :
    lexer.transition none gap = .ok none := by
  rw [← List.append_nil gap, transition_none_gap_append h, Lexer.transition_nil]

/-- Behind a string value that the check lets pass, a gap with a line break and an apostrophe
come next in two ways only. -/
theorem silent_or_dash_of_continues (hcheck : continues chunk (!vs.isEmpty) = false)
    (hnext : lexer.transition none chunk = .ok k)
    (hrest : Woven grammar s options before k chunks vs fs ks)
    (hvs : ∀ v ∈ vs, v.holdsFragment s.trust = false)
    (h : Continues (interleave (chunk :: chunks) fs)) :
    (∀ c ∈ chunk, isGapBlank c) ∧ (∃ v, vs.head? = some v ∧ v.isSilent options) ∧
        Continues (interleave chunks fs.tail) ∨
      chunk.getLast? = some '-' ∧ ∃ rest, interleave (chunk :: chunks) fs = chunk ++ '-' :: rest := by
  rw [interleave_cons_eq_append] at h ⊢
  obtain ⟨gap, rest, htext, hgap, c, hc, hbreak⟩ := h
  -- A gap that ends within the chunk, with an apostrophe there, is what the check looks for.
  obtain ⟨more, rfl, hmore⟩ : ∃ more, gap = chunk ++ more ∧
      interleave ([] :: chunks) fs = more ++ apostrophe :: rest := by
    rcases List.append_eq_append_iff.1 htext with ⟨more, hmore, he⟩ | ⟨more, hmore, he⟩
    · exact ⟨more, hmore, he⟩
    · cases more with
      | nil => exact ⟨[], by simpa using hmore.symm, he.symm⟩
      | cons d more =>
        obtain ⟨rfl, -⟩ := List.cons.inj he
        rw [continues_of_continues ⟨gap, more, hmore, hgap, c, hc, hbreak⟩] at hcheck
        contradiction
  rcases forall_isGapBlank_or_dash hcheck hnext hrest hgap hmore with ⟨hblank, hgap'⟩ | hdash
  · left
    have hchunk := IsGap.of_forall hblank
    obtain rfl : none = k := by simpa [transition_none_of_isGap hchunk] using hnext
    have hcont : Continues (interleave ([] :: chunks) fs) := by
      refine ⟨more, rest, hmore, hgap', c, (List.mem_append.1 hc).resolve_left ?_, hbreak⟩
      intro hc
      exact not_isLineBreak_of_isGapBlank (hblank c hc) hbreak
    cases hrest with
    | done h => exact absurd hcont not_continues_nil
    | gap hfill hnext' hlater =>
      have hsilent := isSilent_of_continues hfill (hvs _ (by simp)) hcont
      obtain rfl := eq_nil_of_isSilent hfill hsilent
      exact ⟨hblank, ⟨_, rfl, hsilent⟩, hcont⟩
  · obtain ⟨hfirst, rest', hsecond⟩ := hdash
    exact .inr ⟨hfirst, rest', by rw [hsecond]⟩

end Gap

/-! ### Whole statements -/

theorem isGap_of_blank {end? neighbour : Option Char} {blank : Text}
    (h : Blank end? neighbour blank) : IsGap blank := by
  cases h with
  | needed => exact .blank (.inl (by decide)) .nil
  | none => exact .nil

section Placed

variable {chunks fs : List Text} {values : List Value} {i : Nat} {v : Value}
  {t blank blank' chunk : Text}

theorem overlooked_of_continues
    (hplaced : Placed grammar s options chunks values fs i v t blank blank' chunk)
    (hv : ∀ v ∈ values, v.holdsFragment s.trust = false) (hend : t.getLast? = some apostrophe)
    (h : Continues (blank' ++ unwritten chunks fs i)) :
    Overlooked options chunks values fs i := by
  obtain ⟨k, ks, hnext, hlater⟩ := hplaced.later
  have hcheck := continues_eq_false hend hplaced.check
  have hafter : unwritten chunks fs i =
      interleave (chunk :: chunks.drop (i + 2)) (fs.drop (i + 1)) := by
    rw [unwritten, hplaced.next]
  have hchunk : chunks[i + 1]? = some chunk := by
    rw [← List.head?_drop, hplaced.next]
    rfl
  -- A blank is put only before an apostrophe, which no gap with a line break comes before.
  have hcont : Continues (unwritten chunks fs i) := by
    cases hplaced.after with
    | none => exact h
    | needed hc hlast hmeets =>
      obtain rfl := Option.some.inj (hend.symm.trans hlast)
      obtain ⟨u, rfl⟩ := List.head?_eq_some_iff.1 hmeets
      rw [hafter, interleave_cons_eq_append] at h
      exact absurd h (Halts.space (.of_ne (by decide) (by decide) _)).not_continues
  rw [hafter] at hcont
  rcases silent_or_dash_of_continues hcheck hnext hlater
    (fun v hmem => hv v (List.mem_of_mem_drop hmem)) hcont with
    ⟨hblank, ⟨w, hw, hsilent⟩, hlast⟩ | ⟨hfirst, rest, hsecond⟩
  · rw [List.head?_drop] at hw
    rw [List.tail_drop] at hlast
    exact .silent hchunk hblank hw hsilent hlast
  · rw [← hafter] at hsecond hcont
    exact .dashes hchunk hfirst hsecond hcont

theorem continues_of_overlooked
    (hplaced : Placed grammar s options chunks values fs i v t blank blank' chunk)
    (h : Overlooked options chunks values fs i) : Continues (blank' ++ unwritten chunks fs i) := by
  refine Continues.append (isGap_of_blank hplaced.after) ?_
  obtain ⟨k, ks, hnext, hlater⟩ := hplaced.later
  cases h with
  | dashes hchunk hfirst hsecond h => exact h
  | @silent chunk' w hchunk hblank hw hsilent h =>
    obtain rfl : chunk = chunk' := by
      rw [← List.head?_drop, hplaced.next] at hchunk
      exact Option.some.inj hchunk
    have hgap := IsGap.of_forall hblank
    obtain rfl : none = k := Except.ok.inj ((transition_none_of_isGap hgap).symm.trans hnext)
    rw [unwritten, hplaced.next, interleave_cons_eq_append]
    refine Continues.append hgap ?_
    have h : Continues (interleave (chunks.drop (i + 2)) (fs.drop (i + 1)).tail) := by
      rw [List.tail_drop]
      exact h
    rw [← List.head?_drop] at hw
    generalize values.drop (i + 1) = vs at hlater hw
    generalize chunks.drop (i + 2) = cs at hlater h
    generalize fs.drop (i + 1) = gs at hlater h
    cases hlater with
    | done => simp at hw
    | gap hfill hnext' hlater' =>
      obtain rfl := Option.some.inj hw
      obtain rfl := eq_nil_of_isSilent hfill hsilent
      exact h

end Placed

/-- Where nothing but the check stands in the way of a weaving, the check refuses it, or every
string value is joined to a later string exactly if the check overlooks that. -/
theorem weave_refused_or_overlooked {chunks fs : List Text} {values : List Value}
    {ks : List (Option State)} (hk : lexer.contexts chunks = .ok ks)
    (hf : fillings unchecked s options chunks values = .ok fs)
    (hv : ∀ v ∈ values, v.holdsFragment s.trust = false) :
    (∃ chunk ∈ chunks, weave grammar s options chunks values =
        .error (.ambiguousContinuation chunk)) ∨
      weave grammar s options chunks values = .ok (interleave chunks fs) ∧
        ∀ (i : Nat) v, ks[i]? = some none → values[i]? = some v →
          ∃ t blank blank', grammar.escape s options v = .ok t ∧
            (blank = [] ∨ blank = [' ']) ∧ (blank' = [] ∨ blank' = [' ']) ∧
            interleave chunks fs =
              written chunks fs i ++ blank ++ t ++ (blank' ++ unwritten chunks fs i) ∧
            (t.getLast? = some apostrophe →
              (Continues (blank' ++ unwritten chunks fs i) ↔
                Overlooked options chunks values fs i)) := by
  rcases fillings_unchecked hf with hf | ⟨chunk, hmem, hf⟩
  · have hweave : weave grammar s options chunks values = .ok (interleave chunks fs) := by
      rw [weave, hf]
      rfl
    refine .inr ⟨hweave, fun i v hi hvi => ?_⟩
    obtain ⟨t, blank, blank', chunk, hplaced⟩ := exists_placed hk hf hi hvi
    refine ⟨t, blank, blank', hplaced.escape, hplaced.before.eq_or_eq, hplaced.after.eq_or_eq,
      Except.ok.inj (hweave.symm.trans hplaced.weave), fun hend => ⟨?_, ?_⟩⟩
    · exact overlooked_of_continues hplaced hv hend
    · exact continues_of_overlooked hplaced
  · refine .inl ⟨chunk, hmem, ?_⟩
    rw [weave, hf]
    rfl

/-- Two string values with nothing but a line break between them. -/
theorem weave_refused_at_line_break :
    let chunks := ["SELECT ".toList, ['\n'], []]
    let values : List Value := [.ofText ['a'], .ofText ['b']]
    let s : Surroundings := ⟨defaultMinter.policy, .zero⟩
    let fs := ["'a'".toList, "'b'".toList]
    let ks : List (Option State) := [none, none]
    lexer.contexts chunks = .ok ks ∧ fillings unchecked s .default chunks values = .ok fs ∧
      (∀ v ∈ values, v.holdsFragment s.trust = false) ∧
      ((∃ chunk ∈ chunks, weave grammar s .default chunks values =
          .error (.ambiguousContinuation chunk)) ∨
        weave grammar s .default chunks values = .ok (interleave chunks fs) ∧
          ∀ (i : Nat) v, ks[i]? = some none → values[i]? = some v →
            ∃ t blank blank', grammar.escape s .default v = .ok t ∧
              (blank = [] ∨ blank = [' ']) ∧ (blank' = [] ∨ blank' = [' ']) ∧
              interleave chunks fs =
                written chunks fs i ++ blank ++ t ++ (blank' ++ unwritten chunks fs i) ∧
              (t.getLast? = some apostrophe →
                (Continues (blank' ++ unwritten chunks fs i) ↔
                  Overlooked .default chunks values fs i))) := by
  intro chunks values s fs ks
  have hk : lexer.contexts chunks = .ok ks := by cbv
  have hf : fillings unchecked s .default chunks values = .ok fs := by cbv
  have hv : ∀ v ∈ values, v.holdsFragment s.trust = false := by decide
  exact ⟨hk, hf, hv, weave_refused_or_overlooked hk hf hv⟩

/-- An empty series before the line break, and a minus before a negative number. -/
theorem weave_overlooks_both_kinds :
    let s : Surroundings := ⟨defaultMinter.policy, .zero⟩
    let chunks := ["SELECT ".toList, [], "\n'x'".toList]
    let chunks' := ["SELECT ".toList, "\n-".toList, "\n'x'".toList]
    let gap := "\n'x'".toList
    let gap' := "\n--1\n'x'".toList
    grammar.escape s .default (.ofText ['a']) = .ok "'a'".toList ∧
      lexer.contexts chunks = .ok [none, none] ∧
      weave grammar s .default chunks [.ofText ['a'], .series .list []] =
        .ok ("SELECT 'a'".toList ++ gap) ∧ Continues gap ∧
      lexer.contexts chunks' = .ok [none, none] ∧
      weave grammar s .default chunks' [.ofText ['a'], .ofInt (-1)] =
        .ok ("SELECT 'a'".toList ++ gap') ∧ Continues gap' := by
  intro s chunks chunks' gap gap'
  refine ⟨by cbv, by cbv, by cbv,
    ⟨['\n'], ['x', apostrophe], by decide, ?_, '\n', by simp, by decide⟩, by cbv, by cbv,
    ⟨['\n', '-', '-', '1', '\n'], ['x', apostrophe], by decide, ?_, '\n', by decide, by decide⟩⟩
  · exact .blank (.inr (by decide)) .nil
  · have hcomment : IsGap ('-' :: '-' :: (['1'] ++ '\n' :: [])) :=
      .comment (by simp [isLineBreak]) (by decide) .nil
    exact .blank (.inr (by decide)) hcomment

end SqlWeave.Postgres
