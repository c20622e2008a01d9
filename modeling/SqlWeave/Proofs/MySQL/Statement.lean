/-
SqlWeave/Proofs/MySQL/Statement.lean

Whole statements of MySQL.  The analysis reads the literal chunks and never sees a value; the
finished text is read as one.  Both come to the same after every chunk: a value in an open quote
stays inside of it, and a value between tokens begins and ends at top level and makes no token
with its neighbours.

Main results: every gap of the finished statement lies where the chunks alone put it
(`fillings_contexts`).
-/
import Mathlib
import SqlWeave.Proofs.MySQL.Names
import SqlWeave.Proofs.MySQL.Standing
import SqlWeave.Proofs.Splice
import SqlWeave.Proofs.Template.Run
import SqlWeave.Proofs.Template.Seam

namespace SqlWeave.MySQL

open Text Template

variable {surroundings : Surroundings} {options : Options}

/-! ### Values in identifiers -/

theorem exists_splice_name {t : Text} {face : Face}
    (h : backslash ∉ (Value.text t face).plain) :
    ∃ b, splice surroundings options [backtick] (.text t face) = .ok b ∧
      lexer.transition (some .backtick) b = .ok (some .backtick) := by
  have hparts : ∀ p ∈ parts (!options.forbidQualified) (face.plain t), pairsUp p := fun p hp =>
    pairsUp_of_not_mem fun hmem => h (mem_of_mem_parts hp hmem)
  exact ⟨_, splice_text t face, transition_inner (parts_ne_nil _ _) hparts⟩

/-! ### Values and gaps -/

/-- Which values can stand in a gap without a change to the chunks around it: literals and
lists of them between tokens, any value in a string, and a text without a backslash in an
identifier, where the lexer reads an escape and MySQL does not. -/
def Fits : Option Quote → Value → Prop
  | none, v => IsListed v
  | some .backtick, v => (∃ t face, v = .text t face) ∧ backslash ∉ v.plain
  | some _, _ => True

/-- What fills a gap: a solid text between tokens, set off from its neighbours, and inside a
quote a text that stays there. -/
inductive Filled (before after : Text) : Option Quote → Text → Prop
  | free {t : Text} (ht : Solid t) : Filled before after none (setOff before t after)
  | quoted {q : Quote} {t : Text} (h : lexer.transition (some q) t = .ok (some q)) :
      Filled before after (some q) t

/-- A value that fits its gap is always written. -/
theorem exists_fill_eq_ok (surroundings : Surroundings) (options : Options) {k : Option Quote}
    {v : Value} (h : Fits k v) (before after : Text) (flag : Bool) :
    ∃ f, fill grammar surroundings options before ⟨k, v, after⟩ flag = .ok f ∧
      Filled before after k f := by
  cases k with
  | none =>
    obtain ⟨t, ht, hsolid⟩ := exists_escape_eq_ok surroundings options h
    refine ⟨setOff before t after, ?_, .free hsolid⟩
    simp only [fill, render, ht, bind, Except.bind, pure, Except.pure]
    rfl
  | some q =>
    have hsplice : ∃ b, splice surroundings options [q.mark] v = .ok b ∧
        lexer.transition (some q) b = .ok (some q) := by
      by_cases hq : q.IsString
      · refine ⟨_, splice_of_isString hq, transition_quoted_of_inside ?_⟩
        exact readBody_escapeBody hq _
      · cases q with
        | single | double => exact (hq (by decide)).elim
        | backtick =>
          obtain ⟨⟨t, face, rfl⟩, hplain⟩ := h
          exact exists_splice_name hplain
    obtain ⟨b, hb, hstays⟩ := hsplice
    refine ⟨b, ?_, .quoted hstays⟩
    have hb : grammar.splice surroundings options (grammar.lexer.opener q) v = .ok b := hb
    simp only [fill, render, hb, bind, Except.bind, pure, Except.pure]
    rfl

theorem filled_of_fill {k : Option Quote} {v : Value} {before after f : Text} {flag : Bool}
    (h : Fits k v) (hf : fill grammar surroundings options before ⟨k, v, after⟩ flag = .ok f) :
    Filled before after k f := by
  obtain ⟨f', hf', hfilled⟩ := exists_fill_eq_ok surroundings options h before after flag
  obtain rfl : f' = f := Except.ok.inj (hf'.symm.trans hf)
  exact hfilled

/-! ### One gap -/

section Blanks

variable {t front after blank blank' : Text}

theorem Solid.getLast?_ne (ht : Solid t) : t.getLast? ≠ some '-' ∧ t.getLast? ≠ some '/' :=
  ⟨fun h => (ht.last _ h).1 rfl, fun h => (ht.last _ h).2 rfl⟩

theorem standing_of_blanks {before? after? : Option Char} (ht : Solid t)
    (hblank : Blank t.head? before? blank) (hblank' : Blank t.getLast? after? blank') :
    Standing (blank ++ t ++ blank') := by
  have hapart : Apart t [' '] := by
    refine ⟨fun h => absurd h ht.getLast?_ne.1, fun h => absurd h ht.getLast?_ne.2, ?_⟩
    rintro c hc - ⟨⟩
    exact (ne_of_isQuote hc).2.2 rfl
  have hright : Standing (t ++ blank') := by
    cases hblank' with
    | needed => exact ht.standing.append (standing_nil.cons rfl) hapart
    | none => simpa using ht.standing
  rw [List.append_assoc]
  cases hblank with
  | needed => exact hright.cons rfl
  | none => exact hright

/-- The text before a filling and the filling make no token together. -/
theorem apart_of_blank_before (ht : Solid t) (hblank : Blank t.head? front.getLast? blank)
    (blank' : Text) : Apart front (blank ++ t ++ blank') := by
  cases hblank with
  | needed hc hend hmeets =>
    obtain ⟨hdash, hslash, -⟩ := ne_of_isQuote hc
    refine ⟨fun h => ?_, fun h => ?_, ?_⟩
    · exact absurd (Option.some.inj (hmeets.symm.trans h)) hdash
    · exact absurd (Option.some.inj (hmeets.symm.trans h)) hslash
    · rintro d hd - ⟨⟩
      exact (ne_of_isQuote hd).2.2 rfl
  | none h =>
    obtain ⟨head, rest, hcons⟩ := List.exists_cons_of_ne_nil ht.ne_nil
    have hthead : t.head? = some head := by
      rw [hcons]
      rfl
    have hhead := ht.head head hthead
    have hmeets : (t ++ blank').head? = some head := by
      rw [hcons]
      rfl
    rw [List.nil_append]
    refine ⟨fun hdash => ⟨?_, ?_⟩, fun _ => ?_, ?_⟩
    · intro c hc
      obtain rfl : head = c := Option.some.inj (hmeets.symm.trans hc)
      exact hhead.1
    · rw [Bool.eq_false_iff]
      intro hopens
      rcases eq_nil_or_eq_dash_of_opensDashes_append hopens ht.dashes with rfl | rfl
      · exact ht.ne_nil rfl
      · exact ht.getLast?_ne.1 rfl
    · rw [hmeets]
      exact fun h => hhead.2 (Option.some.inj h)
    · intro c hc hfront hsame
      obtain rfl : head = c := Option.some.inj (hmeets.symm.trans hsame)
      exact h head hc hthead hfront

/-- A filling and the chunk after it make no token together. -/
theorem apart_of_blank_after (ht : Solid t) (hblank' : Blank t.getLast? after.head? blank')
    (blank : Text) : Apart (blank ++ t ++ blank') after := by
  cases hblank' with
  | needed hc hend hmeets =>
    have hlast : (blank ++ t ++ [' ']).getLast? = some ' ' := by simp
    refine ⟨fun h => ?_, fun h => ?_, fun c hc h => ?_⟩
    · simp at h
    · simp at h
    · obtain rfl : ' ' = c := Option.some.inj (hlast.symm.trans h)
      exact absurd rfl (ne_of_isQuote hc).2.2
  | none h =>
    obtain ⟨head, rest, hcons⟩ := List.exists_cons_of_ne_nil ht.ne_nil
    have hsame : (blank ++ t ++ []).getLast? = t.getLast? := by
      rw [List.append_nil, List.getLast?_append, hcons, List.getLast?_cons, Option.some_or]
    refine ⟨fun hl => ?_, fun hl => ?_, fun c hc hl => h c hc (hsame.symm.trans hl)⟩
    · exact absurd (hsame.symm.trans hl) ht.getLast?_ne.1
    · exact absurd (hsame.symm.trans hl) ht.getLast?_ne.2

end Blanks

/-- A solid text in its blanks: it begins and ends at top level, and stands apart on both
sides. -/
theorem standing_setOff {t : Text} (ht : Solid t) (front after : Text) :
    let f := setOff (lastChar [] front) t after
    f ≠ [] ∧ Standing f ∧ Apart front f ∧ Apart f after := by
  obtain ⟨blank, blank', hblank, hblank', he⟩ := setOff_eq t front after
  intro f
  have hf : f = blank ++ t ++ blank' := he
  rw [hf]
  refine ⟨by simp [ht.ne_nil], standing_of_blanks ht hblank hblank', ?_, ?_⟩
  · exact apart_of_blank_before ht hblank blank'
  · exact apart_of_blank_after ht hblank' blank

/-- Past a filled gap and the chunk after it, the whole text is read as the chunk alone. -/
theorem transition_filled {front f chunk : Text} {k k' : Option Quote}
    (hfront : lexer.transition none front = .ok k)
    (hf : Filled (lastChar [] front) chunk k f) (hchunk : lexer.transition k chunk = .ok k') :
    lexer.transition none (front ++ f ++ chunk) = .ok k' := by
  have hgap : lexer.transition none (front ++ f) = .ok k ∧
      (k = none → Apart (front ++ f) chunk) := by
    cases hf with
    | free ht =>
      obtain ⟨hne, hstanding, hbefore, hafter⟩ := standing_setOff ht front chunk
      have h := transition_append hfront fun _ => hbefore
      rw [show lexer.transition none _ = .ok none from hstanding] at h
      exact ⟨h.eq_ok, fun _ => hafter.append_left front hne⟩
    | quoted hstays =>
      have h := transition_append (b := f) hfront (by simp)
      rw [hstays] at h
      exact ⟨h.eq_ok, by simp⟩
  have h := transition_append hgap.1 hgap.2
  rw [hchunk] at h
  exact h.eq_ok

/-! ### Whole statements -/

/-- If every value fits its gap, the statement is written, it is read to its end as one text,
and up to each gap it leaves open exactly what the chunks alone leave open there. -/
theorem fillings_contexts {chunks : List Text} {values : List Value} {ks : List (Option Quote)}
    (hk : lexer.contexts chunks = .ok ks) (harity : chunks.length = values.length + 1)
    (hfits : ∀ (i : Nat) k v, ks[i]? = some k → values[i]? = some v → Fits k v) :
    ∃ fs, fillings grammar surroundings options chunks values = .ok fs ∧
      weave grammar surroundings options chunks values = .ok (interleave chunks fs) ∧
      lexer.contexts [interleave chunks fs] = .ok [] ∧
      ∀ i k, ks[i]? = some k → lexer.transition none (written chunks fs i) = .ok k := by
  -- Nothing here can be refused, so the fillings exist.
  obtain ⟨fs, hfs⟩ : ∃ fs, fillings grammar surroundings options chunks values = .ok fs := by
    apply exists_fillings_eq_ok hk harity
    intro i k v hk hv before after flag
    obtain ⟨f, hf, -⟩ :=
      exists_fill_eq_ok surroundings options (hfits i k v hk hv) before after flag
    exact ⟨f, hf⟩
  refine ⟨fs, hfs, by rw [weave, hfs]; rfl, ?_⟩
  obtain ⟨front, chunks, k, rfl, hfront, hwoven⟩ := woven_of_fillings hk hfs
  have hfollows := hwoven.follows (R := Eq) (C := fun _ k v _ _ => Fits k v)
    (fun h => h ▸ id)
    (by
      rintro front k _ v f chunk flag k' rfl hfront hf hchunk - hfit
      exact ⟨k', transition_filled hfront (filled_of_fill hfit hf) hchunk, rfl⟩)
    hfront rfl (fun i k v f chunk hk hv _ _ => hfits i k v hk hv)
  obtain ⟨⟨q, hq, hfinish⟩, hgaps⟩ := hfollows
  refine ⟨lexer.contexts_singleton hq hfinish, ?_⟩
  intro i k hk
  obtain ⟨q, hq, rfl⟩ := hgaps i k hk
  exact hq

/-- A negative number after a minus, a name, and a text with a quote in it. -/
theorem fillings_contexts_three_gaps :
    let chunks := ["SELECT 2 -".toList, " FROM `".toList, "` WHERE a = '".toList, [apostrophe]]
    let values : List Value := [.ofInt (-1), .ofText ['t'], .ofText [apostrophe]]
    let ks := [none, some Quote.backtick, some Quote.single]
    lexer.contexts chunks = .ok ks ∧ chunks.length = values.length + 1 ∧
      (∀ (i : Nat) k v, ks[i]? = some k → values[i]? = some v → Fits k v) ∧
      ∃ fs, fillings grammar ⟨defaultMinter.policy, .zero⟩ .default chunks values = .ok fs ∧
        weave grammar ⟨defaultMinter.policy, .zero⟩ .default chunks values =
          .ok (interleave chunks fs) ∧
        lexer.contexts [interleave chunks fs] = .ok [] ∧
        ∀ i k, ks[i]? = some k → lexer.transition none (written chunks fs i) = .ok k := by
  intro chunks values ks
  have hk : lexer.contexts chunks = .ok ks := by cbv
  have hfits : ∀ (i : Nat) k v, ks[i]? = some k → values[i]? = some v → Fits k v := by
    intro i k v hk hv
    rcases i with _ | _ | _ | i
    · obtain ⟨rfl, rfl⟩ : none = k ∧ .ofInt (-1) = v := ⟨Option.some.inj hk, Option.some.inj hv⟩
      refine ⟨fun x hx => ?_, ?_⟩
      · obtain rfl := List.mem_singleton.1 hx
        rfl
      · rintro form ⟨⟩
    · obtain ⟨rfl, rfl⟩ : some .backtick = k ∧ .ofText ['t'] = v :=
        ⟨Option.some.inj hk, Option.some.inj hv⟩
      exact ⟨⟨_, _, rfl⟩, by decide⟩
    · obtain rfl : some .single = k := Option.some.inj hk
      trivial
    · simp [ks] at hk
  exact ⟨hk, rfl, hfits, fillings_contexts hk rfl hfits⟩

end SqlWeave.MySQL
