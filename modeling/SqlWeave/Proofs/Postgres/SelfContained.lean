/-
SqlWeave/Proofs/Postgres/SelfContained.lean

Where the text of a free-standing Postgres value leaves off.  It leaves nothing open but,
possibly, a string with escapes that may be taken up again, and that only where it ends with
such a string.  Strings further inside are given up: the comma, bracket or sign behind them is a
separator.

Main results: a value without trusted fragments, read by itself, ends at top level, and in a
string to be taken up again exactly if its text ends with a string with escapes
(`escape_leavesOff`).
-/
import Mathlib
import SqlWeave.Proofs.Postgres.Standing
import SqlWeave.Proofs.Writing

namespace SqlWeave.Postgres

open Text

variable {front a b t : Text} {c : Char}

/-! ### Texts behind which a token begins -/

/-- A text that leaves nothing open, and that is empty or ends in a separator. -/
structure Ready (front : Text) : Prop where
  closed : lexer.transition none front = .ok none
  last : ∀ c, front.getLast? = some c → isSeparator c

namespace Ready

theorem nil : Ready [] := ⟨Lexer.transition_nil _ _, nofun⟩

/-- What comes next is read as it is by itself. -/
theorem transition_append {r : Option State} (h : Ready front)
    (hb : lexer.transition none b = .ok r) : lexer.transition none (front ++ b) = .ok r := by
  rcases List.eq_nil_or_concat front with rfl | ⟨u, c, rfl⟩
  · exact hb
  · have hc : isSeparator c := h.last c (by simp)
    have hfuses := not_fuses_of_last u b hc
    rw [← List.concat_eq_append] at hfuses
    exact transition_append_eq_ok trivial h.closed hb (.of_not_fuses hfuses)

theorem append (ha : Ready a) (hb : Ready b) : Ready (a ++ b) where
  closed := ha.transition_append hb.closed
  last c hc := by
    rw [List.getLast?_append] at hc
    cases hlast : b.getLast? with
    | none => exact ha.last c (by simpa [hlast] using hc)
    | some d =>
      obtain rfl : d = c := by simpa [hlast] using hc
      exact hb.last d hlast

end Ready

theorem transition_none_separator (hc : isSeparator c) : lexer.transition none [c] = .ok none := by
  rw [transition_none_of_idle (isIdle_of_isSeparator hc), Lexer.transition_nil]

theorem ready_concat {r : Option State} (ha : lexer.transition none a = .ok r)
    (hc : isSeparator c) (hr : lexer.transition r [c] = .ok none) : Ready (a ++ [c]) where
  closed := transition_append_eq_ok trivial ha hr (.of_not_fuses (not_fuses_cons a [] hc))
  last d hd := by
    obtain rfl : c = d := by simpa using hd
    exact hc

theorem ready_concat_of_closed (ha : lexer.transition none a = .ok none) (hc : isSeparator c) :
    Ready (a ++ [c]) :=
  ready_concat ha hc (transition_none_separator hc)

/-! ### Texts that leave nothing open -/

/-- A text that ends with a string with escapes, at a place where a token begins. -/
inductive EndsInEscapeString : Text → Prop
  | intro {front body : Text} (hfront : Ready front)
      (hbody : readBody apostrophe true body = .inside) :
      EndsInEscapeString (front ++ 'E' :: between apostrophe body)

theorem EndsInEscapeString.transition_eq (h : EndsInEscapeString t) :
    lexer.transition none t = .ok (some .continuation) := by
  obtain ⟨hfront, hbody⟩ := h
  exact hfront.transition_append (transition_none_escapeString hbody)

theorem EndsInEscapeString.append_left (ha : Ready a) (h : EndsInEscapeString b) :
    EndsInEscapeString (a ++ b) := by
  obtain ⟨hfront, hbody⟩ := h
  rw [← List.append_assoc]
  exact .intro (ha.append hfront) hbody

/-- A text that leaves nothing open, unless it ends with a string with escapes. -/
def SelfContained (t : Text) : Prop :=
  lexer.transition none t = .ok none ∨ EndsInEscapeString t

namespace SelfContained

theorem leavesOff (h : SelfContained t) :
    ∃ r, AtTop r ∧ lexer.transition none t = .ok r ∧
      (r = some .continuation ↔ EndsInEscapeString t) := by
  rcases h with hnone | hends
  · refine ⟨none, .inl rfl, hnone, nofun, ?_⟩
    intro hends
    exact Except.ok.inj (hnone.symm.trans hends.transition_eq)
  · exact ⟨_, .inr rfl, hends.transition_eq, fun _ => hends, fun _ => rfl⟩

theorem append_left (ha : Ready a) (hb : SelfContained b) : SelfContained (a ++ b) :=
  hb.imp ha.transition_append (.append_left ha)

/-- A separator that is no blank gives up the string that a text ends with. -/
theorem ready (h : SelfContained a) (hc : isSeparator c) (hblank : isBlank c = false) :
    Ready (a ++ [c]) := by
  rcases h with hnone | hends
  · exact ready_concat_of_closed hnone hc
  · refine ready_concat hends.transition_eq hc ?_
    rw [transition_continuation_separator hc hblank, transition_none_separator hc]

theorem comma (ha : SelfContained a) (hb : SelfContained b) :
    SelfContained (a ++ (Text.comma ++ b)) := by
  have hcomma := ha.ready (c := ',') (by decide) (by decide)
  have hblank := ready_concat_of_closed (c := ' ') hcomma.closed (by decide)
  simpa [Text.comma] using hb.append_left hblank

/-- A text in brackets, with the name of a function before them or nothing. -/
theorem brackets (hfront : lexer.transition none front = .ok none) (ha : SelfContained a) :
    SelfContained (front ++ '(' :: (a ++ [')'])) := by
  have hopening := ready_concat_of_closed (c := '(') hfront (by decide)
  have hclosing := ha.ready (c := ')') (by decide) (by decide)
  have h : SelfContained (a ++ [')']) := .inl hclosing.closed
  simpa using h.append_left hopening

/-- A name leaves nothing open, so the blank before the sign gives nothing up. -/
theorem assignment (ha : lexer.transition none a = .ok none) (hb : SelfContained b) :
    SelfContained (a ++ [' ', '=', ' '] ++ b) := by
  have hblank := ready_concat_of_closed (c := ' ') ha (by decide)
  have hsign := ready_concat_of_closed (c := '=') hblank.closed (by decide)
  have hfront := ready_concat_of_closed (c := ' ') hsign.closed (by decide)
  simpa using hb.append_left hfront

end SelfContained

/-! ### Literals and names -/

theorem selfContained_quoteString (t : Text) : SelfContained (quoteString t) := by
  unfold quoteString
  split
  · exact .inr (.intro .nil (readBody_escapeBody t))
  · exact .inl (transition_none_string (readBody_doubled (by simp)))

theorem selfContained_of_isTagChar (h : ∀ c ∈ t, isTagChar c) : SelfContained t :=
  .inl (transition_none_of_calm (calm_of_isTagChar h))

theorem selfContained_quoteBlob (data : List UInt8) : SelfContained (quoteBlob data) := by
  have hhex {t : Text} (ht : ∀ c ∈ t, c.isAlphanum) : SelfContained (between apostrophe t) :=
    .inl (transition_none_string (readBody_of_isAlphanum (by decide) ht))
  have hfunction : lexer.transition none "decode".toList = .ok none :=
    transition_none_of_calm (calm_of_isTagChar (List.all_eq_true.1 (by decide)))
  have hdata : SelfContained (between apostrophe (hexBytes data)) :=
    hhex fun c => isAlphanum_of_mem_hexBytes
  have hform := hhex (t := "hex".toList) (List.all_eq_true.1 (by decide))
  rw [quoteBlob_eq, ← List.append_assoc Text.comma, ← List.append_assoc]
  exact .brackets hfunction (hdata.comma hform)

theorem transition_none_append_spacing (ha : lexer.transition none a = .ok none)
    (hb : IsSpacing b) : lexer.transition none (a ++ b) = .ok none := by
  have hspacing : lexer.transition none b = .ok none := by
    simpa using transition_none_spacing_append hb []
  cases b with
  | nil => simpa using ha
  | cons c b =>
    have hc := isSeparator_of_mem_spacing hb List.mem_cons_self
    exact transition_append_eq_ok trivial ha hspacing (.of_not_fuses (not_fuses_cons a b hc))

/-- Names leave nothing open, however many a key is written as. -/
theorem transition_none_of_escapeName {trust : TrustPolicy} {forbidQualified : Bool} {v : Value}
    (hv : v.holdsFragment trust = false)
    (h : (nameStyle false).escape trust forbidQualified v = .ok t) :
    lexer.transition none t = .ok none := by
  obtain ⟨hspacing, hlisted⟩ := listed_of_escape hv h
  by_cases hleaves : v.leaves = []
  · simpa using transition_none_spacing_append (hspacing hleaves) []
  · obtain ⟨hbefore, hafter, hbody, -, -, -⟩ := hlisted hleaves
    rw [transition_none_spacing_append hbefore]
    have h := transition_none_append_spacing (transition_none_name hbody) hafter
    simpa [nameOpener] using h

/-! ### Values -/

theorem selfContained_texts (trust : TrustPolicy) : HoldsOfTexts grammar trust SelfContained where
  null := selfContained_of_isTagChar (List.all_eq_true.1 (by decide))
  bool b := by cases b <;> exact selfContained_of_isTagChar (List.all_eq_true.1 (by decide))
  number h := .inl (transition_none_of_calm (calm_of_isNumeral h))
  string := selfContained_quoteString
  blob := selfContained_quoteBlob
  identifier h := .inl (transition_none_of_escapeName rfl h)
  nil := .inl (Lexer.transition_nil _ _)
  comma := SelfContained.comma
  brackets := .brackets (Lexer.transition_nil _ _)
  assignment hkey hname := .assignment (transition_none_of_escapeName hkey hname)

/-- The text of a value without trusted fragments, read by itself, ends at top level, or in a
string with escapes that may be taken up again if it ends with such a string. -/
theorem escape_leavesOff {surroundings : Surroundings} {options : Options} {v : Value}
    (hv : v.holdsFragment surroundings.trust = false)
    (h : grammar.escape surroundings options v = .ok t) :
    ∃ r, AtTop r ∧ lexer.transition none t = .ok r ∧
      (r = some .continuation ↔ EndsInEscapeString t) :=
  ((selfContained_texts surroundings.trust).of_escape hv h).leavesOff

/-- An assignment of a row in brackets and a string with escapes at the end. -/
theorem escape_leavesOff_assignment :
    let s : Surroundings := ⟨defaultMinter.policy, .zero⟩
    let row : Value := .series .tuple [.ofInt (-1), .ofText ['\n']]
    let v : Value := .mapping .plain [(.ofText ['t', '.', 'u'], .series .list [row, .ofText ['\t']])]
    let t := "\"t\".\"u\" = (-1, E'\\n'), E'\\t'".toList
    v.holdsFragment s.trust = false ∧ grammar.escape s .default v = .ok t ∧
      EndsInEscapeString t ∧
      ∃ r, AtTop r ∧ lexer.transition none t = .ok r ∧
        (r = some .continuation ↔ EndsInEscapeString t) := by
  intro s row v t
  have hv : v.holdsFragment s.trust = false := by
    simp [v, row, Value.ofText, Value.ofInt, Value.holdsFragment, Value.anyHoldsFragment,
      Value.anyEntryHoldsFragment]
  have ht : grammar.escape s .default v = .ok t := by cbv
  have hread : lexer.transition none t = .ok (some .continuation) := by
    dsimp only [t]
    cbv
  have hleavesOff := escape_leavesOff hv ht
  have hends : EndsInEscapeString t := by
    obtain ⟨r, -, hr, hends⟩ := hleavesOff
    exact hends.1 (Except.ok.inj (hr.symm.trans hread))
  exact ⟨hv, ht, hends, hleavesOff⟩

end SqlWeave.Postgres
