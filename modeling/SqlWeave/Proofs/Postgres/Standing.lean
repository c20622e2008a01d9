/-
SqlWeave/Proofs/Postgres/Standing.lean

The parts that the texts of values are made of, standing free in Postgres: separators, words,
numerals, strings and names.  Each of them is read to top level, and a string with escapes before
it is kept open by blanks, taken up by a plain string, and given up by everything else.

Main results: nothing opens in a numeral (`calm_of_isNumeral`), a text in which nothing opens gives
up a string before it (`transition_of_calm`), and the body of a string is right where it is taken
up, too (`standing_between`).
-/
import SqlWeave.Proofs.Number.Numeral
import SqlWeave.Proofs.Postgres.Cut
import SqlWeave.Proofs.Postgres.Names

namespace SqlWeave.Postgres

open Text

/-! ### Texts between tokens -/

theorem AtTop.proper {s : Option State} (h : AtTop s) : Proper s := by
  rcases h with rfl | rfl <;> trivial

/-- A text that begins and ends at top level. -/
def Standing (t : Text) : Prop :=
  ∀ s, AtTop s → ∃ r, AtTop r ∧ lexer.transition s t = .ok r

theorem standing_nil : Standing [] := fun s hs => ⟨s, hs, Lexer.transition_nil _ _⟩

theorem transition_continuation_separator {c : Char} (hc : isSeparator c)
    (hblank : isBlank c = false) (t : Text) :
    lexer.transition (some .continuation) (c :: t) = lexer.transition none (c :: t) := by
  have hquote : c ≠ apostrophe := isSeparator_ne_quote hc (.inl rfl)
  have hcomment : commentOpened? (c :: t) = none := by
    apply commentOpened?_cons_eq_none
    · rintro rfl
      exact absurd hc (by decide)
    · rintro rfl
      exact absurd hc (by decide)
  exact transition_continuation_of_other hblank hquote hcomment

/-- A blank keeps a continuation alive, and any other separator gives it up. -/
theorem Standing.cons {c : Char} {t : Text} (hc : isSeparator c) (h : Standing t) :
    Standing (c :: t) := by
  have hnone : ∃ r, AtTop r ∧ lexer.transition none (c :: t) = .ok r := by
    rw [transition_none_of_idle (isIdle_of_isSeparator hc)]
    exact h none (.inl rfl)
  rintro s (rfl | rfl)
  · exact hnone
  · cases hblank : isBlank c with
    | true =>
      rw [transition_continuation_blank hblank]
      exact h _ (.inr rfl)
    | false =>
      rw [transition_continuation_separator hc hblank]
      exact hnone

theorem isSeparator_of_mem_spacing {a : Text} (ha : IsSpacing a) {c : Char} (hc : c ∈ a) :
    isSeparator c := by
  rcases ha c hc with rfl | rfl | rfl <;> decide

theorem standing_of_isSpacing {t : Text} (h : IsSpacing t) : Standing t := by
  induction t with
  | nil => exact standing_nil
  | cons c t ih =>
    have hc := isSeparator_of_mem_spacing h List.mem_cons_self
    exact (ih fun d hd => h d (by simp [hd])).cons hc

/-! ### Words and numerals -/

theorem commentOpened?_eq_none {t : Text} (h : opened? t = none) : commentOpened? t = none := by
  unfold opened? at h
  split at h
  · contradiction
  · contradiction
  · assumption

/-- A calm text gives up a string with escapes before it, unless it begins with a blank. -/
theorem transition_of_calm {t : Text} (h : Calm t) (hne : t ≠ [])
    (hhead : ∀ c, t.head? = some c → isBlank c = false) {s : Option State} (hs : AtTop s) :
    lexer.transition s t = .ok none := by
  have hnone := transition_none_of_calm h
  rcases hs with rfl | rfl
  · exact hnone
  · obtain ⟨c, t, rfl⟩ := List.exists_cons_of_ne_nil hne
    have hopened := h (c :: t) List.suffix_rfl
    have hquote : c ≠ apostrophe := by
      rintro rfl
      have := opened?_opener (s := .quoted .string) trivial t
      exact absurd (hopened.symm.trans this) (by simp)
    rw [transition_continuation_of_other (hhead c rfl) hquote (commentOpened?_eq_none hopened),
      hnone]

theorem isBlank_head?_of_isTagChar {t : Text} (h : ∀ c ∈ t, isTagChar c) :
    ∀ c, t.head? = some c → isBlank c = false := by
  intro c hc
  have htag := h c (List.mem_of_head? hc)
  rw [Bool.eq_false_iff]
  intro hblank
  rcases isBlank_iff.1 hblank with rfl | rfl | rfl | rfl <;> exact absurd htag (by decide)

/-- Of the characters of a numeral, only two dashes open anything. -/
theorem opened?_eq_none_of_isNumeralChar {t : Text}
    (h : ∀ c ∈ t, isNumeralChar c ∨ c = '+' ∨ c = '-') (hdashes : ¬['-', '-'] <+: t) :
    opened? t = none := by
  rw [Option.eq_none_iff_forall_ne_some]
  rintro ⟨s, rest⟩ hopened
  obtain ⟨hs, rfl⟩ := opened?_eq_some_iff.1 hopened
  have hnot (c : Char) (hc : c ∈ s.opener) (hno : ¬(isNumeralChar c ∨ c = '+' ∨ c = '-')) : False :=
    hno (h c (List.mem_append_left rest hc))
  cases s with
  | lineComment => exact hdashes (List.prefix_append _ rest)
  | blockComment depth => exact hnot '/' (by simp [State.opener, Comment.opener]) (by decide)
  | quoted q =>
    refine hnot q.mark ?_ ?_
    · cases q <;> simp [State.opener, Quote.opener, Quote.mark, Quote.isName]
    · rcases q.mark_eq with hq | hq <;> rw [hq] <;> decide
  | dollar tag =>
    obtain ⟨name, -, -, rfl⟩ := isTag_iff.1 hs
    exact hnot '$' (by simp [State.opener]) (by decide)
  | continuation => exact hs.elim

theorem not_mem_of_isNumeralRun {t : Text} (h : IsNumeralRun t) : '-' ∉ t :=
  fun hc => absurd (h.chars '-' hc) (by decide)

/-- There is at most one minus behind the head of a numeral, that of its exponent. -/
theorem count_le_one_of_isUnsigned {t : Text} (h : IsUnsigned t) : t.count '-' ≤ 1 := by
  cases h with
  | run ht => simp [List.count_eq_zero_of_not_mem (not_mem_of_isNumeralRun ht.toIsNumeralRun)]
  | exponent hsign ht hu =>
    rw [List.count_append, List.count_cons,
      List.count_eq_zero_of_not_mem (not_mem_of_isNumeralRun ht),
      List.count_eq_zero_of_not_mem (not_mem_of_isNumeralRun hu.toIsNumeralRun)]
    split <;> simp

theorem head?_ne_of_isUnsigned {t : Text} (h : IsUnsigned t) : t.head? ≠ some '-' := by
  have hrun {t : Text} (ht : IsNumeralRun t) : t.head? ≠ some '-' := fun hc =>
    not_mem_of_isNumeralRun ht (List.mem_of_head? hc)
  cases h with
  | run ht => exact hrun ht.toIsNumeralRun
  | exponent hsign ht hu =>
    intro hhead
    obtain ⟨c, t, rfl⟩ := List.exists_cons_of_ne_nil ht.ne_nil
    exact hrun ht hhead

theorem calm_of_isUnsigned {t : Text} (h : IsUnsigned t) : Calm t := by
  intro x hx
  refine opened?_eq_none_of_isNumeralChar (fun c hc => h.mem (hx.subset hc)) ?_
  intro hdashes
  -- Two dashes in a row would be two minus signs.
  have hcount : 2 ≤ x.count '-' := hdashes.count_le '-'
  have hle : x.count '-' ≤ t.count '-' := hx.count_le '-'
  have := count_le_one_of_isUnsigned h
  omega

theorem calm_of_isNumeral {t : Text} (h : IsNumeral t) : Calm t := by
  cases h with
  | positive h => exact calm_of_isUnsigned h
  | negative h =>
    refine Calm.cons ?_ (calm_of_isUnsigned h)
    refine opened?_eq_none_of_isNumeralChar (fun c hc => (IsNumeral.negative h).mem hc) ?_
    rintro ⟨rest, hrest⟩
    have hhead := head?_ne_of_isUnsigned h
    rw [← (List.cons.inj hrest).2] at hhead
    exact hhead rfl

theorem isBlank_head?_of_isNumeral {t : Text} (h : IsNumeral t) :
    ∀ c, t.head? = some c → isBlank c = false := by
  intro c hc
  rw [Bool.eq_false_iff]
  intro hblank
  have hmem := h.mem (List.mem_of_head? hc)
  rcases isBlank_iff.1 hblank with rfl | rfl | rfl | rfl <;> exact absurd hmem (by decide)

/-! ### Strings, bytes and names -/

/-- What a string in apostrophes leaves behind. -/
theorem transition_none_between {q : Quote} {body : Text} (hmark : q.mark = apostrophe)
    (h : readBody apostrophe q.escapes body = .inside) :
    lexer.transition (some (.quoted q)) (body ++ [apostrophe]) = .ok q.after := by
  have hclosed : readBody q.mark q.escapes (body ++ [apostrophe]) = .closed [] := by
    rw [hmark, readBody_append_of_inside h]
    exact readBody_of_head?_ne (by simp)
  rw [transition_quoted_of_closed hclosed, Lexer.transition_nil]

theorem transition_none_string {body : Text} (h : readBody apostrophe false body = .inside) :
    lexer.transition none (between apostrophe body) = .ok none := by
  have hopened := opened?_opener (s := .quoted .string) trivial (body ++ [apostrophe])
  rw [show between apostrophe body = State.opener (.quoted .string) ++ (body ++ [apostrophe])
    from rfl, transition_none_of_opened hopened]
  exact transition_none_between (q := .string) rfl h

theorem transition_none_escapeString {body : Text} (h : readBody apostrophe true body = .inside) :
    lexer.transition none ('E' :: between apostrophe body) = .ok (some .continuation) := by
  have hopened := opened?_opener (s := .quoted (.escape true)) trivial (body ++ [apostrophe])
  rw [show 'E' :: between apostrophe body =
    State.opener (.quoted (.escape true)) ++ (body ++ [apostrophe]) from rfl,
    transition_none_of_opened hopened]
  exact transition_none_between (q := .escape true) rfl h

/-- A plain string takes up a string with escapes before it, so its body has to be right for
either. -/
theorem standing_between {body : Text} (hplain : readBody apostrophe false body = .inside)
    (hescape : readBody apostrophe true body = .inside) : Standing (between apostrophe body) := by
  rintro s (rfl | rfl)
  · exact ⟨none, .inl rfl, transition_none_string hplain⟩
  · refine ⟨some .continuation, .inr rfl, ?_⟩
    rw [between, transition_continuation_apostrophe]
    exact transition_none_between (q := .escape false) rfl hescape

theorem standing_escapeString {body : Text} (h : readBody apostrophe true body = .inside) :
    Standing ('E' :: between apostrophe body) := by
  have hnone := transition_none_escapeString h
  rintro s (rfl | rfl)
  · exact ⟨_, .inr rfl, hnone⟩
  · refine ⟨_, .inr rfl, ?_⟩
    rw [transition_continuation_of_other (by decide) (by decide)
      (commentOpened?_cons_eq_none (by decide) (by decide) _), hnone]

theorem quoteBlob_eq (data : List UInt8) :
    quoteBlob data = "decode".toList ++ '(' :: (between apostrophe (hexBytes data) ++
      (Text.comma ++ (between apostrophe "hex".toList ++ [')']))) := by
  have hopening : "decode('".toList = "decode".toList ++ ['(', apostrophe] := by decide
  have hclosing : "', 'hex')".toList =
      apostrophe :: ',' :: ' ' :: apostrophe :: ("hex".toList ++ [apostrophe, ')']) := by decide
  have hblob : quoteBlob data = "decode('".toList ++ hexBytes data ++ "', 'hex')".toList := rfl
  rw [hblob, hopening, hclosing]
  generalize "decode".toList = f
  generalize "hex".toList = form
  simp [between, Text.comma]

theorem transition_none_name {body : Text} (h : IsNameBody false body) :
    lexer.transition none (quotation :: (body ++ [quotation])) = .ok none := by
  have hopened : opened? (quotation :: (body ++ [quotation])) =
      some (.quoted .name, body ++ [quotation]) := opened?_opener (s := .quoted .name) trivial _
  rw [transition_none_of_opened hopened, (h .name rfl).2 [] (by simp), Lexer.transition_nil]

end SqlWeave.Postgres
