/-
SqlWeave/Proofs/Postgres/Opener.lean

What opens a construct.  The lexer looks for comments, dollar tags and quotes in turn; all of
that comes down to one rule: a text opens a construct if it begins with an opener of it.

Main results: the rule (`opened?_eq_some_iff`), and the few characters that openers are made
of (`isOpenerChar_of_mem_opener`).
-/
import SqlWeave.Proofs.Postgres.Dollar

namespace SqlWeave.Postgres

open Text

/-! ### Characters -/

/-- The characters that a word takes in once it has started. -/
def isWordPart (c : Char) : Bool := isWordChar c || c = '$'

theorem isWordPart_of_isWordStart {c : Char} (h : isWordStart c) : isWordPart c := by
  simp only [isWordStart, Bool.and_eq_true] at h
  simp [isWordPart, h.1]

/-- The characters that openers are made of. -/
def isOpenerChar (c : Char) : Bool :=
  isTagChar c || c = '-' || c = '/' || c = '*' || c = '$' || c = '&' || c = apostrophe ||
    c = quotation

/-! ### Openers -/

theorem commentOpened?_eq_some_iff {text rest : Text} {k : Comment} :
    commentOpened? text = some (k, rest) ↔
      k = .dashes ∧ text = '-' :: '-' :: rest ∨ k = .block ∧ text = '/' :: '*' :: rest := by
  unfold commentOpened?
  split
  · rename_i c d t
    split
    · rename_i h
      obtain ⟨rfl, rfl⟩ := h
      simp [eq_comm]
    · split
      · rename_i h
        obtain ⟨rfl, rfl⟩ := h
        simp [eq_comm]
      · grind
  · rename_i h
    constructor
    · simp
    · rintro (⟨-, rfl⟩ | ⟨-, rfl⟩)
      · exact absurd rfl (h _ _ _)
      · exact absurd rfl (h _ _ _)

/-- A character that becomes the letter `l` in lower case is `l`, or `u` in upper case. -/
theorem eq_or_eq_of_toLower_eq {c l u : Char} (h : c.toLower = l) (hu : l.toNat = u.toNat + 32) :
    c = l ∨ c = u := by
  unfold Char.toLower at h
  split at h
  · rename_i hr
    right
    -- The letters in upper case lie 32 places before those in lower case.
    have hv : c.val + ('a'.val - 'A'.val) = l.val := congrArg Char.val h
    have hc : c.val.toNat ≤ 90 := by simpa using UInt32.le_iff_toNat_le.1 hr.2
    have hsum := congrArg UInt32.toNat hv
    have hstep : ('a'.val - 'A'.val : UInt32).toNat = 32 := rfl
    rw [UInt32.toNat_add, hstep] at hsum
    have hu' : l.val.toNat = u.val.toNat + 32 := hu
    apply Char.ext
    apply UInt32.toNat_inj.1
    omega
  · exact .inl h

/-- A letter written in either case is the letter in the case it was written in. -/
theorem Quote.letter_decide {c l u : Char} (h : c.toLower = l) (hu : l.toNat = u.toNat + 32)
    (hup : l.toUpper = u) : Quote.letter l (c = u) = c := by
  have hne : l ≠ u := by
    rintro rfl
    omega
  rcases eq_or_eq_of_toLower_eq h hu with rfl | rfl
  · simp [Quote.letter, hne]
  · simp [Quote.letter, hup]

theorem Quote.opened?_opener (q : Quote) (rest : Text) :
    Quote.opened? (q.opener ++ rest) = some (q, rest) := by
  cases q with
  | string => rfl
  | name => rfl
  | escape upper => cases upper <;> rfl
  | bits upper => cases upper <;> rfl
  | hex upper => cases upper <;> rfl
  | unicode upper => cases upper <;> rfl
  | unicodeName upper => cases upper <;> rfl

theorem Quote.opener_append_of_opened? {text rest : Text} {q : Quote}
    (h : Quote.opened? text = some (q, rest)) : q.opener ++ rest = text := by
  unfold Quote.opened? at h
  split at h
  · simp at h
  · rename_i c t
    split at h
    · rename_i hc
      obtain ⟨rfl, rfl⟩ : Quote.string = q ∧ t = rest := by simpa using h
      rw [hc]
      rfl
    split at h
    · rename_i hc
      obtain ⟨rfl, rfl⟩ : Quote.name = q ∧ t = rest := by simpa using h
      rw [hc]
      rfl
    split at h
    · simp at h
    rename_i d t'
    split at h
    · rename_i hd
      subst hd
      split at h
      · rename_i hc
        obtain ⟨rfl, rfl⟩ : Quote.escape (c = 'E') = q ∧ t' = rest := by simpa using h
        have hl : Quote.letter 'e' (c = 'E') = c := Quote.letter_decide hc rfl rfl
        simp [Quote.opener, hl]
      split at h
      · rename_i hc
        obtain ⟨rfl, rfl⟩ : Quote.bits (c = 'B') = q ∧ t' = rest := by simpa using h
        have hl : Quote.letter 'b' (c = 'B') = c := Quote.letter_decide hc rfl rfl
        simp [Quote.opener, hl]
      split at h
      · rename_i hc
        obtain ⟨rfl, rfl⟩ : Quote.hex (c = 'X') = q ∧ t' = rest := by simpa using h
        have hl : Quote.letter 'x' (c = 'X') = c := Quote.letter_decide hc rfl rfl
        simp [Quote.opener, hl]
      · simp at h
    split at h
    · rename_i hd
      obtain ⟨rfl, hc⟩ := hd
      split at h
      · simp at h
      rename_i e t''
      split at h
      · rename_i he
        obtain ⟨rfl, rfl⟩ : Quote.unicode (c = 'U') = q ∧ t'' = rest := by simpa using h
        have hl : Quote.letter 'u' (c = 'U') = c := Quote.letter_decide hc rfl rfl
        simp [Quote.opener, hl, he]
      split at h
      · rename_i he
        obtain ⟨rfl, rfl⟩ : Quote.unicodeName (c = 'U') = q ∧ t'' = rest := by simpa using h
        have hl : Quote.letter 'u' (c = 'U') = c := Quote.letter_decide hc rfl rfl
        simp [Quote.opener, hl, he]
      · simp at h
    · simp at h

theorem Quote.opened?_eq_some_iff {text rest : Text} {q : Quote} :
    Quote.opened? text = some (q, rest) ↔ text = q.opener ++ rest := by
  constructor
  · intro h
    exact (Quote.opener_append_of_opened? h).symm
  · rintro rfl
    exact Quote.opened?_opener q rest

/-- The constructs that an opener leads to: the outermost level of a block comment, and a
dollar quote with a proper tag.  A continuation is not opened, it is left behind. -/
def State.IsOpened : State → Prop
  | .blockComment depth => depth = 1
  | .dollar tag => isTag tag
  | .continuation => False
  | _ => True

theorem opened?_opener {s : State} (hs : s.IsOpened) (rest : Text) :
    opened? (s.opener ++ rest) = some (s, rest) := by
  cases s with
  | lineComment => rfl
  | blockComment depth =>
    obtain rfl : depth = 1 := hs
    rfl
  | dollar tag =>
    obtain ⟨name, hc, hn, rfl⟩ := isTag_iff.1 hs
    have htag : tag? ('$' :: (name ++ ['$']) ++ rest) = some ('$' :: (name ++ ['$']), rest) :=
      tag?_eq_some_iff.2 ⟨name, hc, hn, rfl, rfl⟩
    have hcomment : commentOpened? ('$' :: (name ++ ['$']) ++ rest) = none := by
      cases name <;> rfl
    simp only [opened?, State.opener, hcomment, htag]
  | quoted q =>
    -- No opener of a quote begins as a comment or a tag does.
    have hq := Quote.opened?_opener q rest
    have hcomment : commentOpened? (q.opener ++ rest) = none := by
      cases q with
      | string => cases rest <;> rfl
      | name => cases rest <;> rfl
      | escape upper => cases upper <;> rfl
      | bits upper => cases upper <;> rfl
      | hex upper => cases upper <;> rfl
      | unicode upper => cases upper <;> rfl
      | unicodeName upper => cases upper <;> rfl
    have htag : tag? (q.opener ++ rest) = none := by
      cases q with
      | string => rfl
      | name => rfl
      | escape upper => cases upper <;> rfl
      | bits upper => cases upper <;> rfl
      | hex upper => cases upper <;> rfl
      | unicode upper => cases upper <;> rfl
      | unicodeName upper => cases upper <;> rfl
    simp only [opened?, State.opener, hcomment, htag, hq, Option.map_some]
  | continuation => exact hs.elim

/-- A text opens a construct exactly if it begins with an opener of that construct. -/
theorem opened?_eq_some_iff {text rest : Text} {s : State} :
    opened? text = some (s, rest) ↔ s.IsOpened ∧ text = s.opener ++ rest := by
  constructor
  · intro h
    unfold opened? at h
    split at h
    · rename_i hk
      obtain ⟨rfl, rfl⟩ := by simpa using h
      rcases commentOpened?_eq_some_iff.1 hk with ⟨hk, -⟩ | ⟨-, ht⟩
      · cases hk
      · exact ⟨rfl, ht⟩
    · rename_i k r hnot hk
      obtain ⟨rfl, rfl⟩ := by simpa using h
      rcases commentOpened?_eq_some_iff.1 hk with ⟨-, ht⟩ | ⟨rfl, -⟩
      · exact ⟨trivial, ht⟩
      · exact (hnot rfl).elim
    · split at h
      · rename_i ht
        obtain ⟨rfl, rfl⟩ := by simpa using h
        obtain ⟨name, hc, hn, htag, htext⟩ := tag?_eq_some_iff.1 ht
        exact ⟨isTag_of_tag? ht, htext⟩
      · obtain ⟨⟨q, r⟩, hq, he⟩ := Option.map_eq_some_iff.1 h
        obtain ⟨rfl, rfl⟩ := by simpa using he
        exact ⟨trivial, Quote.opened?_eq_some_iff.1 hq⟩
  · rintro ⟨hs, rfl⟩
    exact opened?_opener hs rest

theorem State.IsOpened.opener_ne_nil {s : State} (hs : s.IsOpened) : s.opener ≠ [] := by
  cases s with
  | dollar tag =>
    obtain ⟨name, -, -, rfl⟩ := isTag_iff.1 hs
    simp [opener]
  | quoted q => cases q <;> simp [opener, Quote.opener]
  | lineComment | blockComment depth | continuation => simp [opener, Comment.opener]

theorem isOpenerChar_of_mem_opener {s : State} (hs : s.IsOpened) {c : Char}
    (hc : c ∈ s.opener) : isOpenerChar c := by
  cases s with
  | lineComment =>
    obtain rfl : c = '-' := by simpa [State.opener, Comment.opener] using hc
    rfl
  | blockComment depth =>
    have : c = '/' ∨ c = '*' := by simpa [State.opener, Comment.opener] using hc
    rcases this with rfl | rfl <;> rfl
  | dollar tag =>
    obtain ⟨name, hname, -, rfl⟩ := isTag_iff.1 hs
    have : c = '$' ∨ c ∈ name ∨ c = '$' := by simpa [State.opener] using hc
    rcases this with rfl | hc | rfl
    · rfl
    · simp [isOpenerChar, hname c hc]
    · rfl
  | quoted q =>
    cases q with
    | string | name =>
      obtain rfl := by simpa [State.opener, Quote.opener] using hc
      rfl
    | escape upper | bits upper | hex upper =>
      have := by simpa [State.opener, Quote.opener, Quote.letter] using hc
      rcases this with rfl | rfl
      · cases upper <;> rfl
      · rfl
    | unicode upper | unicodeName upper =>
      have := by simpa [State.opener, Quote.opener, Quote.letter] using hc
      rcases this with rfl | rfl | rfl
      · cases upper <;> rfl
      · rfl
      · rfl
  | continuation => exact hs.elim

/-- A text opens nothing if no opener can begin with its first character. -/
theorem opened?_cons_eq_none {c : Char} (hc : isOpenerChar c = false) (t : Text) :
    opened? (c :: t) = none := by
  rw [Option.eq_none_iff_forall_ne_some]
  rintro ⟨s, rest⟩ h
  obtain ⟨hs, htext⟩ := opened?_eq_some_iff.1 h
  obtain ⟨d, more, hmore⟩ := List.exists_cons_of_ne_nil hs.opener_ne_nil
  rw [hmore, List.cons_append, List.cons.injEq] at htext
  have hd : isOpenerChar d := isOpenerChar_of_mem_opener hs (by simp [hmore])
  rw [← htext.1, hc] at hd
  contradiction

end SqlWeave.Postgres
