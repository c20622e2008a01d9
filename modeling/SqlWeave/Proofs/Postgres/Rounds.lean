/-
SqlWeave/Proofs/Postgres/Rounds.lean

The loops inside the steps of Postgres, round by round.  In a block comment the step looks for one
nesting marker after the other, and each of them takes two characters.  After a string with escapes
the step takes steps of its own through a comment.  One step gets out of a comment or is refused, so
there never is a second.

A step leaves an end of its text, whatever its loops do.

Main results: both loops end, within few rounds, with what the step around them comes to
(`exists_runs_blockLoop`, `exists_runs_commentLoop`); what is left is an end of the text
(`advance_suffix`); the steps that a step takes are fewer than the characters it reads
(`innerCalls_lt`, `innerCalls_of_advance`).
-/
import SqlWeave.Proofs.Lexer.Loop
import SqlWeave.Proofs.Postgres.Continuation

namespace SqlWeave.Postgres

open Text

variable {s s' : Option State} {text body rest : Text} {depth : Nat} {k : Comment}

/-! ### Block comments -/

/-- The first nesting marker of a text: whether it opens a comment, and what follows it. -/
def marker? : Text → Option (Bool × Text)
  | [] => none
  | c :: rest =>
    match rest with
    | [] => none
    | d :: rest' =>
      if c = '*' ∧ d = '/' then some (false, rest')
      else if c = '/' ∧ d = '*' then some (true, rest')
      else marker? (d :: rest')

/-- The way through a block comment with the given text, marker by marker, with the depth and the
text that is left. -/
def blockLoop (body : Text) : Loop (Nat × Text) where
  goesOn a := a.1 ≠ 0
  round a :=
    match marker? a.2 with
    | some (opens, rest) => .ok (if opens then a.1 + 1 else a.1 - 1, rest)
    | none => .error (.unclosedComment .block body)
  calls _ := 1

theorem length_of_marker? {opens : Bool} (h : marker? text = some (opens, rest)) :
    rest.length + 2 ≤ text.length := by
  fun_induction marker? text <;> grind

theorem afterBlock?_succ : afterBlock? (depth + 1) text =
    (marker? text).bind fun m => afterBlock? (if m.1 then depth + 2 else depth) m.2 := by
  fun_induction marker? text with
  | case1 | case2 =>
    rw [afterBlock?.eq_def]
    rfl
  | case3 c d rest h =>
    rw [afterBlock?.eq_def]
    simp [h]
  | case4 c d rest h h' =>
    rw [afterBlock?.eq_def]
    simp [h']
  | case5 c d rest h h' ih =>
    rw [afterBlock?.eq_def]
    simp only [h, h', if_false]
    exact ih

theorem blockLoop_pays (body : Text) : (blockLoop body).Pays fun a => a.2.length / 2 + 1 where
  pos _ := Nat.one_pos
  failed _ _ := Nat.le_add_left ..
  passed {a b} _ hround := by
    simp only [blockLoop] at hround ⊢
    split at hround
    · rename_i opens rest hmarker
      obtain rfl := Except.ok.inj hround
      have hlength := length_of_marker? hmarker
      simp only
      omega
    · contradiction

/-- The loop comes to what the step in a block comment does. -/
theorem advance_of_runs_blockLoop {a : Nat × Text} {n : Nat} {outcome : Except Failure (Nat × Text)}
    (h : (blockLoop body).Runs a n outcome) :
    (match afterBlock? a.1 a.2 with
      | some rest => .ok (none, rest)
      | none => .error (.unclosedComment .block body)) =
    outcome.map fun b => ((none : Option State), b.2) := by
  -- A refusal shows `body`, the whole text of the comment, whichever round it comes in.
  induction h with
  | @done a hdone =>
    obtain ⟨depth, text⟩ := a
    obtain rfl : depth = 0 := Classical.not_not.1 hdone
    rw [afterBlock?.eq_def]
    rfl
  | @fails a e hgoes hround =>
    obtain ⟨depth, text⟩ := a
    obtain ⟨depth, rfl⟩ := Nat.exists_eq_succ_of_ne_zero hgoes
    cases hmarker : marker? text with
    | some m => simp [blockLoop, hmarker] at hround
    | none =>
      obtain rfl : Failure.unclosedComment .block body = e := by simpa [blockLoop, hmarker] using hround
      simp [afterBlock?_succ, hmarker, Except.map]
  | @next a b n outcome hgoes hround _ ih =>
    obtain ⟨depth, text⟩ := a
    obtain ⟨depth, rfl⟩ := Nat.exists_eq_succ_of_ne_zero hgoes
    cases hmarker : marker? text with
    | none => simp [blockLoop, hmarker] at hround
    | some m =>
      obtain rfl : (if m.1 then depth + 2 else depth, m.2) = b := by
        simpa [blockLoop, hmarker] using hround
      simp only [Nat.succ_eq_add_one, afterBlock?_succ, hmarker, Option.bind_some]
      exact ih

theorem exists_runs_blockLoop (depth : Nat) (text : Text) :
    ∃ n ≤ text.length / 2 + 1, ∃ outcome, (blockLoop text).Runs (depth, text) n outcome ∧
      advance (some (.blockComment depth)) text = outcome.map fun a => (none, a.2) := by
  obtain ⟨n, outcome, hn, hruns⟩ := (blockLoop_pays text).exists_runs (depth, text)
  exact ⟨n, hn, outcome, hruns, advance_of_runs_blockLoop hruns⟩

/-! ### Comments behind a string with escapes -/

/-- The way through a comment behind a string with escapes, step by step.  It is refused as soon as
the text is used up. -/
def commentLoop (k : Comment) (body : Text) : Loop (Option State × Text) where
  goesOn a := a.1 ≠ none
  round a := if a.2 = [] then .error (.unclosedComment k body) else advance a.1 a.2
  calls a := if a.2 = [] then 0 else 1

/-- How many steps a step takes in its turn. -/
def innerCalls : Option State → Text → Nat
  | some .continuation, text =>
    match commentOpened? (text.dropWhile isBlank) with
    | some (_, body) => if body = [] then 0 else 1
    | none => 0
  | _, _ => 0

theorem afterComment?_nil (k : Comment) : afterComment? k [] = none := by
  cases k <;> rfl

theorem advance_opensComment (hk : k ≠ .hash) : advance (some (opensComment k)) body =
    match afterComment? k body with
    | some rest => .ok (none, rest)
    | none => .error (.unclosedComment k body) := by
  cases k with
  | hash => exact absurd rfl hk
  | dashes | block => rfl

/-- One step goes through the comment, or refuses it. -/
theorem runs_commentLoop (hk : k ≠ .hash) (body : Text) :
    (commentLoop k body).Runs (some (opensComment k), body) (if body = [] then 0 else 1)
      (match afterComment? k body with
        | some rest => .ok (none, rest)
        | none => .error (.unclosedComment k body)) := by
  have hgoes : (commentLoop k body).goesOn (some (opensComment k), body) := Option.some_ne_none _
  by_cases hbody : body = []
  · -- The loop refuses before it takes a step, and says what the step would have said.
    subst hbody
    rw [afterComment?_nil]
    exact .fails hgoes rfl
  have hround : (commentLoop k body).round (some (opensComment k), body) =
      advance (some (opensComment k)) body := if_neg hbody
  rw [advance_opensComment hk] at hround
  cases hafter : afterComment? k body with
  | none =>
    rw [hafter] at hround
    exact .fails hgoes hround
  | some rest =>
    rw [hafter] at hround
    exact .next hgoes hround (.done (Classical.not_not.2 rfl))

theorem exists_runs_commentLoop (h : commentOpened? (text.dropWhile isBlank) = some (k, body)) :
    ∃ outcome, (commentLoop k body).Runs (some (opensComment k), body)
        (innerCalls (some .continuation) text) outcome ∧
      advance (some .continuation) text = outcome.map fun a => (some .continuation, a.2) := by
  have hk : k ≠ .hash := by
    rcases commentOpened?_eq_some_iff.1 h with ⟨rfl, -⟩ | ⟨rfl, -⟩ <;> simp
  have hruns := runs_commentLoop hk body
  simp only [innerCalls, advance, advanceContinuation, h]
  refine ⟨_, hruns, ?_⟩
  cases afterComment? k body <;> rfl

theorem length_of_commentOpened? (h : commentOpened? text = some (k, rest)) :
    rest.length + 2 = text.length := by
  rcases commentOpened?_eq_some_iff.1 h with ⟨-, rfl⟩ | ⟨-, rfl⟩ <;> rfl

/-- A step that takes another one has a comment before it, the opener of which it reads first. -/
theorem exists_comment_of_innerCalls_ne_zero (h : innerCalls s text ≠ 0) :
    s = some .continuation ∧ innerCalls s text = 1 ∧
      ∃ k body, commentOpened? (text.dropWhile isBlank) = some (k, body) ∧
        body.length + 2 ≤ text.length := by
  unfold innerCalls at h ⊢
  split at h
  · split at h
    · rename_i k body hopened
      have hbody : body ≠ [] := fun hbody => h (if_pos hbody)
      refine ⟨rfl, by simp [hbody], k, body, hopened, ?_⟩
      rw [length_of_commentOpened? hopened]
      exact (List.dropWhile_suffix isBlank).length_le
    · contradiction
  · contradiction

theorem innerCalls_lt (s : Option State) (hne : text ≠ []) : innerCalls s text < text.length := by
  have hpos := List.length_pos_iff.2 hne
  by_cases hzero : innerCalls s text = 0
  · omega
  · obtain ⟨-, hone, k, body, -, hbody⟩ := exists_comment_of_innerCalls_ne_zero hzero
    omega

theorem innerCalls_of_advance (h : advance s text = .ok (s', rest)) :
    innerCalls s text = 0 ∨ rest.length + innerCalls s text < text.length := by
  by_cases hzero : innerCalls s text = 0
  · exact .inl hzero
  · obtain ⟨rfl, hone, k, body, hopened, hbody⟩ := exists_comment_of_innerCalls_ne_zero hzero
    simp only [advance, advanceContinuation, hopened] at h
    split at h
    · rename_i rest' hafter
      obtain ⟨-, rfl⟩ := Prod.mk.inj (Except.ok.inj h)
      have hrest := length_le_of_afterComment? hafter
      right
      omega
    · contradiction

/-! ### What a step leaves -/

theorem seek_suffix (text : Text) : (seek text).2 <:+ text := by
  fun_induction seek text with
  | case1 => exact List.suffix_rfl
  | case2 c t s rest hopened =>
    obtain ⟨-, htext⟩ := opened?_eq_some_iff.1 hopened
    exact ⟨_, htext.symm⟩
  | case3 c t hopened hw => exact (List.dropWhile_suffix _).trans (List.suffix_cons c t)
  | case4 c t hopened hw ih => exact ih.trans (List.suffix_cons c t)

theorem afterComment?_suffix (h : afterComment? k text = some rest) : rest <:+ text := by
  obtain ⟨front, htext, -⟩ := afterComment?_eq h
  exact ⟨front, htext.symm⟩

theorem advanceDollar_suffix {tag : Text} (h : advanceDollar tag text = .ok (s', rest)) :
    rest <:+ text := by
  unfold advanceDollar at h
  split at h
  · rename_i hfirst
    obtain ⟨-, rfl⟩ := Prod.mk.inj (Except.ok.inj h)
    exact afterFirst?_suffix hfirst
  · split at h
    · split at h
      · contradiction
      · obtain ⟨-, rfl⟩ := Prod.mk.inj (Except.ok.inj h)
        exact List.nil_suffix
    · obtain ⟨-, rfl⟩ := Prod.mk.inj (Except.ok.inj h)
      exact List.nil_suffix

theorem advanceContinuation_suffix (h : advanceContinuation text = .ok (s', rest)) :
    rest <:+ text := by
  have hblanks := List.dropWhile_suffix isBlank (l := text)
  unfold advanceContinuation at h
  simp only at h
  split at h
  · rename_i k body hopened
    split at h
    · rename_i hafter
      obtain ⟨-, rfl⟩ := Prod.mk.inj (Except.ok.inj h)
      have hbody : body <:+ text.dropWhile isBlank := by
        rcases commentOpened?_eq_some_iff.1 hopened with ⟨-, htext⟩ | ⟨-, htext⟩ <;>
          exact ⟨[_, _], htext.symm⟩
      exact (afterComment?_suffix hafter).trans (hbody.trans hblanks)
    · contradiction
  · split at h
    · obtain ⟨-, rfl⟩ := Prod.mk.inj (Except.ok.inj h)
      exact (List.tail_suffix _).trans hblanks
    · split at h
      · obtain ⟨-, rfl⟩ := Prod.mk.inj (Except.ok.inj h)
        exact List.suffix_rfl
      · obtain ⟨-, rfl⟩ := Prod.mk.inj (Except.ok.inj h)
        exact hblanks

theorem advance_suffix (h : advance s text = .ok (s', rest)) : rest <:+ text := by
  cases s with
  | none =>
    obtain rfl : (seek text).2 = rest := congrArg Prod.snd (Except.ok.inj h)
    exact seek_suffix text
  | some s =>
    cases s with
    | lineComment =>
      simp only [advance] at h
      split at h
      · rename_i hafter
        obtain ⟨-, rfl⟩ := Prod.mk.inj (Except.ok.inj h)
        exact afterComment?_suffix (k := .dashes) hafter
      · contradiction
    | blockComment depth =>
      simp only [advance] at h
      split at h
      · rename_i hafter
        obtain ⟨-, rfl⟩ := Prod.mk.inj (Except.ok.inj h)
        obtain ⟨u, rfl, -⟩ := exists_of_afterBlock? hafter
        exact List.suffix_append ..
      · contradiction
    | quoted q =>
      simp only [advance] at h
      split at h
      · obtain ⟨-, rfl⟩ := Prod.mk.inj (Except.ok.inj h)
        exact List.nil_suffix
      · rename_i hbody
        obtain ⟨-, rfl⟩ := Prod.mk.inj (Except.ok.inj h)
        obtain ⟨u, rfl, -⟩ := exists_of_readBody_closed hbody
        exact List.suffix_append ..
      · contradiction
    | dollar tag => exact advanceDollar_suffix h
    | continuation => exact advanceContinuation_suffix h

end SqlWeave.Postgres
