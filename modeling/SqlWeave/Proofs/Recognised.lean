/-
SqlWeave/Proofs/Recognised.lean

The contexts that the lexer reports, and the places that values can be spliced into.  A value is
refused for what it is, not for where it is to go, except inside a comment.  A comment is refused
where it does not end in its chunk; MySQL has no other.  Postgres does not look for the end where
a chunk ends right behind the opener, and that is the only way into a comment.

Main results: `recognised_unless_leftOpen`, for either family.
-/
import Mathlib
import SqlWeave.Proofs.MySQL.Comment
import SqlWeave.Proofs.Postgres.OpenComment
import SqlWeave.Proofs.Splice

namespace SqlWeave

open Text

variable {surroundings : Surroundings} {options : Options} {v : Value} {e : Failure}

/-! ### Refusals of values -/

/-- Whether a failure is about a value: its shape, a character of it, or what it would run into. -/
def Failure.OnValue (e : Failure) : Prop :=
  e.category = .malformedIdentifier ∨ e.category = .unrepresentable ∨ e.category = .mergeHazard

theorem Failure.OnValue.ne (h : e.OnValue) : e.category ≠ .unescapableDelimiter := by
  rcases h with h | h | h <;> rw [h] <;> decide

/-- A name is refused by its own rules, or as a trusted fragment of the wrong shape. -/
theorem NameStyle.onValue_of_escape {style : NameStyle} {trust : TrustPolicy}
    {forbidQualified : Bool}
    (hquote : ∀ splits name e, style.quote splits name = .error e → e.OnValue)
    (h : style.escape trust forbidQualified v = .error e) : e.OnValue := by
  obtain ⟨x, -, hx⟩ := Series.exists_of_flat_eq_error h
  unfold escapeOne at hx
  split at hx
  · split at hx
    · split at hx
      · contradiction
      · obtain rfl := Except.error.inj hx
        exact .inl rfl
    · exact hquote _ _ _ hx
  · exact hquote _ _ _ hx
  · exact hquote _ _ _ hx

namespace MySQL

theorem onValue_of_splice {q : Quote}
    (h : splice surroundings options [q.mark] v = .error e) : e.OnValue := by
  cases q with
  | backtick =>
    rcases Except.bind_eq_error_iff.1 h with h | ⟨t, -, h⟩
    · exact nameStyle.onValue_of_escape (fun _ _ _ => nofun) h
    · contradiction
  | single | double => contradiction

end MySQL

namespace Postgres

theorem onValue_of_withoutNul {delimiter t : Text} (h : withoutNul delimiter t = .error e) :
    e.OnValue := by
  unfold withoutNul at h
  split at h
  · obtain rfl := Except.error.inj h
    exact .inr (.inl rfl)
  · contradiction

theorem onValue_of_embed {shown tag t : Text} (h : embed shown tag t = .error e) : e.OnValue := by
  unfold embed at h
  split at h
  · contradiction
  · obtain rfl := Except.error.inj h
    exact .inr (.inr rfl)

theorem onValue_of_quoteName {unicode splits : Bool} {name : Text}
    (h : quoteName unicode splits name = .error e) : e.OnValue := by
  cases unicode with
  | true => contradiction
  | false => exact onValue_of_withoutNul (Except.map_eq_error_iff.1 h)

theorem onValue_of_spliceString {place : Place} {delimiter t : Text}
    (h : spliceString place delimiter v t = .error e) : e.OnValue := by
  cases place with
  | escape | continuation | unicode => contradiction
  | dollar =>
    rcases Except.bind_eq_error_iff.1 h with h | ⟨t, -, h⟩
    · exact onValue_of_withoutNul h
    · exact onValue_of_embed h
  | name unicode | plain | bits | hex => exact onValue_of_withoutNul (Except.map_eq_error_iff.1 h)

/-- Where a rule belongs to the place, it refuses values only. -/
theorem onValue_of_splice {delimiter : Text} {place : Place}
    (hplace : Place.ofDelimiter? delimiter = some place)
    (h : splice surroundings options delimiter v = .error e) : e.OnValue := by
  unfold splice at h
  rw [hplace] at h
  split at h
  · contradiction
  · exact (nameStyle _).onValue_of_escape (fun _ _ _ => onValue_of_quoteName)
      (Except.map_eq_error_iff.1 h)
  · split at h
    · contradiction
    · contradiction
    · exact onValue_of_spliceString h

/-- A rule belongs to every construct but comments. -/
theorem exists_place {s : State} (hs : Proper (some s)) (hclear : inComment (some s) = false) :
    ∃ place, Place.ofDelimiter? s.opener = some place := by
  cases s with
  | lineComment | blockComment depth => contradiction
  | quoted q => exact ⟨_, Place.ofDelimiter?_opener q⟩
  | dollar tag => exact ⟨_, Place.ofDelimiter?_tag hs⟩
  | continuation => exact ⟨.continuation, rfl⟩

end Postgres

/-! ### Comments in either family -/

namespace Family

/-- Whether a comment is open. -/
def inComment : (f : Family) → Option f.Open → Bool
  | mysql, _ => false
  | postgres, s => Postgres.inComment s

/-- Whether a fresh scan has been left with a comment open behind its opener. -/
def LeftOpen : Family → List (Option Text) → Prop
  | mysql, _ => False
  | postgres, fed => Postgres.LeftOpen fed

/-- Whether a comment opens behind a front that has been read to top level; `body` is the text
behind its opener. -/
def Opens : Family → Comment → (front body : Text) → Prop
  | mysql, k, _, body => MySQL.Opens k body
  | postgres, .dashes, front, _ => front.getLast? ≠ some '-'
  | postgres, .block, _, _ => True
  | postgres, .hash, _, _ => False

/-- Whether a comment with the given text behind its opener does not end in it. -/
def RunsOn : Family → Comment → Text → Prop
  | mysql, k, body => MySQL.RunsOn k body
  | postgres, .block, body => Postgres.afterBlock? 1 body = none
  | postgres, _, body => ∀ c ∈ body, isLineBreak c = false

/-- Whether a chunk opens a comment that does not end in it, where `s` was open before it. -/
inductive HoldsComment (f : Family) (s : Option f.Open) : Text → Prop
  | mk {k : Comment} {front body : Text}
      (hfront : f.grammar.lexer.transition s front = .ok none) (hopens : f.Opens k front body)
      (hruns : f.RunsOn k body) : HoldsComment f s (front ++ (k.opener ++ body))

variable {f : Family} {fed : List (Option Text)}

theorem inComment_feeds_iff (hok : (Scan.feeds f.grammar.lexer {} fed).failure = none) :
    f.inComment (Scan.feeds f.grammar.lexer {} fed).state ↔ f.LeftOpen fed := by
  cases f with
  | mysql => exact iff_of_false Bool.false_ne_true not_false
  | postgres => exact Postgres.inComment_feeds_iff hok

/-- What a feed leaves open is a comment exactly if that was left open. -/
theorem inComment_feed_iff {chunk : Option Text} {q : Option f.Open}
    (h : ((Scan.feeds f.grammar.lexer {} fed).feed f.grammar.lexer chunk).1 = .ok q) :
    f.inComment q ↔ f.LeftOpen (fed ++ [chunk]) := by
  obtain ⟨hok, hq⟩ := Scan.feed_eq_ok_iff.1 h
  have hfed : Scan.feeds f.grammar.lexer {} (fed ++ [chunk]) = ⟨q, none⟩ := by
    rw [Scan.feeds_concat, Scan.feed_of_ok hok hq]
  have hok' : (Scan.feeds f.grammar.lexer {} (fed ++ [chunk])).failure = none := by rw [hfed]
  have hiff := inComment_feeds_iff hok'
  rwa [hfed] at hiff

/-- A comment that does not end in its chunk is refused, unless it is left open. -/
theorem exists_feed_eq_error {chunk : Text}
    (hok : (Scan.feeds f.grammar.lexer {} fed).failure = none)
    (h : f.HoldsComment (Scan.feeds f.grammar.lexer {} fed).state chunk)
    (hleft : ¬f.LeftOpen (fed ++ [some chunk])) :
    ∃ e, ((Scan.feeds f.grammar.lexer {} fed).feed f.grammar.lexer (some chunk)).1 = .error e ∧
      e.category = .unterminated := by
  suffices ∃ e, f.grammar.lexer.transition (Scan.feeds f.grammar.lexer {} fed).state chunk =
      .error e ∧ e.category = .unterminated by
    obtain ⟨e, he, hcategory⟩ := this
    have hfeed : Scan.outcome f.grammar.lexer (Scan.feeds f.grammar.lexer {} fed).state
        (some chunk) = .error e := he
    exact ⟨e, by rw [Scan.feed_of_error hok hfeed], hcategory⟩
  obtain @⟨k, front, body, hfront, hopens, hruns⟩ := h
  cases f with
  | mysql => exact MySQL.exists_transition_eq_error hfront hopens hruns
  | postgres =>
    have hs := Postgres.proper_feeds fed
    by_cases hbody : body = []
    · subst hbody
      rw [List.append_nil] at hleft
      exfalso
      cases k with
      | dashes => exact hleft (.opener (.line hfront hopens))
      | block => exact hleft (.opener (.block hfront))
      | hash => exact hopens
    · cases k with
      | dashes =>
        have hafter := Postgres.afterLine?_of_forall hruns
        exact Postgres.exists_transition_eq_error hs hfront rfl (fun _ => hopens) hafter hbody
      | block => exact Postgres.exists_transition_eq_error hs hfront rfl nofun hruns hbody
      | hash => exact hopens.elim

/-- A value is refused for its place in a comment, and nowhere else. -/
theorem splice_unescapable_iff {s : f.Open} {chunks : List Text} {ks : List (Option f.Open)}
    {i : Nat} (h : f.grammar.lexer.contexts chunks = .ok ks) (hs : ks[i]? = some (some s))
    (v : Value) :
    (∃ e, f.grammar.splice surroundings options (f.grammar.lexer.opener s) v = .error e ∧
      e.category = .unescapableDelimiter) ↔ f.LeftOpen ((chunks.take (i + 1)).map some) := by
  have hfed := Scan.feeds_of_contexts h hs
  rw [← inComment_feeds_iff (by rw [hfed]), hfed]
  cases f with
  | mysql =>
    refine iff_of_false ?_ Bool.false_ne_true
    rintro ⟨e, he, hcategory⟩
    exact (MySQL.onValue_of_splice he).ne hcategory
  | postgres =>
    have hproper : Postgres.Proper (some s) := by
      have hs := Postgres.proper_feeds ((chunks.take (i + 1)).map some)
      rwa [show Scan.feeds Postgres.lexer {} _ = _ from hfed] at hs
    constructor
    · rintro ⟨e, he, hcategory⟩
      by_contra hclear
      obtain ⟨place, hplace⟩ := Postgres.exists_place hproper (Bool.eq_false_iff.2 hclear)
      exact (Postgres.onValue_of_splice hplace he).ne hcategory
    · intro hopen
      exact ⟨_, Postgres.splice_of_inComment hopen, rfl⟩

end Family

/-! ### Feeds and contexts -/

/-- A feed that succeeds leaves a comment open only behind an opener that ended a chunk.  Apart
from that, a comment that does not end in its chunk is refused, and every context but top level
has a rule for values. -/
theorem recognised_unless_leftOpen (f : Family) (surroundings : Surroundings) (options : Options) :
    (∀ fed chunk q, ((Scan.feeds f.grammar.lexer {} fed).feed f.grammar.lexer chunk).1 = .ok q →
      (f.inComment q ↔ f.LeftOpen (fed ++ [chunk]))) ∧
    (∀ fed chunk, (Scan.feeds f.grammar.lexer {} fed).failure = none →
      f.HoldsComment (Scan.feeds f.grammar.lexer {} fed).state chunk →
      ¬f.LeftOpen (fed ++ [some chunk]) →
      ∃ e, ((Scan.feeds f.grammar.lexer {} fed).feed f.grammar.lexer (some chunk)).1 = .error e ∧
        e.category = .unterminated) ∧
    (∀ (chunks : List Text) ks (i : Nat) s, f.grammar.lexer.contexts chunks = .ok ks →
      ks[i]? = some (some s) → ∀ v,
      ((∃ e, f.grammar.splice surroundings options (f.grammar.lexer.opener s) v = .error e ∧
        e.category = .unescapableDelimiter) ↔ f.LeftOpen ((chunks.take (i + 1)).map some))) :=
  ⟨fun _ _ _ => Family.inComment_feed_iff, fun _ _ => Family.exists_feed_eq_error,
    fun _ _ _ _ => Family.splice_unescapable_iff⟩

/-- A comment that ends before a string, and one that does not end behind it. -/
theorem recognised_in_string :
    let s : Surroundings := ⟨defaultMinter.policy, .zero⟩
    let chunks := ["SELECT /* a */ '".toList, "'".toList]
    let fed := [some "SELECT '".toList]
    Postgres.lexer.contexts chunks = .ok [some (.quoted .string)] ∧
      (∀ v, ¬∃ e, Postgres.grammar.splice s .default [apostrophe] v = .error e ∧
        e.category = .unescapableDelimiter) ∧
      ∃ e, ((Scan.feeds MySQL.lexer {} fed).feed MySQL.lexer (some "' -- b".toList)).1 = .error e ∧
        e.category = .unterminated := by
  intro s chunks fed
  have hk : Postgres.lexer.contexts chunks = .ok [some (.quoted .string)] := by cbv
  obtain ⟨hleft, -, hsplice⟩ := recognised_unless_leftOpen .postgres s .default
  obtain ⟨-, hrefused, -⟩ := recognised_unless_leftOpen .mysql s .default
  refine ⟨hk, fun v => ?_, ?_⟩
  · have hfeed : (({} : Scan Postgres.State).feed Postgres.lexer
        (some "SELECT /* a */ '".toList)).1 = .ok (some (.quoted .string)) := by cbv
    have hclear : ¬Family.postgres.LeftOpen [some "SELECT /* a */ '".toList] := fun h =>
      Bool.false_ne_true ((hleft [] _ _ hfeed).2 h)
    exact mt (hsplice _ _ 0 _ hk rfl v).1 hclear
  · have hok : (Scan.feeds MySQL.lexer {} fed).failure = none := by cbv
    have hfront : MySQL.lexer.transition (Scan.feeds MySQL.lexer {} fed).state "' ".toList =
        .ok none := by cbv
    have hopens : MySQL.Opens .dashes " b".toList := ⟨' ', rfl, by decide⟩
    have hruns : ∀ c ∈ " b".toList, isLineBreak c = false := by simp [isLineBreak]
    exact hrefused _ _ hok (.mk (f := .mysql) (k := .dashes) hfront hopens hruns) not_false

/-- Behind two dashes at the end of a chunk Postgres reports a context that no value can be
spliced into. -/
theorem comment_left_open_behind_dashes :
    let s : Surroundings := ⟨defaultMinter.policy, .zero⟩
    let chunks := ["SELECT 1 --".toList, " c\nFROM t".toList]
    (({} : Scan Postgres.State).feed Postgres.lexer (some "SELECT 1 --".toList)).1 =
        .ok (some .lineComment) ∧
      Postgres.lexer.contexts chunks = .ok [some .lineComment] ∧
      ∀ v, Postgres.grammar.splice s .default (Postgres.lexer.opener .lineComment) v =
        .error (.unescapableDelimiter ['-', '-']) := by
  intro s chunks
  have hsplice (v : Value) : Postgres.splice s .default Postgres.State.lineComment.opener v =
      .error (.unescapableDelimiter Postgres.State.lineComment.opener) :=
    Postgres.splice_of_inComment rfl
  exact ⟨by cbv, by cbv, hsplice⟩

end SqlWeave
