/-
SqlWeave/Proofs/Template/OwnOutput.lean

Tags and the fragments that they return.  A tag recognises fragments by the policy of its dialect
and certifies its own by a minter, and the two need not be the same.  Made from a name, a tag
hands the minter to the dialect as well.  On a dialect that is at hand already, a minter that is
not given is the default one, whomever the dialect trusts: what such a tag returns is a forgery
to it, and is quoted as a string.

Overriding options changes neither of the two, so it is enough to look at how the first tag of a
chain was made.

Main results: when a tag takes its own fragments as they stand (`acceptsOwn_iff_minter_eq`); the
least tag that does not (`ownFragment_quoted`).
-/
import Mathlib
import SqlWeave.Proofs.Template.Seam
import SqlWeave.Template.Tag

namespace SqlWeave

open Text

/-- Whether a policy trusts what it certifies. -/
def TrustPolicy.TrustsMinted (p : TrustPolicy) : Prop :=
  ∀ text, p.trustsFragment (p.mint text)

theorem Minter.trustsMinted_policy (m : Minter) : m.policy.TrustsMinted := m.trusts_mint

theorem Grammar.escape_of_trustsFragment {σ : Type} (G : Grammar σ) {s : Surroundings}
    {f : Fragment} (options : Options) (h : s.trust.trustsFragment f) :
    G.escape s options (.fragment f) = .ok f.content := by
  have hpairs : (if options.stringifyObjects then none else pairs? (.fragment f)) = none := by
    split <;> rfl
  rw [Grammar.escape, hpairs]
  show Except.ok (if s.trust.trustsFragment f then _ else _) = _
  rw [if_pos h]

namespace Template

theorem exists_contexts_of_fillings {σ : Type} {G : Grammar σ} {s : Surroundings}
    {options : Options} {chunks fs : List Text} {values : List Value}
    (h : fillings G s options chunks values = .ok fs) :
    ∃ ks, G.lexer.contexts chunks = .ok ks := by
  rw [fillings] at h
  split at h
  · obtain ⟨analysis, hanalysis, -⟩ := Except.bind_eq_ok_iff.1 h
    obtain ⟨ks, hks, -⟩ := Except.map_eq_ok_iff.1 hanalysis
    exact ⟨ks, hks⟩
  · contradiction

end Template

namespace Tag

open Template

/-! ### Derived tags -/

/-- The tags that come from one by overriding options any number of times. -/
inductive Derived (t : Tag) : Tag → Prop
  | self : Derived t t
  | withOverrides {u : Tag} (h : Derived t u) (new : Overrides) : Derived t (u.withOverrides new)

variable {t u : Tag} {frag : Fragment}

/-- The dialect, whom it trusts and who certifies stay the same. -/
theorem Derived.toWeaver_eq (h : t.Derived u) : u.toWeaver = t.toWeaver := by
  induction h with
  | self => rfl
  | withOverrides h new ih => exact ih

/-! ### Fragments among the values -/

/-- Whether a tag takes a fragment as it stands: wherever it fills a gap between tokens, its
content is in the finished text, with a blank at most on either side. -/
def SplicesVerbatim (t : Tag) (frag : Fragment) : Prop :=
  ∀ host template given out, t.render host template given = .ok out →
    ∃ chunks values ks fs, template.split given = .ok (chunks, values) ∧
      t.dialect.family.grammar.lexer.contexts (chunks.map Value.plain) = .ok ks ∧
      out = t.minter.mint (interleave (chunks.map Value.plain) fs) ∧
      ∀ i, ks[i]? = some none → values[i]? = some (.fragment frag) →
        ∃ blank blank' chunk, Placed t.dialect.family.grammar ⟨t.trust, host⟩ t.options
          (chunks.map Value.plain) values fs i (.fragment frag) frag.content blank blank' chunk

theorem exists_fillings_of_render {host : Calendar.Clock} {template : Template}
    {given : List Value} (h : t.render host template given = .ok frag) :
    ∃ chunks values fs, template.split given = .ok (chunks, values) ∧
      fillings t.dialect.family.grammar ⟨t.trust, host⟩ t.options (chunks.map Value.plain)
        values = .ok fs ∧
      frag = t.minter.mint (interleave (chunks.map Value.plain) fs) := by
  obtain ⟨⟨chunks, values⟩, hsplit, hweave⟩ := Except.bind_eq_ok_iff.1 h
  obtain ⟨text, htext, rfl⟩ := Except.map_eq_ok_iff.1 hweave
  obtain ⟨fs, hfs, rfl⟩ := Except.map_eq_ok_iff.1 htext
  exact ⟨chunks, values, fs, hsplit, hfs, rfl⟩

theorem splicesVerbatim_of_trustsFragment (h : t.trust.trustsFragment frag) :
    t.SplicesVerbatim frag := by
  intro host template given out hout
  obtain ⟨chunks, values, fs, hsplit, hfs, hmint⟩ := exists_fillings_of_render hout
  obtain ⟨ks, hks⟩ := exists_contexts_of_fillings hfs
  refine ⟨chunks, values, ks, fs, hsplit, hks, hmint, ?_⟩
  intro i hi hvi
  obtain ⟨text, blank, blank', chunk, hplaced⟩ := exists_placed hks hfs hi hvi
  have htext : Except.ok text = Except.ok frag.content :=
    hplaced.escape.symm.trans (Grammar.escape_of_trustsFragment _ t.options h)
  obtain rfl : text = frag.content := Except.ok.inj htext
  exact ⟨blank, blank', chunk, hplaced⟩

/-! ### A tag and its own fragments -/

/-- Whether a tag, and each tag derived from it, returns fragments that it trusts itself, and that
are taken as they stand by every tag derived from it. -/
def AcceptsOwn (t : Tag) : Prop :=
  ∀ u, t.Derived u → ∀ host template given frag, u.render host template given = .ok frag →
    u.trust.trustsFragment frag ∧ ∀ w, u.Derived w → w.SplicesVerbatim frag

/-- It is enough that the dialect trusts what the minter certifies. -/
theorem acceptsOwn_of_trusts_mint (h : ∀ text, t.trust.trustsFragment (t.minter.mint text)) :
    t.AcceptsOwn := by
  intro u hu host template given frag hfrag
  obtain ⟨chunks, values, fs, -, -, rfl⟩ := exists_fillings_of_render hfrag
  have htrusted : u.trust.trustsFragment
      (u.minter.mint (interleave (chunks.map Value.plain) fs)) := by
    rw [hu.toWeaver_eq]
    exact h _
  refine ⟨htrusted, fun w hw => splicesVerbatim_of_trustsFragment ?_⟩
  rwa [hw.toWeaver_eq]

/-- The empty template is a statement in every dialect. -/
theorem render_empty (t : Tag) (host : Calendar.Clock) :
    t.render host (.literal []) [] = .ok (t.minter.mint []) := by
  have hcontexts : t.dialect.family.grammar.lexer.contexts [[]] = .ok [] :=
    Lexer.contexts_singleton _ (Lexer.transition_nil _ none) rfl
  have hfillings : fillings t.dialect.family.grammar ⟨t.trust, host⟩ t.options [[]] [] =
      .ok [] := by
    rw [fillings, if_pos (by simp), analyze, hcontexts]
    rfl
  show (Template.weave _ _ _ _ _).map t.minter.mint = _
  rw [Template.weave, List.map_singleton]
  show ((fillings _ _ _ [[]] []).map _).map _ = _
  rw [hfillings]
  rfl

/-- Among minters, the dialect has to trust the very one that certifies. -/
theorem acceptsOwn_iff_of_minters {trust minter : Minter} (htrust : t.trust = trust.policy)
    (hminter : t.minter = minter.policy) : t.AcceptsOwn ↔ minter = trust := by
  constructor
  · intro h
    obtain ⟨htrusted, -⟩ := h t .self .zero (.literal []) [] _ (t.render_empty .zero)
    rw [htrust, hminter] at htrusted
    exact (trust.trusts_mint_iff minter []).1 htrusted
  · rintro rfl
    apply acceptsOwn_of_trusts_mint
    rw [htrust, hminter]
    exact minter.trustsMinted_policy

/-- A tag from a name takes its own fragments as they stand, whatever minter it is given, and so
does a tag on a dialect that trusts what the minter certifies.  Where both are minters, or left
to be the default one, it takes them exactly if they are the same. -/
theorem acceptsOwn_iff_minter_eq (r : Registry Dialect) (name : Text) (dialect : Dialect)
    (options : Options) (trust minter : Option TrustPolicy) :
    ((∀ p, minter = some p → p.TrustsMinted) →
        ∀ t, ofName r name options minter = .ok t → t.AcceptsOwn) ∧
      ((∀ text, (trust.getD defaultMinter.policy).trustsFragment
          ((minter.getD defaultMinter.policy).mint text)) →
        (ofDialect dialect trust options minter).AcceptsOwn) ∧
      ∀ trusted certifying : Option Minter, trust = trusted.map Minter.policy →
        minter = certifying.map Minter.policy →
        ((ofDialect dialect trust options minter).AcceptsOwn ↔
          certifying.getD defaultMinter = trusted.getD defaultMinter) := by
  have hgetD (m : Option Minter) : (m.map Minter.policy).getD defaultMinter.policy =
      (m.getD defaultMinter).policy := by
    cases m <;> rfl
  refine ⟨?_, ?_, ?_⟩
  · intro hminted t ht
    obtain ⟨dialect, -, rfl⟩ := Except.map_eq_ok_iff.1 ht
    apply acceptsOwn_of_trusts_mint
    cases minter with
    | none => exact defaultMinter.trustsMinted_policy
    | some p => exact hminted p rfl
  · intro h
    exact acceptsOwn_of_trusts_mint h
  · rintro trusted certifying rfl rfl
    exact acceptsOwn_iff_of_minters (hgetD trusted) (hgetD certifying)

/-- A minter given along with a name is trusted by the dialect as well; one that only the dialect
has is not the one that certifies. -/
theorem acceptsOwn_iff_minter_eq_second :
    let m : Minter := ⟨⟨1⟩⟩
    let t := ofDialect (.builtIn .postgres) (some m.policy) .default (some m.policy)
    m.policy.TrustsMinted ∧
      ofName Dialect.registry "pg".toList .default (some m.policy) = .ok t ∧ t.AcceptsOwn ∧
      (∀ text, m.policy.trustsFragment (m.policy.mint text)) ∧
      (ofDialect (.builtIn .mysql) (some m.policy) .default (some m.policy)).AcceptsOwn ∧
      ¬(ofDialect (.builtIn .mysql) (some m.policy) .default none).AcceptsOwn := by
  intro m t
  have hm := m.trustsMinted_policy
  have ht : ofName Dialect.registry "pg".toList .default (some m.policy) = .ok t := rfl
  have hminted : ∀ p, some m.policy = some p → p.TrustsMinted := by
    intro p hp
    rw [← Option.some.inj hp]
    exact hm
  obtain ⟨hname, hdialect, -⟩ := acceptsOwn_iff_minter_eq Dialect.registry "pg".toList
    (.builtIn .mysql) .default (some m.policy) (some m.policy)
  obtain ⟨-, -, hminters⟩ := acceptsOwn_iff_minter_eq Dialect.registry "pg".toList
    (.builtIn .mysql) .default (some m.policy) none
  refine ⟨hm, ht, hname hminted t ht, hm, hdialect hm, ?_⟩
  intro h
  have hsame : defaultMinter = m := (hminters (some m) none rfl rfl).1 h
  exact absurd hsame (by decide)

/-- On a dialect that trusts a minter of its own, the fragment that a tag returns is quoted by the
same tag. -/
theorem ownFragment_quoted :
    let m : Minter := ⟨⟨1⟩⟩
    let t := ofDialect (.builtIn .mysql) (some m.policy) .default none
    let f := defaultMinter.mint ['1']
    t.trust.TrustsMinted ∧ t.render .zero (.literal ['1']) [] = .ok f ∧
      t.trust.trustsFragment f = false ∧
      t.render .zero (.chunks [.ofText "SELECT ".toList, .ofText []]) [.fragment f] =
        .ok (defaultMinter.mint "SELECT '1'".toList) := by
  intro m t f
  have hreturned : t.render .zero (.literal ['1']) [] = .ok f := by cbv
  have hquoted : t.render .zero (.chunks [.ofText "SELECT ".toList, .ofText []]) [.fragment f] =
      .ok (defaultMinter.mint "SELECT '1'".toList) := by cbv
  exact ⟨m.trustsMinted_policy, hreturned, rfl, hquoted⟩

end Tag

end SqlWeave
