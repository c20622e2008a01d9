/-
SqlWeave/Template/Weave.lean

Weaving values between literal chunks.  The chunks alone decide the context of each gap;
then each value is written for its context.

Main results: the number of values has to be one less than that of chunks
(`weave_of_arity`), and every gap is filled (`length_fillAll`).
-/
import SqlWeave.Grammar
import SqlWeave.Template.Seam

namespace SqlWeave.Template

variable {σ : Type}

/-- The contexts that the literal chunks of a statement give to the gaps between them. -/
structure Analysis (σ : Type) where
  chunks : List Text
  contexts : List (Option σ)

/-- The analysis of some literal chunks, which must make up a whole statement. -/
def analyze (G : Grammar σ) (chunks : List Text) : Except Failure (Analysis σ) :=
  (G.lexer.contexts chunks).map fun contexts => ⟨chunks, contexts⟩

/-- A gap: its context, the value that fills it, and the chunk after it. -/
structure Slot (σ : Type) where
  context : Option σ
  value : Value
  after : Text

/-- The gaps of an analysed statement, filled with values. -/
def slots (analysis : Analysis σ) (values : List Value) : List (Slot σ) :=
  (analysis.contexts.zip (values.zip analysis.chunks.tail)).map fun (context, value, after) =>
    ⟨context, value, after⟩

/-- Whether the value in the gap brings quotes of its own. -/
def Slot.standsApart (L : Lexer σ) (slot : Slot σ) : Bool := slot.context.all L.selfDelimiting

/-- The text of a value for its gap. -/
def render (G : Grammar σ) (s : Surroundings) (options : Options) (slot : Slot σ)
    (valueFollows : Bool) : Except Failure Text :=
  match slot.context with
  | none => do
    let escaped ← G.escape s options slot.value
    G.checkFreeStanding escaped slot.after valueFollows
    return escaped
  | some context => G.splice s options (G.lexer.opener context) slot.value

/-- The text of a value in its gap, set off from its neighbours where it brings quotes of its
own.  `before` is the last character of the text so far. -/
def fill (G : Grammar σ) (s : Surroundings) (options : Options) (before : Text) (slot : Slot σ)
    (valueFollows : Bool) : Except Failure Text := do
  let text ← render G s options slot valueFollows
  return if slot.standsApart G.lexer then setOff before text slot.after else text

/-- The last character of a text, or of an earlier one if there is none. -/
def lastChar (earlier text : Text) : Text :=
  match text.getLast? with
  | some c => [c]
  | none => earlier

/-- The texts of the values in some gaps. -/
def fillAll (G : Grammar σ) (s : Surroundings) (options : Options) (before : Text) :
    List (Slot σ) → Except Failure (List Text)
  | [] => .ok []
  | slot :: later => do
    let filling ← fill G s options before slot !later.isEmpty
    let fillings ← fillAll G s options (lastChar before (filling ++ slot.after)) later
    return filling :: fillings

/-- The texts that values get between literal chunks. -/
def fillings (G : Grammar σ) (s : Surroundings) (options : Options) (chunks : List Text)
    (values : List Value) : Except Failure (List Text) :=
  if chunks.length = values.length + 1 then do
    let analysis ← analyze G chunks
    fillAll G s options (lastChar [] (chunks.headD [])) (slots analysis values)
  else .error (.arity chunks.length values.length)

/-- Chunks with fillings between them. -/
def interleave : (chunks fillings : List Text) → Text
  | chunk :: chunks, filling :: fillings => chunk ++ filling ++ interleave chunks fillings
  | chunks, [] => chunks.flatten
  | [], fillings => fillings.flatten

/-- Weaves values between literal chunks. -/
def weave (G : Grammar σ) (s : Surroundings) (options : Options) (chunks : List Text)
    (values : List Value) : Except Failure Text :=
  (fillings G s options chunks values).map (interleave chunks)

theorem weave_of_arity {G : Grammar σ} {s : Surroundings} {options : Options} {chunks : List Text}
    {values : List Value} (h : chunks.length ≠ values.length + 1) :
    weave G s options chunks values = .error (.arity chunks.length values.length) := by
  simp [weave, fillings, h, Except.map]

theorem length_fillAll {G : Grammar σ} {s : Surroundings} {options : Options} {before : Text}
    {gaps : List (Slot σ)} {texts : List Text} (h : fillAll G s options before gaps = .ok texts) :
    texts.length = gaps.length := by
  induction gaps generalizing before texts with
  | nil => simp_all [fillAll]
  | cons slot later ih =>
    simp only [fillAll, bind, Except.bind] at h
    split at h
    · contradiction
    · split at h
      · contradiction
      · rename_i hl
        cases h
        simp [ih hl]

end SqlWeave.Template
