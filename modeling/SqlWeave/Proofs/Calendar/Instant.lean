/-
SqlWeave/Proofs/Calendar/Instant.lean

Moments as they are seen from a time zone.  A moment that knows its offset stands for an instant
of universal time, whatever the host's clock shows, and its text shows the civil time that lies
the offset of the zone away from that instant.

The way to that civil time leads over the one of universal time, and at either end of the calendar
there are moments that leave it on the way and would come back.  Where the zone is the moment's
own, such a moment would be shown as it stands, and is dropped all the same.

Main results: the text read back is the instant, to the millisecond, and texts of one zone are in
the order of the instants (`texts_show_instants`); a moment has no text exactly if its instant
or the one shifted by the zone lies outside of the calendar (`text?_eq_none_iff`).
-/
import Mathlib
import SqlWeave.Proofs.Calendar.Reading
import SqlWeave.Proofs.Calendar.Zone

namespace SqlWeave.Calendar

open Text

/-! ### Civil times and their microseconds -/

/-- Whether some civil time is counted for so many microseconds. -/
def InCalendar (micros : Int) : Prop := ∃ c : Civil, (c.toMicros : Int) = micros

namespace Civil

theorem toMicros_div (c : Civil) : c.toMicros / dayMicros = c.date.toDays := by
  rw [toMicros, Nat.add_comm, Nat.mul_comm, Nat.add_mul_div_left _ _ (by decide),
    Nat.div_eq_of_lt c.time.toMicros_lt, Nat.zero_add]

theorem toMicros_mod (c : Civil) : c.toMicros % dayMicros = c.time.toMicros := by
  rw [toMicros, Nat.add_comm, Nat.add_mul_mod_self_right, Nat.mod_eq_of_lt c.time.toMicros_lt]

/-- A civil time is found by its microseconds, and no other. -/
theorem ofMicros?_eq_some_iff {n : Int} {c : Civil} : ofMicros? n = some c ↔ c.toMicros = n := by
  constructor
  · intro h
    cases n with
    | negSucc n => contradiction
    | ofNat n =>
      obtain ⟨date, hdate, rfl⟩ := Option.map_eq_some_iff.1 h
      have htime := TimeOfDay.toMicros_ofMicros (Nat.mod_lt n (by decide : 0 < dayMicros))
      rw [toMicros, Date.ofDays?_eq_some_iff.1 hdate, htime, Int.ofNat_eq_natCast,
        Nat.mul_comm, Nat.div_add_mod]
  · rintro rfl
    have hdate : Date.ofDays? (c.toMicros / dayMicros) = some c.date :=
      Date.ofDays?_eq_some_iff.2 c.toMicros_div.symm
    show (Date.ofDays? (c.toMicros / dayMicros)).map _ = some c
    rw [hdate, Option.map_some, toMicros_mod, TimeOfDay.ofMicros_toMicros]

theorem shift?_zero (c : Civil) : c.shift? 0 = some c := by
  rw [shift?, ofMicros?_eq_some_iff, Int.add_zero]

end Civil

/-- The microseconds of the calendar are those of its days. -/
theorem inCalendar_iff {n : Int} : InCalendar n ↔ 0 ≤ n ∧ n < (calendarDays * dayMicros : Nat) := by
  constructor
  · rintro ⟨c, rfl⟩
    have hlt := c.toMicros_lt
    have hdays : (c.date.toDays + 1) * dayMicros ≤ calendarDays * dayMicros :=
      Nat.mul_le_mul_right dayMicros c.date.toDays_lt_calendarDays
    omega
  · rintro ⟨hpos, hlt⟩
    obtain ⟨n, rfl⟩ := Int.eq_ofNat_of_zero_le hpos
    have hday : n / dayMicros < calendarDays := by
      rw [Nat.div_lt_iff_lt_mul (by decide)]
      exact Int.ofNat_lt.1 hlt
    obtain ⟨date, hdate⟩ := exists_toDays_eq_iff.2 hday
    have htime := TimeOfDay.toMicros_ofMicros (Nat.mod_lt n (by decide : 0 < dayMicros))
    refine ⟨⟨date, .ofMicros (n % dayMicros)⟩, ?_⟩
    rw [Civil.toMicros, hdate, htime, Nat.mul_comm, Nat.div_add_mod]

/-! ### Moments seen from a zone -/

/-- Whether a moment is one that knows its offset. -/
def Moment.IsFixed (m : Moment) : Prop := m.definite ∧ m.offset.isSome

variable {host : Clock} {zone : Text} {minutes : Int} {m m' : Moment} {t t' : Text} {c : Civil}

/-- A moment is first told in universal time and then shifted by the offset of the zone, which is
zero where the zone names none. -/
theorem seenFrom?_eq (hm : m.IsFixed) (hzone : zone ≠ localZone) (host : Clock) :
    m.seenFrom? host zone = (Civil.ofMicros? (m.instant host)).bind fun utc =>
      utc.shift? ((zoneOffset? zone).getD 0 * minuteMicros) := by
  rw [Moment.seenFrom?, hm.1, Bool.not_true, if_neg (by decide), if_neg hzone, Civil.shift?,
    ← Int.sub_eq_add_neg]
  show (Civil.ofMicros? (m.instant host)).bind _ = _
  cases zoneOffset? zone with
  | none => simp [Civil.shift?_zero]
  | some minutes =>
    by_cases hminutes : minutes = 0
    · simp [hminutes, Civil.shift?_zero]
    · simp [hminutes]

/-- From a zone a moment is seen at the civil time that the zone's offset leads to, if universal
time has one too. -/
theorem seenFrom?_eq_some_iff (hm : m.IsFixed) (hzone : zone ≠ localZone)
    (hnames : NamesOffset zone minutes) :
    m.seenFrom? host zone = some c ↔ InCalendar (m.instant host) ∧
      (c.toMicros : Int) = m.instant host + minutes * minuteMicros := by
  rw [seenFrom?_eq hm hzone, namesOffset_iff.1 hnames, Option.bind_eq_some_iff]
  simp only [Civil.shift?, Civil.ofMicros?_eq_some_iff, InCalendar]
  constructor
  · rintro ⟨utc, hutc, hc⟩
    exact ⟨⟨utc, hutc⟩, by rw [hc, hutc]⟩
  · rintro ⟨⟨utc, hutc⟩, hc⟩
    exact ⟨utc, hutc, by rw [hc, hutc]⟩

/-- The milliseconds of the civil time that a text shows. -/
theorem exists_civil_of_text? (hm : m.IsFixed) (hzone : zone ≠ localZone)
    (hnames : NamesOffset zone minutes) (ht : m.text? host zone = some t) :
    ∃ c : Civil, c.text = t ∧ (c.millis : Int) = m.instant host / 1000 + minutes * 60000 := by
  obtain ⟨c, hc, rfl⟩ := Option.map_eq_some_iff.1 ht
  obtain ⟨-, hmicros⟩ := (seenFrom?_eq_some_iff hm hzone hnames).1 hc
  refine ⟨c, rfl, ?_⟩
  simp only [Civil.millis, minuteMicros, secondMicros] at hmicros ⊢
  omega

/-- The text of a moment that knows its offset shows a civil time, which the offset of the zone
taken off gives the moment's instant, rounded down to the millisecond.  So texts of one zone are in
the order of the instants. -/
theorem texts_show_instants (host : Clock) (hzone : zone ≠ localZone)
    (hnames : NamesOffset zone minutes) :
    (∀ (m : Moment) (t : Text), m.IsFixed → m.text? host zone = some t →
        ∃ c, Civil.read? t = some c ∧
          (c.toMicros : Int) - minutes * minuteMicros = m.instant host / 1000 * 1000) ∧
      ∀ (m m' : Moment) (t t' : Text), m.IsFixed → m'.IsFixed →
        m.text? host zone = some t → m'.text? host zone = some t' →
        (t < t' ↔ m.instant host / 1000 < m'.instant host / 1000) ∧
          (t = t' ↔ m.instant host / 1000 = m'.instant host / 1000) := by
  constructor
  · intro m t hm ht
    obtain ⟨c, rfl, hmillis⟩ := exists_civil_of_text? hm hzone hnames ht
    refine ⟨c.cut, c.read?_text, ?_⟩
    rw [c.toMicros_cut]
    simp only [minuteMicros, secondMicros]
    omega
  · intro m m' t t' hm hm' ht ht'
    obtain ⟨c, rfl, hmillis⟩ := exists_civil_of_text? hm hzone hnames ht
    obtain ⟨c', rfl, hmillis'⟩ := exists_civil_of_text? hm' hzone hnames ht'
    rw [Civil.text_lt_iff, Civil.text_eq_iff]
    omega

/-- Told an hour west of universal time and seen far in the east, the moments lie in a leap day;
they are two microseconds and one millisecond apart. -/
theorem texts_show_instants_leap_day :
    let zone := "UTC+05:45".toList
    let offset : Offset := ⟨-3600000000, by decide⟩
    let date : Date := ⟨2000, 2, 28, by decide, by decide, by decide, by decide⟩
    let m : Moment := ⟨⟨date, ⟨23, 30, 0, 999, by decide, by decide, by decide, by decide⟩⟩,
      some offset, true⟩
    let m' : Moment := ⟨⟨date, ⟨23, 30, 0, 1001, by decide, by decide, by decide, by decide⟩⟩,
      some offset, true⟩
    let t := "2000-02-29 06:15:00.000".toList
    let t' := "2000-02-29 06:15:00.001".toList
    zone ≠ localZone ∧ NamesOffset zone 345 ∧ m.IsFixed ∧ m'.IsFixed ∧
      m.text? .zero zone = some t ∧ m'.text? .zero zone = some t' ∧
      (∃ c, Civil.read? t = some c ∧
        (c.toMicros : Int) - 345 * minuteMicros = m.instant .zero / 1000 * 1000) ∧
      (t < t' ↔ m.instant .zero / 1000 < m'.instant .zero / 1000) := by
  intro zone offset date m m' t t'
  have hzone : zone ≠ localZone := by decide
  have hnames : NamesOffset zone 345 := namesOffset_iff.2 (by decide)
  have hm : m.IsFixed := ⟨rfl, rfl⟩
  have hm' : m'.IsFixed := ⟨rfl, rfl⟩
  have ht : m.text? .zero zone = some t := by decide +kernel
  have ht' : m'.text? .zero zone = some t' := by decide +kernel
  obtain ⟨hshows, horder⟩ := texts_show_instants .zero hzone hnames
  exact ⟨hzone, hnames, hm, hm', ht, ht', hshows m t hm ht, (horder m m' t t' hm hm' ht ht').1⟩

/-- A moment that knows its offset has no text exactly if its instant, or the civil time that it
is seen at, lies outside of the calendar. -/
theorem text?_eq_none_iff (hm : m.IsFixed) (hzone : zone ≠ localZone)
    (hnames : NamesOffset zone minutes) :
    m.text? host zone = none ↔
      ¬InCalendar (m.instant host) ∨ ¬InCalendar (m.instant host + minutes * minuteMicros) := by
  rw [Moment.text?, Option.map_eq_none_iff, Option.eq_none_iff_forall_ne_some]
  simp only [ne_eq, seenFrom?_eq_some_iff hm hzone hnames, not_and_or, forall_or_left,
    InCalendar, not_exists]

/-- The last microsecond of the calendar, seen from an hour further east. -/
theorem text?_eq_none_iff_last :
    let zone := "+01:00".toList
    let date : Date := ⟨9999, 12, 31, by decide, by decide, by decide, by decide⟩
    let time : TimeOfDay := ⟨23, 59, 59, 999999, by decide, by decide, by decide, by decide⟩
    let m : Moment := ⟨⟨date, time⟩, some .zero, true⟩
    m.IsFixed ∧ zone ≠ localZone ∧ NamesOffset zone 60 ∧ InCalendar (m.instant .zero) ∧
      ¬InCalendar (m.instant .zero + 60 * minuteMicros) ∧ m.text? .zero zone = none := by
  intro zone date time m
  have hm : m.IsFixed := ⟨rfl, rfl⟩
  have hzone : zone ≠ localZone := by decide
  have hnames : NamesOffset zone 60 := namesOffset_iff.2 (by decide)
  have hshifted : ¬InCalendar (m.instant .zero + 60 * minuteMicros) := by
    rw [inCalendar_iff]
    decide
  exact ⟨hm, hzone, hnames, inCalendar_iff.2 (by decide), hshifted,
    (text?_eq_none_iff hm hzone hnames).2 (.inr hshifted)⟩

/-- In the first hour of the calendar, seen from the zone that it is told in, a moment has no text,
though it would be shown as it stands. -/
theorem dropped_in_own_zone :
    let zone := "+01:00".toList
    let date : Date := ⟨1, 1, 1, by decide, by decide, by decide, by decide⟩
    let time : TimeOfDay := ⟨0, 30, 0, 0, by decide, by decide, by decide, by decide⟩
    let m : Moment := ⟨⟨date, time⟩, some ⟨3600000000, by decide⟩, true⟩
    m.IsFixed ∧ zone ≠ localZone ∧ NamesOffset zone 60 ∧
      InCalendar (m.instant .zero + 60 * minuteMicros) ∧
      ¬(m.text? .zero zone = none ↔ ¬InCalendar (m.instant .zero + 60 * minuteMicros)) := by
  intro zone date time m
  have hshifted : InCalendar (m.instant .zero + 60 * minuteMicros) := ⟨m.civil, by decide⟩
  have hnone : m.text? .zero zone = none := by decide +kernel
  refine ⟨⟨rfl, rfl⟩, by decide, namesOffset_iff.2 (by decide), hshifted, ?_⟩
  rw [hnone]
  simpa using hshifted

end SqlWeave.Calendar
