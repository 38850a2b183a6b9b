import NeuralPlus.HumanLine
import NeuralPlus.Sortable

/-!
# Timestamps

`format_timestamp` of tracing.cpp, for instants from the epoch on. Its texts
sort as the instants do, and so do the lines that begin with them.
-/

namespace NeuralPlus

open Sortable

/-! ## Calendar -/

def isLeapYear (year : Nat) : Bool := year % 4 = 0 && (year % 100 ≠ 0 || year % 400 = 0)

def yearLength (year : Nat) : Nat := if isLeapYear year then 366 else 365

/-- The length of a month, counted from January as month 0. -/
def monthLength (leap : Bool) (month : Nat) : Nat :=
  if month = 1 then if leap then 29 else 28 else if month = 3 ∨ month = 5 ∨ month = 8 ∨ month = 10 then 30 else 31

/-- A `std::tm`, with its month and its day counted from one. -/
structure Tm where
  year : Nat
  month : Nat
  day : Nat
  hour : Nat
  minute : Nat
  second : Nat
  deriving DecidableEq

def gmtime (seconds : Nat) : Tm :=
  let (year, yday) := locate (fun n => yearLength (1970 + n)) (seconds / 86400)
  let (month, mday) := locate (monthLength (isLeapYear (1970 + year))) yday
  { year := 1970 + year
    month := month + 1
    day := mday + 1
    hour := seconds % 86400 / 3600
    minute := seconds % 86400 % 3600 / 60
    second := seconds % 86400 % 3600 % 60 }

def Tm.fields (tm : Tm) : List Nat := [tm.year, tm.month, tm.day, tm.hour, tm.minute, tm.second]

def timestampFormat : List (Nat × Char) :=
  [(4, '-'), (2, '-'), (2, 'T'), (2, ':'), (2, ':'), (2, '.'), (3, 'Z')]

def timestampFields (milliseconds : Nat) : List Nat :=
  (gmtime (milliseconds / 1000)).fields ++ [milliseconds % 1000]

/-- `format_timestamp`, of nanoseconds since the epoch. -/
def formatTimestamp (nanoseconds : Nat) : String :=
  String.ofList (render timestampFormat (timestampFields (nanoseconds / 1000000)))

theorem yearLength_pos (year : Nat) : 0 < yearLength year := by
  unfold yearLength
  split <;> decide

theorem monthLength_pos (leap : Bool) (month : Nat) : 0 < monthLength leap month := by
  unfold monthLength
  split
  · split <;> decide
  · split <;> decide

theorem monthLength_le (leap : Bool) (month : Nat) : monthLength leap month ≤ 31 := by
  unfold monthLength
  split
  · split <;> decide
  · split <;> decide

theorem month_lt {leap : Bool} {yday : Nat} (h : yday < if leap then 366 else 365) :
    (locate (monthLength leap) yday).1 < 12 := by
  cases leap with
  | false =>
    have hlast : (locate (monthLength false) 364).1 = 11 := by decide
    have hle := locate_index_le (monthLength_pos false) (Nat.le_of_lt_succ h)
    omega
  | true =>
    have hlast : (locate (monthLength true) 365).1 = 11 := by decide
    have hle := locate_index_le (monthLength_pos true) (Nat.le_of_lt_succ h)
    omega

/-! ## Order -/

theorem gmtime_lt {s s' : Nat} (h : s < s') : (gmtime s).fields < (gmtime s').fields := by
  unfold gmtime Tm.fields
  dsimp only
  simp only [List.cons_lt_cons_iff]
  rcases div_mod_lt h 86400 with hday | ⟨hday, hrest⟩
  · rcases locate_precedes (fun n => yearLength_pos (1970 + n)) hday with hyear | ⟨hyear, hyday⟩
    · exact .inl (by omega)
    · rw [← hyear]
      generalize isLeapYear _ = leap
      rcases locate_precedes (monthLength_pos leap) hyday with hmonth | ⟨hmonth, hmday⟩
      · exact .inr ⟨rfl, .inl (by omega)⟩
      · exact .inr ⟨rfl, .inr ⟨by rw [hmonth], .inl (by omega)⟩⟩
  · rw [← hday]
    refine .inr ⟨rfl, .inr ⟨rfl, .inr ⟨rfl, ?_⟩⟩⟩
    rcases div_mod_lt hrest 3600 with hhour | ⟨hhour, hrest⟩
    · exact .inl hhour
    · refine .inr ⟨hhour, ?_⟩
      rcases div_mod_lt hrest 60 with hminute | ⟨hminute, hsecond⟩
      · exact .inl hminute
      · exact .inr ⟨hminute, .inl hsecond⟩

theorem timestampFields_lt {m m' : Nat} (h : m < m') : timestampFields m < timestampFields m' := by
  unfold timestampFields
  rcases div_mod_lt h 1000 with hsecond | ⟨hsecond, hmillisecond⟩
  · exact append_lt_append (gmtime_lt hsecond) rfl _ _
  · rw [hsecond]
    apply List.append_left_lt
    rw [List.cons_lt_cons_iff]
    exact .inl hmillisecond

def FourDigitYear (nanoseconds : Nat) : Prop := (gmtime (nanoseconds / 1000000 / 1000)).year < 10000

instance (nanoseconds : Nat) : Decidable (FourDigitYear nanoseconds) := inferInstanceAs (Decidable (_ < _))

theorem timestampFields_fit {nanoseconds : Nat} (h : FourDigitYear nanoseconds) :
    Fits timestampFormat (timestampFields (nanoseconds / 1000000)) := by
  unfold FourDigitYear at h
  have hmillisecond : nanoseconds / 1000000 % 1000 < 1000 := Nat.mod_lt _ (by decide)
  unfold timestampFields
  generalize nanoseconds / 1000000 % 1000 = milliseconds at hmillisecond ⊢
  generalize nanoseconds / 1000000 / 1000 = seconds at h ⊢
  have hmonth : (gmtime seconds).month ≤ 12 := by
    have hyday := locate_offset (fun n => yearLength_pos (1970 + n)) (seconds / 86400)
    exact month_lt hyday
  have hday : (gmtime seconds).day ≤ 31 := by
    have hmday := locate_offset (monthLength_pos (isLeapYear (gmtime seconds).year))
      (locate (fun n => yearLength (1970 + n)) (seconds / 86400)).2
    exact Nat.le_trans hmday (monthLength_le _ _)
  have hhour : (gmtime seconds).hour < 24 := by
    show seconds % 86400 / 3600 < 24
    omega
  have hminute : (gmtime seconds).minute < 60 := by
    show seconds % 86400 % 3600 / 60 < 60
    omega
  have hsecond : (gmtime seconds).second < 60 := Nat.mod_lt _ (by decide)
  refine .cons ⟨by decide, h⟩ (.cons ⟨by decide, ?_⟩ (.cons ⟨by decide, ?_⟩ (.cons ⟨by decide, ?_⟩
    (.cons ⟨by decide, ?_⟩ (.cons ⟨by decide, ?_⟩ (.cons ⟨by decide, hmillisecond⟩ .nil))))))
  all_goals
    dsimp only
    omega

/-! ## Texts -/

theorem formatTimestamp_lt {ns ns' : Nat} (hyear : FourDigitYear ns) (hyear' : FourDigitYear ns')
    (h : ns / 1000000 < ns' / 1000000) (x y : List Char) :
    (formatTimestamp ns).toList ++ x < (formatTimestamp ns').toList ++ y := by
  unfold formatTimestamp
  rw [String.toList_ofList, String.toList_ofList]
  exact render_lt (timestampFields_fit hyear) (timestampFields_fit hyear') (timestampFields_lt h) x y

/-- No time breaks a line or a field of it. -/
theorem formatTimestamp_word (ns : Nat) : Word (formatTimestamp ns) := by
  have hne : ∀ c ∈ [' ', '\n'], c ∉ (formatTimestamp ns).toList := by
    intro c hc hmem
    unfold formatTimestamp at hmem
    rw [String.toList_ofList] at hmem
    have hdigit : ∀ c ∈ [' ', '\n'], c.isDigit = false := by
      rw [List.forall_mem_cons, List.forall_mem_singleton]
      decide
    have hseparator : ∀ c ∈ [' ', '\n'], ∀ format ∈ timestampFormat, c ≠ format.2 := by
      rw [List.forall_mem_cons, List.forall_mem_singleton]
      simp [timestampFormat]
    rcases mem_render hmem with h | ⟨format, hformat, h⟩
    · rw [hdigit c hc] at h
      cases h
    · exact hseparator c hc format hformat h
  exact ⟨hne _ (by simp), hne _ (by simp)⟩

/-- **Timestamps sort.** Their texts are words that compare as the instants do, to the millisecond, and so do the lines
they begin. -/
theorem timestamps_sort {ns ns' : Nat} (hyear : FourDigitYear ns) (hyear' : FourDigitYear ns') :
    Word (formatTimestamp ns) ∧
    (formatTimestamp ns < formatTimestamp ns' ↔ ns / 1000000 < ns' / 1000000) ∧
    (formatTimestamp ns = formatTimestamp ns' ↔ ns / 1000000 = ns' / 1000000) ∧
    ∀ (json : JsonText) (event event' : TraceEvent), ns / 1000000 < ns' / 1000000 →
      humanLine json (formatTimestamp ns) event < humanLine json (formatTimestamp ns') event' := by
  have hlt : ∀ {ns ns' : Nat}, FourDigitYear ns → FourDigitYear ns' → ns / 1000000 < ns' / 1000000 →
      formatTimestamp ns < formatTimestamp ns' := by
    intro ns ns' hyear hyear' h
    have := formatTimestamp_lt hyear hyear' h [] []
    rwa [List.append_nil, List.append_nil] at this
  have heq : ∀ {ns ns' : Nat}, ns / 1000000 = ns' / 1000000 → formatTimestamp ns = formatTimestamp ns' := by
    intro ns ns' h
    unfold formatTimestamp
    rw [h]
  refine ⟨formatTimestamp_word ns, ⟨?_, hlt hyear hyear'⟩, ⟨?_, heq⟩, ?_⟩
  · intro h
    rcases Nat.lt_trichotomy (ns / 1000000) (ns' / 1000000) with hms | hms | hms
    · exact hms
    · rw [heq hms] at h
      exact absurd h (String.lt_irrefl _)
    · exact absurd (hlt hyear' hyear hms) (String.lt_asymm h)
  · intro h
    by_contra hne
    rcases Nat.lt_or_gt_of_ne hne with hms | hms
    · exact absurd h (String.ne_of_lt (hlt hyear hyear' hms))
    · exact absurd h.symm (String.ne_of_lt (hlt hyear' hyear hms))
  · intro json event event' h
    rw [String.lt_iff, humanLine_toList, humanLine_toList]
    exact formatTimestamp_lt hyear hyear' h _ _

/-- The last millisecond of a leap day, and the first one after it. -/
theorem timestamps_sort_leapDay :
    formatTimestamp 951868799999000000 < formatTimestamp 951868800000000000 := by
  have hyear : FourDigitYear 951868799999000000 := by decide +kernel
  have hyear' : FourDigitYear 951868800000000000 := by decide +kernel
  exact (timestamps_sort hyear hyear').2.1.mpr (by decide)

end NeuralPlus
