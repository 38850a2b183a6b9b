import Mathlib.Algebra.Group.Nat.Defs
import Mathlib.Data.List.Forall2
import Mathlib.Data.Nat.Basic

/-!
# Texts that sort

Numbers written with a fixed count of digits compare as texts as they compare
as numbers, and so do lists of them. A number that is split into the index of
a segment and the offset in it compares as the pair.
-/

namespace Sortable

/-! ## Digits -/

def padded (width n : Nat) : List Char := (Nat.toDigits 10 n).leftpad width '0'

theorem padded_one {n : Nat} (hn : n < 10) : padded 1 n = [n.digitChar] := by
  rw [padded, Nat.toDigits_of_lt_base hn]
  rfl

theorem padded_succ {width : Nat} (hwidth : 1 ≤ width) (n : Nat) :
    padded (width + 1) n = padded width (n / 10) ++ [(n % 10).digitChar] := by
  by_cases hn : n < 10
  · have hsplit : List.replicate width '0' = List.replicate (width - 1) '0' ++ ['0'] := by
      rw [← List.replicate_succ', Nat.sub_add_cancel hwidth]
    rw [padded, padded, Nat.toDigits_of_lt_base hn, Nat.div_eq_of_lt hn, Nat.toDigits_zero, Nat.mod_eq_of_lt hn]
    show List.replicate width '0' ++ [n.digitChar] = _
    rw [hsplit]
    rfl
  · rw [padded, padded, Nat.toDigits_of_base_le (by decide) (Nat.le_of_not_lt hn), List.leftpad, List.leftpad,
      List.length_append, List.length_singleton, Nat.add_sub_add_right, List.append_assoc]

theorem div_ten_lt {width n : Nat} (hn : n < 10 ^ (width + 1)) : n / 10 < 10 ^ width := by
  rw [Nat.pow_succ] at hn
  exact Nat.div_lt_of_lt_mul (by rwa [Nat.mul_comm])

theorem length_padded {width n : Nat} (hwidth : 1 ≤ width) (hn : n < 10 ^ width) : (padded width n).length = width := by
  induction width, hwidth using Nat.le_induction generalizing n with
  | base => rw [padded_one (by simpa using hn), List.length_singleton]
  | succ width hwidth ih => rw [padded_succ hwidth, List.length_append, ih (div_ten_lt hn), List.length_singleton]

theorem isDigit_of_mem_padded {width n : Nat} {c : Char} (hc : c ∈ padded width n) : c.isDigit = true := by
  rcases List.mem_append.mp hc with hc | hc
  · rw [List.eq_of_mem_replicate hc]
    decide
  · exact Nat.isDigit_of_mem_toDigits (by decide) (by decide) hc

theorem digitChar_lt {m n : Nat} (hlt : m < n) (hn : n < 10) : m.digitChar < n.digitChar := by
  have : ∀ n < 10, ∀ m < n, m.digitChar < n.digitChar := by decide
  exact this n hn m hlt

/-- Lists of one length are decided by their first difference, whatever follows. -/
theorem append_lt_append {α : Type} [LT α] [Std.Irrefl (α := α) (· < ·)] {a b : List α} (h : a < b)
    (hlength : a.length = b.length) (x y : List α) : a ++ x < b ++ y := by
  induction a generalizing b with
  | nil =>
    rw [List.length_eq_zero_iff.mp hlength.symm] at h
    exact absurd h (List.lt_irrefl _)
  | cons c a ih =>
    cases b with
    | nil => simp at hlength
    | cons d b =>
      rw [List.cons_append, List.cons_append, List.cons_lt_cons_iff]
      rcases List.cons_lt_cons_iff.mp h with hc | ⟨hc, hrest⟩
      · exact .inl hc
      · exact .inr ⟨hc, ih hrest (Nat.succ.inj hlength)⟩

/-- A number splits into a quotient and a remainder that compare as the number does. -/
theorem div_mod_lt {a b : Nat} (h : a < b) (k : Nat) : a / k < b / k ∨ a / k = b / k ∧ a % k < b % k := by
  rcases Nat.lt_or_eq_of_le (Nat.div_le_div_right (Nat.le_of_lt h) (c := k)) with hlt | heq
  · exact .inl hlt
  · refine .inr ⟨heq, ?_⟩
    have ha := Nat.div_add_mod a k
    have hb := Nat.div_add_mod b k
    rw [heq] at ha
    omega

theorem padded_lt {width a b : Nat} (hwidth : 1 ≤ width) (h : a < b) (hb : b < 10 ^ width) :
    padded width a < padded width b := by
  induction width, hwidth using Nat.le_induction generalizing a b with
  | base =>
    have hb : b < 10 := by simpa using hb
    rw [padded_one hb, padded_one (Nat.lt_trans h hb), List.cons_lt_cons_iff]
    exact .inl (digitChar_lt h hb)
  | succ width hwidth ih =>
    rw [padded_succ hwidth, padded_succ hwidth]
    rcases div_mod_lt h 10 with hlt | ⟨heq, hlt⟩
    · have hlength : (padded width (a / 10)).length = (padded width (b / 10)).length := by
        rw [length_padded hwidth (div_ten_lt hb), length_padded hwidth (Nat.lt_trans hlt (div_ten_lt hb))]
      exact append_lt_append (ih hlt (div_ten_lt hb)) hlength _ _
    · rw [heq]
      apply List.append_left_lt
      rw [List.cons_lt_cons_iff]
      exact .inl (digitChar_lt hlt (Nat.mod_lt _ (by decide)))

/-! ## Fields -/

/-- Numbers, each with its width and the character behind it. -/
def render (formats : List (Nat × Char)) (numbers : List Nat) : List Char :=
  (formats.zip numbers).flatMap fun field => padded field.1.1 field.2 ++ [field.1.2]

def Fits (formats : List (Nat × Char)) (numbers : List Nat) : Prop :=
  List.Forall₂ (fun format n => 1 ≤ format.1 ∧ n < 10 ^ format.1) formats numbers

theorem render_cons (format : Nat × Char) (formats : List (Nat × Char)) (n : Nat) (numbers : List Nat) :
    render (format :: formats) (n :: numbers) = padded format.1 n ++ (format.2 :: render formats numbers) := by
  unfold render
  rw [List.zip_cons_cons, List.flatMap_cons, List.append_assoc]
  rfl

theorem mem_render {formats : List (Nat × Char)} {numbers : List Nat} {c : Char} (hc : c ∈ render formats numbers) :
    c.isDigit = true ∨ ∃ format ∈ formats, c = format.2 := by
  obtain ⟨field, hfield, hc⟩ := List.mem_flatMap.mp hc
  rcases List.mem_append.mp hc with hc | hc
  · exact .inl (isDigit_of_mem_padded hc)
  · exact .inr ⟨field.1, (List.of_mem_zip hfield).1, List.mem_singleton.mp hc⟩

/-- **Texts of fixed fields compare as the lists of their numbers**, whatever follows. -/
theorem render_lt {formats : List (Nat × Char)} {a b : List Nat} (ha : Fits formats a) (hb : Fits formats b) (h : a < b)
    (x y : List Char) : render formats a ++ x < render formats b ++ y := by
  induction ha generalizing b with
  | nil =>
    cases hb
    exact absurd h (List.lt_irrefl _)
  | @cons format m formats a hm _ ih =>
    cases hb with
    | @cons _ n _ b hn hb =>
      rw [render_cons, render_cons, List.append_assoc, List.append_assoc]
      rcases List.cons_lt_cons_iff.mp h with hlt | ⟨rfl, hrest⟩
      · apply append_lt_append (padded_lt hm.1 hlt hn.2)
        rw [length_padded hm.1 hm.2, length_padded hn.1 hn.2]
      · apply List.append_left_lt
        rw [List.cons_append, List.cons_append, List.cons_lt_cons_iff]
        exact .inr ⟨rfl, ih hb hrest⟩

/-! ## Segments -/

/-- Where `d` lies behind the beginning of segment `i`: the index of a segment, and the offset in it. -/
def locateFrom (len : Nat → Nat) : Nat → Nat → Nat → Nat × Nat
  | 0, i, d => (i, d)
  | fuel + 1, i, d => if d < len i then (i, d) else locateFrom len fuel (i + 1) (d - len i)

def locate (len : Nat → Nat) (d : Nat) : Nat × Nat := locateFrom len d 0 d

def Precedes (p q : Nat × Nat) : Prop := p.1 < q.1 ∨ p.1 = q.1 ∧ p.2 < q.2

section
variable {len : Nat → Nat} (hlen : ∀ i, 0 < len i)

theorem le_locateFrom (fuel i d : Nat) : i ≤ (locateFrom len fuel i d).1 := by
  induction fuel generalizing i d with
  | zero => exact Nat.le_refl i
  | succ fuel ih =>
    rw [locateFrom]
    split
    · exact Nat.le_refl i
    · exact Nat.le_of_succ_le (ih (i + 1) _)

theorem locateFrom_of_lt {fuel i d : Nat} (h : d < len i) : locateFrom len fuel i d = (i, d) := by
  cases fuel with
  | zero => rfl
  | succ fuel => rw [locateFrom, if_pos h]

include hlen

theorem locateFrom_of_le {fuel i d : Nat} (hfuel : d ≤ fuel) (h : len i ≤ d) :
    ∃ rest, fuel = rest + 1 ∧ d - len i ≤ rest ∧ locateFrom len fuel i d = locateFrom len rest (i + 1) (d - len i) := by
  have hpos := hlen i
  cases fuel with
  | zero => omega
  | succ rest => exact ⟨rest, rfl, by omega, by rw [locateFrom, if_neg (Nat.not_lt.mpr h)]⟩

theorem offset_lt {fuel i d : Nat} (hfuel : d ≤ fuel) :
    (locateFrom len fuel i d).2 < len (locateFrom len fuel i d).1 := by
  induction fuel generalizing i d with
  | zero =>
    rw [Nat.le_zero.mp hfuel]
    exact hlen i
  | succ fuel ih =>
    by_cases h : d < len i
    · rw [locateFrom_of_lt h]
      exact h
    · obtain ⟨rest, hrest, hle, heq⟩ := locateFrom_of_le hlen hfuel (Nat.le_of_not_lt h)
      obtain rfl := Nat.succ.inj hrest
      rw [heq]
      exact ih hle

theorem precedes_of_lt {fuel fuel' i d d' : Nat} (hfuel' : d' ≤ fuel') (h : d < d') (hd : d < len i) :
    Precedes (locateFrom len fuel i d) (locateFrom len fuel' i d') := by
  rw [locateFrom_of_lt hd]
  by_cases hd' : d' < len i
  · rw [locateFrom_of_lt hd']
    exact .inr ⟨rfl, h⟩
  · obtain ⟨rest, _, _, heq⟩ := locateFrom_of_le hlen hfuel' (Nat.le_of_not_lt hd')
    rw [heq]
    exact .inl (le_locateFrom rest (i + 1) _)

theorem locateFrom_precedes {fuel fuel' i d d' : Nat} (hfuel : d ≤ fuel) (hfuel' : d' ≤ fuel') (h : d < d') :
    Precedes (locateFrom len fuel i d) (locateFrom len fuel' i d') := by
  induction fuel generalizing fuel' i d d' with
  | zero =>
    obtain rfl := Nat.le_zero.mp hfuel
    exact precedes_of_lt hlen hfuel' h (hlen i)
  | succ fuel ih =>
    by_cases hd : d < len i
    · exact precedes_of_lt hlen hfuel' h hd
    · obtain ⟨rest, hrest, hle, heq⟩ := locateFrom_of_le hlen hfuel (Nat.le_of_not_lt hd)
      obtain ⟨rest', _, hle', heq'⟩ := locateFrom_of_le hlen hfuel' (Nat.le_trans (Nat.le_of_not_lt hd) (Nat.le_of_lt h))
      obtain rfl := Nat.succ.inj hrest
      rw [heq, heq']
      exact ih hle hle' (by omega)

/-- **Pairs of index and offset compare as the numbers they locate.** -/
theorem locate_precedes {d d' : Nat} (h : d < d') : Precedes (locate len d) (locate len d') :=
  locateFrom_precedes hlen (Nat.le_refl d) (Nat.le_refl d') h

theorem locate_offset (d : Nat) : (locate len d).2 < len (locate len d).1 := offset_lt hlen (Nat.le_refl d)

theorem locate_index_le {d d' : Nat} (h : d ≤ d') : (locate len d).1 ≤ (locate len d').1 := by
  rcases Nat.lt_or_eq_of_le h with hlt | rfl
  · rcases locate_precedes hlen hlt with hindex | ⟨hindex, _⟩
    · exact Nat.le_of_lt hindex
    · exact Nat.le_of_eq hindex
  · exact Nat.le_refl _

end

end Sortable
