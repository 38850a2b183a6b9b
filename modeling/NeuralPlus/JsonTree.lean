import NeuralPlus.Json

/-!
# JSON values as trees

What stands below a value, the texts in it, and the path to each place. An
object of the library is an ordered map: `JsonTree` is a value whose objects
are sorted at every depth.
-/

namespace NeuralPlus

namespace JsonValue

/-- `x` is `j` or stands below it. -/
inductive Within (x : JsonValue) : JsonValue → Prop
  | refl : Within x x
  | element {xs : List JsonValue} {y : JsonValue} (mem : y ∈ xs) (below : Within x y) : Within x (.array xs)
  | member {m : List (String × JsonValue)} {k : String} {y : JsonValue} (mem : (k, y) ∈ m) (below : Within x y) :
      Within x (.object m)

/-- A string value or a member name of the tree. -/
def Text (t : String) (j : JsonValue) : Prop :=
  Within (.string t) j ∨ ∃ m v, Within (.object m) j ∧ (t, v) ∈ m

def Ordered (j : JsonValue) : Prop := ∀ m, Within (.object m) j → OrdMap.Sorted m

theorem Within.trans {x y z : JsonValue} (h : Within x y) (h' : Within y z) : Within x z := by
  induction h' with
  | refl => exact h
  | element mem _ ih => exact .element mem ih
  | member mem _ ih => exact .member mem ih

theorem within_array {x : JsonValue} {xs : List JsonValue} :
    Within x (.array xs) ↔ x = .array xs ∨ ∃ y ∈ xs, Within x y := by
  constructor
  · intro h
    cases h with
    | refl => exact .inl rfl
    | element mem below => exact .inr ⟨_, mem, below⟩
  · rintro (rfl | ⟨y, hy, h⟩)
    · exact .refl
    · exact .element hy h

theorem within_object {x : JsonValue} {m : List (String × JsonValue)} :
    Within x (.object m) ↔ x = .object m ∨ ∃ p ∈ m, Within x p.2 := by
  constructor
  · intro h
    cases h with
    | refl => exact .inl rfl
    | member mem below => exact .inr ⟨_, mem, below⟩
  · rintro (rfl | ⟨p, hp, h⟩)
    · exact .refl
    · exact .member (k := p.1) hp h

theorem within_of_find? {j v : JsonValue} {key : String} (h : j.find? key = some v) : Within v j := by
  cases j with
  | object m => exact .member (OrdMap.find?_mem h) .refl
  | _ => cases h

theorem Text.mono {t : String} {x j : JsonValue} (h : Text t x) (hx : Within x j) : Text t j := by
  rcases h with h | ⟨m, v, h, hm⟩
  · exact .inl (h.trans hx)
  · exact .inr ⟨m, v, h.trans hx, hm⟩

theorem text_string {t s : String} : Text t (.string s) ↔ t = s := by
  constructor
  · rintro (h | ⟨m, v, h, _⟩)
    · cases h; rfl
    · cases h
  · rintro rfl
    exact .inl .refl

theorem text_array {t : String} {xs : List JsonValue} : Text t (.array xs) ↔ ∃ y ∈ xs, Text t y := by
  constructor
  · rintro (h | ⟨m, v, h, hm⟩)
    · obtain ⟨y, hy, h⟩ := (within_array.mp h).resolve_left (by simp)
      exact ⟨y, hy, .inl h⟩
    · obtain ⟨y, hy, h⟩ := (within_array.mp h).resolve_left (by simp)
      exact ⟨y, hy, .inr ⟨m, v, h, hm⟩⟩
  · rintro ⟨y, hy, h⟩
    exact h.mono (.element hy .refl)

theorem text_object {t : String} {m : List (String × JsonValue)} :
    Text t (.object m) ↔ ∃ p ∈ m, t = p.1 ∨ Text t p.2 := by
  constructor
  · rintro (h | ⟨m', v, h, hm⟩)
    · obtain ⟨p, hp, h⟩ := (within_object.mp h).resolve_left (by simp)
      exact ⟨p, hp, .inr (.inl h)⟩
    · rcases within_object.mp h with heq | ⟨p, hp, h⟩
      · obtain rfl := JsonValue.object.inj heq
        exact ⟨(t, v), hm, .inl rfl⟩
      · exact ⟨p, hp, .inr (.inr ⟨m', v, h, hm⟩)⟩
  · rintro ⟨⟨k, v⟩, hp, rfl | h⟩
    · exact .inr ⟨m, v, .refl, hp⟩
    · exact h.mono (.member hp .refl)

theorem text_object_singleton {t key s : String} : Text t (.object [(key, .string s)]) ↔ t = key ∨ t = s := by
  rw [text_object]
  simp [text_string]

theorem Ordered.mono {x j : JsonValue} (h : j.Ordered) (hx : Within x j) : x.Ordered :=
  fun m hm => h m (hm.trans hx)

theorem ordered_array {xs : List JsonValue} (h : ∀ x ∈ xs, x.Ordered) : (JsonValue.array xs).Ordered := by
  intro m hm
  obtain ⟨y, hy, hm⟩ := (within_array.mp hm).resolve_left (by simp)
  exact h y hy m hm

theorem ordered_object {m : List (String × JsonValue)} (hs : OrdMap.Sorted m) (h : ∀ p ∈ m, p.2.Ordered) :
    (JsonValue.object m).Ordered := by
  intro m' hm
  rcases within_object.mp hm with heq | ⟨p, hp, hm⟩
  · obtain rfl := JsonValue.object.inj heq
    exact hs
  · exact h p hp m' hm

/-! ## Paths -/

inductive Step where
  | index (i : Nat)
  | name (key : String)
  deriving DecidableEq

def child? : Step → JsonValue → Option JsonValue
  | .index i, .array xs => xs[i]?
  | .name key, .object m => OrdMap.find? key m
  | _, _ => none

def at? : List Step → JsonValue → Option JsonValue
  | [], j => some j
  | step :: path, j => (child? step j).bind (at? path)

theorem at?_cons {step : Step} {path : List Step} {j v : JsonValue} :
    at? (step :: path) j = some v ↔ ∃ x, child? step j = some x ∧ at? path x = some v :=
  Option.bind_eq_some_iff

theorem Ordered.child {j x : JsonValue} {step : Step} (h : j.Ordered) (hx : child? step j = some x) : x.Ordered := by
  cases step with
  | index i =>
    cases j with
    | array xs => exact h.mono (.element (List.mem_of_getElem? hx) .refl)
    | _ => cases hx
  | name key =>
    cases j with
    | object m => exact h.mono (.member (OrdMap.find?_mem hx) .refl)
    | _ => cases hx

end JsonValue

/-- A JSON value of the library: the members of each object are sorted. -/
structure JsonTree where
  value : JsonValue
  ordered : value.Ordered

end NeuralPlus
