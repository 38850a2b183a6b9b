import NeuralPlus.OrdMap
import Mathlib.Data.String.Basic

/-!
# JSON values

`nlohmann::json` as the SDK uses it: seven kinds of value, with integers,
unsigned integers and doubles kept apart, and objects ordered by member name.
Only its observable value semantics is modelled; parsing and dumping text are
parameters of the functions that need them (`JsonText`).
-/

namespace NeuralPlus

/-! ## Doubles -/

/-- An IEEE 754 binary64 value, by its bit pattern. -/
structure Double where
  bits : UInt64
  deriving DecidableEq, Repr, Inhabited

namespace Double

def exponent (d : Double) : Nat := d.bits.toNat / 2 ^ 52 % 2 ^ 11

def fraction (d : Double) : Nat := d.bits.toNat % 2 ^ 52

def signBit (d : Double) : Bool := 2 ^ 63 ≤ d.bits.toNat

def isFinite (d : Double) : Bool := d.exponent != 2047

def isNan (d : Double) : Bool := d.exponent == 2047 && d.fraction != 0

def isZero (d : Double) : Bool := d.exponent == 0 && d.fraction == 0

def isNegative (d : Double) : Bool := d.signBit && !d.isNan && !d.isZero

def eq (a b : Double) : Bool :=
  !a.isNan && !b.isNan && (a.bits == b.bits || (a.isZero && b.isZero))

/-- `static_cast<double>` of an integer: round to nearest, ties to even. -/
def ofInt (i : Int) : Double :=
  let m := i.natAbs
  if m = 0 then ⟨0⟩
  else
    let e := Nat.log2 m
    let q :=
      if e ≤ 52 then m * 2 ^ (52 - e)
      else
        let s := 2 ^ (e - 52)
        let r := m % s
        if 2 * r > s ∨ (2 * r = s ∧ m / s % 2 = 1) then m / s + 1 else m / s
    ⟨UInt64.ofNat ((if i < 0 then 2 ^ 63 else 0) + (1023 + e) * 2 ^ 52 + (q - 2 ^ 52))⟩

end Double

/-! ## Values -/

inductive JsonValue where
  | null
  | boolean (b : Bool)
  | integer (i : Int64)
  | unsigned (u : UInt64)
  | float (d : Double)
  | string (s : String)
  | array (elements : List JsonValue)
  | object (members : List (String × JsonValue))
  deriving Inhabited

namespace JsonValue

def isNull : JsonValue → Bool
  | null => true
  | _ => false

def isBoolean : JsonValue → Bool
  | boolean _ => true
  | _ => false

/-- `is_number_integer`, which holds of unsigned integers too. -/
def isNumberInteger : JsonValue → Bool
  | integer _ | unsigned _ => true
  | _ => false

def isNumberUnsigned : JsonValue → Bool
  | unsigned _ => true
  | _ => false

def isNumber : JsonValue → Bool
  | integer _ | unsigned _ | float _ => true
  | _ => false

def isString : JsonValue → Bool
  | string _ => true
  | _ => false

def isArray : JsonValue → Bool
  | array _ => true
  | _ => false

def isObject : JsonValue → Bool
  | object _ => true
  | _ => false

/-- `find(key)`; on a value that is not an object it is `end()`. -/
def find? (key : String) : JsonValue → Option JsonValue
  | object m => OrdMap.find? key m
  | _ => none

def contains (key : String) (j : JsonValue) : Bool := (j.find? key).isSome

def ofMembers (l : List (String × JsonValue)) : JsonValue := object (OrdMap.ofList l)

def emptyObject : JsonValue := object []

/-- `operator[]` takes a key: an object, or null, which becomes one. -/
def acceptsKey : JsonValue → Bool
  | object _ | null => true
  | _ => false

def set (j : JsonValue) (key : String) (value : JsonValue) : JsonValue :=
  match j with
  | object m => object (OrdMap.insert key value m)
  | null => object [(key, value)]
  | j => j

def erase (key : String) : JsonValue → JsonValue
  | object m => object (OrdMap.erase key m)
  | j => j

def update (j other : JsonValue) : JsonValue :=
  match j, other with
  | object m, object m' => object (OrdMap.update m m')
  | j, _ => j

@[simp] theorem find?_ofMembers (key : String) (l : List (String × JsonValue)) :
    (ofMembers l).find? key = OrdMap.find? key l := OrdMap.find?_ofList key l

@[simp] theorem isObject_emptyObject : emptyObject.isObject = true := rfl

@[simp] theorem isObject_ofMembers (l : List (String × JsonValue)) : (ofMembers l).isObject = true := rfl

theorem isObject_of_find? {j v : JsonValue} {key : String} (h : j.find? key = some v) : j.isObject = true := by
  cases j with
  | object m => rfl
  | _ => cases h

theorem acceptsKey_of_isObject {j : JsonValue} (hj : j.isObject = true) : j.acceptsKey = true := by
  cases j with
  | object m => rfl
  | _ => cases hj

theorem isObject_set {j : JsonValue} (hj : j.acceptsKey = true) (key : String) (v : JsonValue) :
    (j.set key v).isObject = true := by
  cases j with
  | object m => rfl
  | null => rfl
  | _ => cases hj

@[simp] theorem acceptsKey_set (key : String) (v j : JsonValue) : (j.set key v).acceptsKey = j.acceptsKey := by
  cases j <;> rfl

theorem find?_set {j : JsonValue} (hj : j.acceptsKey = true) (key key' : String) (v : JsonValue) :
    (j.set key' v).find? key = if key' = key then some v else j.find? key := by
  cases j with
  | object m => exact OrdMap.find?_insert key key' v m
  | null => exact OrdMap.find?_cons key key' v []
  | _ => cases hj

theorem find?_set_ne {key key' : String} (h : key' ≠ key) (j v : JsonValue) :
    (j.set key' v).find? key = j.find? key := by
  cases j with
  | object m => exact OrdMap.find?_insert_ne h v m
  | null => exact if_neg h
  | _ => rfl

theorem find?_update {j other : JsonValue} (hj : j.isObject = true) (hother : other.isObject = true) (key : String) :
    (j.update other).find? key = (other.find? key).or (j.find? key) := by
  cases j with
  | object m =>
    cases other with
    | object m' => exact OrdMap.find?_update key m m'
    | _ => cases hother
  | _ => cases hj

theorem sizeOf_find? {j v : JsonValue} {key : String} (h : j.find? key = some v) : sizeOf v < sizeOf j := by
  cases j with
  | object m =>
    have hm : (key, v) ∈ m := OrdMap.find?_mem h
    have h₁ := List.sizeOf_lt_of_mem hm
    simp only [Prod.mk.sizeOf_spec] at h₁
    simp only [object.sizeOf_spec]
    omega
  | _ => cases h

@[elab_as_elim]
theorem treeInduction {P : JsonValue → Prop} (null : P .null) (boolean : ∀ b, P (.boolean b))
    (integer : ∀ i, P (.integer i)) (unsigned : ∀ u, P (.unsigned u)) (float : ∀ d, P (.float d))
    (string : ∀ s, P (.string s)) (array : ∀ xs, (∀ x ∈ xs, P x) → P (.array xs))
    (object : ∀ m, (∀ p ∈ m, P p.2) → P (.object m)) : ∀ j, P j
  | .null => null
  | .boolean b => boolean b
  | .integer i => integer i
  | .unsigned u => unsigned u
  | .float d => float d
  | .string s => string s
  | .array xs => array xs fun x _ => treeInduction null boolean integer unsigned float string array object x
  | .object m => object m fun p hp =>
    have : sizeOf p.2 < sizeOf m := by
      have := List.sizeOf_lt_of_mem hp
      have : sizeOf p = 1 + sizeOf p.1 + sizeOf p.2 := rfl
      omega
    treeInduction null boolean integer unsigned float string array object p.2

/-! ## Equality -/

mutual
def same : JsonValue → JsonValue → Bool
  | null, null => true
  | boolean a, boolean b => a == b
  | integer a, integer b => a == b
  | unsigned a, unsigned b => a == b
  | float a, float b => a == b
  | string a, string b => a == b
  | array a, array b => sameList a b
  | object a, object b => sameMembers a b
  | _, _ => false
def sameList : List JsonValue → List JsonValue → Bool
  | [], [] => true
  | a :: as, b :: bs => same a b && sameList as bs
  | _, _ => false
def sameMembers : List (String × JsonValue) → List (String × JsonValue) → Bool
  | [], [] => true
  | (k, a) :: as, (l, b) :: bs => k == l && same a b && sameMembers as bs
  | _, _ => false
end

mutual
theorem eq_of_same : ∀ {a b : JsonValue}, same a b = true → a = b
  | null, b, h => by cases b <;> simp [same] at h ⊢
  | boolean _, b, h => by cases b <;> simp [same] at h ⊢; exact h
  | integer _, b, h => by cases b <;> simp [same] at h ⊢; exact h
  | unsigned _, b, h => by cases b <;> simp [same] at h ⊢; exact h
  | float _, b, h => by cases b <;> simp [same] at h ⊢; exact h
  | string _, b, h => by cases b <;> simp [same] at h ⊢; exact h
  | array as, b, h => by
    cases b <;> simp only [same, Bool.false_eq_true] at h
    rw [eq_of_sameList h]
  | object as, b, h => by
    cases b <;> simp only [same, Bool.false_eq_true] at h
    rw [eq_of_sameMembers h]
theorem eq_of_sameList : ∀ {as bs : List JsonValue}, sameList as bs = true → as = bs
  | [], bs, h => by cases bs <;> simp [sameList] at h ⊢
  | a :: as, bs, h => by
    cases bs with
    | nil => simp [sameList] at h
    | cons b bs =>
      simp only [sameList, Bool.and_eq_true] at h
      rw [eq_of_same h.1, eq_of_sameList h.2]
theorem eq_of_sameMembers : ∀ {as bs : List (String × JsonValue)}, sameMembers as bs = true → as = bs
  | [], bs, h => by cases bs <;> simp [sameMembers] at h ⊢
  | (k, a) :: as, bs, h => by
    cases bs with
    | nil => simp [sameMembers] at h
    | cons p bs =>
      obtain ⟨l, b⟩ := p
      simp only [sameMembers, Bool.and_eq_true, beq_iff_eq] at h
      rw [h.1.1, eq_of_same h.1.2, eq_of_sameMembers h.2]
end

mutual
theorem same_refl : ∀ a : JsonValue, same a a = true
  | null => rfl
  | boolean _ => by simp [same]
  | integer _ => by simp [same]
  | unsigned _ => by simp [same]
  | float _ => by simp [same]
  | string _ => by simp [same]
  | array as => sameList_refl as
  | object as => sameMembers_refl as
theorem sameList_refl : ∀ as : List JsonValue, sameList as as = true
  | [] => rfl
  | a :: as => by simp [sameList, same_refl a, sameList_refl as]
theorem sameMembers_refl : ∀ as : List (String × JsonValue), sameMembers as as = true
  | [] => rfl
  | (k, a) :: as => by simp [sameMembers, same_refl a, sameMembers_refl as]
end

instance : DecidableEq JsonValue := fun a b =>
  decidable_of_iff (same a b = true) ⟨eq_of_same, fun h => h ▸ same_refl a⟩

mutual
/-- `operator==`: numbers of different kinds compare after the conversions the
library makes, an unsigned integer to a signed one and an integer to a double. -/
def eq : JsonValue → JsonValue → Bool
  | null, null => true
  | boolean a, boolean b => a == b
  | integer a, integer b => a == b
  | unsigned a, unsigned b => a == b
  | float a, float b => a.eq b
  | integer a, float b => (Double.ofInt a.toInt).eq b
  | float a, integer b => a.eq (Double.ofInt b.toInt)
  | unsigned a, float b => (Double.ofInt a.toNat).eq b
  | float a, unsigned b => a.eq (Double.ofInt b.toNat)
  | unsigned a, integer b => a.toInt64 == b
  | integer a, unsigned b => a == b.toInt64
  | string a, string b => a == b
  | array a, array b => eqList a b
  | object a, object b => eqMembers a b
  | _, _ => false
def eqList : List JsonValue → List JsonValue → Bool
  | [], [] => true
  | a :: as, b :: bs => eq a b && eqList as bs
  | _, _ => false
def eqMembers : List (String × JsonValue) → List (String × JsonValue) → Bool
  | [], [] => true
  | (k, a) :: as, (l, b) :: bs => k == l && eq a b && eqMembers as bs
  | _, _ => false
end

end JsonValue

example : (JsonValue.integer 3).eq (.float (Double.ofInt 3)) = true := by decide

end NeuralPlus
