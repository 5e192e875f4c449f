import Mathlib.Data.Rat.Defs
import VardrMap.Lib.Text

/-!
# Decoded JSON values of a dynamic language

`Json` is what a JSON decoder hands to the program: `None`, booleans, integers of any
size, floats, strings, lists and dictionaries in insertion order. The functions below
are the language's own operations on such values, each with the exception it raises:
indexing, `get`, iteration, truth, equality and `str`.
-/
namespace Lib

/-- A decoded JSON value. A float is kept with its exact value and the text `repr`
gives it; `nonfinite` is `NaN` or an infinity, which the decoder also accepts. -/
inductive Json where
  | null
  | bool (b : Bool)
  | int (n : ℤ)
  | float (value : ℚ) (repr : String)
  | nonfinite (repr : String)
  | str (s : String)
  | arr (xs : List Json)
  | obj (fields : List (String × Json))

/-- The exceptions that operations on decoded values raise. -/
inductive Exn where
  | keyError
  | typeError
  | attributeError
  | valueError
  | overflowError
  deriving DecidableEq


namespace Json

/-! ## Decidable equality -/

mutual

def decEq : (a b : Json) → Decidable (a = b)
  | null, null => isTrue rfl
  | bool a, bool b => decidable_of_iff (a = b) (by simp)
  | int a, int b => decidable_of_iff (a = b) (by simp)
  | float v r, float v' r' => decidable_of_iff (v = v' ∧ r = r') (by simp)
  | nonfinite a, nonfinite b => decidable_of_iff (a = b) (by simp)
  | str a, str b => decidable_of_iff (a = b) (by simp)
  | arr a, arr b => have := decEqList a b; decidable_of_iff (a = b) (by simp)
  | obj a, obj b => have := decEqFields a b; decidable_of_iff (a = b) (by simp)
  | null, bool _ | null, int _ | null, float .. | null, nonfinite _ | null, str _
  | null, arr _ | null, obj _ => isFalse (by simp)
  | bool _, null | bool _, int _ | bool _, float .. | bool _, nonfinite _ | bool _, str _
  | bool _, arr _ | bool _, obj _ => isFalse (by simp)
  | int _, null | int _, bool _ | int _, float .. | int _, nonfinite _ | int _, str _
  | int _, arr _ | int _, obj _ => isFalse (by simp)
  | float .., null | float .., bool _ | float .., int _ | float .., nonfinite _
  | float .., str _ | float .., arr _ | float .., obj _ => isFalse (by simp)
  | nonfinite _, null | nonfinite _, bool _ | nonfinite _, int _ | nonfinite _, float ..
  | nonfinite _, str _ | nonfinite _, arr _ | nonfinite _, obj _ => isFalse (by simp)
  | str _, null | str _, bool _ | str _, int _ | str _, float .. | str _, nonfinite _
  | str _, arr _ | str _, obj _ => isFalse (by simp)
  | arr _, null | arr _, bool _ | arr _, int _ | arr _, float .. | arr _, nonfinite _
  | arr _, str _ | arr _, obj _ => isFalse (by simp)
  | obj _, null | obj _, bool _ | obj _, int _ | obj _, float .. | obj _, nonfinite _
  | obj _, str _ | obj _, arr _ => isFalse (by simp)

def decEqList : (a b : List Json) → Decidable (a = b)
  | [], [] => isTrue rfl
  | x :: xs, y :: ys =>
    have := decEq x y
    have := decEqList xs ys
    decidable_of_iff (x = y ∧ xs = ys) (by simp)
  | [], _ :: _ | _ :: _, [] => isFalse (by simp)

def decEqFields : (a b : List (String × Json)) → Decidable (a = b)
  | [], [] => isTrue rfl
  | (k, x) :: xs, (l, y) :: ys =>
    have := decEq x y
    have := decEqFields xs ys
    decidable_of_iff (k = l ∧ x = y ∧ xs = ys) (by simp [and_assoc])
  | [], _ :: _ | _ :: _, [] => isFalse (by simp)

end

instance : DecidableEq Json := decEq

/-! ## Truth and equality -/

/-- `bool(value)`. -/
def truthy : Json → Bool
  | null => false
  | bool b => b
  | int n => n != 0
  | float v _ => v != 0
  | nonfinite _ => true
  | str s => s != ""
  | arr xs => !xs.isEmpty
  | obj fs => !fs.isEmpty

/-- The number a value is compared as; booleans are the integers 0 and 1. -/
def number? : Json → Option ℚ
  | bool b => some (if b then 1 else 0)
  | int n => some n
  | float v _ => some v
  | _ => none

mutual

/-- `a == b`: numbers compare by value, dictionaries without regard to order. -/
def pyEq : Json → Json → Bool
  | null, null => true
  | str a, str b => a == b
  | nonfinite a, nonfinite b => a == b && a != "NaN"
  | arr a, arr b => pyEqList a b
  | obj a, obj b => a.length == b.length && pyEqFields a b
  | a, b =>
    match number? a, number? b with
    | some x, some y => x == y
    | _, _ => false

def pyEqList : List Json → List Json → Bool
  | [], [] => true
  | x :: xs, y :: ys => pyEq x y && pyEqList xs ys
  | _, _ => false

/-- Every field of the first dictionary is in the second with an equal value. -/
def pyEqFields : List (String × Json) → List (String × Json) → Bool
  | [], _ => true
  | (k, x) :: xs, ys =>
    (match ys.lookup k with
      | some y => pyEq x y
      | none => false) && pyEqFields xs ys

end

/-- `a or b`. -/
def orElse (a b : Json) : Json := if a.truthy then a else b

/-- A value that may be a dictionary key. -/
def hashable : Json → Bool
  | arr _ | obj _ => false
  | _ => true

/-- `type(value) is int`; a boolean is not one. -/
def int? : Json → Option ℤ
  | int n => some n
  | _ => none

def str? : Json → Option String
  | str s => some s
  | _ => none

def arr? : Json → Option (List Json)
  | arr xs => some xs
  | _ => none

/-- `isinstance(value, dict)`. -/
def isObj : Json → Bool
  | obj _ => true
  | _ => false

/-! ## Access -/

/-- The field of a dictionary, `None` when it is absent or the value is no dictionary. -/
def field (j : Json) (k : String) : Json :=
  match j with
  | obj fs => (fs.lookup k).getD null
  | _ => null

/-- The keys of a dictionary. -/
def keys : Json → List String
  | obj fs => fs.map Prod.fst
  | _ => []

/-- `k in value` for a dictionary. -/
def hasField (j : Json) (k : String) : Bool :=
  match j with
  | obj fs => (fs.lookup k).isSome
  | _ => false

/-- `value.get(k, default)`. -/
def getD (j : Json) (k : String) (default : Json) : Except Exn Json :=
  match j with
  | obj fs => .ok ((fs.lookup k).getD default)
  | _ => .error .attributeError

/-- `value.get(k)`. -/
def get (j : Json) (k : String) : Except Exn Json := j.getD k null

/-- `value[k]` for a string key. -/
def item (j : Json) (k : String) : Except Exn Json :=
  match j with
  | obj fs =>
    match fs.lookup k with
    | some v => .ok v
    | none => .error .keyError
  | _ => .error .typeError

/-- `for x in value`: a dictionary yields its keys and a string its characters. -/
def iter : Json → Except Exn (List Json)
  | arr xs => .ok xs
  | obj fs => .ok (fs.map fun p => str p.1)
  | str s => .ok (s.toList.map fun c => str (String.ofList [c]))
  | _ => .error .typeError

/-- The key of a set or dictionary; a list or dictionary is refused. -/
def asKey (j : Json) : Except Exn Json := if j.hashable then .ok j else .error .typeError

theorem asKey_eq_ok {j k : Json} (h : j.asKey = .ok k) : k = j := by
  unfold asKey at h
  split at h
  · exact (Except.ok.inj h).symm
  · simp at h

@[simp] theorem get_obj (fs : List (String × Json)) (k : String) :
    (obj fs).get k = .ok ((fs.lookup k).getD null) := rfl

theorem get_eq_ok {j : Json} {k : String} {v : Json} (h : j.get k = .ok v) : j.field k = v := by
  cases j with
  | obj fs => simpa [get, getD, field] using h
  | _ => simp [get, getD] at h

/-! ## Assignment -/

/-- The entries with one value replaced, or the entry added last. -/
def setEntry (k : String) (v : Json) : List (String × Json) → List (String × Json)
  | [] => [(k, v)]
  | (k', w) :: fs => if k == k' then (k', v) :: fs else (k', w) :: setEntry k v fs

/-- `value[k] = v` on a dictionary. -/
def set (j : Json) (k : String) (v : Json) : Json :=
  match j with
  | obj fs => obj (setEntry k v fs)
  | j => j

theorem lookup_setEntry (k k' : String) (v : Json) (fs : List (String × Json)) :
    (setEntry k v fs).lookup k' = if k' = k then some v else fs.lookup k' := by
  induction fs with
  | nil =>
    rw [setEntry, List.lookup_cons]
    by_cases h : k' = k
    · simp [h]
    · simp [h, beq_eq_false_iff_ne.mpr h]
  | cons f fs ih =>
    obtain ⟨n, w⟩ := f
    unfold setEntry
    by_cases hn : k = n
    · subst hn
      rw [if_pos (beq_self_eq_true k), List.lookup_cons, List.lookup_cons]
      by_cases h : k' = k
      · simp [h]
      · simp [h, beq_eq_false_iff_ne.mpr h]
    · rw [if_neg (by simpa using hn), List.lookup_cons, List.lookup_cons, ih]
      by_cases h : k' = n
      · subst h
        simp [Ne.symm hn]
      · simp [beq_eq_false_iff_ne.mpr h]

@[simp] theorem isObj_set (j : Json) (k : String) (v : Json) : (j.set k v).isObj = j.isObj := by
  cases j <;> rfl

theorem field_set_ne {k k' : String} (h : k' ≠ k) (j v : Json) :
    (j.set k v).field k' = j.field k' := by
  cases j with
  | obj fs => simp only [set, field, lookup_setEntry, if_neg h]
  | _ => rfl

theorem field_set_self {j : Json} {k : String} (h : j.isObj = true) (v : Json) :
    (j.set k v).field k = v := by
  cases j with
  | obj fs => simp [set, field, lookup_setEntry]
  | _ => simp [isObj] at h

/-! ## `str` -/

variable [Unicode]

def hexDigit (n : ℕ) : Char := if n < 10 then Char.ofNat (48 + n) else Char.ofNat (87 + n)

/-- `n` in lower-case hexadecimal, padded to `width` digits. -/
def hex : (width : ℕ) → ℕ → Text
  | 0, _ => []
  | width + 1, n => hex width (n / 16) ++ [hexDigit (n % 16)]

/-- `repr` of one code point inside quotes `q`. -/
def reprChar (q c : Char) : Text :=
  if c == q || c == '\\' then ['\\', c]
  else if c == '\n' then ['\\', 'n']
  else if c == '\r' then ['\\', 'r']
  else if c == '\t' then ['\\', 't']
  else if Unicode.printable c then [c]
  else if c.toNat < 256 then '\\' :: 'x' :: hex 2 c.toNat
  else if c.toNat < 65536 then '\\' :: 'u' :: hex 4 c.toNat
  else '\\' :: 'U' :: hex 8 c.toNat

/-- `repr` of a string: double quotes only when it holds a single and no double one. -/
def reprText (l : Text) : Text :=
  let q := if l.contains '\'' && !l.contains '"' then '"' else '\''
  q :: l.flatMap (reprChar q) ++ [q]

mutual

/-- `repr(value)`. -/
def repr : Json → Text
  | null => "None".toList
  | bool b => (if b then "True" else "False").toList
  | int n => (toString n).toList
  | float _ r => r.toList
  | nonfinite r => if r == "NaN" then "nan".toList else if r == "Infinity" then "inf".toList
      else "-inf".toList
  | str s => reprText s.toList
  | arr xs => '[' :: reprList xs ++ [']']
  | obj fs => '{' :: reprFields fs ++ ['}']

def reprList : List Json → Text
  | [] => []
  | [x] => repr x
  | x :: xs => repr x ++ ", ".toList ++ reprList xs

def reprFields : List (String × Json) → Text
  | [] => []
  | [(k, x)] => reprText k.toList ++ ": ".toList ++ repr x
  | (k, x) :: xs => reprText k.toList ++ ": ".toList ++ repr x ++ ", ".toList ++ reprFields xs

end

/-- `str(value)`. -/
def toStr : Json → String
  | str s => s
  | j => String.ofList (repr j)

/-- `str(value or "")`, the program's way of reading an optional identifier. -/
def toStrOr (j : Json) (default : String) : String := if j.truthy then toStr j else default

@[simp] theorem toStr_str (s : String) : toStr (str s) = s := rfl

/-- `int(value)`: floats are cut off towards zero. -/
def toInt : Json → Except Exn ℤ
  | bool b => .ok (if b then 1 else 0)
  | int n => .ok n
  | float value _ => .ok (value.num.tdiv value.den)
  | nonfinite r => .error (if r == "NaN" then .valueError else .overflowError)
  | str s =>
    match Text.integer? s.toList with
    | some n => .ok n
    | none => .error .valueError
  | null | arr _ | obj _ => .error .typeError

/-- `type(value).__name__`. -/
def typeName : Json → String
  | null => "NoneType"
  | bool _ => "bool"
  | int _ => "int"
  | float .. | nonfinite _ => "float"
  | str _ => "str"
  | arr _ => "list"
  | obj _ => "dict"

end Json
end Lib

/-- A list comprehension whose condition may raise. -/
def List.filterE {ε α : Type} (p : α → Except ε Bool) : List α → Except ε (List α)
  | [] => .ok []
  | x :: xs => do
    let keep ← p x
    let rest ← filterE p xs
    return if keep then x :: rest else rest
