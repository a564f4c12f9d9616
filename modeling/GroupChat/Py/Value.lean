import Mathlib.Data.List.DropRight
import Mathlib.Data.Rat.Floor

/-!
# Python values

Request bodies, WebSocket frames and gossip items reach the handlers as whatever `json.loads` or a
form parser makes of them, and the handlers pass most fields on without looking at their types.  So
the model works with Python values: `Value` has one constructor for each kind of object that can
come out of a JSON text, and `Value.file` for the upload object a multipart form can put in a
field.

* A `str` is a list of code points, `Str`.  Python allows lone surrogates in it, which is why it is
  not a Lean `String`; `utf8` is where they matter.
* `Value.truthy` and `Value.or` are the `x or y` chains by which the handlers pick defaults.
* `Value.key?` is what a `set` or a `dict` compares: `1`, `1.0` and `True` are the same key, a list
  or a dict is not hashable, and a NaN or an upload is equal to nothing but the very same object,
  so both carry the identity of the object.
* `Value.toInt` is `int(x)`, with the exception it raises.

What the standard library computes by tables — case mapping, character classes, the decimal
notation of floats, the digits `int` accepts in a string — is collected in `PyLib` and is a
parameter of the model.
-/

set_option autoImplicit false

namespace GroupChat

/-- A Python `str`: its code points, lone surrogates included. -/
abbrev Str := List ℕ

instance decidableMemStr (s : Str) (names : List Str) : Decidable (s ∈ names) :=
  List.instDecidableMemOfLawfulBEq s names

/-- A string literal of the source. -/
def lit (s : String) : Str := s.toList.map Char.toNat

/-- `bytes`. -/
abbrev Bytes := List UInt8

/-- The exceptions that the modelled code raises. -/
inductive PyError
  | attributeError
  | typeError
  | valueError
  | overflowError
  | unicodeEncodeError
  | mongoError
  deriving DecidableEq, Repr

/-- A Python `float`.  A NaN is only found again in a set through its identity. -/
inductive PyFloat
  | finite (q : ℚ)
  | inf (negative : Bool)
  | nan (object : ℕ)
  deriving DecidableEq

/-- The values that JSON texts, query strings and forms put into the program. -/
inductive Value
  | none
  | bool (b : Bool)
  | int (n : ℤ)
  | float (x : PyFloat)
  | str (s : Str)
  | list (xs : List Value)
  | dict (fields : List (String × Value))
  /-- An uploaded file, known by its identity. -/
  | file (object : ℕ)

/-! ## Dictionaries

A `dict` that comes out of a JSON text has strings for keys, and `json.loads` keeps the last of
several entries with one key.  `Obj` is the list of the entries in the order in which a loop meets
them. -/

/-- The fields of a `dict` with string keys. -/
abbrev Obj := List (String × Value)

/-- `d.get(k)`. -/
def Obj.get (d : Obj) (k : String) : Value :=
  ((d.find? fun p ↦ p.1 == k).map Prod.snd).getD .none

/-- `d.get(k, v)`. -/
def Obj.getD (d : Obj) (k : String) (v : Value) : Value :=
  ((d.find? fun p ↦ p.1 == k).map Prod.snd).getD v

namespace Value

/-! ## Truth values and defaults

Most fields are read as `data.get("room") or "general"`: a missing field, a null, an empty text, a
zero and an empty list are all replaced by the default, whatever the type of the field. -/

/-- `bool(x)`. -/
def truthy : Value → Bool
  | none => false
  | bool b => b
  | int n => decide (n ≠ 0)
  | float (.finite q) => decide (q ≠ 0)
  | float (.inf _) => true
  | float (.nan _) => true
  | str s => decide (s ≠ [])
  | list xs => !xs.isEmpty
  | dict fs => !fs.isEmpty
  | file _ => true

/-- `x or y`. -/
protected def or (x y : Value) : Value := if x.truthy then x else y

/-- The string, if the value is one. -/
def str? : Value → Option Str
  | str s => some s
  | _ => .none

/-- The value is a string exactly if a string is found in it. -/
theorem str?_eq_some_iff {x : Value} {s : Str} : x.str? = some s ↔ x = str s := by
  cases x <;> simp [str?]

/-- A truthy value is taken. -/
theorem or_of_truthy {x : Value} (h : x.truthy = true) (y : Value) : x.or y = x := by
  rw [Value.or, if_pos h]

/-- A falsy value is replaced by the default. -/
theorem or_of_falsy {x : Value} (h : x.truthy = false) (y : Value) : x.or y = y := by
  rw [Value.or, h, if_neg (by simp)]

end Value

/-! ## Hashing and equality

The windows of seen identifiers and the caches are sets and dictionaries whose keys come from
clients.  `Value.key?` maps two values to the same key exactly if Python finds the one where the
other was stored; it is `none` where hashing raises a `TypeError`. -/

/-- What `set` and `dict` compare. -/
inductive Key
  | none
  | num (q : ℚ)
  | inf (negative : Bool)
  | nan (object : ℕ)
  | str (s : Str)
  | file (object : ℕ)
  deriving DecidableEq

namespace Value

/-- The key of a hashable value. -/
def key? : Value → Option Key
  | none => some .none
  | bool b => some (.num (if b then 1 else 0))
  | int n => some (.num n)
  | float (.finite q) => some (.num q)
  | float (.inf neg) => some (.inf neg)
  | float (.nan o) => some (.nan o)
  | str s => some (.str s)
  | list _ => .none
  | dict _ => .none
  | file o => some (.file o)

@[simp] theorem key?_str (s : Str) : (str s).key? = some (.str s) := rfl

@[simp] theorem key?_int (n : ℤ) : (int n).key? = some (.num n) := rfl

/-- Can `json.dumps` write the value? -/
def serialisable : Value → Bool
  | none => true
  | bool _ => true
  | int _ => true
  | float _ => true
  | str _ => true
  | list xs => serialisableList xs
  | dict fs => serialisableFields fs
  | file _ => false
where
  /-- All elements of a list. -/
  serialisableList : List Value → Bool
    | [] => true
    | x :: xs => x.serialisable && serialisableList xs
  /-- All values of a dict. -/
  serialisableFields : List (String × Value) → Bool
    | [] => true
    | (_, x) :: fs => x.serialisable && serialisableFields fs

end Value

/-! ## Strings and numbers

`str.strip`, `str.encode` and `int` are written out where the claims about names and timestamps
depend on them.  What depends on tables is a field of `PyLib`, and the tables cut down to ASCII
serve for runs on concrete inputs. -/

/-- The white space `str.strip` removes. -/
def isSpace (c : ℕ) : Bool :=
  (9 ≤ c && c ≤ 13) || (28 ≤ c && c ≤ 32) || c == 0x85 || c == 0xa0 || c == 0x1680 ||
    (0x2000 ≤ c && c ≤ 0x200a) || c == 0x2028 || c == 0x2029 || c == 0x202f || c == 0x205f ||
    c == 0x3000

/-- `s.strip()`. -/
def Str.strip (s : Str) : Str := (s.dropWhile isSpace).rdropWhile isSpace

/-- The UTF-8 encoding of one code point; a surrogate has none. -/
def utf8Char (c : ℕ) : Option Bytes :=
  if c < 0x80 then some [.ofNat c]
  else if c < 0x800 then some [.ofNat (0xc0 + c / 0x40), .ofNat (0x80 + c % 0x40)]
  else if 0xd800 ≤ c ∧ c < 0xe000 then none
  else if c < 0x10000 then
    some [.ofNat (0xe0 + c / 0x1000), .ofNat (0x80 + c / 0x40 % 0x40), .ofNat (0x80 + c % 0x40)]
  else
    some [.ofNat (0xf0 + c / 0x40000), .ofNat (0x80 + c / 0x1000 % 0x40),
      .ofNat (0x80 + c / 0x40 % 0x40), .ofNat (0x80 + c % 0x40)]

/-- `s.encode('utf-8')`. -/
def utf8 (s : Str) : Except PyError Bytes :=
  match s.mapM utf8Char with
  | some bs => .ok bs.flatten
  | none => .error .unicodeEncodeError

/-- The parts of the standard library that rest on tables. -/
structure PyLib where
  /-- `s.lower()`. -/
  lower : Str → Str
  /-- `c.isalnum()`. -/
  isalnum : ℕ → Bool
  /-- `str(x)` of a float. -/
  reprFloat : PyFloat → Str
  /-- `str(x)` of a list, a dict or an upload. -/
  repr : Value → Str
  /-- `int(s)`; `none` where it raises `ValueError`. -/
  intOfStr : Str → Option ℤ

/-- The decimal value of a string of ASCII digits. -/
def asciiDigits (s : Str) : Option ℤ :=
  if s ≠ [] ∧ ∀ c ∈ s, 48 ≤ c ∧ c ≤ 57 then some (s.foldl (fun n c ↦ 10 * n + (c - 48 : ℤ)) 0)
  else none

/-- The tables cut down to ASCII, for runs on concrete inputs.  Lists, dicts, uploads and floats
print as a placeholder. -/
def asciiLib : PyLib where
  lower s := s.map fun c ↦ if 65 ≤ c ∧ c ≤ 90 then c + 32 else c
  isalnum c := (48 ≤ c && c ≤ 57) || (65 ≤ c && c ≤ 90) || (97 ≤ c && c ≤ 122)
  reprFloat _ := lit "<float>"
  repr _ := lit "<object>"
  intOfStr s := asciiDigits s.strip

/-- The decimal notation of an integer. -/
def intStr (n : ℤ) : Str := lit (toString n)

namespace Value

variable (L : PyLib)

/-- `str(x)`, which is also what an f-string writes. -/
def toStr : Value → Str
  | none => lit "None"
  | bool b => if b then lit "True" else lit "False"
  | int n => intStr n
  | float x => L.reprFloat x
  | str s => s
  | list xs => L.repr (list xs)
  | dict fs => L.repr (dict fs)
  | file o => L.repr (file o)

@[simp] theorem toStr_str (s : Str) : (str s).toStr L = s := rfl

/-- `int(x)`. -/
def toInt : Value → Except PyError ℤ
  | none => .error .typeError
  | bool b => .ok (if b then 1 else 0)
  | int n => .ok n
  | float (.finite q) => .ok (if 0 ≤ q then q.floor else q.ceil)
  | float (.inf _) => .error .overflowError
  | float (.nan _) => .error .valueError
  | str s => match L.intOfStr s with
    | some n => .ok n
    | .none => .error .valueError
  | list _ => .error .typeError
  | dict _ => .error .typeError
  | file _ => .error .typeError

@[simp] theorem toInt_int (n : ℤ) : (int n).toInt L = .ok n := rfl

/-- The default timestamps are integers, so `int` accepts the one that is chosen. -/
theorem toInt_or_int (a b : ℤ) : ∃ n, ((int a).or (int b)).toInt L = .ok n := by
  rw [Value.or]
  split <;> exact ⟨_, rfl⟩

end Value

end GroupChat
