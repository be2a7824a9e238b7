import Mathlib.Data.List.Basic
import Yab.Go.Float

/-!
# Template/Yaml — the YAML values a request template decodes to

`yaml.v2` decodes a document into `interface{}` as one of three shapes: a scalar (`nil`, a
`bool`, an `int`, a `float64`, a `string`), a sequence `[]interface{}`, or a mapping
`map[interface{}]interface{}`.  `Yaml` is that tree.  A mapping's keys are scalars: the decoder
refuses a sequence or a mapping as a key, and Go could not hash one.  Its entries are listed in
the order one `range` over it visits them; a well-formed tree (`Yaml.WF`) has pairwise distinct
keys at every depth, as a Go map must.  Keys are compared as values of `Scalar`; for `float64`
keys that is Go's `==` except at NaN, which Go never finds equal to itself, and at `-0`, which Go
finds equal to `+0`.

Two collections over a tree feed the statements about the template code: every string in it,
keys and values alike (`Yaml.strings`), and every key (`Yaml.keys`).

The template code hands rendered text to `yaml.Unmarshal`; the general results take that decoder
as a parameter.  `plainYaml` is the library's reading of the one-line texts the results evaluate
the code at — plain scalars and flow sequences of plain scalars.  Floats, timestamps, integers
in other bases or with underscores, and block structure are outside it, and it reads every
decimal integer as an `int`, where `yaml.v2` reads one past `int`'s range as a `uint64` or a
`float64`: the results that use it evaluate it only at texts it reads as `yaml.v2` does.
-/

namespace Yab

/-- **A YAML scalar**, as `yaml.v2` decodes one into `interface{}`. -/
inductive Scalar
  | null
  | bool (b : Bool)
  | int (n : Int)
  | float (x : F64)
  | str (s : String)
  deriving DecidableEq, Repr

/-- **A YAML tree**: a scalar, a sequence, or a mapping listed in one iteration order. -/
inductive Yaml
  | scalar (s : Scalar)
  | list (xs : List Yaml)
  | map (kvs : List (Scalar × Yaml))
  deriving Repr

/-- The string a scalar is, if it is one. -/
def Scalar.strings : Scalar → List String
  | .str s => [s]
  | _ => []

namespace Yaml

/-! ## Equality

A nested inductive gets no derived `DecidableEq` here, so the three deciders recurse together,
through the tree, its sequences and its mappings. -/

mutual
/-- Equality of trees is decidable. -/
def decEq : (a b : Yaml) → Decidable (a = b)
  | .scalar a, .scalar b =>
    if h : a = b then isTrue (h ▸ rfl) else isFalse (fun e => by cases e; exact h rfl)
  | .list a, .list b =>
    match decEqList a b with
    | isTrue h => isTrue (h ▸ rfl)
    | isFalse h => isFalse (fun e => by cases e; exact h rfl)
  | .map a, .map b =>
    match decEqMap a b with
    | isTrue h => isTrue (h ▸ rfl)
    | isFalse h => isFalse (fun e => by cases e; exact h rfl)
  | .scalar _, .list _ => isFalse nofun
  | .scalar _, .map _ => isFalse nofun
  | .list _, .scalar _ => isFalse nofun
  | .list _, .map _ => isFalse nofun
  | .map _, .scalar _ => isFalse nofun
  | .map _, .list _ => isFalse nofun
/-- Equality of sequences of trees is decidable. -/
def decEqList : (a b : List Yaml) → Decidable (a = b)
  | [], [] => isTrue rfl
  | [], _ :: _ => isFalse nofun
  | _ :: _, [] => isFalse nofun
  | a :: as, b :: bs =>
    match decEq a b, decEqList as bs with
    | isTrue h, isTrue h' => isTrue (h ▸ h' ▸ rfl)
    | isFalse h, _ => isFalse (fun e => by cases e; exact h rfl)
    | _, isFalse h' => isFalse (fun e => by cases e; exact h' rfl)
/-- Equality of mappings, entry by entry in their listed order, is decidable. -/
def decEqMap : (a b : List (Scalar × Yaml)) → Decidable (a = b)
  | [], [] => isTrue rfl
  | [], _ :: _ => isFalse nofun
  | _ :: _, [] => isFalse nofun
  | (k, a) :: as, (k', b) :: bs =>
    if hk : k = k' then
      match decEq a b, decEqMap as bs with
      | isTrue h, isTrue h' => isTrue (hk ▸ h ▸ h' ▸ rfl)
      | isFalse h, _ => isFalse (fun e => by cases e; exact h rfl)
      | _, isFalse h' => isFalse (fun e => by cases e; exact h' rfl)
    else isFalse (fun e => by cases e; exact hk rfl)
end

instance : DecidableEq Yaml := decEq

/-- Whether a value can be a Go map key: a scalar, not a slice or a map. -/
def isScalar : Yaml → Bool
  | scalar _ => true
  | _ => false

/-! ## What a tree holds -/

mutual
/-- **Every string of a tree**, keys and values alike, in the order the loops visit them. -/
def strings : Yaml → List String
  | scalar s => s.strings
  | list xs => stringsList xs
  | map kvs => stringsMap kvs
/-- The strings of a sequence. -/
def stringsList : List Yaml → List String
  | [] => []
  | x :: xs => strings x ++ stringsList xs
/-- The strings of a mapping: each key's, then its value's. -/
def stringsMap : List (Scalar × Yaml) → List String
  | [] => []
  | (k, v) :: kvs => k.strings ++ strings v ++ stringsMap kvs
end

mutual
/-- **Every key of a tree**, at every depth. -/
def keys : Yaml → List Scalar
  | scalar _ => []
  | list xs => keysList xs
  | map kvs => keysMap kvs
/-- The keys of a sequence. -/
def keysList : List Yaml → List Scalar
  | [] => []
  | x :: xs => keys x ++ keysList xs
/-- The keys of a mapping: each entry's own key, then the keys inside its value. -/
def keysMap : List (Scalar × Yaml) → List Scalar
  | [] => []
  | (k, v) :: kvs => k :: (keys v ++ keysMap kvs)
end

mutual
/-- **A well-formed tree**: every mapping in it, at every depth, has pairwise distinct keys. -/
def WF : Yaml → Prop
  | scalar _ => True
  | list xs => WFList xs
  | map kvs => (kvs.map Prod.fst).Nodup ∧ WFMap kvs
/-- Every tree of a sequence is well formed. -/
def WFList : List Yaml → Prop
  | [] => True
  | x :: xs => WF x ∧ WFList xs
/-- Every value of a mapping is well formed. -/
def WFMap : List (Scalar × Yaml) → Prop
  | [] => True
  | (_, v) :: kvs => WF v ∧ WFMap kvs
end

end Yaml

/-! ## The library's reading of one-line text -/

/-- The plain words `yaml.v2` resolves to `nil`. -/
def nullWords : List String := ["", "~", "null", "Null", "NULL"]

/-- The plain words `yaml.v2` resolves to `true` (YAML 1.1 booleans). -/
def trueWords : List String := ["y", "Y", "yes", "Yes", "YES", "true", "True", "TRUE",
  "on", "On", "ON"]

/-- The plain words `yaml.v2` resolves to `false`. -/
def falseWords : List String := ["n", "N", "no", "No", "NO", "false", "False", "FALSE",
  "off", "Off", "OFF"]

/-- The value of a run of decimal digits with no leading zero. -/
def decimalDigits? : List Char → Option Nat
  | [] => none
  | ['0'] => some 0
  | '0' :: _ :: _ => none
  | ds => if ds.all Char.isDigit then
      some (ds.foldl (fun n c => 10 * n + (c.toNat - '0'.toNat)) 0) else none

/-- A decimal integer, with an optional sign. -/
def decimalInt? : List Char → Option Int
  | '-' :: ds => (decimalDigits? ds).map fun n => -(n : Int)
  | '+' :: ds => (decimalDigits? ds).map fun n => (n : Int)
  | ds => (decimalDigits? ds).map fun n => (n : Int)

/-- A plain scalar, resolved as `yaml.v2` resolves one: `nil`, a boolean, a decimal integer, or
else the text itself as a string. -/
def resolvePlain (s : String) : Scalar :=
  if s ∈ nullWords then .null
  else if s ∈ trueWords then .bool true
  else if s ∈ falseWords then .bool false
  else match decimalInt? s.toList with
    | some n => .int n
    | none => .str s

/-- Blanks around a flow sequence's item. -/
def trimBlanks (cs : List Char) : List Char :=
  ((cs.dropWhile (· = ' ')).reverse.dropWhile (· = ' ')).reverse

/-- **`yaml.Unmarshal` on one line of text**: a flow sequence `[a, b]` of plain scalars is a
sequence, an unclosed `[` is the library's syntax error, and any other text is a plain scalar. -/
def plainYaml (s : String) : Except String Yaml :=
  match s.toList with
  | '[' :: rest =>
    if rest.getLast? = some ']' then
      match trimBlanks rest.dropLast with
      | [] => .ok (.list [])
      | inner => .ok (.list ((inner.splitOn ',').map fun item =>
          .scalar (resolvePlain (String.mk (trimBlanks item)))))
    else .error "yaml: line 1: did not find expected node content"
  | _ => .ok (.scalar (resolvePlain s))

end Yab
