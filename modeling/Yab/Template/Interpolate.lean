import Mathlib.Data.List.Basic

/-!
# Template/Interpolate — template arguments inside a string

Modelled from the spec: the package `templateargs/interpolate` is not among the sources.
`processString` uses two of its functions, `interpolate.Parse` and `String.Render`, and
`ProcessMap`'s comment shows the form they handle, a variable with a default such as
`${user:guest}`.  Here a string is parsed into literal characters and variables `${name}` or
`${name:default}`; an unclosed `${` is a parse error.  Rendering looks each variable up, falls
back to its default, and fails on a variable with neither.

The facts the template code needs of the package: a string with no `$` in it parses to its
own characters (`parse_of_not_dollar`), and they render to the string, whatever the arguments
(`render_literals`); and rendering reads the arguments only at the names of the string's
variables (`render_congr`).
-/

namespace Yab

namespace Interpolate

/-- **A piece of a parsed string**: a literal character, or a variable with an optional
default. -/
inductive Part
  | literal (c : Char)
  | variable (name : String) (default : Option String)
  deriving DecidableEq, Repr

/-- Where the scanner stands: in text, in a variable's name, or in its default. -/
inductive Scan
  | text
  | name (acc : List Char)
  | default (name acc : List Char)

/-- The scanner, one character at a time; `acc`s hold the name or default read so far,
reversed. -/
def parseFrom : Scan → List Char → Except String (List Part)
  | .text, [] => .ok []
  | .text, '$' :: '{' :: cs => parseFrom (.name []) cs
  | .text, c :: cs => (.literal c :: ·) <$> parseFrom .text cs
  | .name n, '}' :: cs =>
    (.variable (String.mk n.reverse) none :: ·) <$> parseFrom .text cs
  | .name n, ':' :: cs => parseFrom (.default n []) cs
  | .name n, c :: cs => parseFrom (.name (c :: n)) cs
  | .default n d, '}' :: cs =>
    (.variable (String.mk n.reverse) (some (String.mk d.reverse)) :: ·) <$> parseFrom .text cs
  | .default n d, c :: cs => parseFrom (.default n (c :: d)) cs
  | .name _, [] => .error "unterminated variable"
  | .default _ _, [] => .error "unterminated variable"

/-- `interpolate.Parse`. -/
def parse (s : String) : Except String (List Part) := parseFrom .text s.toList

/-- The characters `Render` writes, part by part, stopping at the first variable with neither a
value nor a default. -/
def renderChars (lookup : String → Option String) : List Part → Except String (List Char)
  | [] => .ok []
  | .literal c :: ps => (c :: ·) <$> renderChars lookup ps
  | .variable name default :: ps =>
    match (lookup name).or default with
    | some v => (v.toList ++ ·) <$> renderChars lookup ps
    | none => .error ("variable " ++ name ++ " does not have a value or a default")

/-- `String.Render(lookup)`. -/
def render (ps : List Part) (lookup : String → Option String) : Except String String :=
  String.mk <$> renderChars lookup ps

/-! ## Text without `$` -/

/-- With no `$` ahead, the scanner reads literals only. -/
theorem parseFrom_text_of_not_dollar {cs : List Char} (h : '$' ∉ cs) :
    parseFrom .text cs = .ok (cs.map .literal) := by
  induction cs with
  | nil => rfl
  | cons c cs ih =>
    rw [List.mem_cons, not_or] at h
    rw [parseFrom, ih h.2]
    · rfl
    · exact fun _ e _ => h.1 e.symm

/-- **A string with no `$` parses to its own characters.** -/
theorem parse_of_not_dollar {s : String} (h : '$' ∉ s.toList) :
    parse s = .ok (s.toList.map .literal) :=
  parseFrom_text_of_not_dollar h

/-- **Literals render to themselves**, whatever the lookup. -/
theorem render_literals (cs : List Char) (lookup : String → Option String) :
    render (cs.map .literal) lookup = .ok (String.mk cs) := by
  suffices renderChars lookup (cs.map .literal) = .ok cs by simp only [render, this]; rfl
  induction cs with
  | nil => rfl
  | cons c cs ih => simp only [List.map_cons, renderChars, ih]; rfl

/-! ## What rendering reads -/

/-- The names of the variables of a parsed string, in order. -/
def names : List Part → List String
  | [] => []
  | .literal _ :: ps => names ps
  | .variable name _ :: ps => name :: names ps

/-- The template arguments a string names: the names of its variables, none when it does not
parse. -/
def argNames (s : String) : List String :=
  match parse s with
  | .ok ps => names ps
  | .error _ => []

/-- **Rendering reads the lookup only at the variables' names.** -/
theorem render_congr {lookup lookup' : String → Option String} {ps : List Part}
    (h : ∀ x ∈ names ps, lookup x = lookup' x) : render ps lookup = render ps lookup' := by
  suffices renderChars lookup ps = renderChars lookup' ps by rw [render, render, this]
  induction ps with
  | nil => rfl
  | cons p ps ih =>
    rcases p with c | ⟨x, d⟩
    · rw [renderChars, renderChars, ih h]
    · simp only [names, List.mem_cons, forall_eq_or_imp] at h
      rw [renderChars, renderChars, h.1, ih h.2]

end Interpolate

end Yab
