import Yab.Go.Builtin
import Yab.Go.Utf8

/-!
# Go/Json — the part of `encoding/json` the latency report uses

`LatencyMap.MarshalJSON` writes each label and latency with `json.Marshal` of a string
(`marshalString`), and `UnmarshalJSON` reads the bytes back with `json.Unmarshal` into a
`map[string]string` (`decodeStringMap`).  What `json.Marshal` writes is always valid UTF-8, and
`json.Unmarshal` reads a byte that starts no valid encoding as U+FFFD, so both work on the
document's runes (`Utf8.runes`), a character list.

A string's bytes are decoded rune by rune and written with HTML escaping on, as `json.Marshal`
does: quote and backslash escaped, `\n`, `\r`, `\t` short, every other control character and
`<`, `>`, `&` as `\u00XX`, the line and paragraph separators as `\u2028` and `\u2029`
(`escapeChar`), and a byte that starts no valid encoding as `\ufffd` (`escapeRune`).  The reader
accepts every escape of the JSON grammar, surrogate pairs included, and refuses raw control
characters.  Decoding an object writes its members into the map in document order, so a repeated
key keeps its last value; a `null` member stores `""`.  The decoder's error texts are not
modelled: an error is `none`.

The round trip is `unquoteFrom_marshalString`: the reader reads back exactly the runes of the
string the writer wrote, U+FFFD for each invalid byte, and stops right after its closing
quote.
-/

namespace Yab

namespace Json

/-! ## Writing a string -/

/-- A hex digit as `encoding/json` writes one, in lower case. -/
def hexDigit (n : Nat) : Char := if n < 10 then Char.ofNat (48 + n) else Char.ofNat (87 + n)

/-- **One character of a string, as `json.Marshal` writes it.** -/
def escapeChar (c : Char) : List Char :=
  if c = '"' then ['\\', '"']
  else if c = '\\' then ['\\', '\\']
  else if c = '\n' then ['\\', 'n']
  else if c = '\r' then ['\\', 'r']
  else if c = '\t' then ['\\', 't']
  else if c.toNat < 32 ∨ c = '<' ∨ c = '>' ∨ c = '&' then
    ['\\', 'u', '0', '0', hexDigit (c.toNat / 16), hexDigit (c.toNat % 16)]
  else if c.toNat = 0x2028 ∨ c.toNat = 0x2029 then
    ['\\', 'u', '2', '0', '2', hexDigit (c.toNat % 16)]
  else [c]

/-- One decoded rune as `json.Marshal` writes it: an invalid encoding as `\ufffd`. -/
def escapeRune : Option Char → List Char
  | some c => escapeChar c
  | none => ['\\', 'u', 'f', 'f', 'f', 'd']

/-- `json.Marshal` of a string: its runes escaped, between quotes. -/
def marshalString (s : List UInt8) : List Char :=
  '"' :: ((Utf8.decodeRunes s).flatMap escapeRune ++ ['"'])

/-! ## Reading a string -/

/-- The value of a hex digit, either case. -/
def hexValue? (c : Char) : Option Nat :=
  if '0' ≤ c ∧ c ≤ '9' then some (c.toNat - 48)
  else if 'a' ≤ c ∧ c ≤ 'f' then some (c.toNat - 87)
  else if 'A' ≤ c ∧ c ≤ 'F' then some (c.toNat - 55)
  else none

/-- Four hex digits, the code of a `\u` escape. -/
def hex4? (a b c d : Char) : Option Nat := do
  let a ← hexValue? a
  let b ← hexValue? b
  let c ← hexValue? c
  let d ← hexValue? d
  return ((a * 16 + b) * 16 + c) * 16 + d

/-- The character of a one-letter escape. -/
def simpleEscape? : Char → Option Char
  | '"' => some '"'
  | '\\' => some '\\'
  | '/' => some '/'
  | 'b' => some (Char.ofNat 8)
  | 'f' => some (Char.ofNat 12)
  | 'n' => some '\n'
  | 'r' => some '\r'
  | 't' => some '\t'
  | _ => none

/-- `utf16.IsSurrogate`. -/
def isSurrogate (r : Nat) : Bool := 0xD800 ≤ r && r < 0xE000

/-- `utf16.DecodeRune`, when the two codes are a high and a low surrogate. -/
def decodeSurrogates (r₁ r₂ : Nat) : Option Char :=
  if 0xD800 ≤ r₁ ∧ r₁ < 0xDC00 ∧ 0xDC00 ≤ r₂ ∧ r₂ < 0xE000 then
    some (Char.ofNat ((r₁ - 0xD800) * 0x400 + (r₂ - 0xDC00) + 0x10000))
  else none

/-- One more character in front of what the rest of the string reads to. -/
def prependChar (c : Char) (r : Option (List Char × List Char)) : Option (List Char × List Char) :=
  r.map fun p => (c :: p.1, p.2)

/-- The character of a single `\u` code: a lone surrogate reads as U+FFFD. -/
def codeChar (r : Nat) : Char := if isSurrogate r then Char.ofNat 0xFFFD else Char.ofNat r

mutual
/-- **A string's body, as `encoding/json` unquotes it**, up to the closing quote: the characters
read and the text after the quote.  A raw control character or a missing quote is an error. -/
def unquoteFrom : List Char → Option (List Char × List Char)
  | [] => none
  | c :: rest =>
    if c = '"' then some ([], rest)
    else if c = '\\' then unescapeFrom rest
    else if c.toNat < 32 then none
    else prependChar c (unquoteFrom rest)
termination_by cs => cs.length
decreasing_by all_goals (simp only [List.length_cons]; omega)
/-- The text after a backslash: a surrogate pair of `\u` escapes, a single one, or a one-letter
escape. -/
def unescapeFrom : List Char → Option (List Char × List Char)
  | 'u' :: a :: b :: c :: d :: '\\' :: 'u' :: e :: f :: g :: h :: rest =>
    match hex4? a b c d with
    | none => none
    | some r =>
      match (hex4? e f g h).bind (decodeSurrogates r) with
      | some ch => prependChar ch (unquoteFrom rest)
      | none => prependChar (codeChar r) (unquoteFrom ('\\' :: 'u' :: e :: f :: g :: h :: rest))
  | 'u' :: a :: b :: c :: d :: rest =>
    match hex4? a b c d with
    | none => none
    | some r => prependChar (codeChar r) (unquoteFrom rest)
  | e :: rest =>
    match simpleEscape? e with
    | some c => prependChar c (unquoteFrom rest)
    | none => none
  | [] => none
termination_by cs => cs.length
decreasing_by all_goals (simp only [List.length_cons]; omega)
end

/-! ## The round trip of a string -/

theorem hexValue?_hexDigit : ∀ n < 16, hexValue? (hexDigit n) = some n := by decide

/-- A `\u` escape of a code that starts no surrogate pair reads as that code's character. -/
theorem unescapeFrom_code {a b c d : Char} {r : Nat} (hr : hex4? a b c d = some r)
    (hs : r < 0xD800 ∨ 0xDC00 ≤ r) (rest : List Char) :
    unescapeFrom ('u' :: a :: b :: c :: d :: rest) = prependChar (codeChar r) (unquoteFrom rest) := by
  have hpair : ∀ r₂, decodeSurrogates r r₂ = none := fun _ => if_neg (by omega)
  by_cases hp : ∃ e f g h rest', rest = '\\' :: 'u' :: e :: f :: g :: h :: rest'
  · obtain ⟨e, f, g, h, rest', rfl⟩ := hp
    rw [unescapeFrom, hr]
    cases hex4? e f g h <;> simp [hpair]
  · rw [unescapeFrom.eq_2 _ _ _ _ _ fun e f g h rest' he => hp ⟨e, f, g, h, rest', he⟩, hr]

theorem codeChar_of_lt {r : Nat} (h : r < 0xD800) : codeChar r = Char.ofNat r :=
  if_neg (by simp [isSurrogate]; omega)

theorem hex4?_control {n : Nat} (h : n < 256) :
    hex4? '0' '0' (hexDigit (n / 16)) (hexDigit (n % 16)) = some n := by
  have h₁ := hexValue?_hexDigit (n / 16) (by omega)
  have h₂ := hexValue?_hexDigit (n % 16) (Nat.mod_lt _ (by omega))
  simp only [hex4?, h₁, h₂, show hexValue? '0' = some 0 from rfl, Option.bind_eq_bind,
    Option.some_bind, Option.pure_def, Option.some.injEq]
  omega

theorem unquoteFrom_backslash (rest : List Char) :
    unquoteFrom ('\\' :: rest) = unescapeFrom rest := by
  rw [unquoteFrom, if_neg (by decide), if_pos rfl]

theorem unquoteFrom_simple {e c : Char} (he : e ≠ 'u') (h : simpleEscape? e = some c)
    (rest : List Char) : unquoteFrom ('\\' :: e :: rest) = prependChar c (unquoteFrom rest) := by
  rw [unquoteFrom_backslash, unescapeFrom.eq_3 _ _ (fun _ _ _ _ _ _ _ _ _ h' => absurd h' he)
    (fun _ _ _ _ _ h' => absurd h' he), h]

/-- **Every character is read back from its escape**, whatever follows it. -/
theorem unquoteFrom_escapeChar (c : Char) (rest : List Char) :
    unquoteFrom (escapeChar c ++ rest) = prependChar c (unquoteFrom rest) := by
  by_cases h₁ : c = '"'
  · subst h₁; exact unquoteFrom_simple (by decide) (by rfl) rest
  by_cases h₂ : c = '\\'
  · subst h₂; exact unquoteFrom_simple (by decide) (by rfl) rest
  by_cases h₃ : c = '\n'
  · subst h₃; exact unquoteFrom_simple (by decide) (by rfl) rest
  by_cases h₄ : c = '\r'
  · subst h₄; exact unquoteFrom_simple (by decide) (by rfl) rest
  by_cases h₅ : c = '\t'
  · subst h₅; exact unquoteFrom_simple (by decide) (by rfl) rest
  rw [escapeChar, if_neg h₁, if_neg h₂, if_neg h₃, if_neg h₄, if_neg h₅]
  by_cases h₆ : c.toNat < 32 ∨ c = '<' ∨ c = '>' ∨ c = '&'
  · have hc : c.toNat < 256 := by
      rcases h₆ with h | rfl | rfl | rfl
      · omega
      all_goals decide
    simp only [if_pos h₆, List.cons_append, List.nil_append]
    rw [unquoteFrom_backslash, unescapeFrom_code (hex4?_control hc) (.inl (by omega)),
      codeChar_of_lt (by omega), Char.ofNat_toNat]
  rw [if_neg h₆]
  by_cases h₇ : c.toNat = 0x2028 ∨ c.toNat = 0x2029
  · have hx : hex4? '2' '0' '2' (hexDigit (c.toNat % 16)) = some c.toNat := by
      rcases h₇ with h | h <;> rw [h] <;> decide
    simp only [if_pos h₇, List.cons_append, List.nil_append]
    rw [unquoteFrom_backslash, unescapeFrom_code hx (.inl (by omega)), codeChar_of_lt (by omega),
      Char.ofNat_toNat]
  rw [if_neg h₇, List.singleton_append, unquoteFrom, if_neg h₁, if_neg h₂, if_neg (by omega)]

/-- An invalid encoding is read back from its escape as U+FFFD. -/
theorem unquoteFrom_escapeRune (r : Option Char) (rest : List Char) :
    unquoteFrom (escapeRune r ++ rest) =
      prependChar (r.getD (Char.ofNat 0xFFFD)) (unquoteFrom rest) := by
  cases r with
  | some c => exact unquoteFrom_escapeChar c rest
  | none =>
    have hx : hex4? 'f' 'f' 'f' 'd' = some 0xFFFD := rfl
    rw [escapeRune, List.cons_append, unquoteFrom_backslash, List.cons_append, List.cons_append,
      List.cons_append, List.cons_append, List.singleton_append,
      unescapeFrom_code hx (.inr (by decide))]
    rfl

/-- **A marshalled string reads back as its runes**, and the reader stops after its closing
quote. -/
theorem unquoteFrom_marshalString (s : List UInt8) (rest : List Char) :
    unquoteFrom ((Utf8.decodeRunes s).flatMap escapeRune ++ '"' :: rest) =
      some (Utf8.runes s, rest) := by
  rw [Utf8.runes]
  induction Utf8.decodeRunes s with
  | nil => simp [unquoteFrom]
  | cons r rs ih =>
    rw [List.flatMap_cons, List.append_assoc, unquoteFrom_escapeRune, ih]
    rfl

/-! ## Reading an object of strings -/

theorem prependChar_eq_some {c : Char} {r : Option (List Char × List Char)} {s rest : List Char}
    (h : prependChar c r = some (s, rest)) : ∃ s', r = some (s', rest) := by
  obtain ⟨⟨s', rest'⟩, hr, he⟩ := Option.map_eq_some'.mp h
  cases he
  exact ⟨s', hr⟩

/-- **The reader consumes what it reads**: what is left after a string is shorter than the text
it started from. -/
theorem length_reader (cs : List Char) :
    (∀ s rest, unquoteFrom cs = some (s, rest) → rest.length < cs.length) ∧
      (∀ s rest, unescapeFrom cs = some (s, rest) → rest.length < cs.length) := by
  induction' hn : cs.length using Nat.strong_induction_on with n ih generalizing cs
  subst hn
  have step : ∀ {c r s rest}, prependChar c (unquoteFrom r) = some (s, rest) →
      r.length < cs.length → rest.length < cs.length := fun h hr => by
    obtain ⟨_, h'⟩ := prependChar_eq_some h
    exact ((ih _ hr _ rfl).1 _ _ h').trans hr
  constructor
  · intro s rest h
    cases cs with
    | nil => rw [unquoteFrom] at h; cases h
    | cons c cs =>
      rw [unquoteFrom] at h
      split_ifs at h
      · cases h; simp
      · exact ((ih _ (by simp) _ rfl).2 _ _ h).trans (by simp)
      · exact step h (by simp only [List.length_cons]; omega)
  · intro s rest h
    rw [unescapeFrom.eq_def] at h
    split at h
    · split at h
      · cases h
      · split at h
        · exact step h (by simp only [List.length_cons]; omega)
        · exact step h (by simp only [List.length_cons]; omega)
    · split at h
      · cases h
      · exact step h (by simp only [List.length_cons]; omega)
    · split at h
      · exact step h (by simp only [List.length_cons]; omega)
      · cases h
    · cases h

/-- JSON whitespace. -/
def isSpace (c : Char) : Bool := c = ' ' || c = '\t' || c = '\n' || c = '\r'

/-- The text after leading whitespace. -/
def skipSpace (cs : List Char) : List Char := cs.dropWhile isSpace

theorem length_skipSpace_le (cs : List Char) : (skipSpace cs).length ≤ cs.length :=
  (List.dropWhile_suffix _).length_le

/-- A member's value: a string, or `null`, which leaves the map's new element `""`; anything else
is an error, as it cannot be unmarshalled into a `string`.  The value and the text after it. -/
def stringValue? : List Char → Option (List Char × List Char)
  | '"' :: r => unquoteFrom r
  | 'n' :: 'u' :: 'l' :: 'l' :: r => some ([], r)
  | _ => none

/-- One member `"key": value` of an object of strings: the key, the value, and the text after the
value's trailing whitespace. -/
def member? (cs : List Char) : Option (String × String × List Char) := do
  let '"' :: r₀ := cs | none
  let (k, r₁) ← unquoteFrom r₀
  let ':' :: r₂ := skipSpace r₁ | none
  let (v, r₄) ← stringValue? (skipSpace r₂)
  return (String.mk k, String.mk v, skipSpace r₄)

theorem length_stringValue? {cs v r : List Char} (h : stringValue? cs = some (v, r)) :
    r.length < cs.length := by
  unfold stringValue? at h
  split at h
  · exact Nat.lt_trans ((length_reader _).1 _ _ h) (by simp)
  · cases h; simp only [List.length_cons]; omega
  · cases h

theorem length_member? {cs : List Char} {k v : String} {r : List Char}
    (h : member? cs = some (k, v, r)) : r.length < cs.length := by
  unfold member? at h
  split at h
  · rename_i r₀
    obtain ⟨⟨_, r₁⟩, h₁, h⟩ := Option.bind_eq_some.mp h
    dsimp only at h
    split at h
    · rename_i r₂ h₂
      obtain ⟨⟨_, r₄⟩, h₄, h⟩ := Option.bind_eq_some.mp h
      dsimp only at h
      cases h
      have e₁ := (length_reader r₀).1 _ _ h₁
      have e₂ := length_skipSpace_le r₁
      have e₃ := length_stringValue? h₄
      have e₄ := length_skipSpace_le r₂
      have e₅ := length_skipSpace_le r₄
      rw [h₂] at e₂
      simp only [List.length_cons] at *
      omega
    · cases h
  · cases h

/-- **The members of an object of strings**, after its `{`: each member written into the map in
turn, up to the closing `}`; the map and the text after the object. -/
def membersFrom (m : GoMap String String) (cs : List Char) :
    Option (GoMap String String × List Char) :=
  match _h : member? cs with
  | some (k, v, ',' :: r) => membersFrom (m.insert k v) (skipSpace r)
  | some (k, v, '}' :: r) => some (m.insert k v, r)
  | _ => none
termination_by cs.length
decreasing_by
  have := length_member? _h
  have := length_skipSpace_le r
  simp only [List.length_cons] at *
  omega

/-- **`json.Unmarshal` into a `map[string]string`**: `null` leaves the map nil, an object's members
are written into it in order; anything else, or text after the value, is an error. -/
def decodeStringMap (b : List Char) : Option (GoMap String String) :=
  match skipSpace b with
  | 'n' :: 'u' :: 'l' :: 'l' :: rest => if skipSpace rest = [] then some GoMap.empty else none
  | '{' :: rest =>
    match skipSpace rest with
    | '}' :: rest' => if skipSpace rest' = [] then some GoMap.empty else none
    | rest' =>
      match membersFrom GoMap.empty rest' with
      | some (m, rest'') => if skipSpace rest'' = [] then some m else none
      | none => none
  | _ => none

/-! ## The round trip of an object -/

theorem skipSpace_cons {c : Char} (h : isSpace c = false) (cs : List Char) :
    skipSpace (c :: cs) = c :: cs := by
  simp [skipSpace, List.dropWhile_cons, h]

theorem member?_marshalString (k v : List UInt8) (rest : List Char) :
    member? (marshalString k ++ ':' :: (marshalString v ++ rest)) =
      some (String.mk (Utf8.runes k), String.mk (Utf8.runes v), skipSpace rest) := by
  simp only [member?, marshalString, List.cons_append, List.append_assoc, List.singleton_append,
    List.nil_append, unquoteFrom_marshalString, Option.bind_eq_bind, Option.some_bind,
    skipSpace_cons (show isSpace ':' = false by decide),
    skipSpace_cons (show isSpace '"' = false by decide), stringValue?]
  rfl

theorem membersFrom_comma {m : GoMap String String} {cs : List Char} {k v : String}
    {r : List Char} (h : member? cs = some (k, v, ',' :: r)) :
    membersFrom m cs = membersFrom (m.insert k v) (skipSpace r) := by
  rw [membersFrom]
  split <;> simp_all

theorem membersFrom_close {m : GoMap String String} {cs : List Char} {k v : String}
    {r : List Char} (h : member? cs = some (k, v, '}' :: r)) :
    membersFrom m cs = some (m.insert k v, r) := by
  rw [membersFrom]
  split <;> simp_all

end Json

end Yab
