import Mathlib.Logic.Function.Basic

/-!
# Go/Utf8 — Go strings are bytes; the UTF-8 view the code takes of them

A Go `string` holds any bytes, valid UTF-8 or not: `List UInt8` here.  Where the code reads one as
text — `json.Marshal` escaping it, a conversion to `[]rune` — it decodes one rune at a time with
`utf8.DecodeRune` (`decodeRune`): a byte that starts no valid encoding decodes as an error one
byte wide, which reads as U+FFFD (`runes`).  `encodeRune` is `utf8.EncodeRune`; a Lean `String`,
a list of Unicode scalar values, stands for the Go string of its encoding (`goString`).

* `decodeRune_encodeRune` — the encoding of a rune decodes as that rune, whatever follows it;
* `runes_encode` — so the runes of an encoded text are that text, and `encode` is injective;
* `replaceInvalid` — `string([]rune(s))`, each byte of an invalid encoding replaced by U+FFFD;
  it keeps every valid string (`replaceInvalid_encode`) and can merge invalid ones.
-/

namespace Yab

namespace Utf8

/-! ## Encoding and decoding one rune -/

/-- `utf8.EncodeRune`: one to four bytes, by the rune's range. -/
def encodeRune (c : Char) : List UInt8 :=
  let r := c.toNat
  if r < 0x80 then [.ofNat r]
  else if r < 0x800 then [.ofNat (0xC0 + r / 0x40), .ofNat (0x80 + r % 0x40)]
  else if r < 0x10000 then
    [.ofNat (0xE0 + r / 0x1000), .ofNat (0x80 + r / 0x40 % 0x40), .ofNat (0x80 + r % 0x40)]
  else
    [.ofNat (0xF0 + r / 0x40000), .ofNat (0x80 + r / 0x1000 % 0x40),
      .ofNat (0x80 + r / 0x40 % 0x40), .ofNat (0x80 + r % 0x40)]

/-- The length of the sequence a lead byte starts and the range its second byte must fall in:
`utf8`'s `first` and `acceptRanges` tables.  ASCII and bytes that start nothing have none. -/
def accept (b : Nat) : Option (Nat × Nat × Nat) :=
  if 0xC2 ≤ b ∧ b ≤ 0xDF then some (2, 0x80, 0xBF)
  else if b = 0xE0 then some (3, 0xA0, 0xBF)
  else if b = 0xED then some (3, 0x80, 0x9F)
  else if 0xE1 ≤ b ∧ b ≤ 0xEF then some (3, 0x80, 0xBF)
  else if b = 0xF0 then some (4, 0x90, 0xBF)
  else if b = 0xF4 then some (4, 0x80, 0x8F)
  else if 0xF1 ≤ b ∧ b ≤ 0xF3 then some (4, 0x80, 0xBF)
  else none

/-- A byte within `[lo, hi]`. -/
def inRange (lo hi : Nat) (b : UInt8) : Bool := lo ≤ b.toNat && b.toNat ≤ hi

/-- The rune a lead byte `p₀` starts, from the bytes after it: the sequence is `n` bytes long,
its second byte in `[lo, hi]` and the others continuation bytes. -/
def decodeTail (p₀ : Nat) : Nat × Nat × Nat → List UInt8 → Option (Char × List UInt8)
  | (2, lo, hi), b₁ :: rest =>
    if inRange lo hi b₁ then some (Char.ofNat (p₀ % 0x20 * 0x40 + b₁.toNat % 0x40), rest)
    else none
  | (3, lo, hi), b₁ :: b₂ :: rest =>
    if inRange lo hi b₁ && inRange 0x80 0xBF b₂ then
      some (Char.ofNat ((p₀ % 0x10 * 0x40 + b₁.toNat % 0x40) * 0x40 + b₂.toNat % 0x40), rest)
    else none
  | (4, lo, hi), b₁ :: b₂ :: b₃ :: rest =>
    if inRange lo hi b₁ && inRange 0x80 0xBF b₂ && inRange 0x80 0xBF b₃ then
      some (Char.ofNat (((p₀ % 0x08 * 0x40 + b₁.toNat % 0x40) * 0x40 + b₂.toNat % 0x40) * 0x40 +
        b₃.toNat % 0x40), rest)
    else none
  | _, _ => none

/-- **`utf8.DecodeRune`**: the rune at the front and the bytes after it; an invalid encoding is
`none`, one byte wide. -/
def decodeRune : List UInt8 → Option Char × List UInt8
  | [] => (none, [])
  | b₀ :: bs =>
    if b₀.toNat < 0x80 then (some (Char.ofNat b₀.toNat), bs)
    else
      match (accept b₀.toNat).bind fun t => decodeTail b₀.toNat t bs with
      | some (c, rest) => (some c, rest)
      | none => (none, bs)

theorem length_decodeTail {p₀ : Nat} {t : Nat × Nat × Nat} {bs rest : List UInt8} {c : Char}
    (h : decodeTail p₀ t bs = some (c, rest)) : rest.length ≤ bs.length := by
  unfold decodeTail at h
  split at h <;> (try split at h) <;> simp_all <;> omega

theorem length_decodeRune (b : UInt8) (bs : List UInt8) :
    (decodeRune (b :: bs)).2.length ≤ bs.length := by
  unfold decodeRune
  dsimp only
  split_ifs
  · exact Nat.le_refl _
  · split
    · rename_i h
      obtain ⟨t, -, ht⟩ := Option.bind_eq_some.mp h
      exact length_decodeTail ht
    · exact Nat.le_refl _

/-! ## Decoding a string -/

/-- The runes of a string, one decode after another (at most one per byte of fuel). -/
def decodeRunesFuel : Nat → List UInt8 → List (Option Char)
  | 0, _ => []
  | _, [] => []
  | n + 1, b :: bs => (decodeRune (b :: bs)).1 :: decodeRunesFuel n (decodeRune (b :: bs)).2

/-- **The runes of a string** as `for range` and `[]rune` decode them, `none` for an invalid
encoding. -/
def decodeRunes (s : List UInt8) : List (Option Char) := decodeRunesFuel s.length s

/-- `[]rune(s)`: an invalid encoding reads as U+FFFD. -/
def runes (s : List UInt8) : List Char := (decodeRunes s).map (·.getD (Char.ofNat 0xFFFD))

/-- The Go string of a text: its runes encoded one after another, `string(rs)` for `rs []rune`. -/
def encode (cs : List Char) : List UInt8 := cs.flatMap encodeRune

/-- A Go string literal. -/
def goString (s : String) : List UInt8 := encode s.toList

/-- `string([]rune(s))`: the string with each invalid encoding replaced by U+FFFD. -/
def replaceInvalid (s : List UInt8) : List UInt8 := encode (runes s)

theorem decodeRunesFuel_congr : ∀ (n m : Nat) (s : List UInt8), s.length ≤ n → s.length ≤ m →
    decodeRunesFuel n s = decodeRunesFuel m s
  | 0, m, s, hn, _ => by
    rw [List.eq_nil_of_length_eq_zero (Nat.le_zero.mp hn)]
    cases m <;> rfl
  | n + 1, m, [], _, _ => by cases m <;> rfl
  | n + 1, m + 1, b :: bs, hn, hm => by
    have := length_decodeRune b bs
    simp only [List.length_cons] at hn hm
    simp only [decodeRunesFuel]
    rw [decodeRunesFuel_congr n m _ (by omega) (by omega)]
  | n + 1, 0, b :: bs, _, hm => absurd hm (by simp)

/-- **One rune, then the rest.** -/
theorem decodeRunes_cons (b : UInt8) (bs : List UInt8) :
    decodeRunes (b :: bs) = (decodeRune (b :: bs)).1 :: decodeRunes (decodeRune (b :: bs)).2 := by
  have := length_decodeRune b bs
  rw [decodeRunes, List.length_cons, decodeRunesFuel, decodeRunes,
    decodeRunesFuel_congr _ _ _ (by omega) (Nat.le_refl _)]

/-! ## Encoding round trips -/

/-- A scalar value: below the surrogates, or above them and at most `0x10FFFF`. -/
theorem toNat_valid (c : Char) : c.toNat < 0xD800 ∨ (0xDFFF < c.toNat ∧ c.toNat < 0x110000) :=
  c.valid

theorem toNat_ofNat_byte {n : Nat} (h : n < 256) : (UInt8.ofNat n).toNat = n :=
  UInt8.toNat_ofNat_of_lt h

/-- The character of a computed scalar value is the rune it was computed from. -/
theorem ofNat_eq {c : Char} {n : Nat} (h : n = c.toNat) : Char.ofNat n = c := by
  rw [h, Char.ofNat_toNat]

theorem decodeRune_of_tail {b₀ : UInt8} {bs rest : List UInt8} (t : Nat × Nat × Nat) {c : Char}
    (h₀ : ¬ b₀.toNat < 0x80) (ha : accept b₀.toNat = some t)
    (ht : decodeTail b₀.toNat t bs = some (c, rest)) : decodeRune (b₀ :: bs) = (some c, rest) := by
  simp only [decodeRune, if_neg h₀, ha, Option.some_bind, ht]

section Ranges
variable {c : Char} (rest : List UInt8)

theorem decodeRune_two (h₁ : ¬ c.toNat < 0x80) (h₂ : c.toNat < 0x800) :
    decodeRune ([.ofNat (0xC0 + c.toNat / 0x40), .ofNat (0x80 + c.toNat % 0x40)] ++ rest) =
      (some c, rest) := by
  have hb₀ := toNat_ofNat_byte (by omega : 0xC0 + c.toNat / 0x40 < 256)
  have hb₁ := toNat_ofNat_byte (by omega : 0x80 + c.toNat % 0x40 < 256)
  refine decodeRune_of_tail (2, 0x80, 0xBF) (by omega) ?_ ?_
  · rw [hb₀]; unfold accept; rw [if_pos (by omega)]
  · rw [List.append_eq, List.singleton_append, decodeTail, inRange, hb₀, hb₁,
      if_pos (by simp; omega)]
    exact congrArg (fun x => some (x, rest)) (ofNat_eq (by omega))

/-- The lead byte of a three-byte rune, and the range it admits the second byte in. -/
theorem accept_three (h₂ : ¬ c.toNat < 0x800) (h₃ : c.toNat < 0x10000) :
    ∃ lo hi, accept (0xE0 + c.toNat / 0x1000) = some (3, lo, hi) ∧
      lo ≤ 0x80 + c.toNat / 0x40 % 0x40 ∧ 0x80 + c.toNat / 0x40 % 0x40 ≤ hi := by
  unfold accept
  by_cases hE0 : c.toNat < 0x1000
  · exact ⟨0xA0, 0xBF, by rw [if_neg (by omega), if_pos (by omega)], by omega, by omega⟩
  by_cases hED : 0xD000 ≤ c.toNat ∧ c.toNat < 0xE000
  · have : c.toNat < 0xD800 := by rcases toNat_valid c with h | h <;> omega
    exact ⟨0x80, 0x9F, by rw [if_neg (by omega), if_neg (by omega), if_pos (by omega)],
      by omega, by omega⟩
  · exact ⟨0x80, 0xBF, by rw [if_neg (by omega), if_neg (by omega), if_neg (by omega),
      if_pos (by omega)], by omega, by omega⟩

theorem decodeRune_three (h₂ : ¬ c.toNat < 0x800) (h₃ : c.toNat < 0x10000) :
    decodeRune ([.ofNat (0xE0 + c.toNat / 0x1000), .ofNat (0x80 + c.toNat / 0x40 % 0x40),
      .ofNat (0x80 + c.toNat % 0x40)] ++ rest) = (some c, rest) := by
  have hb₀ := toNat_ofNat_byte (by omega : 0xE0 + c.toNat / 0x1000 < 256)
  have hb₁ := toNat_ofNat_byte (by omega : 0x80 + c.toNat / 0x40 % 0x40 < 256)
  have hb₂ := toNat_ofNat_byte (by omega : 0x80 + c.toNat % 0x40 < 256)
  obtain ⟨lo, hi, ha, hlo, hhi⟩ := accept_three h₂ h₃
  refine decodeRune_of_tail (3, lo, hi) (by omega) (by rw [hb₀]; exact ha) ?_
  rw [List.append_eq, List.cons_append, List.singleton_append, decodeTail, inRange, inRange,
    hb₀, hb₁, hb₂, if_pos (by simp; omega)]
  exact congrArg (fun x => some (x, rest)) (ofNat_eq (by omega))

/-- The lead byte of a four-byte rune, and the range it admits the second byte in. -/
theorem accept_four (h₃ : ¬ c.toNat < 0x10000) :
    ∃ lo hi, accept (0xF0 + c.toNat / 0x40000) = some (4, lo, hi) ∧
      lo ≤ 0x80 + c.toNat / 0x1000 % 0x40 ∧ 0x80 + c.toNat / 0x1000 % 0x40 ≤ hi := by
  have hmax : c.toNat < 0x110000 := by rcases toNat_valid c with h | h <;> omega
  unfold accept
  by_cases hF0 : c.toNat < 0x40000
  · exact ⟨0x90, 0xBF, by rw [if_neg (by omega), if_neg (by omega), if_neg (by omega),
      if_neg (by omega), if_pos (by omega)], by omega, by omega⟩
  by_cases hF4 : 0x100000 ≤ c.toNat
  · exact ⟨0x80, 0x8F, by rw [if_neg (by omega), if_neg (by omega), if_neg (by omega),
      if_neg (by omega), if_neg (by omega), if_pos (by omega)], by omega, by omega⟩
  · exact ⟨0x80, 0xBF, by rw [if_neg (by omega), if_neg (by omega), if_neg (by omega),
      if_neg (by omega), if_neg (by omega), if_neg (by omega), if_pos (by omega)],
      by omega, by omega⟩

theorem decodeRune_four (h₃ : ¬ c.toNat < 0x10000) :
    decodeRune ([.ofNat (0xF0 + c.toNat / 0x40000), .ofNat (0x80 + c.toNat / 0x1000 % 0x40),
      .ofNat (0x80 + c.toNat / 0x40 % 0x40), .ofNat (0x80 + c.toNat % 0x40)] ++ rest) =
        (some c, rest) := by
  have hmax : c.toNat < 0x110000 := by rcases toNat_valid c with h | h <;> omega
  have hb₀ := toNat_ofNat_byte (by omega : 0xF0 + c.toNat / 0x40000 < 256)
  have hb₁ := toNat_ofNat_byte (by omega : 0x80 + c.toNat / 0x1000 % 0x40 < 256)
  have hb₂ := toNat_ofNat_byte (by omega : 0x80 + c.toNat / 0x40 % 0x40 < 256)
  have hb₃ := toNat_ofNat_byte (by omega : 0x80 + c.toNat % 0x40 < 256)
  obtain ⟨lo, hi, ha, hlo, hhi⟩ := accept_four h₃
  refine decodeRune_of_tail (4, lo, hi) (by omega) (by rw [hb₀]; exact ha) ?_
  rw [List.append_eq, List.cons_append, List.cons_append, List.singleton_append, decodeTail,
    inRange, inRange, inRange, hb₀, hb₁, hb₂, hb₃, if_pos (by simp; omega)]
  exact congrArg (fun x => some (x, rest)) (ofNat_eq (by omega))

end Ranges

/-- **The encoding of a rune decodes as that rune**, whatever bytes follow it. -/
theorem decodeRune_encodeRune (c : Char) (rest : List UInt8) :
    decodeRune (encodeRune c ++ rest) = (some c, rest) := by
  unfold encodeRune
  dsimp only
  split_ifs with h₁ h₂ h₃
  · rw [List.singleton_append, decodeRune, if_pos (by rwa [toNat_ofNat_byte (by omega)]),
      toNat_ofNat_byte (by omega), Char.ofNat_toNat]
  · exact decodeRune_two rest h₁ h₂
  · exact decodeRune_three rest h₂ h₃
  · exact decodeRune_four rest h₃

theorem encodeRune_ne_nil (c : Char) : encodeRune c ≠ [] := by
  unfold encodeRune; dsimp only; split_ifs <;> simp

/-- **An encoded text decodes as itself**, rune by rune. -/
theorem decodeRunes_encode (cs : List Char) : decodeRunes (encode cs) = cs.map some := by
  induction cs with
  | nil => rfl
  | cons c cs ih =>
    obtain ⟨b, bs, hbs⟩ := List.exists_cons_of_ne_nil (encodeRune_ne_nil c)
    have hd := decodeRune_encodeRune c (encode cs)
    rw [hbs, List.cons_append] at hd
    rw [show encode (c :: cs) = encodeRune c ++ encode cs from List.flatMap_cons .., hbs,
      List.cons_append, decodeRunes_cons, hd]
    exact congrArg _ ih

@[simp] theorem runes_encode (cs : List Char) : runes (encode cs) = cs := by
  simp [runes, decodeRunes_encode, Function.comp_def]

theorem runes_goString (s : String) : runes (goString s) = s.toList := runes_encode _

theorem encode_injective : Function.Injective encode := fun cs cs' h => by
  rw [← runes_encode cs, h, runes_encode]

theorem goString_injective : Function.Injective goString := fun s s' h => by
  have := encode_injective h
  cases s; cases s'
  exact congrArg String.mk this

/-- **A valid string is kept**: replacing invalid encodings changes nothing in an encoded text. -/
@[simp] theorem replaceInvalid_encode (cs : List Char) : replaceInvalid (encode cs) = encode cs := by
  rw [replaceInvalid, runes_encode]

/-- …while invalid bytes merge: `"\xff"` and `"\xfe"` both become `"\ufffd"`. -/
example : replaceInvalid [0xFF] = goString "\uFFFD" ∧ replaceInvalid [0xFE] = goString "\uFFFD" := by
  decide

end Utf8

end Yab
