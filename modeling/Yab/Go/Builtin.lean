import Mathlib.Data.List.Perm.Basic
import Mathlib.Data.List.Nodup
import Mathlib.Algebra.Group.Int

/-!
# Go/Builtin — Go's built-in maps and slices, as the code under study uses them

A `map[K]V` is its entries, keys pairwise distinct (`GoMap`).  Go fixes no order on them: a
`for k, v := range m` loop visits them in an order the runtime picks afresh each time, so every
statement about such a loop here holds for *every* permutation of `entries`.  The source uses
three operations: the comma-ok read `v, ok := m[k]` (`get?`), the write `m[k] = v`
(`insert`, on entry lists `insertEntry`) and `len(m)` (`len`).

The one fact the rest of the development leans on is **last write wins**
(`lookup_insertAll`): a read of a map built by a sequence of writes sees the last write
to that key.  The template code's replacement maps, whose keys are YAML scalars, are built the
same way, so they share `insertEntry` rather than the `GoMap` wrapper.

Go's `int` is 64 bits wide and its arithmetic wraps: `goInt` is the `int` an exact result stands
for.  A slice `[]T` is a list.  `make`, an index and a re-slice check their bounds and **panic**
when they fail; a panic is an `Except.error` carrying the runtime's message.  Error returns are
`Except` too; a loop of fallible calls is `mapM`, which succeeds exactly when every call does
(`mapM_eq_ok_iff`).
-/

namespace Yab

variable {κ ν : Type}

/-! ## Writes on an entry list -/

section Writes
variable [DecidableEq κ]

/-- `List.lookup` at a head entry, spelled with `=` rather than `==`. -/
@[simp] theorem lookup_cons_ite (k k' : κ) (v : ν) (es : List (κ × ν)) :
    ((k, v) :: es).lookup k' = if k' = k then some v else es.lookup k' := by
  by_cases h : k' = k
  · simp [h]
  · simp [List.lookup_cons, h, beq_false_of_ne h]

/-- `m[k] = v` on a map's entries: overwrite the entry holding `k` in place, or add one. -/
def insertEntry : List (κ × ν) → κ → ν → List (κ × ν)
  | [], k, v => [(k, v)]
  | (k', v') :: es, k, v => if k' = k then (k, v) :: es else (k', v') :: insertEntry es k v

/-- A read after a write sees the write, and reads of other keys see what was there. -/
@[simp] theorem lookup_insertEntry (es : List (κ × ν)) (k k' : κ) (v : ν) :
    (insertEntry es k v).lookup k' = if k' = k then some v else es.lookup k' := by
  induction es with
  | nil => simp [insertEntry]
  | cons e es ih =>
    obtain ⟨k₀, v₀⟩ := e
    by_cases h₀ : k₀ = k
    · subst h₀; by_cases h : k' = k₀ <;> simp [insertEntry, h]
    · by_cases h : k' = k₀
      · subst h; simp [insertEntry, h₀]
      · simp [insertEntry, h₀, h, ih]

/-- The keys after a write: unchanged when the key was there, the key appended otherwise. -/
theorem keys_insertEntry (es : List (κ × ν)) (k : κ) (v : ν) :
    (insertEntry es k v).map Prod.fst =
      if k ∈ es.map Prod.fst then es.map Prod.fst else es.map Prod.fst ++ [k] := by
  induction es with
  | nil => simp [insertEntry]
  | cons e es ih =>
    obtain ⟨k₀, v₀⟩ := e
    by_cases h₀ : k₀ = k
    · subst h₀; simp [insertEntry]
    · by_cases hk : k ∈ es.map Prod.fst <;>
        simp_all [insertEntry, Ne.symm h₀]

theorem nodup_keys_insertEntry {es : List (κ × ν)} (h : (es.map Prod.fst).Nodup) (k : κ)
    (v : ν) : ((insertEntry es k v).map Prod.fst).Nodup := by
  rw [keys_insertEntry]
  split
  · exact h
  · rename_i hk
    exact h.append (List.nodup_singleton k) (List.disjoint_singleton.mpr hk)

/-- A write of a fresh key appends it. -/
theorem insertEntry_of_not_mem {es : List (κ × ν)} {k : κ} (h : k ∉ es.map Prod.fst) (v : ν) :
    insertEntry es k v = es ++ [(k, v)] := by
  induction es with
  | nil => rfl
  | cons e es ih =>
    obtain ⟨k₀, v₀⟩ := e
    simp only [List.map_cons, List.mem_cons, not_or] at h
    simp [insertEntry, Ne.symm h.1, ih h.2]

/-- A sequence of writes, in order: the body of a loop that does `m[k] = v` for each pair. -/
def insertAll (acc : List (κ × ν)) (ps : List (κ × ν)) : List (κ × ν) :=
  ps.foldl (fun m p => insertEntry m p.1 p.2) acc

@[simp] theorem insertAll_nil (acc : List (κ × ν)) : insertAll acc [] = acc := rfl

@[simp] theorem insertAll_cons (acc : List (κ × ν)) (p : κ × ν) (ps : List (κ × ν)) :
    insertAll acc (p :: ps) = insertAll (insertEntry acc p.1 p.2) ps := rfl

/-- **Last write wins.**  A read of a map built by a sequence of writes sees the last write to
that key, or what the map held before the writes. -/
theorem lookup_insertAll (acc ps : List (κ × ν)) (k : κ) :
    (insertAll acc ps).lookup k = (ps.reverse.lookup k).or (acc.lookup k) := by
  induction ps generalizing acc with
  | nil => simp
  | cons p ps ih =>
    obtain ⟨k₀, v₀⟩ := p
    rw [insertAll_cons, ih, lookup_insertEntry, List.reverse_cons, List.lookup_append]
    by_cases h : k = k₀ <;> simp [h, Option.or_assoc]

/-- Writes of pairwise distinct fresh keys append them all, in order. -/
theorem insertAll_of_nodup {acc ps : List (κ × ν)}
    (h : (acc.map Prod.fst ++ ps.map Prod.fst).Nodup) : insertAll acc ps = acc ++ ps := by
  induction ps generalizing acc with
  | nil => simp
  | cons p ps ih =>
    have hp : p.1 ∉ acc.map Prod.fst := by
      intro hm
      exact (List.nodup_append.mp h).2.2 hm (List.mem_cons_self _ _)
    rw [insertAll_cons, insertEntry_of_not_mem hp, ih (by simpa using h)]
    simp

end Writes

/-! ## Maps -/

/-- **A Go map** `map[K]V` — its entries, keys pairwise distinct.  The list order is one order a
`range` loop may visit them in; Go may pick any permutation of it. -/
structure GoMap (κ ν : Type) where
  entries : List (κ × ν)
  nodup_keys : (entries.map Prod.fst).Nodup

namespace GoMap

/-- The empty map; a `nil` map reads the same and is never written by the code modelled. -/
def empty : GoMap κ ν := ⟨[], List.nodup_nil⟩

/-- `len(m)`. -/
def len (m : GoMap κ ν) : Nat := m.entries.length

@[simp] theorem len_empty : (empty : GoMap κ ν).len = 0 := rfl

variable [DecidableEq κ]

/-- The comma-ok read `v, ok := m[k]`: `some v` when `ok`. -/
def get? (m : GoMap κ ν) (k : κ) : Option ν := m.entries.lookup k

/-- The write `m[k] = v`. -/
def insert (m : GoMap κ ν) (k : κ) (v : ν) : GoMap κ ν :=
  ⟨insertEntry m.entries k v, nodup_keys_insertEntry m.nodup_keys k v⟩

@[simp] theorem get?_empty (k : κ) : (empty : GoMap κ ν).get? k = none := rfl

@[simp] theorem get?_insert (m : GoMap κ ν) (k k' : κ) (v : ν) :
    (m.insert k v).get? k' = if k' = k then some v else m.get? k' :=
  lookup_insertEntry _ _ _ _

/-- A map with no entries reads `none` everywhere. -/
theorem get?_of_len_eq_zero {m : GoMap κ ν} (h : m.len = 0) (k : κ) : m.get? k = none := by
  simp [get?, List.eq_nil_of_length_eq_zero h]

/-- A read does not depend on the order the entries are listed in. -/
theorem lookup_perm {es es' : List (κ × ν)} (hp : es.Perm es') (hn : (es.map Prod.fst).Nodup)
    (k : κ) : es.lookup k = es'.lookup k := by
  induction hp with
  | nil => rfl
  | cons p _ ih =>
    obtain ⟨k₀, v₀⟩ := p
    simp only [lookup_cons_ite, ih (List.nodup_cons.mp hn).2]
  | swap p q es =>
    obtain ⟨k₀, v₀⟩ := p
    obtain ⟨k₁, v₁⟩ := q
    have hne : k₁ ≠ k₀ := by
      intro h; subst h; simp at hn
    by_cases h₀ : k = k₀
    · subst h₀; simp [hne.symm]
    · simp [h₀]
  | trans hp₁ _ ih₁ ih₂ => exact (ih₁ hn).trans (ih₂ ((hp₁.map _).nodup_iff.mp hn))

end GoMap

/-! ## Machine integers -/

/-- The `int` an exact result stands for: Go's `int` arithmetic wraps modulo `2^64`. -/
def goInt (x : Int) : Int := (x + 2 ^ 63) % 2 ^ 64 - 2 ^ 63

theorem goInt_of_lt {x : Int} (h₁ : -2 ^ 63 ≤ x) (h₂ : x < 2 ^ 63) : goInt x = x := by
  unfold goInt; omega

/-- Wrapping once in the middle of a sum wraps the sum. -/
theorem goInt_goInt_add (a b : Int) : goInt (goInt a + b) = goInt (a + b) := by
  unfold goInt; omega

/-! ## Slices -/

section Slices
variable {α : Type}

/-- `maxAlloc`, the runtime's bound on one allocation in bytes (`1 << 48` on linux/amd64). -/
def maxAlloc : Int := 2 ^ 48

/-- `make([]T, n)` for elements of `elemSize` bytes: `n` zero values; a negative length, or one
whose bytes exceed `maxAlloc`, panics. -/
def makeSlice (zero : α) (elemSize : Nat) (n : Int) : Except String (List α) :=
  if n < 0 ∨ maxAlloc < n * elemSize then .error "runtime error: makeslice: len out of range"
  else .ok (List.replicate n.toNat zero)

/-- The read `s[i]`; out of range it panics. -/
def sliceIndex (s : List α) (i : Int) : Except String α :=
  if h : 0 ≤ i ∧ i.toNat < s.length then .ok (s.get ⟨i.toNat, h.2⟩)
  else .error ("runtime error: index out of range [" ++ toString i ++ "] with length " ++
    toString s.length)

/-- The write `s[i] = x`; out of range it panics. -/
def sliceSet (s : List α) (i : Int) (x : α) : Except String (List α) :=
  if 0 ≤ i ∧ i.toNat < s.length then .ok (s.set i.toNat x)
  else .error ("runtime error: index out of range [" ++ toString i ++ "] with length " ++
    toString s.length)

/-- The re-slice `s[lo:]`; past the end it panics. -/
def sliceFrom (s : List α) (lo : Int) : Except String (List α) :=
  if 0 ≤ lo ∧ lo.toNat ≤ s.length then .ok (s.drop lo.toNat)
  else .error ("runtime error: slice bounds out of range [" ++ toString lo ++ ":" ++
    toString s.length ++ "]")

@[simp] theorem sliceIndex_cons_zero (x : α) (s : List α) : sliceIndex (x :: s) 0 = .ok x := by
  simp [sliceIndex]

@[simp] theorem sliceFrom_cons_one (x : α) (s : List α) : sliceFrom (x :: s) 1 = .ok s := by
  simp [sliceFrom]

theorem sliceSet_of_lt {s : List α} {i : Nat} (h : i < s.length) (x : α) :
    sliceSet s i x = .ok (s.set i x) := by
  simp [sliceSet, h, Int.ofNat_nonneg]

end Slices

/-! ## Error returns

A Go function returning `(T, error)` is a function into `Except`; the idiom
`x, err := f(); if err != nil { return nil, err }` is `bind`, and a loop of it over a slice or a
map's entries is `mapM`.  Such a loop succeeds exactly when every element does, and its result
is then each element's value in the order visited (`mapM_eq_ok_iff`), so visiting the elements in
another order permutes the result (`mapM_perm`). -/

section Errors
variable {ε α β : Type}

@[simp] theorem except_bind_ok (a : α) (f : α → Except ε β) : (Except.ok a).bind f = f a := rfl

@[simp] theorem except_bind_error (e : ε) (f : α → Except ε β) :
    (Except.error e : Except ε α).bind f = .error e := rfl

@[simp] theorem except_ok_bind (a : α) (f : α → Except ε β) : (Except.ok a >>= f) = f a := rfl

@[simp] theorem except_error_bind (e : ε) (f : α → Except ε β) :
    (Except.error e : Except ε α) >>= f = .error e := rfl

@[simp] theorem except_map_ok (f : α → β) (a : α) :
    f <$> (Except.ok a : Except ε α) = .ok (f a) := rfl

@[simp] theorem except_map_error (f : α → β) (e : ε) :
    f <$> (Except.error e : Except ε α) = .error e := rfl

@[simp] theorem except_pure (a : α) : (pure a : Except ε α) = .ok a := rfl

@[simp] theorem except_mapError_ok {ε' : Type} (g : ε → ε') (a : α) :
    (Except.ok a : Except ε α).mapError g = .ok a := rfl

@[simp] theorem except_mapError_error {ε' : Type} (g : ε → ε') (e : ε) :
    (Except.error e : Except ε α).mapError g = .error (g e) := rfl

theorem except_bind_eq_ok {x : Except ε α} {f : α → Except ε β} {b : β} :
    x.bind f = .ok b ↔ ∃ a, x = .ok a ∧ f a = .ok b := by
  cases x <;> simp

theorem except_bind_eq_error {x : Except ε α} {f : α → Except ε β} {e : ε} :
    x.bind f = .error e ↔ x = .error e ∨ ∃ a, x = .ok a ∧ f a = .error e := by
  cases x <;> simp

theorem mapM_nil_except (f : α → Except ε β) : ([] : List α).mapM f = .ok [] := rfl

theorem mapM_cons_except (f : α → Except ε β) (a : α) (as : List α) :
    (a :: as).mapM f = (f a).bind fun b => (as.mapM f).bind fun bs => .ok (b :: bs) := by
  rw [List.mapM_cons]; rfl

/-- A loop of fallible calls fails at its first element, or later. -/
theorem mapM_cons_eq_error {f : α → Except ε β} {a : α} {as : List α} {e : ε}
    (h : (a :: as).mapM f = .error e) :
    f a = .error e ∨ ∃ b, f a = .ok b ∧ as.mapM f = .error e := by
  rw [mapM_cons_except, except_bind_eq_error] at h
  rcases h with h | ⟨b, hb, h⟩
  · exact .inl h
  · rcases except_bind_eq_error.mp h with h | ⟨_, -, h⟩
    · exact .inr ⟨b, hb, h⟩
    · cases h

end Errors

end Yab
