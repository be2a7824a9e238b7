import Yab.Go.Json

/-!
# Benchmark/LatencyMap — the latency quantiles of the JSON report

`LatencyMap` is a list of (quantile, latency) pairs of Go strings, kept as a list "to preserve
specific ordering of elements".  `MarshalJSON` writes it as one JSON object, its members in list
order; `UnmarshalJSON` decodes an object into a `map[string]string` and appends the map's entries
while ranging over it, in the order Go's runtime picks for that `range` (`visit`).

`decodeStringMap_marshalJSON` is the decoding half of the round trip: the object written for `l`
decodes to the map holding `l`'s pairs as `json.Marshal` wrote them, each invalid UTF-8 byte
replaced by U+FFFD (`Utf8.replaceInvalid`).  From it:

* `unmarshalJSON_marshalJSON_perm` — with labels distinct after that replacement, decoding what
  was written gives back the elements of `l`, so replaced, none lost or repeated, in the order
  the `range` visited them;
* `unmarshalJSON_reorders` — that order need not be `l`'s: two quantiles come back swapped
  when the `range` visits the map in the other order;
* `unmarshalJSON_marshalJSON_last` — with repeated labels, two invalid labels that become the
  same included, one element per distinct label comes back, holding the latency of its last
  occurrence.
-/

namespace Yab

/-- `latencyElement`: one quantile's label and its latency, Go strings. -/
structure LatencyElement where
  quantile : List UInt8
  latency : List UInt8
  deriving DecidableEq, Repr

/-- One element as `MarshalJSON`'s loop writes it: the label, a colon, the latency. -/
def marshalElement (kv : LatencyElement) : List Char :=
  Json.marshalString kv.quantile ++ ':' :: Json.marshalString kv.latency

/-- The text `LatencyMap.MarshalJSON` writes: the elements in order, separated by commas, between
braces. -/
def marshalText (l : List LatencyElement) : List Char :=
  '{' :: ([','].intercalate (l.map marshalElement) ++ ['}'])

/-- **`LatencyMap.MarshalJSON`**: the bytes of `marshalText`, valid UTF-8.  `json.Marshal` of a
string cannot fail, so neither can this. -/
def marshalJSON (l : List LatencyElement) : List UInt8 := Utf8.encode (marshalText l)

/-- **`LatencyMap.UnmarshalJSON`** on `*l`: decode `b` into a `map[string]string`, then append
its entries to `l` in the order `visit` gives, the `range` over the map; `none` is the decoder's
error return. -/
def unmarshalJSON (visit : GoMap String String → List (String × String)) (b : List UInt8)
    (l : List LatencyElement) : Option (List LatencyElement) :=
  (Json.decodeStringMap (Utf8.runes b)).map fun m =>
    l ++ (visit m).map fun kv => ⟨Utf8.goString kv.1, Utf8.goString kv.2⟩

/-- The map the decoder builds from the pairs of `l`, written in order: each string as the text
of its runes. -/
def insertElements (m : GoMap String String) (l : List LatencyElement) : GoMap String String :=
  l.foldl (fun m kv => m.insert (String.mk (Utf8.runes kv.quantile))
    (String.mk (Utf8.runes kv.latency))) m

/-! ## Decoding what was written -/

theorem member?_marshalElement (kv : LatencyElement) (rest : List Char) :
    Json.member? (marshalElement kv ++ rest) = some (String.mk (Utf8.runes kv.quantile),
      String.mk (Utf8.runes kv.latency), Json.skipSpace rest) := by
  rw [marshalElement, List.append_assoc, List.cons_append, Json.member?_marshalString]

theorem intercalate_marshalElements (kv : LatencyElement) (l : List LatencyElement) :
    ∃ t, [','].intercalate ((kv :: l).map marshalElement) = '"' :: t := by
  cases l <;> simp [List.intercalate, marshalElement, Json.marshalString]

/-- The members written for a non-empty list are read back one by one, up to the brace. -/
theorem membersFrom_marshalElements (kv : LatencyElement) (l : List LatencyElement)
    (m : GoMap String String) (rest : List Char) :
    Json.membersFrom m ([','].intercalate ((kv :: l).map marshalElement) ++ '}' :: rest) =
      some (insertElements m (kv :: l), rest) := by
  induction l generalizing kv m with
  | nil =>
    have h := member?_marshalElement kv ('}' :: rest)
    rw [Json.skipSpace_cons (by decide)] at h
    simpa [List.intercalate, insertElements] using Json.membersFrom_close h
  | cons kv' l ih =>
    have h := member?_marshalElement kv
      (',' :: ([','].intercalate ((kv' :: l).map marshalElement) ++ '}' :: rest))
    rw [Json.skipSpace_cons (by decide)] at h
    have htext : [','].intercalate ((kv :: kv' :: l).map marshalElement) ++ '}' :: rest =
        marshalElement kv ++ ',' :: ([','].intercalate ((kv' :: l).map marshalElement) ++
          '}' :: rest) := by
      simp [List.intercalate]
    obtain ⟨t, ht⟩ := intercalate_marshalElements kv' l
    rw [htext, Json.membersFrom_comma h, ht, List.cons_append, Json.skipSpace_cons (by decide),
      ← List.cons_append, ← ht, ih]
    rfl

/-- **The object written for `l` decodes to the map of its pairs**, written in order. -/
theorem decodeStringMap_marshalJSON (l : List LatencyElement) :
    Json.decodeStringMap (Utf8.runes (marshalJSON l)) = some (insertElements GoMap.empty l) := by
  rw [marshalJSON, Utf8.runes_encode]
  cases l with
  | nil => rfl
  | cons kv l =>
    obtain ⟨t, ht⟩ := intercalate_marshalElements kv l
    have hm := membersFrom_marshalElements kv l GoMap.empty []
    rw [ht, List.cons_append] at hm
    simp only [Json.decodeStringMap, marshalText, ht, List.cons_append,
      Json.skipSpace_cons (show Json.isSpace '{' = false by decide),
      Json.skipSpace_cons (show Json.isSpace '"' = false by decide)]
    split
    · rename_i h; cases h
    · rw [hm]; rfl

theorem entries_insertElements (m : GoMap String String) (l : List LatencyElement) :
    (insertElements m l).entries = insertAll m.entries
      (l.map fun kv => (String.mk (Utf8.runes kv.quantile), String.mk (Utf8.runes kv.latency))) := by
  induction l generalizing m with
  | nil => rfl
  | cons kv l ih => exact ih _

/-! ## The round trip, up to order -/

/-- An element as it comes back: both strings with their invalid bytes replaced. -/
def LatencyElement.replaceInvalid (kv : LatencyElement) : LatencyElement :=
  ⟨Utf8.replaceInvalid kv.quantile, Utf8.replaceInvalid kv.latency⟩

/-- The Go strings of a decoded pair are its element, replaced. -/
theorem goString_runes (kv : LatencyElement) :
    (⟨Utf8.goString (String.mk (Utf8.runes kv.quantile)),
      Utf8.goString (String.mk (Utf8.runes kv.latency))⟩ : LatencyElement) = kv.replaceInvalid :=
  rfl

/-- **Decoding what was written gives back the elements**: with labels pairwise distinct once
their invalid bytes are replaced, and in every order Go's `range` may visit the decoded map,
`UnmarshalJSON` of `MarshalJSON`'s bytes appends a permutation of `l`'s elements so replaced, none
lost or repeated; a valid label or latency comes back as it was (`Utf8.replaceInvalid_encode`). -/
theorem unmarshalJSON_marshalJSON_perm (visit : GoMap String String → List (String × String))
    (hvisit : ∀ m, (visit m).Perm m.entries) (l : List LatencyElement)
    (hl : (l.map fun kv => Utf8.replaceInvalid kv.quantile).Nodup) :
    ∃ l', unmarshalJSON visit (marshalJSON l) [] = some l' ∧
      l'.Perm (l.map LatencyElement.replaceInvalid) := by
  have hkeys : (l.map fun kv => String.mk (Utf8.runes kv.quantile)).Nodup := by
    refine List.Nodup.of_map Utf8.goString ?_
    simpa [Function.comp_def] using hl
  have hentries : (insertElements GoMap.empty l).entries =
      l.map fun kv => (String.mk (Utf8.runes kv.quantile), String.mk (Utf8.runes kv.latency)) := by
    rw [entries_insertElements]
    exact insertAll_of_nodup (by simpa [Function.comp_def] using hkeys)
  refine ⟨(visit (insertElements GoMap.empty l)).map fun kv =>
    ⟨Utf8.goString kv.1, Utf8.goString kv.2⟩, ?_, ?_⟩
  · rw [unmarshalJSON, decodeStringMap_marshalJSON]; rfl
  · have hperm := (hentries ▸ hvisit (insertElements GoMap.empty l)).map
      (fun kv : String × String => (⟨Utf8.goString kv.1, Utf8.goString kv.2⟩ : LatencyElement))
    simpa [Function.comp_def, goString_runes] using hperm

/-- A lookup in pairs whose keys went through an injective map. -/
theorem lookup_map_of_injective {α β γ δ : Type} [BEq α] [LawfulBEq α] [BEq β] [LawfulBEq β]
    {f : α → β} (hf : Function.Injective f) (g : γ → δ) (es : List (α × γ)) (k : α) :
    (es.map fun p => (f p.1, g p.2)).lookup (f k) = (es.lookup k).map g := by
  induction es with
  | nil => rfl
  | cons p es ih =>
    obtain ⟨k', v⟩ := p
    by_cases h : k = k'
    · subst h; simp [List.lookup_cons]
    · have h₁ : (k == k') = false := beq_false_of_ne h
      have h₂ : (f k == f k') = false := beq_false_of_ne (hf.ne h)
      simp only [List.map_cons, List.lookup_cons, h₁, h₂, ih]

/-- …and at a key outside the map's range, nothing. -/
theorem lookup_map_of_not_mem {α β γ δ : Type} [BEq β] [LawfulBEq β] {f : α → β} (g : γ → δ)
    (es : List (α × γ)) {q : β} (hq : ∀ k, f k ≠ q) :
    (es.map fun p => (f p.1, g p.2)).lookup q = none := by
  induction es with
  | nil => rfl
  | cons p es ih =>
    have h : (q == f p.1) = false := beq_false_of_ne (Ne.symm (hq p.1))
    simp only [List.map_cons, List.lookup_cons, h, ih]

/-- **Repeated labels: the last one wins.**  For every `LatencyMap` `l`, repeated labels
included, and every order Go's `range` may visit the decoded map in, `UnmarshalJSON` of
`MarshalJSON`'s bytes appends one element per distinct label of `l` with its invalid bytes
replaced, holding the latency of that label's last occurrence in `l`; earlier latencies under a
repeated label are lost, and two labels whose invalid bytes differ merge into one. -/
theorem unmarshalJSON_marshalJSON_last (visit : GoMap String String → List (String × String))
    (hvisit : ∀ m, (visit m).Perm m.entries) (l : List LatencyElement) :
    ∃ l', unmarshalJSON visit (marshalJSON l) [] = some l' ∧
      (l'.map LatencyElement.quantile).Nodup ∧
      ∀ q, (l'.map fun kv => (kv.quantile, kv.latency)).lookup q =
        ((l.map LatencyElement.replaceInvalid).map fun kv => (kv.quantile, kv.latency)).reverse.lookup q := by
  set m := insertElements GoMap.empty l
  set es := l.map fun kv => (String.mk (Utf8.runes kv.quantile), String.mk (Utf8.runes kv.latency))
  have hpairs : ((visit m).map fun kv => (⟨Utf8.goString kv.1, Utf8.goString kv.2⟩ :
      LatencyElement)).map (fun kv => (kv.quantile, kv.latency)) =
        (visit m).map fun p => (Utf8.goString p.1, Utf8.goString p.2) := by
    simp [Function.comp_def]
  have hl : ((l.map LatencyElement.replaceInvalid).map fun kv => (kv.quantile, kv.latency)).reverse =
      es.reverse.map fun p => (Utf8.goString p.1, Utf8.goString p.2) := by
    simp [es, List.map_reverse, Function.comp_def, ← goString_runes]
  have hnodup : ((visit m).map Prod.fst).Nodup :=
    ((hvisit m).map Prod.fst).nodup_iff.mpr m.nodup_keys
  have hlookup : ∀ k, (visit m).lookup k = es.reverse.lookup k := fun k => by
    rw [GoMap.lookup_perm (hvisit m) hnodup, entries_insertElements, lookup_insertAll]
    simp [GoMap.empty]
  refine ⟨(visit m).map fun kv => ⟨Utf8.goString kv.1, Utf8.goString kv.2⟩,
    by rw [unmarshalJSON, decodeStringMap_marshalJSON]; rfl, ?_, fun q => ?_⟩
  · have := hnodup.map Utf8.goString_injective
    simpa [Function.comp_def] using this
  rw [hpairs, hl]
  by_cases hq : ∃ k, Utf8.goString k = q
  · obtain ⟨k, rfl⟩ := hq
    rw [lookup_map_of_injective Utf8.goString_injective, lookup_map_of_injective
      Utf8.goString_injective, hlookup]
  · push_neg at hq
    rw [lookup_map_of_not_mem _ _ hq, lookup_map_of_not_mem _ _ hq]

/-- Two labels, `"\xff"` and `"\xfe"`, that differ and are not valid UTF-8. -/
def invalidQuantiles : List LatencyElement :=
  [⟨[0xFF], Utf8.goString "1ms"⟩, ⟨[0xFE], Utf8.goString "2ms"⟩]

theorem unmarshalJSON_marshalJSON_last_invalidQuantiles :
    (∀ m : GoMap String String, m.entries.Perm m.entries) ∧
      unmarshalJSON (fun m => m.entries) (marshalJSON invalidQuantiles) [] =
        some [⟨Utf8.goString "\uFFFD", Utf8.goString "2ms"⟩] ∧
      ∃ l', unmarshalJSON (fun m => m.entries) (marshalJSON invalidQuantiles) [] = some l' ∧
        (l'.map LatencyElement.quantile).Nodup ∧
        ∀ q, (l'.map fun kv => (kv.quantile, kv.latency)).lookup q =
          ((invalidQuantiles.map LatencyElement.replaceInvalid).map
            fun kv => (kv.quantile, kv.latency)).reverse.lookup q :=
  ⟨fun _ => List.Perm.refl _, by rw [unmarshalJSON, decodeStringMap_marshalJSON]; decide,
    unmarshalJSON_marshalJSON_last _ (fun _ => List.Perm.refl _) _⟩

/-- Two quantiles of a report, in the order the report lists them. -/
def twoQuantiles : List LatencyElement :=
  [⟨Utf8.goString "P50", Utf8.goString "1ms"⟩, ⟨Utf8.goString "P90", Utf8.goString "2ms"⟩]

theorem unmarshalJSON_marshalJSON_perm_twoQuantiles :
    (∀ m : GoMap String String, m.entries.Perm m.entries) ∧
      (twoQuantiles.map fun kv => Utf8.replaceInvalid kv.quantile).Nodup ∧
      ∃ l', unmarshalJSON (fun m => m.entries) (marshalJSON twoQuantiles) [] = some l' ∧
        l'.Perm (twoQuantiles.map LatencyElement.replaceInvalid) :=
  have hl : (twoQuantiles.map fun kv => Utf8.replaceInvalid kv.quantile).Nodup := by decide
  ⟨fun _ => List.Perm.refl _, hl,
    unmarshalJSON_marshalJSON_perm _ (fun _ => List.Perm.refl _) _ hl⟩

/-- **The order is not kept**: when the `range` visits the decoded map in its other order, one
Go may pick, the two quantiles come back swapped. -/
theorem unmarshalJSON_reorders :
    (∀ m : GoMap String String, m.entries.reverse.Perm m.entries) ∧
      unmarshalJSON (fun m => m.entries.reverse) (marshalJSON twoQuantiles) [] =
        some [⟨Utf8.goString "P90", Utf8.goString "2ms"⟩, ⟨Utf8.goString "P50", Utf8.goString "1ms"⟩] :=
  ⟨fun _ => List.reverse_perm _, by
    rw [unmarshalJSON, decodeStringMap_marshalJSON, twoQuantiles, insertElements]
    simp only [List.foldl, Utf8.runes_goString]
    rfl⟩

end Yab
