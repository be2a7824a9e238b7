import Yab.Go.Builtin

/-!
# Template/Merge — flag headers over template headers

`readYAMLRequest` writes a template's fields over the options the flags set.  For headers and
baggage it does not replace: `merge(target, source)` keeps every flag entry (`target`) and adds
each template entry (`source`) whose key the flags do not set.  `merge` returns early when either
map is empty and otherwise loops over the source in whatever order Go's `range` picks.

`merge_left_biased` says that, in every visiting order, the result is the left-biased union of
the two maps, and that the early returns agree with the loop.  The rest of `readYAMLRequest` —
the file read, the YAML decoding, the URL resolution of `peerList` and `thrift`, and the fields
copied as they are — is left out.
-/

namespace Yab

/-! ## `merge` -/

/-- The loop of `merge`: each source entry, in the order visited, is written unless the target
already holds its key. -/
def mergeLoop (target : GoMap String String) (visit : List (String × String)) :
    GoMap String String :=
  visit.foldl (fun t kv => if (t.get? kv.1).isSome then t else t.insert kv.1 kv.2) target

/-- `merge(target, source)`: flags (`target`) override the template (`source`).  The loop visits
`source.entries`, one of the orders Go may pick. -/
def merge (target source : GoMap String String) : GoMap String String :=
  if source.len = 0 then target
  else if target.len = 0 then source
  else mergeLoop target source.entries

/-- **A read after the loop**: the target's value, else the first entry visited with the key. -/
theorem get?_mergeLoop (target : GoMap String String) (visit : List (String × String))
    (k : String) : (mergeLoop target visit).get? k = (target.get? k).or (visit.lookup k) := by
  induction visit generalizing target with
  | nil => simp [mergeLoop]
  | cons kv visit ih =>
    obtain ⟨k', v'⟩ := kv
    rw [mergeLoop, List.foldl_cons, ← mergeLoop, ih, lookup_cons_ite]
    by_cases hk : k = k'
    · subst hk
      cases h : target.get? k <;> simp [h]
    · split_ifs <;> simp [hk]

theorem get?_merge (target source : GoMap String String) (k : String) :
    (merge target source).get? k = (target.get? k).or (source.get? k) := by
  unfold merge
  split_ifs with hs ht
  · simp [GoMap.get?_of_len_eq_zero hs]
  · simp [GoMap.get?_of_len_eq_zero ht]
  · rw [get?_mergeLoop]; rfl

/-- **`merge` is the left-biased union**, in every visiting order: a key reads the target's value
when the target has one and the source's otherwise, and the early returns read as the loop does. -/
theorem merge_left_biased (target source : GoMap String String) :
    (∀ k, (merge target source).get? k = (target.get? k).or (source.get? k)) ∧
      ∀ visit, visit.Perm source.entries →
        ∀ k, (mergeLoop target visit).get? k = (merge target source).get? k := by
  refine ⟨get?_merge target source, fun visit hv k => ?_⟩
  rw [get?_merge, get?_mergeLoop, ← GoMap.lookup_perm hv.symm source.nodup_keys k]
  rfl

end Yab
