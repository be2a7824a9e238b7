import Yab.Benchmark.Options
import Yab.Benchmark.State
import Yab.Go.Builtin
import Mathlib.Logic.Equiv.Fin
import Mathlib.Data.List.OfFn

/-!
# Benchmark/Matrix — the connection × concurrency matrix of worker states

`runBenchmark` allocates `states := make([]*benchmarkState, len(connections)*opts.Concurrency)` and
walks the same loop nest twice — once to fill slot `i*C+j` with a fresh state on connection `i`'s
sink, once to spawn the worker of that slot on connection `i`'s transport — and after the barrier
reads `states[0]` and re-slices `states[1:]`.  The loop nest is `matrixSlots`; both loops are
read off it.

The length `L·C` and the slots `i·C + j` are Go `int` arithmetic, which wraps (`goInt`), and
`make` refuses more than `maxAlloc` bytes of pointers.  For `C ≥ 1` and `8·L·C ≤ maxAlloc` the
matrix is well formed (`matrix_wellFormed`): nothing wraps, the loop nest visits the slots
`0, 1, …, L·C − 1` in order, each once (`map_snd_matrixSlots`, and `slotOf_bijective` for the
index map itself), so every slot is filled with its own connection's state — slot `k` with
connection `k / C`'s (`filledStates_eq_ofFn`) — and the post-run reads are in bounds.  Past that
size the fill panics (`allocStates_of_maxAlloc_lt`): `make` refuses the wrapped length `n`, or
accepts it and the fill runs off the slice's end at slot `n`.  `validate` does not check
`Concurrency`: at `0` the slice is empty and `states[0]` panics; below `0`, `make` does.
-/

namespace Yab

/-- A warmed connection: its transport and the peer it talks to. -/
structure Connection where
  transport : Nat
  peerID : String
  deriving DecidableEq, Repr

/-- The sink of connection `c`'s workers: the global one, or with per-peer stats the dual emitter
`statsd.MultiClient(statter, statsd.NewPrefixedClient(statter, "peer.<id>."))`. -/
def connStatter (global : Statter) (perPeerStats : Bool) (c : Connection) : Statter :=
  if perPeerStats then ⟨global.prefixes ++ global.prefixes.map (· ++ ("peer." ++ c.peerID ++ "."))⟩
  else global

/-- **The loop nest** `for i, c := range connections { for j := 0; j < opts.Concurrency; j++ }`
shared by the fill and the spawn loops: each iteration's connection and slot `i*C+j`, in `int`
arithmetic. -/
def matrixSlots (conns : List Connection) (concurrency : Int) : List (Connection × Int) :=
  conns.enum.flatMap fun ic => (List.range concurrency.toNat).map fun (j : Nat) =>
    (ic.2, goInt (goInt ((ic.1 : Int) * concurrency) + (j : Int)))

/-- **The fill**, lines 1002–1020: `make` the slice of `len(connections)*opts.Concurrency`
pointers (8 bytes each), then `states[i*C+j] = newBenchmarkState(statter)` along the loop nest. -/
def allocStates (conns : List Connection) (concurrency : Int) (global : Statter)
    (perPeerStats : Bool) : Except String (List (Option BenchmarkState)) := do
  let states ← makeSlice none 8 (goInt (conns.length * concurrency))
  (matrixSlots conns concurrency).foldlM (fun states cs =>
    sliceSet states cs.2 (some (BenchmarkState.new (connStatter global perPeerStats cs.1)))) states

/-- **The spawn**, lines 1027–1037: the transport each worker runs on and the state it reads,
`state := states[i*C+j]`. -/
def spawnWorkers (conns : List Connection) (concurrency : Int) (states : List (Option BenchmarkState)) :
    Except String (List (Nat × Option BenchmarkState)) :=
  (matrixSlots conns concurrency).mapM fun cs => do
    let state ← sliceIndex states cs.2
    return (cs.1.transport, state)

/-! ## The loop nest visits each slot once, in order -/

variable {conns : List Connection} {c : Nat}

theorem matrixSlots_ofNat (conns : List Connection) (c : Nat) :
    matrixSlots conns c = conns.enum.flatMap fun ic => (List.range c).map fun j =>
      (ic.2, goInt ((ic.1 * c + j : Nat) : Int)) := by
  simp only [matrixSlots, Int.toNat_ofNat, goInt_goInt_add, Int.ofNat_add, Int.ofNat_mul]

theorem enumFrom_slots (s : Nat) (xs : List Connection) :
    ((xs.enumFrom s).flatMap fun ic => (List.range c).map fun j => ic.1 * c + j) =
      List.range' (s * c) (xs.length * c) := by
  induction xs generalizing s with
  | nil => simp
  | cons x xs ih =>
    have hrow : (List.range c).map (fun j => (s, x).1 * c + j) = List.range' (s * c) c :=
      (List.range'_eq_map_range _ _).symm
    rw [List.enumFrom_cons, List.flatMap_cons, ih, hrow, Nat.succ_mul, List.range'_append_1,
      List.length_cons, Nat.succ_mul]

theorem enumFrom_conns (s : Nat) (xs : List Connection) :
    ((xs.enumFrom s).flatMap fun ic => List.replicate c ic.2) = xs.flatMap (List.replicate c) := by
  induction xs generalizing s with
  | nil => rfl
  | cons x xs ih => simp [ih]

/-- **The slots, in loop order, are `0, 1, …, L·C − 1`**, as `int`s. -/
theorem map_snd_matrixSlots (conns : List Connection) (c : Nat) :
    (matrixSlots conns c).map Prod.snd =
      (List.range (conns.length * c)).map fun k : Nat => goInt k := by
  have h : (matrixSlots conns c).map Prod.snd =
      (conns.enum.flatMap fun ic => (List.range c).map fun j => ic.1 * c + j).map
        fun k : Nat => goInt k := by
    simp only [matrixSlots_ofNat, List.map_flatMap, List.map_map, Function.comp_def]
  rw [h, List.enum, enumFrom_slots, Nat.zero_mul, List.range_eq_range']

/-- Below `2^63` the slots do not wrap. -/
theorem map_goInt_range {n : Nat} (h : n ≤ 2 ^ 63) :
    (List.range n).map (fun k : Nat => goInt k) = (List.range' 0 n).map Int.ofNat := by
  rw [← List.range_eq_range']
  refine List.map_congr_left fun k hk => ?_
  have := List.mem_range.mp hk
  exact goInt_of_lt (by omega) (by omega)

/-- The connections, in loop order: connection `i` for each of its `C` slots. -/
theorem map_fst_matrixSlots (conns : List Connection) (c : Nat) :
    (matrixSlots conns c).map Prod.fst = conns.flatMap (List.replicate c) := by
  simp only [matrixSlots_ofNat, List.map_flatMap, List.map_map, Function.comp_def,
    List.map_const', List.length_range]
  exact enumFrom_conns 0 conns

/-- The loop nest pairs the connections, `C` slots each, with the slots `0, 1, …, L·C − 1`. -/
theorem matrixSlots_eq_zip (conns : List Connection) (c : Nat) :
    matrixSlots conns c = (conns.flatMap (List.replicate c)).zip
      ((List.range (conns.length * c)).map fun k : Nat => goInt k) := by
  rw [← map_fst_matrixSlots, ← map_snd_matrixSlots, ← List.unzip_fst, ← List.unzip_snd,
    List.zip_unzip]

/-- **The index map `(i, j) ↦ i·C + j`**, on the loop's bounds. -/
def slotOf (L C : Nat) (p : Fin L × Fin C) : Fin (L * C) :=
  ⟨p.1 * C + p.2, by
    calc (p.1 : Nat) * C + p.2 < p.1 * C + C := Nat.add_lt_add_left p.2.isLt _
      _ = (p.1 + 1) * C := (Nat.succ_mul _ _).symm
      _ ≤ L * C := Nat.mul_le_mul_right _ p.1.isLt⟩

/-- …is a bijection onto `[0, L·C)`: it is Mathlib's `finProdFinEquiv`. -/
theorem slotOf_bijective (L C : Nat) : Function.Bijective (slotOf L C) := by
  have h : slotOf L C = finProdFinEquiv :=
    funext fun p => Fin.ext (by simp [slotOf, finProdFinEquiv, Nat.add_comm, Nat.mul_comm])
  exact h ▸ finProdFinEquiv.bijective

/-! ## The fill and the spawn stay in bounds -/

section Loops
variable {α β γ : Type}

theorem sliceSet_append_length (pre os : List α) (o x : α) :
    sliceSet (pre ++ o :: os) (pre.length : Int) x = .ok (pre ++ x :: os) := by
  rw [sliceSet_of_lt (by simp), List.set_append_right _ _ (le_refl _), Nat.sub_self,
    List.set_cons_zero]

theorem sliceIndex_append_length (pre ys : List α) (y : α) :
    sliceIndex (pre ++ y :: ys) (pre.length : Int) = .ok y := by
  rw [sliceIndex, dif_pos ⟨Int.ofNat_nonneg _, by simp⟩]
  simp [List.getElem_append_right]

/-- **Writing consecutive slots in order**, from slot `|pre|` on, replaces that stretch of the
slice by the values written. -/
theorem foldlM_sliceSet_zip (v : β → α) (xs : List β) (pre olds : List α)
    (h : xs.length = olds.length) :
    (xs.zip ((List.range' pre.length olds.length).map Int.ofNat)).foldlM
        (fun s cs => sliceSet s cs.2 (v cs.1)) (pre ++ olds) = .ok (pre ++ xs.map v) := by
  induction xs generalizing pre olds with
  | nil => cases olds with
    | nil => simp
    | cons _ _ => simp at h
  | cons x xs ih =>
    cases olds with
    | nil => simp at h
    | cons o os =>
      simp only [List.length_cons, List.range'_succ, List.map_cons, List.zip_cons_cons,
        List.foldlM_cons, Int.ofNat_eq_coe, sliceSet_append_length]
      have := ih (pre ++ [v x]) os (by simpa using h)
      simp only [List.length_append, List.length_singleton, List.append_assoc,
        List.singleton_append] at this
      exact this

/-- **Running off the end**: after writing every slot `0, …, m − 1` of a slice of length `m` in
order, a write to slot `m` panics, whatever would follow it. -/
theorem foldlM_sliceSet_off_end (v : β → α) (xs : List β) (olds : List α) (m : Nat)
    (hx : xs.length = m) (ho : olds.length = m) (x : β) (rest : List (β × Int)) :
    (xs.zip ((List.range' 0 m).map Int.ofNat) ++ (x, (m : Int)) :: rest).foldlM
        (fun s cs => sliceSet s cs.2 (v cs.1)) olds =
      .error ("runtime error: index out of range [" ++ toString (m : Int) ++ "] with length " ++
        toString m) := by
  subst ho
  have hpre := foldlM_sliceSet_zip v xs [] olds hx
  simp only [List.nil_append, List.length_nil] at hpre
  rw [List.foldlM_append, hpre]
  simp [bind, Except.bind, sliceSet, hx]

/-- **Reading consecutive slots in order** reads the slice's stretch from slot `|pre|` on. -/
theorem mapM_sliceIndex_zip (g : β → γ) (whole : List α) (xs : List β) (pre ys : List α)
    (hw : whole = pre ++ ys) (h : xs.length = ys.length) :
    (xs.zip ((List.range' pre.length ys.length).map Int.ofNat)).mapM
        (fun cs => do let s ← sliceIndex whole cs.2; return (g cs.1, s)) =
      .ok ((xs.map g).zip ys) := by
  induction xs generalizing pre ys with
  | nil => rfl
  | cons x xs ih =>
    cases ys with
    | nil => simp at h
    | cons y ys =>
      simp only [List.length_cons, List.range'_succ, List.map_cons, List.zip_cons_cons,
        List.mapM_cons, Int.ofNat_eq_coe, hw, sliceIndex_append_length]
      have := ih (pre ++ [y]) ys (by simp [hw]) (by simpa using h)
      simp only [List.length_append, List.length_singleton] at this
      rw [← hw, this]
      rfl

end Loops

/-! ## The matrix, well formed -/

theorem length_flatMap_replicate {α β : Type} (xs : List α) (c : Nat) (f : α → β) :
    (xs.flatMap fun x => List.replicate c (f x)).length = xs.length * c := by
  induction xs with
  | nil => simp
  | cons x xs ih => simp [ih, Nat.succ_mul, Nat.add_comm]

/-- What the fill leaves: connection `i`'s fresh state in each of its `C` slots. -/
def filledStates (conns : List Connection) (c : Nat) (global : Statter) (perPeerStats : Bool) :
    List (Option BenchmarkState) :=
  conns.flatMap fun x => List.replicate c (some (BenchmarkState.new (connStatter global perPeerStats x)))

theorem length_filledStates (conns : List Connection) (c : Nat) (global : Statter)
    (perPeerStats : Bool) : (filledStates conns c global perPeerStats).length = conns.length * c :=
  length_flatMap_replicate _ _ _

/-- Within `make`'s limit nothing wraps: the slots are `0, 1, …, L·C − 1`. -/
theorem matrixSlots_of_le (hsize : conns.length * c * 8 ≤ 2 ^ 48) :
    matrixSlots conns c = (conns.flatMap (List.replicate c)).zip
      ((List.range' 0 (conns.length * c)).map Int.ofNat) := by
  rw [matrixSlots_eq_zip, map_goInt_range (by omega)]

/-- **The fill fills every slot**, each with its own connection's fresh state, when the slice
fits `make`'s limit. -/
theorem allocStates_ofNat (hsize : conns.length * c * 8 ≤ 2 ^ 48) (global : Statter)
    (perPeerStats : Bool) :
    allocStates conns c global perPeerStats = .ok (filledStates conns c global perPeerStats) := by
  have hmake : makeSlice (none : Option BenchmarkState) 8 (goInt (conns.length * (c : Int))) =
      .ok (List.replicate (conns.length * c) none) := by
    rw [← Int.ofNat_mul, goInt_of_lt (by omega) (by omega), makeSlice,
      if_neg (by simp only [maxAlloc]; omega), Int.toNat_ofNat]
  have hfill := foldlM_sliceSet_zip (fun x => some (BenchmarkState.new (connStatter global
    perPeerStats x))) (conns.flatMap (List.replicate c)) [] (List.replicate (conns.length * c) none)
    (by simpa using length_flatMap_replicate conns c id)
  simp only [List.length_replicate, List.nil_append, List.length_nil] at hfill
  rw [allocStates, hmake, matrixSlots_of_le hsize]
  simp only [bind, Except.bind]
  rw [hfill, filledStates, List.map_flatMap]
  simp [List.map_replicate]

/-- The slots `0, …, N − 1` as `int`s, split at a slot `m` below `2^62`. -/
theorem map_goInt_range_split {m N : Nat} (hm : m < N) (h : m ≤ 2 ^ 62) :
    (List.range N).map (fun k : Nat => goInt k) = (List.range' 0 m).map Int.ofNat ++
      (m : Int) :: (List.range' (m + 1) (N - (m + 1))).map fun k : Nat => goInt k := by
  obtain ⟨k, rfl⟩ := Nat.exists_eq_add_of_lt hm
  have hpre : (List.range' 0 m).map (fun k : Nat => goInt k) = (List.range' 0 m).map Int.ofNat :=
    List.map_congr_left fun k hk => by
      have := (List.mem_range'_1.mp hk).2
      exact goInt_of_lt (by omega) (by omega)
  rw [List.range_eq_range', show m + k + 1 = k + 1 + m by omega, ← List.range'_append_1 0 m,
    List.range'_succ, List.map_append, List.map_cons, hpre, Nat.zero_add,
    goInt_of_lt (by omega) (by omega), show k + 1 + m - (m + 1) = k by omega]

/-- **Past `make`'s limit the fill panics.**  With more than `maxAlloc` bytes of pointers, `make`
sees Go's wrapped product `n = L·C mod 2^64`: it panics if `n` is negative or still too large, and
otherwise the fill writes slots `0, …, n − 1` and panics at slot `n`, one past the end. -/
theorem allocStates_of_maxAlloc_lt (conns : List Connection) (c : Nat)
    (hbig : maxAlloc < conns.length * c * 8) (global : Statter) (perPeerStats : Bool) :
    allocStates conns c global perPeerStats =
      if goInt (conns.length * c) < 0 ∨ maxAlloc < goInt (conns.length * c) * 8 then
        .error "runtime error: makeslice: len out of range"
      else .error ("runtime error: index out of range [" ++ toString (goInt (conns.length * c)) ++
        "] with length " ++ toString (goInt (conns.length * c)).toNat) := by
  rw [allocStates]
  split_ifs with hm
  · rw [makeSlice, Nat.cast_ofNat, if_pos hm]; rfl
  · obtain ⟨m, hn⟩ := Int.eq_ofNat_of_zero_le (Int.not_lt.mp (not_or.mp hm).1)
    have hm8 : m * 8 ≤ 2 ^ 48 := by
      have := (not_or.mp hm).2; simp only [maxAlloc, hn] at this; omega
    have hlt : m < conns.length * c := by simp only [maxAlloc] at hbig; omega
    have hR : (conns.flatMap (List.replicate c)).length = conns.length * c := by
      simpa using length_flatMap_replicate conns c id
    have hmake : makeSlice (none : Option BenchmarkState) 8 (goInt (conns.length * (c : Int))) =
        .ok (List.replicate m none) := by
      rw [hn, makeSlice, if_neg (by simp only [maxAlloc]; omega), Int.toNat_ofNat]
    rw [hmake, hn, Int.toNat_ofNat, matrixSlots_eq_zip, map_goInt_range_split hlt (by omega),
      ← List.take_append_drop m (conns.flatMap (List.replicate c)),
      List.drop_eq_getElem_cons (hR ▸ hlt), List.zip_append (by
        rw [List.length_take, List.length_map, List.length_range', hR]; omega), List.zip_cons_cons]
    simp only [bind, Except.bind]
    refine foldlM_sliceSet_off_end (fun x => some (BenchmarkState.new (connStatter global
      perPeerStats x))) _ _ m ?_ (List.length_replicate _ _) _ _
    rw [List.length_take, hR]; omega

/-- The connection of the worker in slot `k`: slot `i·C + j` is connection `i`'s. -/
def slotConn (conns : List Connection) (c : Nat) (k : Fin (conns.length * c)) : Connection :=
  conns.get ⟨k / c, Nat.div_lt_of_lt_mul (Nat.mul_comm conns.length c ▸ k.isLt)⟩

/-- Slot `k` of the connections repeated `C` times each is connection `k / C`. -/
theorem getElem_flatMap_replicate {α : Type} (xs : List α) (c k : Nat)
    (h : k < (xs.flatMap (List.replicate c)).length) (h' : k / c < xs.length) :
    (xs.flatMap (List.replicate c))[k] = xs[k / c] := by
  induction xs generalizing k with
  | nil => simp at h'
  | cons x xs ih =>
    simp only [List.flatMap_cons]
    by_cases hk : k < c
    · rw [List.getElem_append_left (by simpa using hk)]
      simp [Nat.div_eq_of_lt hk]
    · have hc : 0 < c := Nat.pos_of_ne_zero (by rintro rfl; simp [Function.comp_def] at h)
      rw [List.getElem_append_right (by simpa using hk)]
      have hdiv : k / c = (k - c) / c + 1 := Nat.div_eq_sub_div hc (by omega)
      have := ih (k - c) (by simp at h ⊢; omega) (by simp [hdiv] at h'; omega)
      simp only [List.length_replicate] at this
      simp [this, hdiv]

/-- **What the fill leaves, slot by slot**: slot `k` holds a fresh state on the sink of its
connection, `k / C`. -/
theorem filledStates_eq_ofFn (conns : List Connection) (c : Nat) (global : Statter)
    (perPeerStats : Bool) :
    filledStates conns c global perPeerStats = List.ofFn fun k =>
      some (BenchmarkState.new (connStatter global perPeerStats (slotConn conns c k))) := by
  have hmap : filledStates conns c global perPeerStats = (conns.flatMap (List.replicate c)).map
      fun x => some (BenchmarkState.new (connStatter global perPeerStats x)) := by
    simp [filledStates, List.map_flatMap, List.map_replicate]
  have hlen : (conns.flatMap (List.replicate c)).length = conns.length * c := by
    simpa using length_flatMap_replicate conns c id
  rw [hmap]
  refine List.ext_getElem (by simp [hlen]) fun k h₁ h₂ => ?_
  simp only [List.getElem_map, List.getElem_ofFn, slotConn, List.get_eq_getElem]
  rw [getElem_flatMap_replicate]

/-- **The spawn reads every slot in bounds**: the worker of slot `k` runs on its connection's
transport with the state of slot `k`. -/
theorem spawnWorkers_filledStates (hsize : conns.length * c * 8 ≤ 2 ^ 48) (global : Statter)
    (perPeerStats : Bool) :
    spawnWorkers conns c (filledStates conns c global perPeerStats) =
      .ok (((conns.flatMap (List.replicate c)).map Connection.transport).zip
        (filledStates conns c global perPeerStats)) := by
  rw [spawnWorkers, matrixSlots_of_le hsize, ← length_filledStates conns c global perPeerStats]
  exact mapM_sliceIndex_zip _ _ _ [] _ rfl (by
    simpa [length_filledStates] using length_flatMap_replicate conns c id)

/-- **The worker-state matrix is well formed** for `L ≥ 1` connections and concurrency `C ≥ 1`
whose `L·C` pointers fit `make`'s limit: the fill and the spawn walk the slots `0, …, L·C − 1`
once each, in order, through a bijective index map; every slot holds its connection's fresh
state; every worker reads its own slot; and the post-run `states[0]` and `states[1:]` are in
bounds. -/
theorem matrix_wellFormed (conns : List Connection) (hL : 0 < conns.length) (C : Int) (hC : 0 < C)
    (hsize : conns.length * C * 8 ≤ maxAlloc) (global : Statter) (perPeerStats : Bool) :
    let states := filledStates conns C.toNat global perPeerStats
    allocStates conns C global perPeerStats = .ok states ∧
    states.length = conns.length * C.toNat ∧
    (matrixSlots conns C).map Prod.snd = (List.range (conns.length * C.toNat)).map Int.ofNat ∧
    Function.Bijective (slotOf conns.length C.toNat) ∧
    spawnWorkers conns C states =
      .ok (((conns.flatMap (List.replicate C.toNat)).map Connection.transport).zip states) ∧
    ∃ s₀ rest, sliceIndex states 0 = .ok s₀ ∧ sliceFrom states 1 = .ok rest := by
  obtain ⟨c, rfl⟩ := Int.eq_ofNat_of_zero_le hC.le
  have hc : 0 < c := by omega
  have hs : conns.length * c * 8 ≤ 2 ^ 48 := by simp only [maxAlloc] at hsize; omega
  simp only [Int.toNat_ofNat]
  refine ⟨allocStates_ofNat hs _ _, length_filledStates _ _ _ _, ?_, slotOf_bijective _ _,
    spawnWorkers_filledStates hs _ _, ?_⟩
  · rw [map_snd_matrixSlots, map_goInt_range (by omega), List.range_eq_range']
  · obtain ⟨x, xs, rfl⟩ := List.exists_cons_of_length_pos hL
    obtain ⟨c', rfl⟩ := Nat.exists_eq_add_of_lt hc
    exact ⟨_, _, sliceIndex_cons_zero _ _, sliceFrom_cons_one _ _⟩

theorem matrix_wellFormed_onePeerTwoWorkers :
    0 < [(⟨0, "peer"⟩ : Connection)].length ∧ (0 : Int) < 2 ∧
      [(⟨0, "peer"⟩ : Connection)].length * (2 : Int) * 8 ≤ maxAlloc ∧
      allocStates [⟨0, "peer"⟩] 2 ⟨[""]⟩ true =
        .ok (filledStates [⟨0, "peer"⟩] 2 ⟨[""]⟩ true) :=
  ⟨by decide, by decide, by decide,
    (matrix_wellFormed [⟨0, "peer"⟩] (by decide) 2 (by decide) (by decide) ⟨[""]⟩ true).1⟩

/-- One connection at concurrency `0` — options `validate` admits and `enabled` runs. -/
def zeroConcurrency : BenchmarkOptions where
  maxRequests := 1
  maxDuration := 0
  rps := 0
  connections := 1
  concurrency := 0
  numCPUs := 0
  perPeerStats := false
  format := ""

/-- Four warmed connections. -/
def fourPeers : List Connection := [⟨0, "a"⟩, ⟨1, "b"⟩, ⟨2, "c"⟩, ⟨3, "d"⟩]

/-- **Concurrencies the fill cannot take.**  At `0` the matrix is empty and the post-run
`states[0]` panics; at `-1` `make` panics; and at `2^62 + 1` on four connections the `int`
product wraps to `4`, so `make` allocates four slots and the fill panics at the fifth. -/
theorem matrix_panics :
    zeroConcurrency.validate = .ok () ∧ zeroConcurrency.enabled = true ∧
    allocStates [⟨0, "peer"⟩] zeroConcurrency.concurrency ⟨[""]⟩ false = .ok [] ∧
    sliceIndex ([] : List (Option BenchmarkState)) 0 =
      .error "runtime error: index out of range [0] with length 0" ∧
    allocStates [⟨0, "peer"⟩] (-1) ⟨[""]⟩ false =
      .error "runtime error: makeslice: len out of range" ∧
    allocStates fourPeers (2 ^ 62 + 1) ⟨[""]⟩ false =
      .error "runtime error: index out of range [4] with length 4" := by
  refine ⟨rfl, rfl, rfl, rfl, rfl, ?_⟩
  have h := allocStates_of_maxAlloc_lt fourPeers (2 ^ 62 + 1) (by decide) ⟨[""]⟩ false
  rw [if_neg (by decide)] at h
  exact h.trans rfl

end Yab
