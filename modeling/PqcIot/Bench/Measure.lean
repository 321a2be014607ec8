import Mathlib.Data.List.GetD
import PqcIot.Numeric.Samples

/-!
# Cycle figures

`bench_measure` and `compare_u32` of `bench.c`. The CPU counts cycles without an end, and the code
sees the count modulo 2^32. Floating point is a parameter, but for the sum of the samples: a double
there holds a natural number.

* `benchMeasure_rejects` — with a wrong number of iterations, nothing is done;
* `benchMeasure_statistics` — otherwise the figures are order statistics of the true durations of
  the measured calls, as long as each of these is shorter than a turn of the counter.
-/

namespace PqcIot

open Numeric

namespace Bench

/-! ## The machine -/

/-- A CPU that calls an operation and reads its cycle counter. -/
structure Cpu (W : Type) where
  /-- The true count of cycles. -/
  now : W → ℕ
  op : W → W
  /-- The true count at which the counter is read. -/
  readCounter : W → ℕ × W
  now_le_op : ∀ w, now w ≤ now (op w)
  now_le_read : ∀ w, now w ≤ (readCounter w).1
  read_le_now : ∀ w, (readCounter w).1 ≤ now (readCounter w).2

/-- What happens on the CPU. -/
inductive Event where
  | called
  | counter (cycles : ℕ)
  deriving DecidableEq, Repr

/-- The operations on doubles. -/
structure Doubles (D : Type) where
  /-- The double of an integer that is one. -/
  ofNat : ℕ → D
  add : D → D → D
  sub : D → D → D
  mul : D → D → D
  div : D → D → D
  sqrt : D → D

/-- `MAX_ITERATIONS`. -/
def maxIterations : ℕ := 200

/-- `bench_result_t`. -/
structure BenchResult (D : Type) where
  name : String
  iterations : Int32
  min : UInt32
  median : UInt32
  max : UInt32
  mean : D
  stddev : D
  stackBytes : UInt32

/-- The CPU, `s_samples`, `*out` and everything that has happened. -/
structure MeasureState (W D : Type) where
  world : W
  samples : Vector UInt32 maxIterations
  out : BenchResult D
  trace : List Event

/-! ## The code -/

/-- `compare_u32`. -/
def compareU32 (x y : UInt32) : Int32 :=
  (if x > y then 1 else 0) - (if x < y then 1 else 0)

/-- `qsort`. -/
def qsort {α : Type} (compar : α → α → Int32) (items : List α) : List α :=
  items.mergeSort fun a b => compar a b ≤ 0

theorem length_qsort {α : Type} (compar : α → α → Int32) (items : List α) :
    (qsort compar items).length = items.length := (List.mergeSort_perm _ _).length_eq

/-- `qsort` of the first elements of an array. -/
def sortFirst (n : ℕ) (samples : Vector UInt32 maxIterations) : Vector UInt32 maxIterations :=
  ⟨(qsort compareU32 (samples.toList.take n) ++ samples.toList.drop n).toArray, by
    rw [List.size_toArray, List.length_append, length_qsort, ← List.length_append,
      List.take_append_drop, Vector.length_toList]⟩

section

variable {W D : Type} (cpu : Cpu W) (doubles : Doubles D)

/-- `op()`. -/
def callOp (s : MeasureState W D) : MeasureState W D :=
  { s with world := cpu.op s.world, trace := s.trace ++ [.called] }

/-- `esp_cpu_get_cycle_count()`. -/
def espCpuGetCycleCount (s : MeasureState W D) : UInt32 × MeasureState W D :=
  let (cycles, world) := cpu.readCounter s.world
  (UInt32.ofNat cycles, { s with world, trace := s.trace ++ [.counter cycles] })

/-- The body of the loop over the iterations. -/
def sample (i : ℕ) (s : MeasureState W D) : MeasureState W D :=
  let (start, s) := espCpuGetCycleCount cpu s
  let s := callOp cpu s
  let (stop, s) := espCpuGetCycleCount cpu s
  -- The difference is taken modulo 2^32, in which a wrap between the readings cancels.
  { s with samples := s.samples.setIfInBounds i (stop - start) }

/-- The loop from `i` on, for so many iterations. -/
def sampleLoop : ℕ → ℕ → MeasureState W D → MeasureState W D
  | _, 0, s => s
  | i, left + 1, s => sampleLoop (i + 1) left (sample cpu i s)

/-- `bench_measure`. -/
def benchMeasure (name : String) (iterations : Int32) (s : MeasureState W D) :
    Bool × MeasureState W D :=
  if iterations < 3 ∨ iterations > Int32.ofNat maxIterations then
    (false, s)
  else
    let n := iterations.toNatClampNeg
    -- The calls that warm up the caches are not measured.
    let s := callOp cpu (callOp cpu s)
    let s := sampleLoop cpu 0 n s
    -- Mean and deviation are taken from the samples before they are sorted.
    let measured := s.samples.toList.take n
    let sum := sumDouble (measured.map UInt32.toNat)
    let mean := doubles.div (doubles.ofNat sum) (doubles.ofNat n)
    let var := measured.foldl (fun var x =>
      let d := doubles.sub (doubles.ofNat x.toNat) mean
      doubles.add var (doubles.mul d d)) (doubles.ofNat 0)
    let s := { s with samples := sortFirst n s.samples }
    let out : BenchResult D := {
      name
      iterations
      min := s.samples.toList.getD 0 0
      max := s.samples.toList.getD (n - 1) 0
      median := s.samples.toList.getD (n / 2) 0
      mean
      stddev := doubles.sqrt (doubles.div var (doubles.ofNat n))
      stackBytes := 0 }
    (true, { s with out })

end

/-! ## The comparison -/

/-- `compare_u32` orders all of the 32-bit numbers, although its result is a signed one. -/
theorem compareU32_le_zero_iff (x y : UInt32) : compareU32 x y ≤ 0 ↔ x.toNat ≤ y.toNat := by
  have hlt (a b : UInt32) : a < b ↔ a.toNat < b.toNat := UInt32.lt_iff_toNat_lt
  have hnot {a b : UInt32} (h : b.toNat ≤ a.toNat) : ¬ a < b := fun hab =>
    absurd ((hlt a b).mp hab) (not_lt_of_ge h)
  rw [compareU32]
  rcases lt_trichotomy x.toNat y.toNat with h | h | h
  · rw [if_neg (hnot h.le), if_pos ((hlt x y).mpr h)]
    exact iff_of_true (by decide) h.le
  · rw [if_neg (hnot h.le), if_neg (hnot h.ge)]
    exact iff_of_true (by decide) h.le
  · rw [if_pos ((hlt y x).mpr h), if_neg (hnot h.le)]
    exact iff_of_false (by decide) (not_le_of_gt h)

theorem qsort_perm (samples : List UInt32) : (qsort compareU32 samples).Perm samples :=
  List.mergeSort_perm _ _

theorem qsort_pairwise (samples : List UInt32) :
    ((qsort compareU32 samples).map UInt32.toNat).Pairwise (· ≤ ·) := by
  have hsorted : (qsort compareU32 samples).Pairwise fun a b =>
    decide (compareU32 a b ≤ 0) = true := by
    refine List.pairwise_mergeSort (fun a b c hab hbc => ?_) (fun a b => ?_) samples
    · simp only [decide_eq_true_eq, compareU32_le_zero_iff] at hab hbc ⊢
      exact hab.trans hbc
    · simp only [Bool.or_eq_true, decide_eq_true_eq, compareU32_le_zero_iff]
      exact le_total _ _
  rw [List.pairwise_map]
  refine hsorted.imp fun {a b} hab => ?_
  rwa [decide_eq_true_eq, compareU32_le_zero_iff] at hab

/-! ## Measured calls -/

/-- The true counts before and after a measured call. -/
structure Window where
  start : ℕ
  stop : ℕ
  start_le : start ≤ stop

namespace Window

/-- What happens in a measured call. -/
def events (w : Window) : List Event := [.counter w.start, .called, .counter w.stop]

/-- The true duration of the call. -/
def duration (w : Window) : ℕ := w.stop - w.start

/-- The duration as the code sees it. -/
def sampled (w : Window) : UInt32 := UInt32.ofNat w.stop - UInt32.ofNat w.start

/-- A duration below a turn of the counter is seen as it is, wherever the counter wraps. -/
theorem toNat_sampled (w : Window) (h : w.duration < 2 ^ 32) : w.sampled.toNat = w.duration :=
  toNat_ofNat_sub_ofNat w.start_le h

end Window

section

variable {W D : Type} (cpu : Cpu W) (doubles : Doubles D)

/-- An iteration measures one call. -/
theorem exists_window (i : ℕ) (s : MeasureState W D) : ∃ w : Window,
    (sample cpu i s).samples = s.samples.setIfInBounds i w.sampled ∧
      (sample cpu i s).trace = s.trace ++ w.events := by
  have hstart := cpu.read_le_now s.world
  have hop := cpu.now_le_op (cpu.readCounter s.world).2
  have hstop := cpu.now_le_read (cpu.op (cpu.readCounter s.world).2)
  refine ⟨⟨_, _, hstart.trans (hop.trans hstop)⟩, rfl, ?_⟩
  simp [sample, espCpuGetCycleCount, callOp, Window.events]

/-- The loop measures one call after the other, and keeps the samples in this order. -/
theorem exists_windows (left i : ℕ) (s : MeasureState W D) (hi : i + left ≤ maxIterations) :
    ∃ windows : List Window, windows.length = left ∧
      (sampleLoop cpu i left s).trace = s.trace ++ windows.flatMap Window.events ∧
      (sampleLoop cpu i left s).samples.toList.take (i + left) =
        s.samples.toList.take i ++ windows.map Window.sampled := by
  induction left generalizing i s with
  | zero => exact ⟨[], rfl, by simp [sampleLoop], by simp [sampleLoop]⟩
  | succ left ih =>
    obtain ⟨w, hsamples, htrace⟩ := exists_window cpu i s
    obtain ⟨windows, hlength, htrace', hsamples'⟩ := ih (i + 1) (sample cpu i s) (by omega)
    have hbound : i < s.samples.toList.length := by
      rw [Vector.length_toList]
      omega
    -- The new sample is the last one of those that the array holds by now.
    have hset : (sample cpu i s).samples.toList.take (i + 1) =
      s.samples.toList.take i ++ [w.sampled] := by
      have hlength : (s.samples.toList.take i).length = i := List.length_take_of_le hbound.le
      rw [hsamples, Vector.toList_setIfInBounds, List.take_set, List.take_add_one,
        List.getElem?_eq_getElem hbound, Option.toList_some, List.set_append_right _ _ hlength.le,
        hlength, Nat.sub_self]
      rfl
    refine ⟨w :: windows, by rw [List.length_cons, hlength], ?_, ?_⟩
    · rw [sampleLoop, htrace', htrace, List.flatMap_cons, List.append_assoc]
    · rw [hset] at hsamples'
      rw [sampleLoop, ← Nat.add_assoc, Nat.add_right_comm, hsamples', List.map_cons,
        List.append_assoc]
      rfl

/-! ## The figures -/

/-- The figures are order statistics of the durations. -/
structure OrderStatistics (out : BenchResult D) (durations : List ℕ) : Prop where
  min_mem : out.min.toNat ∈ durations
  min_le : ∀ d ∈ durations, out.min.toNat ≤ d
  max_mem : out.max.toNat ∈ durations
  le_max : ∀ d ∈ durations, d ≤ out.max.toNat
  median_mem : out.median.toNat ∈ durations
  /-- At least half of the durations are not longer than the median. -/
  half_le : durations.length ≤ 2 * durations.countP (· ≤ out.median.toNat)
  /-- At least half of the durations are not shorter than the median. -/
  half_ge : durations.length ≤ 2 * durations.countP (out.median.toNat ≤ ·)
  min_le_median : out.min ≤ out.median
  median_le_max : out.median ≤ out.max

/-- The first, the last and the middle one of the sorted samples. -/
theorem orderStatistics_of_sorted {out : BenchResult D} {samples : List UInt32}
    (hne : 0 < samples.length)
    (hmin : out.min = (qsort compareU32 samples).getD 0 0)
    (hmax : out.max = (qsort compareU32 samples).getD (samples.length - 1) 0)
    (hmedian : out.median = (qsort compareU32 samples).getD (samples.length / 2) 0) :
    OrderStatistics out (samples.map UInt32.toNat) := by
  have hperm := (qsort_perm samples).map UInt32.toNat
  have hsorted := qsort_pairwise samples
  have hlength : ((qsort compareU32 samples).map UInt32.toNat).length = samples.length := by
    rw [List.length_map, length_qsort]
  have hget (k : ℕ) (hk : k < samples.length) :
      ∃ h : k < ((qsort compareU32 samples).map UInt32.toNat).length,
        ((qsort compareU32 samples).getD k 0).toNat =
          ((qsort compareU32 samples).map UInt32.toNat)[k] := by
    have hk' : k < (qsort compareU32 samples).length := by rwa [length_qsort]
    refine ⟨by rwa [hlength], ?_⟩
    rw [List.getElem_map, List.getD_eq_getElem _ _ hk']
  -- Whatever holds of the sorted durations holds of the durations.
  generalize (qsort compareU32 samples).map UInt32.toNat = sorted at hperm hsorted hlength hget
  obtain ⟨h0, hmin'⟩ := hget 0 hne
  obtain ⟨h1, hmax'⟩ := hget (samples.length - 1) (by omega)
  obtain ⟨h2, hmedian'⟩ := hget (samples.length / 2) (by omega)
  rw [← hmin] at hmin'
  rw [← hmax] at hmax'
  rw [← hmedian] at hmedian'
  have hcount (p : ℕ → Bool) := hperm.countP_eq p
  have hlast : sorted.length - 1 = samples.length - 1 := by rw [hlength]
  constructor
  · rw [hmin']
    exact hperm.subset (List.getElem_mem h0)
  · intro d hd
    rw [hmin']
    exact first_le hsorted h0 d (hperm.symm.subset hd)
  · rw [hmax']
    exact hperm.subset (List.getElem_mem h1)
  · intro d hd
    have hle := le_last hsorted h0 d (hperm.symm.subset hd)
    rw [hmax']
    simpa only [hlast] using hle
  · rw [hmedian']
    exact hperm.subset (List.getElem_mem h2)
  · have hlow := lt_countP_le hsorted h2
    rw [List.length_map, hmedian', ← hcount]
    omega
  · have hhigh := sub_le_countP_ge hsorted h2
    rw [List.length_map, hmedian', ← hcount]
    omega
  · rw [UInt32.le_iff_toNat_le, hmin', hmedian']
    exact getElem_le_getElem hsorted (Nat.zero_le _) h2
  · rw [UInt32.le_iff_toNat_le, hmax', hmedian']
    exact getElem_le_getElem hsorted (by omega) h1

/-- With a wrong number of iterations, `bench_measure` neither calls the operation nor touches
anything. -/
theorem benchMeasure_rejects (name : String) {iterations : Int32} (s : MeasureState W D)
    (h : iterations.toInt < 3 ∨ 200 < iterations.toInt) :
    benchMeasure cpu doubles name iterations s = (false, s) := by
  have hthree : iterations < 3 ↔ iterations.toInt < 3 := Int32.lt_iff_toInt_lt
  have hmax : iterations > Int32.ofNat maxIterations ↔ 200 < iterations.toInt :=
    Int32.lt_iff_toInt_lt
  rw [benchMeasure, if_pos]
  rwa [hthree, hmax]

/-- The sorted part of the array. -/
theorem sortFirst_getD {n k : ℕ} (samples : Vector UInt32 maxIterations) (hn : n ≤ maxIterations)
    (hk : k < n) :
    (sortFirst n samples).toList.getD k 0 =
    (qsort compareU32 (samples.toList.take n)).getD k 0 := by
  have htoList : (sortFirst n samples).toList =
      qsort compareU32 (samples.toList.take n) ++ samples.toList.drop n := rfl
  have hlength : k < (qsort compareU32 (samples.toList.take n)).length := by
    rw [length_qsort, List.length_take, Vector.length_toList]
    omega
  rw [htoList, List.getD_append _ _ _ _ hlength]

/-- The figures of a run that is not rejected: `bench_measure` warms up with two calls, measures the
given number of them, and reports on these. -/
theorem exists_run (name : String) {iterations : Int32} (s : MeasureState W D)
    (h3 : 3 ≤ iterations.toInt) (h200 : iterations.toInt ≤ 200) :
    ∃ (windows : List Window) (s' : MeasureState W D),
      benchMeasure cpu doubles name iterations s = (true, s') ∧
      windows.length = iterations.toInt ∧
      s'.trace = s.trace ++ [.called, .called] ++ windows.flatMap Window.events ∧
      s'.out.min = (qsort compareU32 (windows.map Window.sampled)).getD 0 0 ∧
      s'.out.max = (qsort compareU32 (windows.map Window.sampled)).getD (windows.length - 1) 0 ∧
      s'.out.median = (qsort compareU32 (windows.map Window.sampled)).getD (windows.length / 2) 0 ∧
      s'.out.mean = doubles.div
        (doubles.ofNat (sumDouble ((windows.map Window.sampled).map UInt32.toNat)))
        (doubles.ofNat windows.length) := by
  have hthree : iterations < 3 ↔ iterations.toInt < 3 := Int32.lt_iff_toInt_lt
  have hmax : iterations > Int32.ofNat maxIterations ↔ 200 < iterations.toInt :=
    Int32.lt_iff_toInt_lt
  -- The iterations are in the range that is accepted.
  have hguard : ¬ (iterations < 3 ∨ iterations > Int32.ofNat maxIterations) := by
    rw [hthree, hmax]
    omega
  have hn : (iterations.toNatClampNeg : ℤ) = iterations.toInt := by
    rw [Int32.toNatClampNeg, Int.toNat_of_nonneg (by omega)]
  have hle : iterations.toNatClampNeg ≤ maxIterations := by
    rw [maxIterations]
    omega
  obtain ⟨windows, hlength, htrace, hsamples⟩ := exists_windows cpu iterations.toNatClampNeg 0
    (callOp cpu (callOp cpu s)) (by omega)
  rw [Nat.zero_add, List.take_zero, List.nil_append] at hsamples
  -- The statistics are read from the samples that were written, in their order.
  have hsorted (k : ℕ) (hk : k < iterations.toNatClampNeg) :
      (sortFirst iterations.toNatClampNeg (sampleLoop cpu 0 iterations.toNatClampNeg
        (callOp cpu (callOp cpu s))).samples).toList.getD k 0 =
        (qsort compareU32 (windows.map Window.sampled)).getD k 0 := by
    rw [sortFirst_getD _ hle hk, hsamples]
  refine ⟨windows, _, if_neg hguard, by rw [hlength, hn], ?_, ?_, ?_, ?_, ?_⟩
  · have hwarm : (callOp cpu (callOp cpu s)).trace = s.trace ++ [.called, .called] := by
      simp [callOp]
    rw [hwarm] at htrace
    exact htrace
  · have hfirst := hsorted 0 (by omega)
    exact hfirst
  · have hlast := hsorted (iterations.toNatClampNeg - 1) (by omega)
    rwa [hlength]
  · have hmiddle := hsorted (iterations.toNatClampNeg / 2) (by omega)
    rwa [hlength]
  · rw [← hsamples, hlength]

/-- The figures that `bench_measure` reports. -/
theorem benchMeasure_statistics (name : String) (iterations : Int32) (s : MeasureState W D) :
    (iterations.toInt < 3 ∨ 200 < iterations.toInt →
      benchMeasure cpu doubles name iterations s = (false, s)) ∧
    (3 ≤ iterations.toInt → iterations.toInt ≤ 200 →
      ∃ (windows : List Window) (s' : MeasureState W D),
        benchMeasure cpu doubles name iterations s = (true, s') ∧
        windows.length = iterations.toInt ∧
        s'.trace = s.trace ++ [.called, .called] ++ windows.flatMap Window.events ∧
        ((∀ w ∈ windows, w.duration < 2 ^ 32) →
          OrderStatistics s'.out (windows.map Window.duration) ∧
          s'.out.mean = doubles.div (doubles.ofNat (windows.map Window.duration).sum)
            (doubles.ofNat windows.length) ∧
          (windows.map Window.duration).sum < 2 ^ 53)) := by
  refine ⟨benchMeasure_rejects cpu doubles name s, fun h3 h200 => ?_⟩
  obtain ⟨windows, s', hrun, hlength, htrace, hmin, hmax, hmedian, hmean⟩ :=
    exists_run cpu doubles name s h3 h200
  refine ⟨windows, s', hrun, hlength, htrace, fun hshort => ?_⟩
  -- Short windows do not wrap around, so that the samples are the durations.
  have hsampled : (windows.map Window.sampled).map UInt32.toNat = windows.map Window.duration := by
    rw [List.map_map]
    exact List.map_congr_left fun w hw => w.toNat_sampled (hshort w hw)
  have hsum : (windows.map Window.duration).sum < 2 ^ 53 := by
    have hbound : (windows.map Window.duration).sum ≤
      (windows.map Window.duration).length * 2 ^ 32 :=
      sum_le_of_forall_lt (by simpa using hshort)
    rw [List.length_map] at hbound
    omega
  refine ⟨?_, ?_, hsum⟩
  · have hcount : (windows.map Window.sampled).length = windows.length := List.length_map _
    rw [← hsampled]
    refine orderStatistics_of_sorted (by omega) hmin ?_ ?_
    · rw [hmax, hcount]
    · rw [hmedian, hcount]
  · rw [hmean, hsampled, sumDouble_eq hsum]

/-- A CPU on which a call takes 2^31 cycles. -/
def slowCpu : Cpu ℕ where
  now w := w
  op w := w + 2 ^ 31
  readCounter w := (w, w)
  now_le_op _ := Nat.le_add_right _ _
  now_le_read _ := le_refl _
  read_le_now _ := le_refl _

/-- Doubles without a value. -/
def noDoubles : Doubles Unit where
  ofNat _ := ()
  add _ _ := ()
  sub _ _ := ()
  mul _ _ := ()
  div _ _ := ()
  sqrt _ := ()

/-- Before the first call. -/
def measureStart : MeasureState ℕ Unit where
  world := 100
  samples := Vector.replicate maxIterations 0
  out := ⟨"", 0, 0, 0, 0, (), (), 0⟩
  trace := []

/-- The counter wraps within the second of three measured calls. -/
theorem benchMeasure_statistics_wrap : ∃ (windows : List Window) (s' : MeasureState ℕ Unit),
    benchMeasure slowCpu noDoubles "op" 3 measureStart = (true, s') ∧
      windows.map Window.duration = [2 ^ 31, 2 ^ 31, 2 ^ 31] ∧
      OrderStatistics s'.out (windows.map Window.duration) := by
  obtain ⟨windows, s', hrun, hlength, htrace, hfigures⟩ :=
    (benchMeasure_statistics slowCpu noDoubles "op" 3 measureStart).2 (by decide) (by decide)
  have hthree : windows.length = 3 := by
    have hvalue : (3 : Int32).toInt = 3 := rfl
    omega
  obtain ⟨w₁, w₂, w₃, rfl⟩ := List.length_eq_three.mp hthree
  -- The counter wraps during the second of the three calls.
  have hevents : (benchMeasure slowCpu noDoubles "op" 3 measureStart).2.trace =
      [.called, .called, .counter 4294967396, .called, .counter 6442451044,
        .counter 6442451044, .called, .counter 8589934692, .counter 8589934692, .called,
        .counter 10737418340] := by rfl
  rw [hrun, htrace] at hevents
  simp only [measureStart, Window.events, List.flatMap_cons, List.flatMap_nil, List.nil_append,
    List.cons_append, List.cons.injEq, Event.counter.injEq, and_true, true_and] at hevents
  obtain ⟨hstart₁, hstop₁, hstart₂, hstop₂, hstart₃, hstop₃⟩ := hevents
  have hdurations : [w₁, w₂, w₃].map Window.duration = [2 ^ 31, 2 ^ 31, 2 ^ 31] := by
    simp [Window.duration, hstart₁, hstop₁, hstart₂, hstop₂, hstart₃, hstop₃]
  -- Every duration is still shorter than a turn of the counter.
  refine ⟨[w₁, w₂, w₃], s', hrun, hdurations, (hfigures fun w hw => ?_).1⟩
  have hmem := List.mem_map_of_mem (f := Window.duration) hw
  rw [hdurations] at hmem
  revert hmem
  simp +contextual

end

end Bench

end PqcIot
