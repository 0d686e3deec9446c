import Mathlib.Data.List.TakeWhile
import MetaBlocks.Bisect

/-!
Bisection agrees with walking through the list. Halving a window never loses the last element that
is not too great, as long as everything after an element that is too great is so too. Hence the
partition point of a test which holds on a leading part is the length of that part, and the one
element that is neither too small nor too great is met.
-/

set_option autoImplicit false
set_option relaxedAutoImplicit false

namespace MetaBlocks.Bisect

universe u

variable {α : Type u} {probe : α → Ordering} {test : α → Bool} {xs : List α}

private theorem probeAt_eq_gt_of_le (h : xs.Pairwise fun a b => probe a = .gt → probe b = .gt)
    {i j : Nat} (hij : i ≤ j) (hi : probeAt probe xs i = .gt) : probeAt probe xs j = .gt := by
  unfold probeAt at hi ⊢
  cases hj : xs[j]? with
  | none => rfl
  | some b =>
    obtain ⟨hlt, rfl⟩ := List.getElem?_eq_some_iff.mp hj
    rw [List.getElem?_eq_getElem (Nat.lt_of_le_of_lt hij hlt)] at hi
    rcases Nat.eq_or_lt_of_le hij with rfl | hij
    · exact hi
    · exact List.pairwise_iff_getElem.mp h i j _ hlt hij hi

private theorem narrow_mem_window (probe : α → Ordering) (xs : List α) (base : Nat) {size : Nat}
    (hsize : 0 < size) :
    base ≤ narrow probe xs base size ∧ narrow probe xs base size < base + size := by
  fun_induction narrow probe xs base size with
  | case1 base size hle => omega
  | case2 base size hlarge half mid ih =>
    have hhalf : 0 < half ∧ half < size := by
      simp only [half]
      omega
    have hwindow := ih (by omega)
    by_cases hmid : probeAt probe xs mid = .gt
    · simp only [hmid, ↓reduceIte, ↓reduceDIte] at hwindow ⊢
      omega
    · simp only [hmid, ↓reduceIte, ↓reduceDIte] at hwindow ⊢
      simp only [mid] at hwindow ⊢
      omega

/-- Halving ends at the last element of the window that is not too great, or at its start. -/
theorem narrow_spec (h : xs.Pairwise fun a b => probe a = .gt → probe b = .gt) (base : Nat)
    {size : Nat} (hsize : 0 < size) :
    (probeAt probe xs (narrow probe xs base size) = .gt → narrow probe xs base size = base) ∧
      ∀ j, narrow probe xs base size < j → j < base + size → probeAt probe xs j = .gt := by
  fun_induction narrow probe xs base size with
  | case1 base size hle => exact ⟨fun _ => rfl, fun j _ _ => by omega⟩
  | case2 base size hlarge half mid ih =>
    have hhalf : half ≤ size - half ∧ 0 < half ∧ half < size := by
      simp only [half]
      omega
    by_cases hmid : probeAt probe xs mid = .gt
    · simp only [hmid, ↓reduceIte, ↓reduceDIte] at ih ⊢
      obtain ⟨hstart, hafter⟩ := ih (by omega)
      refine ⟨hstart, fun j hj hend => ?_⟩
      by_cases hin : j < base + (size - half)
      · exact hafter j hj hin
      · exact probeAt_eq_gt_of_le h (show mid ≤ j by simp only [mid]; omega) hmid
    · simp only [hmid, ↓reduceIte, ↓reduceDIte] at ih ⊢
      obtain ⟨hstart, hafter⟩ := ih (by omega)
      refine ⟨fun hgt => ?_, fun j hj hend => hafter j hj ?_⟩
      · rw [hstart hgt] at hgt
        exact absurd hgt hmid
      · simp only [mid]
        omega

theorem partitionPoint_le_length (test : α → Bool) (xs : List α) :
    partitionPoint test xs ≤ xs.length := by
  by_cases hnil : xs = []
  · simp [hnil, partitionPoint, narrow, probeAt]
  · have hwindow := narrow_mem_window (fun x => if test x then .lt else .gt) xs 0
      (List.length_pos_iff.mpr hnil)
    simp only [partitionPoint]
    split <;> omega

theorem lt_partitionPoint_iff (h : xs.Pairwise fun a b => test b = true → test a = true)
    (i : Nat) : i < partitionPoint test xs ↔ ∃ x, xs[i]? = some x ∧ test x = true := by
  let probe : α → Ordering := fun x => if test x then .lt else .gt
  have hgt (j : Nat) : probeAt probe xs j = .gt ↔ ¬∃ x, xs[j]? = some x ∧ test x = true := by
    unfold probeAt
    cases xs[j]? with
    | none => simp
    | some x => by_cases hx : test x <;> simp [probe, hx]
  have hlt (j : Nat) : probeAt probe xs j = .lt ↔ ¬probeAt probe xs j = .gt := by
    unfold probeAt
    cases xs[j]? with
    | none => simp
    | some x => by_cases hx : test x <;> simp [probe, hx]
  have hprobe : xs.Pairwise fun a b => probe a = .gt → probe b = .gt := by
    refine h.imp fun {a b} hab ha => ?_
    by_cases hb : test b
    · simp [probe, hab hb] at ha
    · simp [probe, hb]
  rw [← not_iff_not, ← hgt i, Nat.not_lt]
  by_cases hnil : xs = []
  · simp [hnil, partitionPoint, narrow, probeAt]
  obtain ⟨hstart, hafter⟩ := narrow_spec hprobe 0 (List.length_pos_iff.mpr hnil)
  have hbeyond (j : Nat) (hj : narrow probe xs 0 xs.length < j) : probeAt probe xs j = .gt := by
    by_cases hlen : j < xs.length
    · exact hafter j hj (by omega)
    · simp [probeAt, List.getElem?_eq_none (Nat.le_of_not_lt hlen)]
  change (if probeAt probe xs (narrow probe xs 0 xs.length) = .lt then
    narrow probe xs 0 xs.length + 1 else narrow probe xs 0 xs.length) ≤ i ↔ _
  split
  next hfound =>
    rw [hlt] at hfound
    constructor
    · exact fun hi => hbeyond i (by omega)
    · intro hi
      refine Nat.lt_of_not_le fun hle => hfound ?_
      exact probeAt_eq_gt_of_le hprobe hle hi
  next hfound =>
    -- Only the first element can have been rejected, so all are too great.
    rw [hlt, not_not] at hfound
    have hzero := hstart hfound
    rw [hzero] at hfound ⊢
    exact ⟨fun _ => probeAt_eq_gt_of_le hprobe (Nat.zero_le i) hfound, fun _ => Nat.zero_le i⟩

theorem takeWhile_eq_filter (h : xs.Pairwise fun a b => test b = true → test a = true) :
    xs.takeWhile test = xs.filter test := by
  induction xs with
  | nil => rfl
  | cons a xs ih =>
    obtain ⟨ha, h⟩ := List.pairwise_cons.mp h
    by_cases hx : test a
    · rw [List.takeWhile_cons_of_pos hx, List.filter_cons_of_pos hx, ih h]
    · rw [List.takeWhile_cons_of_neg hx, List.filter_cons_of_neg hx, eq_comm,
        List.filter_eq_nil_iff]
      exact fun b hb hbx => hx (ha b hb hbx)

theorem dropWhile_eq_filter (h : xs.Pairwise fun a b => test b = true → test a = true) :
    xs.dropWhile test = xs.filter fun x => !test x := by
  induction xs with
  | nil => rfl
  | cons a xs ih =>
    obtain ⟨ha, h⟩ := List.pairwise_cons.mp h
    by_cases hx : test a
    · rw [List.dropWhile_cons_of_pos hx, List.filter_cons_of_neg (by simp [hx]), ih h]
    · rw [List.dropWhile_cons_of_neg hx, eq_comm, List.filter_eq_self]
      intro b hb
      rcases List.mem_cons.mp hb with rfl | hb
      · simp [hx]
      · simpa using fun hbx => hx (ha b hb hbx)

private theorem partitionPoint_eq_length
    (h : xs.Pairwise fun a b => test b = true → test a = true) :
    partitionPoint test xs = (xs.takeWhile test).length := by
  refine eq_of_forall_lt_iff fun i => ?_
  rw [lt_partitionPoint_iff h]
  induction xs generalizing i with
  | nil => simp
  | cons a xs ih =>
    obtain ⟨ha, h⟩ := List.pairwise_cons.mp h
    by_cases hx : test a
    · cases i with
      | zero => simp [hx]
      | succ i => simpa [hx] using ih h i
    · rw [List.takeWhile_cons_of_neg hx]
      simp only [List.length_nil, Nat.not_lt_zero, iff_false]
      rintro ⟨b, hb, hbx⟩
      rcases List.mem_cons.mp (List.mem_of_getElem? hb) with rfl | hb
      · exact hx hbx
      · exact hx (ha b hb hbx)

theorem drop_partitionPoint (h : xs.Pairwise fun a b => test b = true → test a = true) :
    xs.drop (partitionPoint test xs) = xs.filter fun x => !test x := by
  calc xs.drop (partitionPoint test xs)
      = (xs.takeWhile test ++ xs.dropWhile test).drop (xs.takeWhile test).length := by
        rw [List.takeWhile_append_dropWhile, partitionPoint_eq_length h]
    _ = xs.dropWhile test := List.drop_left
    _ = xs.filter fun x => !test x := dropWhile_eq_filter h

theorem getElem?_partitionPoint (h : xs.Pairwise fun a b => test b = true → test a = true) :
    xs[partitionPoint test xs]? = xs.find? fun x => !test x := by
  rw [← Nat.add_zero (partitionPoint test xs), ← List.getElem?_drop, drop_partitionPoint h,
    ← List.head?_eq_getElem?, List.head?_filter]

theorem filter_find?_eq_find? {sought : α → Bool} (hweak : ∀ x ∈ xs, sought x = true → test x = true)
    (h : xs.Pairwise fun a b => test a = true → sought b = false) :
    (xs.find? test).filter sought = xs.find? sought := by
  induction xs with
  | nil => rfl
  | cons a xs ih =>
    obtain ⟨ha, h⟩ := List.pairwise_cons.mp h
    by_cases hfirst : test a = true
    · rw [List.find?_cons_of_pos hfirst]
      by_cases hfound : sought a = true
      · rw [List.find?_cons_of_pos hfound, Option.filter_some_pos hfound]
      · rw [List.find?_cons_of_neg hfound, Option.filter_some_neg (by simpa using hfound), eq_comm,
          List.find?_eq_none]
        intro b hb
        simp [ha b hb hfirst]
    · have hmissed : ¬sought a = true := fun hfound => hfirst (hweak a List.mem_cons_self hfound)
      rw [List.find?_cons_of_neg hfirst, List.find?_cons_of_neg hmissed]
      exact ih (fun x hx => hweak x (List.mem_cons_of_mem a hx)) h

private theorem narrow_eq_of_probe_eq (h : xs.Pairwise fun a b => probe a ≠ .lt → probe b = .gt)
    {i : Nat} {x : α} (hi : xs[i]? = some x) (hx : probe x = .eq) :
    narrow probe xs 0 xs.length = i := by
  obtain ⟨hlt, rfl⟩ := List.getElem?_eq_some_iff.mp hi
  have hpos : 0 < xs.length := Nat.zero_lt_of_lt hlt
  obtain ⟨hstart, hafter⟩ := narrow_spec (h.imp fun hab ha => hab (by simp [ha])) 0 hpos
  have hwindow := (narrow_mem_window probe xs 0 hpos).2
  rcases Nat.lt_trichotomy (narrow probe xs 0 xs.length) i with hbelow | hequal | habove
  · have hgt := hafter i hbelow (by omega)
    rw [probeAt, hi] at hgt
    exact absurd (hx.symm.trans hgt) (by decide)
  · exact hequal
  · have hgreater := List.pairwise_iff_getElem.mp h i _ hlt (by omega) habove (by simp [hx])
    have hzero := hstart (by
      rw [probeAt, List.getElem?_eq_getElem (by omega)]
      exact hgreater)
    omega

/-- The search by halving meets the element that a walk through the list meets. -/
theorem bind_find?_eq_find? (h : xs.Pairwise fun a b => probe a ≠ .lt → probe b = .gt) :
    ((find? probe xs).bind fun i => xs[i]?) = xs.find? fun x => probe x = .eq := by
  cases hwalk : xs.find? fun x => probe x = .eq with
  | some x =>
    obtain ⟨hx, i, hi, rfl, -⟩ := List.find?_eq_some_iff_getElem.mp hwalk
    have hat := List.getElem?_eq_getElem hi
    rw [decide_eq_true_eq] at hx
    simp only [find?, narrow_eq_of_probe_eq h hat hx, probeAt, hat, hx, ↓reduceIte, Option.bind_some]
  | none =>
    have hnone : probeAt probe xs (narrow probe xs 0 xs.length) ≠ .eq := by
      unfold probeAt
      split
      next x hx => simpa using List.find?_eq_none.mp hwalk x (List.mem_of_getElem? hx)
      next => decide
    simp only [find?, hnone, ↓reduceIte, Option.bind_none]

end MetaBlocks.Bisect
