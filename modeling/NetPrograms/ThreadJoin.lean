import NetPrograms.ThreadJoinModel

set_option autoImplicit false

namespace NetPrograms.ThreadJoin
open ThreadJoinModel RunInvariants

variable {α : Type*}

def copyAt (l : List UInt8) (p : ℕ) : List UInt8 := (l.take p).map toupper ++ (l.drop p ++ [0])

theorem toupper_eq_zero {c : UInt8} (h : toupper c = 0) : c = 0 := by
  unfold toupper at h
  split_ifs at h with hc
  · have hspace : c = 0x20 := by
      rw [← UInt8.sub_add_cancel c 0x20, h]
      rfl
    rw [hspace] at hc
    exact absurd hc.1 (by decide)
  · exact h

theorem upper_length {l : List UInt8} {p : ℕ} (hp : p ≤ l.length) :
    ((l.take p).map toupper).length = p := by
  rw [List.length_map, List.length_take, Nat.min_eq_left hp]

theorem copyAt_length (l : List UInt8) {p : ℕ} (hp : p ≤ l.length) :
    (copyAt l p).length = l.length + 1 := by
  simp [copyAt]
  omega

theorem copyAt_get (l : List UInt8) {p : ℕ} (hp : p ≤ l.length) :
    (copyAt l p)[p]? = (l.drop p ++ [0])[0]? := by
  rw [copyAt, List.getElem?_append_right (upper_length hp).le, upper_length hp, Nat.sub_self]

theorem copyAt_zero {s : CString} {p : ℕ} (hp : p ≤ s.bytes.length)
    (h : (copyAt s.bytes p)[p]? = some 0) : copyAt s.bytes p = s.bytes.map toupper ++ [0] := by
  rw [copyAt_get _ hp] at h
  cases hrest : s.bytes.drop p with
  | nil =>
    have hall : s.bytes.length ≤ p := List.drop_eq_nil_iff.mp hrest
    rw [copyAt, hrest, List.take_of_length_le hall, List.nil_append]
  | cons c l =>
    rw [hrest] at h
    obtain rfl : c = 0 := Option.some.inj h
    have hmem : (0 : UInt8) ∈ s.bytes.drop p := hrest ▸ List.mem_cons_self
    exact absurd (List.mem_of_mem_drop hmem) s.noNul

theorem copyAt_succ {l : List UInt8} {p : ℕ} {c : UInt8} (hp : p ≤ l.length) (hc : c ≠ 0)
    (h : (copyAt l p)[p]? = some c) :
    p + 1 ≤ l.length ∧ (copyAt l p).set p (toupper c) = copyAt l (p + 1) := by
  rw [copyAt_get _ hp] at h
  cases hrest : l.drop p with
  | nil =>
    rw [hrest] at h
    exact absurd (Option.some.inj h).symm hc
  | cons d rest =>
    rw [hrest] at h
    obtain rfl : d = c := Option.some.inj h
    have hlt : p < l.length := by
      by_contra hge
      rw [List.drop_of_length_le (by omega)] at hrest
      cases hrest
    have hget : l[p] = d := by
      have hdrop := List.drop_eq_getElem_cons hlt
      rw [hrest] at hdrop
      exact (List.cons.inj hdrop).1.symm
    have hnext : l.drop (p + 1) = rest := by
      have hdrop := List.drop_eq_getElem_cons hlt
      rw [hrest] at hdrop
      exact (List.cons.inj hdrop).2.symm
    refine ⟨hlt, ?_⟩
    rw [copyAt, hrest, copyAt, hnext, List.take_succ_eq_append_getElem hlt, hget, List.map_append,
      List.set_append_right _ _ (upper_length hp).le, upper_length hp, Nat.sub_self]
    simp

theorem cstring_result (args : Args) (i : ℕ) : cstring (result args i ++ [0]) = result args i := by
  unfold cstring
  rw [List.takeWhile_append_of_pos]
  · simp
  · intro c hc
    obtain ⟨d, hd, rfl⟩ := List.mem_map.mp hc
    have hne : toupper d ≠ 0 := by
      intro hzero
      rw [toupper_eq_zero hzero] at hd
      exact (args.argv _).noNul hd
    simpa using hne

def Main.result : Main α → Option (ℕ × α)
  | .printf tnum res | .free tnum res => some (tnum, res)
  | .calloc | .fill _ | .create _ | .join _ | .freeTinfo | .exited _ => none

def Main.Started : Main α → Prop
  | .calloc | .exited _ => False
  | .fill _ | .create _ | .join _ | .printf _ _ | .free _ _ | .freeTinfo => True

def Counts (args : Args) (c j k : ℕ) : Main α → Prop
  | .calloc => c = 0 ∧ j = 0 ∧ k = 0
  | .fill tnum | .create tnum => c = tnum ∧ j = 0 ∧ k = 0 ∧ tnum < args.num_threads
  | .join tnum => c = args.num_threads ∧ j = tnum ∧ k = tnum ∧ tnum < args.num_threads
  | .printf tnum _ => c = args.num_threads ∧ j = tnum + 1 ∧ k = tnum ∧ tnum < args.num_threads
  | .free tnum _ => c = args.num_threads ∧ j = tnum + 1 ∧ k = tnum + 1 ∧ tnum < args.num_threads
  | .freeTinfo | .exited true => c = args.num_threads ∧ j = args.num_threads ∧ k = args.num_threads
  | .exited false => False

theorem Counts.bounds {args : Args} {c j k : ℕ} {main : Main α} (h : Counts args c j k main) :
    c ≤ args.num_threads ∧ j ≤ c ∧ k ≤ args.num_threads := by
  cases main with
  | exited success =>
    cases success with
    | false => exact h.elim
    | true =>
      simp only [Counts] at h
      omega
  | calloc | fill _ | create _ | join _ | printf _ _ | free _ _ | freeTinfo =>
    simp only [Counts] at h
    omega

def Copying (args : Args) (i : ℕ) (heap : α → Option Cell) : Thread α → Prop
  | .uncreated | .joined => True
  | .strdup tinfo => tinfo = i
  | .loop uargv p => p ≤ (args.argv (args.optind + i)).bytes.length ∧
    heap uargv = some ⟨copyAt (args.argv (args.optind + i)).bytes p, i⟩
  | .returned uargv => heap uargv = some ⟨result args i ++ [0], i⟩

structure Inv (args : Args) (c j k : ℕ) (s : System α) : Prop where
  counts : Counts args c j k s.main
  uncreated : ∀ i, s.thread i = .uncreated ↔ c ≤ i
  joined : ∀ i, s.thread i = .joined ↔ i < j
  copying : ∀ i, Copying args i s.heap (s.thread i)
  cells : ∀ a cell, s.heap a = some cell →
    (s.thread cell.owner).cell = some a ∨ Main.result s.main = some (cell.owner, a)
  result : ∀ tnum res, Main.result s.main = some (tnum, res) →
    s.heap res = some ⟨result args tnum ++ [0], tnum⟩
  tinfo : Main.Started s.main → ∃ info, s.tinfo = some info ∧
    (∀ i < c, info i = ⟨i, i + 1, some (args.optind + i)⟩) ∧
    ∀ tnum, s.main = .create tnum →
      (info tnum).thread_num = tnum + 1 ∧ (info tnum).argv_string = some (args.optind + tnum)
  freed : s.main = .exited true → s.tinfo = none
  printed : s.printed = (List.range k).map fun i => (i + 1, ThreadJoinModel.result args i)

theorem joinLoop_spec (args : Args) {tnum : ℕ} (h : tnum ≤ args.num_threads) :
    Counts args args.num_threads tnum tnum (joinLoop args tnum : Main α) ∧
      Main.result (joinLoop args tnum : Main α) = none ∧
      (∀ t, (joinLoop args tnum : Main α) ≠ .create t) ∧
      ∀ b, (joinLoop args tnum : Main α) ≠ .exited b := by
  unfold joinLoop
  split_ifs with hlt
  · exact ⟨⟨rfl, rfl, rfl, hlt⟩, rfl, nofun, nofun⟩
  · obtain rfl : tnum = args.num_threads := by omega
    exact ⟨⟨rfl, rfl, rfl⟩, rfl, nofun, nofun⟩

theorem createLoop_spec (args : Args) {tnum : ℕ} (h : tnum ≤ args.num_threads) :
    Counts args tnum 0 0 (createLoop args tnum : Main α) ∧
      Main.result (createLoop args tnum : Main α) = none ∧
      (∀ t, (createLoop args tnum : Main α) ≠ .create t) ∧
      ∀ b, (createLoop args tnum : Main α) ≠ .exited b := by
  unfold createLoop
  split_ifs with hlt
  · exact ⟨⟨rfl, rfl, rfl, hlt⟩, rfl, nofun, nofun⟩
  · obtain rfl : tnum = args.num_threads := by omega
    exact joinLoop_spec args (Nat.zero_le _)

theorem setHeap_heap [DecidableEq α] (a b : α) (cell : Option Cell) (s : System α) :
    (s.setHeap a cell).heap b = if b = a then cell else s.heap b :=
  Function.update_apply _ _ _ _

theorem Copying.frame {args : Args} {i : ℕ} {heap heap' : α → Option Cell} {t : Thread α}
    (h : Copying args i heap t) (hheap : ∀ a, t.cell = some a → heap' a = heap a) :
    Copying args i heap' t := by
  cases t with
  | uncreated | joined | strdup _ => exact h
  | loop uargv p => exact ⟨h.1, (hheap uargv rfl).trans h.2⟩
  | returned uargv => exact (hheap uargv rfl).trans h

theorem Copying.owner {args : Args} {i : ℕ} {heap : α → Option Cell} {t : Thread α}
    (h : Copying args i heap t) {a : α} (ha : t.cell = some a) :
    ∃ cell, heap a = some cell ∧ cell.owner = i := by
  cases t with
  | uncreated | joined | strdup _ => cases ha
  | loop uargv p =>
    obtain rfl := Option.some.inj ha
    exact ⟨_, h.2, rfl⟩
  | returned uargv =>
    obtain rfl := Option.some.inj ha
    exact ⟨_, h, rfl⟩

section
variable {args : Args} {c j k : ℕ} {s : System α} (hi : Inv args c j k s)
include hi

theorem Inv.apart {i i' : ℕ} {a : α} (h : (s.thread i).cell = some a)
    (h' : (s.thread i').cell = some a) : i = i' := by
  obtain ⟨cell, hcell, rfl⟩ := (hi.copying i).owner h
  obtain ⟨cell', hcell', rfl⟩ := (hi.copying i').owner h'
  rw [Option.some.inj (hcell.symm.trans hcell')]

theorem Inv.result_joined {tnum : ℕ} {res : α} (h : Main.result s.main = some (tnum, res)) :
    s.thread tnum = .joined := by
  refine (hi.joined tnum).mpr ?_
  have hcounts := hi.counts
  cases hmain : s.main with
  | printf t r | free t r =>
    rw [hmain] at hcounts h
    obtain ⟨rfl, rfl⟩ := Prod.mk.inj (Option.some.inj h)
    obtain ⟨_, hj, _, _⟩ := hcounts
    omega
  | calloc | fill _ | create _ | join _ | freeTinfo | exited _ =>
    rw [hmain] at h
    cases h

theorem Inv.taken {tnum : ℕ} {res : α} (h : Main.result s.main = some (tnum, res)) (i : ℕ) :
    (s.thread i).cell ≠ some res := by
  intro hcell
  obtain ⟨cell, hheap, howner⟩ := (hi.copying i).owner hcell
  obtain rfl := Option.some.inj (hheap.symm.trans (hi.result tnum res h))
  obtain rfl : tnum = i := howner
  rw [hi.result_joined h] at hcell
  cases hcell

theorem Inv.started {i tinfo : ℕ} (h : s.thread i = .strdup tinfo) :
    i < c ∧ Main.Started s.main := by
  have hlt : i < c := by
    refine Nat.lt_of_not_le fun hle => ?_
    rw [(hi.uncreated i).mpr hle] at h
    cases h
  have hge : j ≤ i := by
    refine Nat.le_of_not_lt fun hlt => ?_
    rw [(hi.joined i).mpr hlt] at h
    cases h
  refine ⟨hlt, ?_⟩
  have hcounts := hi.counts
  cases hmain : s.main with
  | calloc =>
    rw [hmain] at hcounts
    obtain ⟨hc, _⟩ := hcounts
    omega
  | exited success =>
    rw [hmain] at hcounts
    cases success with
    | false => exact hcounts.elim
    | true =>
      obtain ⟨hc, hj, _⟩ := hcounts
      omega
  | fill _ | create _ | join _ | printf _ _ | free _ _ | freeTinfo => trivial

theorem Inv.emptied (h : s.main = .exited true) (a : α) : s.heap a = none := by
  have hcounts := hi.counts
  rw [h] at hcounts
  obtain ⟨hc, hj, _⟩ := hcounts
  cases hcell : s.heap a with
  | none => rfl
  | some cell =>
    rcases hi.cells a cell hcell with hheld | hresult
    · by_cases hlt : cell.owner < args.num_threads
      · rw [(hi.joined _).mpr (hj ▸ hlt)] at hheld
        cases hheld
      · rw [(hi.uncreated _).mpr (by omega)] at hheld
        cases hheld
    · rw [h] at hresult
      cases hresult

theorem Inv.joins {main : Main α} (hmain : main = s.main ∨ main = .exited false) :
    Joins args { s with main := main } := by
  have hcounts := hi.counts
  refine ⟨⟨k, hcounts.bounds.2.2, hi.printed, fun hend => ?_⟩, fun hend => ?_, fun i tinfo h => ?_,
    fun i uargv p h => ?_, fun i i' a => hi.apart, fun tnum res h => ?_, fun tnum h => ?_⟩
  · obtain rfl := hmain.resolve_right fun hno => by cases hno.symm.trans hend
    change s.main = .exited true at hend
    rw [hend] at hcounts
    exact hcounts.2.2
  · obtain rfl := hmain.resolve_right fun hno => by cases hno.symm.trans hend
    exact ⟨hi.freed hend, hi.emptied hend⟩
  · change s.thread i = .strdup tinfo at h
    obtain ⟨hlt, hstarted⟩ := hi.started h
    obtain ⟨info, hinfo, hall, _⟩ := hi.tinfo hstarted
    have hcopying := hi.copying i
    rw [h] at hcopying
    obtain rfl : tinfo = i := hcopying
    exact ⟨info, hinfo, by rw [hall tinfo hlt]⟩
  · change s.thread i = .loop uargv p at h
    have hcopying := hi.copying i
    rw [h] at hcopying
    refine ⟨_, hcopying.2, ?_⟩
    rw [copyAt_length _ hcopying.1]
    exact Nat.lt_succ_of_le hcopying.1
  · change main = _ ∨ main = _ at h
    obtain rfl := hmain.resolve_right fun hno => by
      rcases h with h | h <;> cases hno.symm.trans h
    have hresult : Main.result s.main = some (tnum, res) := by
      rcases h with h | h <;> rw [h] <;> rfl
    exact ⟨by rw [hi.result tnum res hresult]; nofun, hi.taken hresult⟩
  · change main = _ at h
    obtain rfl := hmain.resolve_right fun hno => by cases hno.symm.trans h
    rw [h] at hcounts
    obtain ⟨hc, hj, _, hlt⟩ := hcounts
    obtain ⟨info, hinfo, hall, _⟩ := hi.tinfo (by rw [h]; trivial)
    refine ⟨fun hno => ?_, fun hno => ?_, info, hinfo, by rw [hall tnum (hc ▸ hlt)]⟩
    · have hle := (hi.uncreated tnum).mp hno
      omega
    · have hlt' := (hi.joined tnum).mp hno
      omega

theorem Inv.held (h : Main.result s.main = none) (a : α) (cell : Cell)
    (hcell : s.heap a = some cell) : (s.thread cell.owner).cell = some a :=
  (hi.cells a cell hcell).resolve_right fun hno => by cases h.symm.trans hno

theorem calloc_inv (h : s.main = .calloc) :
    Inv args c j k { s with main := createLoop args 0, tinfo := some fun _ => ⟨0, 0, none⟩ } := by
  have hcounts := hi.counts
  rw [h] at hcounts
  obtain ⟨rfl, rfl, rfl⟩ := hcounts
  obtain ⟨hnext, hresult, hcreate, hexited⟩ := createLoop_spec (α := α) args (Nat.zero_le _)
  exact ⟨hnext, hi.uncreated, hi.joined, hi.copying,
    fun a cell hcell => .inl (hi.held (by rw [h]; rfl) a cell hcell),
    fun _ _ hno => absurd (hresult.symm.trans hno) nofun,
    fun _ => ⟨_, rfl, fun i hno => absurd hno (Nat.not_lt_zero i),
      fun t ht => absurd ht (hcreate t)⟩,
    fun hno => absurd hno (hexited true), hi.printed⟩

theorem fill_inv {tnum : ℕ} {t : System α} (h : s.main = .fill tnum)
    (hact : s.setTinfo tnum (fun info => { info with
      thread_num := tnum + 1
      argv_string := some (args.optind + tnum) }) (.create tnum) = some t) : Inv args c j k t := by
  have hcounts := hi.counts
  rw [h] at hcounts
  obtain ⟨info, hinfo, hall, _⟩ := hi.tinfo (by rw [h]; trivial)
  simp only [System.setTinfo, hinfo, Option.map_some, Option.some.injEq] at hact
  subst hact
  refine ⟨hcounts, hi.uncreated, hi.joined, hi.copying,
    fun a cell hcell => .inl (hi.held (by rw [h]; rfl) a cell hcell), nofun,
    fun _ => ⟨_, rfl, fun i hlt => ?_, fun t ht => ?_⟩, nofun, hi.printed⟩
  · have hne : i ≠ tnum := Nat.ne_of_lt (hcounts.1 ▸ hlt)
    rw [Function.update_of_ne hne]
    exact hall i hlt
  · obtain rfl := Main.create.inj ht
    rw [Function.update_self]
    exact ⟨rfl, rfl⟩

theorem create_inv {tnum : ℕ} {t : System α} (h : s.main = .create tnum)
    (hact : (s.setThread tnum (.strdup tnum)).setTinfo tnum
      (fun info => { info with thread_id := tnum }) (createLoop args (tnum + 1)) = some t) :
    Inv args (c + 1) j k t := by
  have hcounts := hi.counts
  rw [h] at hcounts
  obtain ⟨rfl, rfl, rfl, hlt⟩ := hcounts
  obtain ⟨info, hinfo, hall, hnew⟩ := hi.tinfo (by rw [h]; trivial)
  obtain ⟨hnum, hargv⟩ := hnew c h
  have hidle : s.thread c = .uncreated := (hi.uncreated c).mpr (Nat.le_refl c)
  obtain ⟨hnext, hresult, hcreate, hexited⟩ := createLoop_spec (α := α) args hlt
  simp only [System.setTinfo, System.setThread, hinfo, Option.map_some, Option.some.injEq] at hact
  subst hact
  refine ⟨hnext, fun i => ?_, fun i => ?_, fun i => ?_, fun a cell hcell => .inl ?_,
    fun _ _ hno => absurd (hresult.symm.trans hno) nofun,
    fun _ => ⟨_, rfl, fun i hi' => ?_, fun t ht => absurd ht (hcreate t)⟩,
    fun hno => absurd hno (hexited true), hi.printed⟩
  · change Function.update s.thread c _ i = _ ↔ _
    rw [Function.update_apply]
    split_ifs with hic
    · exact ⟨nofun, fun hle => by omega⟩
    · rw [hi.uncreated i]
      omega
  · change Function.update s.thread c _ i = _ ↔ _
    rw [Function.update_apply]
    split_ifs with hic
    · exact ⟨nofun, fun hno => absurd hno (Nat.not_lt_zero i)⟩
    · exact hi.joined i
  · change Copying args i s.heap (Function.update s.thread c _ i)
    rw [Function.update_apply]
    split_ifs with hic
    · exact hic.symm
    · exact hi.copying i
  · have hheld := hi.held (by rw [h]; rfl) a cell hcell
    have hne : cell.owner ≠ c := by
      intro hc
      rw [hc, hidle] at hheld
      cases hheld
    change (Function.update s.thread c _ cell.owner).cell = some a
    rw [Function.update_of_ne hne]
    exact hheld
  · by_cases hic : i = c
    · rw [hic, Function.update_self, hnum, hargv]
    · rw [Function.update_of_ne hic]
      exact hall i (by omega)

theorem join_inv {tnum : ℕ} {t : System α} (h : s.main = .join tnum) (hact : s.join tnum = some t) :
    Inv args c (j + 1) k t := by
  have hcounts := hi.counts
  rw [h] at hcounts
  obtain ⟨rfl, rfl, rfl, hlt⟩ := hcounts
  obtain ⟨info, hinfo, hall, _⟩ := hi.tinfo (by rw [h]; trivial)
  have hid : (info k).thread_id = k := by rw [hall k hlt]
  unfold System.join at hact
  simp only [hinfo, hid] at hact
  cases hthread : s.thread k with
  | uncreated | strdup _ | loop _ _ | joined => simp only [hthread, reduceCtorEq] at hact
  | returned uargv =>
    simp only [hthread, System.setThread, Option.some.injEq] at hact
    subst hact
    have hcopying := hi.copying k
    rw [hthread] at hcopying
    refine ⟨⟨rfl, rfl, rfl, hlt⟩, fun i => ?_, fun i => ?_, fun i => ?_, fun a cell hcell => ?_,
      fun tnum res hres => ?_, fun _ => ⟨info, hinfo, hall, nofun⟩, nofun, hi.printed⟩
    · change Function.update s.thread k _ i = _ ↔ _
      rw [Function.update_apply]
      split_ifs with hik
      · exact ⟨nofun, fun hle => by omega⟩
      · exact hi.uncreated i
    · change Function.update s.thread k _ i = _ ↔ _
      rw [Function.update_apply]
      split_ifs with hik
      · exact ⟨fun _ => by omega, fun _ => rfl⟩
      · rw [hi.joined i]
        omega
    · change Copying args i s.heap (Function.update s.thread k _ i)
      rw [Function.update_apply]
      split_ifs
      · trivial
      · exact hi.copying i
    · have hheld := hi.held (by rw [h]; rfl) a cell hcell
      change (Function.update s.thread k _ cell.owner).cell = some a ∨ some (k, uargv) = _
      rw [Function.update_apply]
      split_ifs with howner
      · rw [howner, hthread] at hheld
        obtain rfl := Option.some.inj hheld
        exact .inr (by rw [howner])
      · exact .inl hheld
    · obtain ⟨rfl, rfl⟩ := Prod.mk.inj (Option.some.inj hres)
      exact hcopying

theorem printf_inv {tnum : ℕ} {res : α} {t : System α} (h : s.main = .printf tnum res)
    (hact : s.printf tnum res = some t) : Inv args c j (k + 1) t := by
  have hcounts := hi.counts
  rw [h] at hcounts
  obtain ⟨rfl, rfl, rfl, hlt⟩ := hcounts
  have hmain : Main.result s.main = some (k, res) := by
    rw [h]
    rfl
  obtain ⟨info, hinfo, hall, _⟩ := hi.tinfo (by rw [h]; trivial)
  have hres := hi.result k res hmain
  simp only [System.printf, hinfo, hres, Option.some.injEq] at hact
  subst hact
  refine ⟨⟨rfl, rfl, rfl, hlt⟩, hi.uncreated, hi.joined, hi.copying, fun a cell hcell => ?_,
    fun t r hr => hi.result t r (hmain.trans hr), fun _ => ⟨info, rfl, hall, nofun⟩, nofun, ?_⟩
  · exact (hi.cells a cell hcell).imp_right fun hr => hmain.symm.trans hr
  · change s.printed ++ [((info k).thread_num, cstring _)] = _
    rw [hall k hlt, cstring_result, hi.printed, List.range_succ, List.map_append]
    rfl

theorem freeTinfo_inv (h : s.main = .freeTinfo) :
    Inv args c j k { s with main := .exited true, tinfo := none } := by
  have hcounts := hi.counts
  rw [h] at hcounts
  exact ⟨hcounts, hi.uncreated, hi.joined, hi.copying,
    fun a cell hcell => .inl (hi.held (by rw [h]; rfl) a cell hcell), nofun, nofun, fun _ => rfl,
    hi.printed⟩

variable [DecidableEq α]

theorem free_inv {tnum : ℕ} {res : α} {t : System α} (h : s.main = .free tnum res)
    (hact : (s.heap res).map (fun _ => { s.setHeap res none with main := joinLoop args (tnum + 1) })
      = some t) : Inv args c j k t := by
  have hcounts := hi.counts
  rw [h] at hcounts
  obtain ⟨rfl, rfl, rfl, hlt⟩ := hcounts
  have hmain : Main.result s.main = some (tnum, res) := by
    rw [h]
    rfl
  obtain ⟨info, hinfo, hall, _⟩ := hi.tinfo (by rw [h]; trivial)
  obtain ⟨hnext, hresult, hcreate, hexited⟩ := joinLoop_spec (α := α) args hlt
  have hres := hi.result tnum res hmain
  simp only [hres, Option.map_some, Option.some.injEq] at hact
  subst hact
  refine ⟨hnext, hi.uncreated, hi.joined, fun i => (hi.copying i).frame fun a ha => ?_,
    fun a cell hcell => .inl ?_, fun _ _ hno => absurd (hresult.symm.trans hno) nofun,
    fun _ => ⟨info, hinfo, hall, fun t ht => absurd ht (hcreate t)⟩,
    fun hno => absurd hno (hexited true), hi.printed⟩
  · refine Function.update_of_ne ?_ _ _
    rintro rfl
    exact hi.taken hmain i ha
  · change Function.update s.heap res none a = some cell at hcell
    rw [Function.update_apply] at hcell
    split_ifs at hcell with hares
    refine (hi.cells a cell hcell).resolve_right fun hno => hares ?_
    exact (Prod.mk.inj (Option.some.inj (hmain.symm.trans hno))).2.symm

omit [DecidableEq α] in
theorem Inv.works {i : ℕ} {heap : α → Option Cell} {t : Thread α}
    (hold : s.thread i ≠ .uncreated ∧ s.thread i ≠ .joined) (hnew : t ≠ .uncreated ∧ t ≠ .joined)
    (hcopying : Copying args i heap t)
    (hsame : ∀ a, s.heap a ≠ none → (s.thread i).cell ≠ some a → heap a = s.heap a)
    (hcells : ∀ a cell, heap a = some cell →
      t.cell = some a ∧ cell.owner = i ∨ s.heap a = some cell ∧ (s.thread i).cell ≠ some a) :
    Inv args c j k { s with heap := heap, thread := Function.update s.thread i t } := by
  have hiff : ∀ u : Thread α, s.thread i ≠ u → t ≠ u → ∀ i',
      Function.update s.thread i t i' = u ↔ s.thread i' = u := by
    intro u hs ht i'
    rw [Function.update_apply]
    split_ifs with hi'
    · exact ⟨fun h => absurd h ht, fun h => absurd (hi' ▸ h) hs⟩
    · exact Iff.rfl
  refine ⟨hi.counts, fun i' => (hiff _ hold.1 hnew.1 i').trans (hi.uncreated i'),
    fun i' => (hiff _ hold.2 hnew.2 i').trans (hi.joined i'), fun i' => ?_, fun a cell hcell => ?_,
    fun tnum res hres => ?_, hi.tinfo, hi.freed, hi.printed⟩
  · change Copying args i' heap (Function.update s.thread i t i')
    rw [Function.update_apply]
    split_ifs with hi'
    · exact hi' ▸ hcopying
    · refine (hi.copying i').frame fun a ha => hsame a ?_ fun hmine => hi' (hi.apart ha hmine)
      obtain ⟨cell, hheap, _⟩ := (hi.copying i').owner ha
      exact hheap ▸ nofun
  · change (Function.update s.thread i t cell.owner).cell = some a ∨ _
    rcases hcells a cell hcell with ⟨hmine, howner⟩ | ⟨hheap, hother⟩
    · rw [howner, Function.update_self]
      exact .inl hmine
    · have hne : cell.owner ≠ i := by
        rintro rfl
        rcases hi.cells a cell hheap with hcell' | hres
        · exact hother hcell'
        · exact hold.2 (hi.result_joined hres)
      rw [Function.update_of_ne hne]
      exact hi.cells a cell hheap
  · have hres' := hi.result tnum res hres
    exact (hsame res (hres' ▸ nofun) (hi.taken hres i)).trans hres'

theorem strdup_inv {i tinfo : ℕ} {a : α} {t : System α} (h : s.thread i = .strdup tinfo)
    (hact : s.strdup args i tinfo a = some t) : Inv args c j k t := by
  obtain ⟨hlt, hstarted⟩ := hi.started h
  obtain ⟨info, hinfo, hall, _⟩ := hi.tinfo hstarted
  have hcopying := hi.copying i
  rw [h] at hcopying
  obtain rfl : tinfo = i := hcopying
  have hargv : (info tinfo).argv_string = some (args.optind + tinfo) := by rw [hall tinfo hlt]
  simp only [System.strdup, hinfo, hargv, Option.ite_none_right_eq_some, Option.some.injEq] at hact
  obtain ⟨hfree, rfl⟩ := hact
  refine hi.works (by rw [h]; exact ⟨nofun, nofun⟩) ⟨nofun, nofun⟩
    ⟨Nat.zero_le _, Function.update_self _ _ _⟩ (fun b hb _ => ?_) fun b cell hcell => ?_
  · refine Function.update_of_ne ?_ _ _
    rintro rfl
    exact hb hfree
  · rw [setHeap_heap] at hcell
    split_ifs at hcell with hba
    · obtain rfl := Option.some.inj hcell
      exact .inl ⟨congrArg some hba.symm, rfl⟩
    · exact .inr ⟨hcell, by rw [h]; nofun⟩

theorem upper_inv {i p : ℕ} {uargv : α} {t : System α} (h : s.thread i = .loop uargv p)
    (hact : s.upper i uargv p = some t) : Inv args c j k t := by
  have hcopying := hi.copying i
  rw [h] at hcopying
  obtain ⟨hp, hcell⟩ := hcopying
  have hmine : (s.thread i).cell = some uargv := by
    rw [h]
    rfl
  have hold : s.thread i ≠ .uncreated ∧ s.thread i ≠ .joined := by
    rw [h]
    exact ⟨nofun, nofun⟩
  unfold System.upper at hact
  simp only [hcell] at hact
  cases hget : (copyAt (args.argv (args.optind + i)).bytes p)[p]? with
  | none => simp only [hget, reduceCtorEq] at hact
  | some b =>
    simp only [hget] at hact
    split_ifs at hact with hb <;> obtain rfl := Option.some.inj hact
    · subst hb
      refine hi.works hold ⟨nofun, nofun⟩ ?_ (fun _ _ _ => rfl) fun a cell ha => ?_
      · rw [copyAt_zero hp hget] at hcell
        exact hcell
      · by_cases hau : a = uargv
        · subst hau
          obtain rfl := Option.some.inj (hcell.symm.trans ha)
          exact .inl ⟨rfl, rfl⟩
        · exact .inr ⟨ha, fun hno => hau (Option.some.inj (hno.symm.trans hmine))⟩
    · obtain ⟨hlt, hset⟩ := copyAt_succ hp hb hget
      rw [hset]
      refine hi.works hold ⟨nofun, nofun⟩ ⟨hlt, Function.update_self _ _ _⟩ (fun a _ ha => ?_)
        fun a cell ha => ?_
      · refine Function.update_of_ne ?_ _ _
        rintro rfl
        exact ha hmine
      · rw [setHeap_heap] at ha
        split_ifs at ha with hau
        · obtain rfl := Option.some.inj ha
          exact .inl ⟨congrArg some hau.symm, rfl⟩
        · exact .inr ⟨ha, fun hno => hau (Option.some.inj (hno.symm.trans hmine))⟩

/-- An action keeps the outline, or it ends the process. -/
theorem act_inv {who : Option ℕ} {o : Outcome α} {t : System α}
    (h : s.act args who o = some t) :
    (∃ c j k, Inv args c j k t) ∨ t = { s with main := .exited false } := by
  cases who with
  | none =>
    change s.mainAct args o = some t at h
    unfold System.mainAct at h
    split at h
    · next hmain => exact .inl ⟨c, j, k, Option.some.inj h ▸ calloc_inv hi hmain⟩
    · next hmain => exact .inl ⟨c, j, k, fill_inv hi hmain h⟩
    · next hmain => exact .inl ⟨c + 1, j, k, create_inv hi hmain h⟩
    · next hmain => exact .inl ⟨c, j + 1, k, join_inv hi hmain h⟩
    · next hmain => exact .inl ⟨c, j, k + 1, printf_inv hi hmain h⟩
    · next hmain => exact .inl ⟨c, j, k, free_inv hi hmain h⟩
    · next hmain =>
      obtain ⟨info, hinfo, _⟩ := hi.tinfo (by rw [hmain]; trivial)
      rw [hinfo, Option.map_some] at h
      exact .inl ⟨c, j, k, Option.some.inj h ▸ freeTinfo_inv hi hmain⟩
    · exact .inr (Option.some.inj h).symm
    · exact .inr (Option.some.inj h).symm
    · exact .inr (Option.some.inj h).symm
    · cases h
  | some i =>
    change s.threadAct args i o = some t at h
    unfold System.threadAct at h
    split at h
    · next hthread => exact .inl ⟨c, j, k, strdup_inv hi hthread h⟩
    · exact .inr (Option.some.inj h).symm
    · next hthread => exact .inl ⟨c, j, k, upper_inv hi hthread h⟩
    · cases h

end

def Outlined (args : Args) (s : System α) : Prop :=
  ∃ c j k u, Inv args c j k u ∧ (s = u ∨ s = { u with main := .exited false })

theorem start_inv (args : Args) : Inv args 0 0 0 (start : System α) :=
  ⟨⟨rfl, rfl, rfl⟩, fun _ => ⟨fun _ => Nat.zero_le _, fun _ => rfl⟩,
    fun i => ⟨nofun, fun hno => absurd hno (Nat.not_lt_zero i)⟩, fun _ => trivial, nofun, nofun,
    nofun, nofun, rfl⟩

/-- For any arguments and every interleaving, whatever calls fail: `main` prints the upper-case
arguments in order, and nothing is used that is not there or belongs to another thread. -/
theorem threads_joined [DecidableEq α] (args : Args) (actions : List (Option ℕ × Outcome α)) :
    Always (Steps args) (Joins args) (start : System α) actions := by
  have hinv : Always (Steps args) (Outlined args) (start : System α) actions := by
    refine Always.of_invariant (G := fun _ _ _ => True) _ (fun s a t hs hstep _ => ?_)
      (EachStep.of_labels (fun _ _ => trivial) _) ⟨0, 0, 0, start, start_inv args, .inl rfl⟩
    obtain ⟨c, j, k, u, hi, rfl | rfl⟩ := hs
    · rcases act_inv hi hstep.2 with ⟨c', j', k', hi'⟩ | rfl
      · exact ⟨c', j', k', t, hi', .inl rfl⟩
      · exact ⟨c, j, k, s, hi, .inr rfl⟩
    · exact absurd rfl (hstep.1 false)
  refine hinv.mono fun s hs => ?_
  obtain ⟨c, j, k, u, hi, rfl | rfl⟩ := hs
  · exact hi.joins (.inl rfl)
  · exact hi.joins (.inr rfl)

end NetPrograms.ThreadJoin
