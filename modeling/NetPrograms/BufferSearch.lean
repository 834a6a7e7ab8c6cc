import NetPrograms.ByteQueue

set_option autoImplicit false

/-!
# Searching for a line end

`findEOL(start)` passes `memchr` a start inside the readable bytes together with the number
of all readable bytes. When that reaches past `beginWrite()`, and when it does no harm.
-/
namespace NetPrograms.BufferSearch
open BufferModel ListSegments Buffer

structure FirstAt (b : Buffer) (c : Byte) (s stop p : ℕ) : Prop where
  lower : s ≤ p
  upper : p < stop
  holds : b.buffer_[p]? = some c
  first : ∀ q, s ≤ q → q < p → b.buffer_[q]? ≠ some c

theorem FirstAt.unique {b : Buffer} {c : Byte} {s stop p q : ℕ} (hp : FirstAt b c s stop p)
    (hq : FirstAt b c s stop q) : p = q := by
  rcases Nat.lt_trichotomy p q with hlt | heq | hgt
  · exact absurd hp.holds (hq.first p hp.lower hlt)
  · exact heq
  · exact absurd hq.holds (hp.first q hq.lower hgt)

theorem firstAt_exists {b : Buffer} {c : Byte} {s stop q : ℕ} (hlo : s ≤ q) (hhi : q < stop)
    (hq : b.buffer_[q]? = some c) : ∃ p, FirstAt b c s stop p := by
  induction q using Nat.strong_induction_on with
  | h q ih =>
    by_cases hk : ∃ k, s ≤ k ∧ k < q ∧ b.buffer_[k]? = some c
    · obtain ⟨k, hsk, hkq, hc⟩ := hk
      exact ih k hkq hsk (hkq.trans hhi) hc
    · exact ⟨q, hlo, hhi, hq, fun k hsk hkq hc => hk ⟨k, hsk, hkq, hc⟩⟩

theorem memchr_here {b : Buffer} {c : Byte} {s : ℕ} (n : ℕ) (h : b.buffer_[s]? = some c) :
    (memchr c s (n + 1)).run b = .ok ⟨some s, [s]⟩ b := by
  simp only [memchr, EStateM.run_bind, EStateM.run_get, h, if_pos, EStateM.run_pure]

theorem memchr_next {b : Buffer} {c x : Byte} {s n : ℕ} {rest : Search}
    (h : b.buffer_[s]? = some x) (hx : x ≠ c)
    (hrest : (memchr c (s + 1) n).run b = .ok rest b) :
    (memchr c s (n + 1)).run b = .ok ⟨rest.found, s :: rest.examined⟩ b := by
  simp only [memchr, EStateM.run_bind, EStateM.run_get, h, if_neg hx, hrest, EStateM.run_pure]

/-- A match inside the range ends the search there, wherever the range ends. -/
theorem memchr_found {b : Buffer} {c : Byte} {s n p : ℕ} (h : FirstAt b c s (s + n) p) :
    ∃ examined, (memchr c s n).run b = .ok ⟨some p, examined⟩ b ∧ ∀ q ∈ examined, q ≤ p := by
  obtain ⟨hlo, hhi, hp, hfirst⟩ := h
  induction n generalizing s with
  | zero => omega
  | succ n ih =>
    rcases Nat.eq_or_lt_of_le hlo with rfl | hlt
    · exact ⟨[s], memchr_here n hp, by simp⟩
    · have hbound : p < b.buffer_.length := (List.getElem?_eq_some_iff.mp hp).1
      have hs := List.getElem?_eq_getElem (hlt.trans hbound)
      have hne : b.buffer_[s] ≠ c := fun he => hfirst s (le_refl s) hlt (he ▸ hs)
      obtain ⟨examined, hrun, hle⟩ :=
        ih hlt (by omega) fun q hq => hfirst q (Nat.le_of_succ_le hq)
      refine ⟨s :: examined, memchr_next hs hne hrun, ?_⟩
      exact List.forall_mem_cons.mpr ⟨hlo, hle⟩

theorem memchr_none {b : Buffer} {c : Byte} {s n : ℕ} (hin : s + n ≤ b.buffer_.length)
    (h : ∀ q, s ≤ q → q < s + n → b.buffer_[q]? ≠ some c) :
    ∃ examined, (memchr c s n).run b = .ok ⟨none, examined⟩ b ∧ ∀ q ∈ examined, q < s + n := by
  induction n generalizing s with
  | zero => exact ⟨[], rfl, by simp⟩
  | succ n ih =>
    have hs := List.getElem?_eq_getElem (show s < b.buffer_.length by omega)
    have hne : b.buffer_[s] ≠ c := fun he => h s (le_refl s) (by omega) (he ▸ hs)
    obtain ⟨examined, hrun, hlt⟩ :=
      ih (s := s + 1) (by omega) fun q hq hq' => h q (by omega) (by omega)
    refine ⟨s :: examined, memchr_next hs hne hrun, ?_⟩
    exact List.forall_mem_cons.mpr ⟨by omega, fun q hq => by have := hlt q hq; omega⟩

theorem memchr_examines {b b' : Buffer} {c : Byte} {s n q : ℕ} {r : Search}
    (hrun : (memchr c s n).run b = .ok r b') (hlo : s ≤ q) (hhi : q < s + n)
    (h : ∀ k, s ≤ k → k < q → b.buffer_[k]? ≠ some c) : q ∈ r.examined := by
  induction n generalizing s r b' with
  | zero => omega
  | succ n ih =>
    simp only [memchr, EStateM.run_bind, EStateM.run_get] at hrun
    cases hs : b.buffer_[s]? with
    | none =>
      simp only [hs] at hrun
      cases hrun
    | some x =>
      simp only [hs] at hrun
      split_ifs at hrun with hx
      · cases hrun
        rcases Nat.eq_or_lt_of_le hlo with rfl | hlt
        · exact List.mem_singleton.mpr rfl
        · exact absurd (hx ▸ hs) (h s (le_refl s) hlt)
      · obtain ⟨rest, b₁, hrest, hrun⟩ := run_bind_ok hrun
        cases hrun
        rcases Nat.eq_or_lt_of_le hlo with rfl | hlt
        · exact List.mem_cons_self
        · exact List.mem_cons_of_mem _
            (ih hrest hlt (by omega) fun k hk => h k (Nat.le_of_succ_le hk))

def FirstEOL (b : Buffer) (start p : ℕ) : Prop := FirstAt b newline start b.beginWrite p

/-- A result of `findEOL(start)` that is about the readable bytes from `start` on alone. -/
structure Finds (b : Buffer) (start : ℕ) (r : Search) : Prop where
  first : ∀ p, r.found = some p ↔ FirstEOL b start p
  examined : ∀ q ∈ r.examined, q < b.beginWrite
  agrees : ∀ b' : Buffer, b'.Valid → b'.content = b.content.drop (start - b.peek) →
    ∃ r', findEOL.run b' = .ok r' b' ∧
      r'.found.map (· - b'.peek) = r.found.map (· - start)
  admissible : ∀ p, r.found = some p → b.peek ≤ p + 1 ∧ p + 1 ≤ b.beginWrite

/-- `findEOL(start)` returns and searches exactly the readable bytes from `start` on. -/
def SearchesReadable (b : Buffer) (start : ℕ) : Prop :=
  ∃ r, (findEOLFrom start).run b = .ok r b ∧ Finds b start r

theorem readable_end {b : Buffer} (h : b.Valid) : b.peek + b.readableBytes = b.beginWrite := by
  have hr := h.readable
  have hc := h.content_length
  have hle := h.reader_le
  simp only [peek, beginWrite]
  omega

theorem content_get {b : Buffer} {k : ℕ} (hk : b.peek + k < b.beginWrite) :
    b.content[k]? = b.buffer_[b.peek + k]? := by
  rw [content, segment_get]
  exact if_pos hk

theorem findEOL_run {b : Buffer} (h : b.Valid) :
    ∃ r, findEOL.run b = .ok r b ∧ (∀ p, r.found = some p ↔ FirstEOL b b.peek p) ∧
      ∀ q ∈ r.examined, q < b.beginWrite := by
  have hend := readable_end h
  by_cases hex : ∃ p, FirstEOL b b.peek p
  · obtain ⟨p, hp⟩ := hex
    have hp' : FirstAt b newline b.peek (b.peek + b.readableBytes) p := hend ▸ hp
    obtain ⟨examined, hrun, hle⟩ := memchr_found hp'
    refine ⟨_, hrun, fun q => ?_, fun q hq => (hle q hq).trans_lt hp.upper⟩
    constructor
    · intro hq
      cases hq
      exact hp
    · intro hq
      exact congrArg some (hp.unique hq)
  · have hnone : ∀ q, b.peek ≤ q → q < b.peek + b.readableBytes →
        b.buffer_[q]? ≠ some newline :=
      fun q hlo hhi hq => hex (firstAt_exists hlo (hend ▸ hhi) hq)
    have hin : b.peek + b.readableBytes ≤ b.buffer_.length := by
      rw [hend]
      exact h.writer_le
    obtain ⟨examined, hrun, hlt⟩ := memchr_none hin hnone
    refine ⟨_, hrun, fun p => ⟨fun hp => (by cases hp), fun hp => absurd ⟨p, hp⟩ hex⟩, ?_⟩
    exact fun q hq => hend ▸ hlt q hq

theorem suffix_get {b b' : Buffer} (h : b.Valid) (h' : b'.Valid) {start : ℕ}
    (hlo : b.peek ≤ start) (hhi : start ≤ b.beginWrite)
    (hc : b'.content = b.content.drop (start - b.peek)) :
    b'.peek + (b.beginWrite - start) = b'.beginWrite ∧
      ∀ k, start + k < b.beginWrite → b'.buffer_[b'.peek + k]? = b.buffer_[start + k]? := by
  have hlen := h.content_length
  have hlen' := h'.content_length
  have hle' := h'.reader_le
  have hdrop := congrArg List.length hc
  rw [List.length_drop] at hdrop
  simp only [peek, beginWrite] at hlo hhi hdrop ⊢
  have hend : b'.readerIndex_ + (b.writerIndex_ - start) = b'.writerIndex_ := by omega
  refine ⟨hend, fun k hk => ?_⟩
  have hlt : b'.peek + k < b'.beginWrite := by
    simp only [peek, beginWrite] at hk ⊢
    omega
  have hlt' : b.peek + (start - b.peek + k) < b.beginWrite := by
    simp only [peek, beginWrite] at hk ⊢
    omega
  have hget := congrArg (·[k]?) hc
  simp only [List.getElem?_drop] at hget
  rw [content_get hlt, content_get hlt'] at hget
  simp only [peek] at hget
  rw [hget]
  congr 1
  omega

theorem firstEOL_shift {b b' : Buffer} (h : b.Valid) (h' : b'.Valid) {start : ℕ}
    (hlo : b.peek ≤ start) (hhi : start ≤ b.beginWrite)
    (hc : b'.content = b.content.drop (start - b.peek)) (k : ℕ) :
    FirstEOL b' b'.peek (b'.peek + k) ↔ FirstEOL b start (start + k) := by
  obtain ⟨hend, hget⟩ := suffix_get h h' hlo hhi hc
  constructor
  · rintro ⟨-, hup, hholds, hfirst⟩
    have hup' : start + k < b.beginWrite := by omega
    refine ⟨Nat.le_add_right _ _, hup', hget k hup' ▸ hholds, fun q hq hqk => ?_⟩
    obtain ⟨j, rfl⟩ := Nat.exists_eq_add_of_le hq
    rw [← hget j (by omega)]
    exact hfirst _ (Nat.le_add_right _ _) (by omega)
  · rintro ⟨-, hup, hholds, hfirst⟩
    refine ⟨Nat.le_add_right _ _, by omega, (hget k hup).trans hholds, fun q hq hqk => ?_⟩
    obtain ⟨j, rfl⟩ := Nat.exists_eq_add_of_le hq
    rw [hget j (by omega)]
    exact hfirst _ (Nat.le_add_right _ _) (by omega)

theorem finds_agrees {b b' : Buffer} (h : b.Valid) (h' : b'.Valid) {start : ℕ}
    (hlo : b.peek ≤ start) (hhi : start ≤ b.beginWrite)
    (hc : b'.content = b.content.drop (start - b.peek)) {found found' : Option ℕ}
    (hf : ∀ p, found = some p ↔ FirstEOL b start p)
    (hf' : ∀ p, found' = some p ↔ FirstEOL b' b'.peek p) :
    found'.map (· - b'.peek) = found.map (· - start) := by
  cases found with
  | none =>
    cases found' with
    | none => rfl
    | some p' =>
      have hp' := (hf' p').mp rfl
      obtain ⟨k, rfl⟩ := Nat.exists_eq_add_of_le hp'.lower
      have hp := (hf (start + k)).mpr ((firstEOL_shift h h' hlo hhi hc k).mp hp')
      cases hp
  | some p =>
    have hp := (hf p).mp rfl
    obtain ⟨k, rfl⟩ := Nat.exists_eq_add_of_le hp.lower
    rw [(hf' (b'.peek + k)).mpr ((firstEOL_shift h h' hlo hhi hc k).mpr hp)]
    simp only [Option.map_some, Nat.add_sub_cancel_left]

theorem finds_of {b : Buffer} (h : b.Valid) {start : ℕ} (hlo : b.peek ≤ start)
    (hhi : start ≤ b.beginWrite) {r : Search} (hf : ∀ p, r.found = some p ↔ FirstEOL b start p)
    (hex : ∀ q ∈ r.examined, q < b.beginWrite) : Finds b start r := by
  refine ⟨hf, hex, fun b' h' hc => ?_, fun p hp => ?_⟩
  · obtain ⟨r', hrun, hf', _⟩ := findEOL_run h'
    exact ⟨r', hrun, finds_agrees h h' hlo hhi hc hf hf'⟩
  · have hfirst := (hf p).mp hp
    exact ⟨(hlo.trans hfirst.lower).trans (Nat.le_succ p), hfirst.upper⟩

theorem findEOLFrom_eq {b : Buffer} {start : ℕ} (hlo : b.peek ≤ start)
    (hhi : start ≤ b.beginWrite) :
    (findEOLFrom start).run b = (memchr newline start b.readableBytes).run b := by
  simp only [findEOLFrom, EStateM.run_bind, EStateM.run_get, check_run hlo, check_run hhi]

theorem findEOL_searches_readable {b : Buffer} (h : b.Valid) {start : ℕ}
    (hlo : b.peek ≤ start) (hhi : start ≤ b.beginWrite) :
    SearchesReadable b start ↔
      start = b.peek ∨ ∃ p, start ≤ p ∧ p < b.beginWrite ∧ b.buffer_[p]? = some newline := by
  have hend := readable_end h
  constructor
  · rintro ⟨r, hrun, hfinds⟩
    rw [findEOLFrom_eq hlo hhi] at hrun
    rcases Nat.eq_or_lt_of_le hlo with heq | hlt
    · exact .inl heq.symm
    · right
      by_contra hnone
      have hreach : b.beginWrite ∈ r.examined :=
        memchr_examines hrun hhi (by omega) fun k hk hkw hc => hnone ⟨k, hk, hkw, hc⟩
      exact Nat.lt_irrefl _ (hfinds.examined _ hreach)
  · rintro (rfl | ⟨q, hq, hqw, hc⟩)
    · obtain ⟨r, hrun, hf, hex⟩ := findEOL_run h
      refine ⟨r, ?_, finds_of h hlo hhi hf hex⟩
      rw [findEOLFrom_eq hlo hhi]
      exact hrun
    · obtain ⟨p, hp⟩ := firstAt_exists hq hqw hc
      have hupper := hp.upper
      obtain ⟨examined, hrun, hle⟩ :=
        memchr_found (n := b.readableBytes) ⟨hp.lower, by omega, hp.holds, hp.first⟩
      refine ⟨⟨some p, examined⟩, ?_, finds_of h hlo hhi (fun k => ?_) fun k hk => ?_⟩
      · rw [findEOLFrom_eq hlo hhi]
        exact hrun
      · exact ⟨fun hk => Option.some.inj hk ▸ hp, fun hk => congrArg some (hp.unique hk)⟩
      · exact (hle k hk).trans_lt hp.upper

def unwrittenLine : Buffer := ⟨overwrite Buffer.new.buffer_ kCheapPrepend [97, newline], 8, 9⟩

theorem unwrittenLine_reached :
    (do append [97, newline]; unwrite 1).run Buffer.new = .ok () unwrittenLine := by
  rw [EStateM.run_bind, append_new (by decide)]
  rfl

theorem unwrittenLine_valid : unwrittenLine.Valid := by
  obtain ⟨_, b₁, happend, hunwrite⟩ := run_bind_ok unwrittenLine_reached
  have h₁ := append_ok new_valid happend
  have hlen : 1 ≤ b₁.content.length := by
    rw [h₁.content, List.length_append]
    exact Nat.le_add_left _ _
  obtain ⟨b₂, hrun, hb₂⟩ := unwrite_run h₁.valid hlen
  rw [hrun] at hunwrite
  cases hunwrite
  exact hb₂.valid

theorem findEOL_searches_readable_unwritten :
    SearchesReadable unwrittenLine 9 ↔ 9 = unwrittenLine.peek ∨
      ∃ p, 9 ≤ p ∧ p < unwrittenLine.beginWrite ∧ unwrittenLine.buffer_[p]? = some newline :=
  findEOL_searches_readable unwrittenLine_valid (by decide) (by decide)

theorem findEOL_beyond_beginWrite :
    (do append [97, newline]; unwrite 1).run Buffer.new = .ok () unwrittenLine ∧
    unwrittenLine.peek ≤ 9 ∧ 9 ≤ unwrittenLine.beginWrite ∧
    ¬SearchesReadable unwrittenLine 9 := by
  refine ⟨unwrittenLine_reached, by decide, by decide, ?_⟩
  rintro ⟨r, hrun, hfinds⟩
  have hstale : unwrittenLine.buffer_[9]? = some newline := rfl
  rw [findEOLFrom_eq (by decide) (by decide)] at hrun
  have hexamined : 9 ∈ r.examined :=
    memchr_examines hrun (le_refl 9) (by decide) fun k hk hk' => absurd hk (by omega)
  exact absurd (hfinds.examined 9 hexamined) (by decide)

end NetPrograms.BufferSearch
