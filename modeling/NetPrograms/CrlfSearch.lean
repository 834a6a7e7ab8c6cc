import NetPrograms.BufferCalls
import NetPrograms.BufferSearch

set_option autoImplicit false

namespace NetPrograms.CrlfSearch
open BufferModel BufferCalls BufferSearch ListSegments PatternSearch Buffer RunInvariants

def crlf : List Byte := kCRLF.take 2

def CRLFAt (b : Buffer) (p : ℕ) : Prop := b.buffer_[p]? = some 13 ∧ b.buffer_[p + 1]? = some 10

/-- `p` is the first position from `start` on with a whole terminator before `beginWrite()`. -/
structure FirstCRLF (b : Buffer) (start p : ℕ) : Prop where
  lower : start ≤ p
  upper : p + 2 ≤ b.beginWrite
  holds : CRLFAt b p
  first : ∀ q, start ≤ q → q < p → ¬CRLFAt b q

structure FindsCRLF (b : Buffer) (start : ℕ) (r : Option ℕ) : Prop where
  found : ∀ p, r = some p ↔ FirstCRLF b start p
  null : r = none ↔ ∀ p, start ≤ p → p + 2 ≤ b.beginWrite → ¬CRLFAt b p
  admissible : ∀ p, r = some p → ∃ b', (retrieveUntil (p + 2)).run b = .ok () b'

theorem pair_prefix {α : Type*} (x y : α) (xs : List α) :
    [x, y] <+: xs ↔ xs[0]? = some x ∧ xs[1]? = some y := by
  rcases xs with _ | ⟨a, _ | ⟨c, xs⟩⟩
  · simp
  · simp
  · simp only [List.cons_prefix_cons, List.nil_prefix, and_true, List.getElem?_cons_zero,
      List.getElem?_cons_succ, Option.some.injEq, eq_comm]

theorem crlf_occurs {b : Buffer} (start k : ℕ) :
    crlf <+: (segment b.buffer_ start b.beginWrite).drop k ↔
      start + k + 2 ≤ b.beginWrite ∧ CRLFAt b (start + k) := by
  rw [segment_drop, crlf, kCRLF, List.take_succ_cons, List.take_succ_cons, List.take_zero,
    pair_prefix, segment_get, segment_get, CRLFAt]
  constructor
  · intro h
    split_ifs at h with h₀ h₁
    · exact ⟨h₁, h⟩
    · cases h.2
    · cases h.1
    · cases h.1
  · rintro ⟨hupper, h⟩
    rw [if_pos (by omega), if_pos (by omega)]
    exact h

def crlfFrom (b : Buffer) (start : ℕ) : Option ℕ :=
  let p := start + searchIndex crlf (segment b.buffer_ start b.beginWrite)
  if p = b.beginWrite then none else some p

theorem search_run {b : Buffer} {first last : ℕ} (h : first ≤ last)
    (hin : last ≤ b.buffer_.length) (pattern : List Byte) :
    (search first last pattern).run b =
      .ok (first + searchIndex pattern (segment b.buffer_ first last)) b := by
  simp only [search, EStateM.run_bind, EStateM.run_get]
  rw [if_pos ⟨h, hin⟩, EStateM.run_pure]

theorem findCRLFFrom_run {b : Buffer} (h : b.Valid) {start : ℕ} (hlo : b.peek ≤ start)
    (hhi : start ≤ b.beginWrite) : (findCRLFFrom start).run b = .ok (crlfFrom b start) b := by
  simp only [findCRLFFrom, EStateM.run_bind, EStateM.run_get, check_run hlo, check_run hhi,
    search_run hhi h.writer_le, EStateM.run_pure]
  rfl

theorem findCRLF_run {b : Buffer} (h : b.Valid) :
    findCRLF.run b = .ok (crlfFrom b b.peek) b := by
  have hle : b.peek ≤ b.beginWrite := h.reader_le
  simp only [findCRLF, EStateM.run_bind, EStateM.run_get, search_run hle h.writer_le,
    EStateM.run_pure]
  rfl

theorem crlfFrom_none {b : Buffer} (h : b.Valid) {start : ℕ} (hhi : start ≤ b.beginWrite) :
    crlfFrom b start = none ↔ searchIndex crlf (segment b.buffer_ start b.beginWrite) =
      (segment b.buffer_ start b.beginWrite).length := by
  have hlen := segment_length b.buffer_ start b.beginWrite h.writer_le
  unfold crlfFrom
  dsimp only
  constructor
  · intro hnone
    split_ifs at hnone with heq
    omega
  · intro heq
    rw [if_pos (by omega)]

theorem crlfFrom_first {b : Buffer} (h : b.Valid) {start : ℕ} (hhi : start ≤ b.beginWrite)
    (p : ℕ) : crlfFrom b start = some p ↔ FirstCRLF b start p := by
  have hlen := segment_length b.buffer_ start b.beginWrite h.writer_le
  have hle := searchIndex_le crlf (segment b.buffer_ start b.beginWrite)
  constructor
  · intro hsome
    unfold crlfFrom at hsome
    dsimp only at hsome
    split_ifs at hsome with heq
    cases hsome
    have hlt : searchIndex crlf (segment b.buffer_ start b.beginWrite) <
        (segment b.buffer_ start b.beginWrite).length := by omega
    obtain ⟨hupper, hholds⟩ := (crlf_occurs _ _).mp (searchIndex_occurs hlt)
    refine ⟨Nat.le_add_right _ _, hupper, hholds, fun q hq hqp hc => ?_⟩
    obtain ⟨k, rfl⟩ := Nat.exists_eq_add_of_le hq
    exact searchIndex_first (by omega) ((crlf_occurs start k).mpr ⟨by omega, hc⟩)
  · rintro ⟨hlower, hupper, hholds, hfirst⟩
    obtain ⟨k, rfl⟩ := Nat.exists_eq_add_of_le hlower
    have hk : searchIndex crlf (segment b.buffer_ start b.beginWrite) = k := by
      refine searchIndex_eq (by omega) ((crlf_occurs start k).mpr ⟨hupper, hholds⟩) ?_
      exact fun j hj hocc => hfirst _ (Nat.le_add_right _ _) (by omega)
        ((crlf_occurs start j).mp hocc).2
    unfold crlfFrom
    dsimp only
    rw [hk, if_neg (by omega)]

theorem crlfFrom_finds {b : Buffer} (h : b.Valid) {start : ℕ} (hlo : b.peek ≤ start)
    (hhi : start ≤ b.beginWrite) : FindsCRLF b start (crlfFrom b start) := by
  have hlen := segment_length b.buffer_ start b.beginWrite h.writer_le
  refine ⟨crlfFrom_first h hhi, ?_, fun p hp => ?_⟩
  · rw [crlfFrom_none h hhi]
    constructor
    · intro hnone p hp hupper hc
      obtain ⟨k, rfl⟩ := Nat.exists_eq_add_of_le hp
      exact searchIndex_first (by omega) ((crlf_occurs start k).mpr ⟨hupper, hc⟩)
    · intro hnone
      by_contra hne
      have hlt := Nat.lt_of_le_of_ne (searchIndex_le _ _) hne
      obtain ⟨hupper, hc⟩ := (crlf_occurs _ _).mp (searchIndex_occurs hlt)
      exact hnone _ (Nat.le_add_right _ _) hupper hc
  · have hfirst := (crlfFrom_first h hhi p).mp hp
    have hlower : b.peek ≤ p + 2 := (hlo.trans hfirst.lower).trans (Nat.le_add_right _ _)
    obtain ⟨b', hrun, _⟩ := retrieveUntil_run h hlower hfirst.upper
    exact ⟨b', hrun⟩

def Appending : BufferCall → Prop
  | .op (.append _) => True
  | .readFd _ _ => True
  | _ => False

theorem appending_spec {calls : List BufferCall} (h : ∀ call ∈ calls, Appending call)
    (c : List Byte) : ∃ d, calls.foldl BufferCall.spec c = c ++ d := by
  induction calls generalizing c with
  | nil => exact ⟨[], (List.append_nil c).symm⟩
  | cons call calls ih =>
    obtain ⟨hcall, hrest⟩ := List.forall_mem_cons.mp h
    have hone : ∃ d, call.spec c = c ++ d := by
      cases call with
      | readFd result savedErrno => exact ⟨result.delivered, rfl⟩
      | op o =>
        cases o with
        | append data => exact ⟨data, rfl⟩
        | _ => exact absurd hcall not_false
    obtain ⟨d, hd⟩ := hone
    obtain ⟨d', hd'⟩ := ih hrest (c ++ d)
    refine ⟨d ++ d', ?_⟩
    rw [List.foldl_cons, hd, hd', List.append_assoc]

theorem crlfFrom_content {b : Buffer} (h : b.Valid) (n : ℕ) :
    crlfFrom b (b.peek + n) =
      let k := n + searchIndex crlf (b.content.drop n)
      if k = b.content.length then none else some (b.peek + k) := by
  have hc := h.content_length
  have hle := h.reader_le
  have hdrop : segment b.buffer_ (b.peek + n) b.beginWrite = b.content.drop n :=
    (segment_drop _ _ _ _).symm
  unfold crlfFrom
  rw [hdrop]
  simp only [peek, beginWrite, Nat.add_assoc]
  split_ifs <;> first | rfl | omega

theorem crlfFrom_resume {b b' : Buffer} (h : b.Valid) (h' : b'.Valid) {d : List Byte}
    (hnone : crlfFrom b b.peek = none) (hc : b'.content = b.content ++ d) :
    crlfFrom b' (b'.peek + (b.content.length - 1)) = crlfFrom b' b'.peek := by
  have hindex : searchIndex crlf b.content = b.content.length :=
    (crlfFrom_none h h.reader_le).mp hnone
  have hresume := searchIndex_resume hindex d
  have hwhole := crlfFrom_content h' 0
  rw [Nat.add_zero, List.drop_zero, Nat.zero_add] at hwhole
  rw [crlfFrom_content h', hwhole, hc, hresume]
  rfl

def Exact (b : Buffer) : Prop :=
  findCRLF.run b = (findCRLFFrom b.peek).run b ∧
  ∀ start, b.peek ≤ start → start ≤ b.beginWrite →
    ∃ r, (findCRLFFrom start).run b = .ok r b ∧ FindsCRLF b start r

/-- After a search in vain and any calls that append, a search from the last byte of the old
content on returns the same as one from the front. -/
def Resumable (host : ByteOrder) (b : Buffer) : Prop :=
  findCRLF.run b = .ok none b → ∀ calls b', (∀ call ∈ calls, Appending call) →
    Run (CallStep host) b calls b' →
    ∃ r, findCRLF.run b' = .ok r b' ∧
      (findCRLFFrom (b'.peek + (b.content.length - 1))).run b' = .ok r b'

theorem findCRLF_exact_resumable (host : ByteOrder) {b : Buffer} (hb : Reachable host b) :
    Exact b ∧ Resumable host b := by
  have h := hb.valid
  refine ⟨⟨?_, fun start hlo hhi => ?_⟩, fun hnone calls b' hcalls hrun => ?_⟩
  · rw [findCRLF_run h, findCRLFFrom_run h (le_refl _) h.reader_le]
  · exact ⟨_, findCRLFFrom_run h hlo hhi, crlfFrom_finds h hlo hhi⟩
  · rw [findCRLF_run h] at hnone
    have hvain : crlfFrom b b.peek = none := by
      injection hnone
    obtain ⟨h', hcontent⟩ := run_spec h hrun
    obtain ⟨d, hd⟩ := appending_spec hcalls b.content
    have hc := hcontent.trans hd
    have hend := readable_end h'
    have hlen := congrArg List.length hc
    rw [List.length_append, ← h'.readable] at hlen
    refine ⟨_, findCRLF_run h', ?_⟩
    rw [findCRLFFrom_run h' (Nat.le_add_right _ _) (by omega), crlfFrom_resume h h' hvain hc]

def halfLine : Buffer := ⟨overwrite Buffer.new.buffer_ kCheapPrepend [97, 13], 8, 10⟩

theorem halfLine_reachable : Reachable .little halfLine := by
  have happend : (append [97, 13]).run Buffer.new = .ok () halfLine := append_new (by decide)
  have hstep : CallStep .little Buffer.new (.op (.append [97, 13])) halfLine :=
    .op trivial (BufferHistory.run_discard happend)
  exact ⟨[.op (.append [97, 13])], .next hstep (.refl _)⟩

theorem findCRLF_exact_resumable_half : Exact halfLine ∧ Resumable .little halfLine :=
  findCRLF_exact_resumable .little halfLine_reachable

end NetPrograms.CrlfSearch
