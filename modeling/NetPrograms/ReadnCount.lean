import NetPrograms.BufferRefinement
import NetPrograms.ReadnModel

set_option autoImplicit false

namespace NetPrograms.ReadnCount
open BufferModel FlatMemory PollerModel ReadnModel

def ends : RecvResult → Bool
  | .received _ => false
  | .closed => true
  | .failed errno => errno ≠ EINTR

def count : RecvResult → ℕ
  | .received n => n
  | _ => 0

def delivered (script : List RecvResult) : ℕ :=
  ((script.takeWhile fun r => !ends r).map count).sum

/-- An error other than `EINTR` comes before anything is delivered, or too late to be seen. -/
def LosesNothing (len : ℕ) (script : List RecvResult) : Prop :=
  ∀ errno, script.find? ends = some (.failed errno) →
    delivered script = 0 ∨ len ≤ delivered script

theorem toInt_eq {n : ℕ} (hn : n ≤ INT_MAX) : toInt n = n := by
  unfold INT_MAX at hn
  rw [toInt, BitVec.toInt_ofNat', Int.bmod_eq_of_le] <;> omega

theorem delivered_next {r : RecvResult} (h : ends r = false) (rest : List RecvResult) :
    delivered (r :: rest) = count r + delivered rest := by
  rw [delivered, List.takeWhile_cons_of_pos (by rw [h]; rfl), List.map_cons, List.sum_cons]
  rfl

theorem delivered_end {r : RecvResult} (h : ends r = true) (rest : List RecvResult) :
    delivered (r :: rest) = 0 := by
  rw [delivered, List.takeWhile_cons_of_neg (by rw [h]; decide)]
  rfl

theorem find_next {r : RecvResult} (h : ends r = false) (rest : List RecvResult) :
    (r :: rest).find? ends = rest.find? ends :=
  List.find?_cons_of_neg (by rw [h]; decide)

theorem find_end {r : RecvResult} (h : ends r = true) (rest : List RecvResult) :
    (r :: rest).find? ends = some r :=
  List.find?_cons_of_pos h

/-- How the loop comes out that has `cnt` bytes to go: it has consumed `k`, and `left` is still
in the stream. -/
inductive Outcome (len : ℕ) (cnt : ℤ) (script : List RecvResult) (k : ℕ) (left : List Byte)
    (ret : ℤ) : Prop where
  | full (hk : (k : ℤ) = cnt) (hscript : k ≤ delivered script) (hret : ret = toInt len)
  | closed (hk : (k : ℤ) < cnt) (hfind : script.find? ends = some .closed) (hleft : left = [])
      (hret : ret = toInt (sizeSub len (cnt - k).toNat))
  | failed (hk : (k : ℤ) < cnt) (hscript : delivered script = k) (errno : ℕ)
      (hfind : script.find? ends = some (.failed errno)) (hret : ret = -1)

theorem Outcome.next {len k : ℕ} {cnt ret : ℤ} {r : RecvResult} {rest : List RecvResult}
    {left : List Byte} (hr : ends r = false)
    (h : Outcome len (cnt - count r) rest k left ret) :
    Outcome len cnt (r :: rest) (count r + k) left ret := by
  cases h with
  | full hk hscript hret =>
    refine .full (by omega) ?_ hret
    rw [delivered_next hr]
    omega
  | closed hk hfind hleft hret =>
    refine .closed (by omega) ((find_next hr rest).trans hfind) hleft ?_
    have hcnt : cnt - ((count r + k : ℕ) : ℤ) = cnt - count r - k := by omega
    rw [hcnt]
    exact hret
  | failed hk hscript errno hfind hret =>
    refine .failed (by omega) ?_ errno ((find_next hr rest).trans hfind) hret
    rw [delivered_next hr, hscript]

structure Consumed (bp : ℤ) (k : ℕ) (s s' : Incoming) : Prop where
  available : k ≤ s.stream.length
  stream : s'.stream = s.stream.drop k
  memory : s'.memory = write s.memory bp (s.stream.take k)

theorem Consumed.refl (bp : ℤ) (s : Incoming) : Consumed bp 0 s s :=
  ⟨Nat.zero_le _, rfl, (write_nil _ _).symm⟩

theorem Consumed.after {bp : ℤ} {n k : ℕ} {s s' : Incoming} (hn : n ≤ s.stream.length)
    (h : Consumed (bp + n) k (s.deliver bp n) s') : Consumed bp (n + k) s s' := by
  obtain ⟨havailable, hstream, hmemory⟩ := h
  simp only [Incoming.deliver, List.length_drop] at havailable
  refine ⟨by omega, ?_, ?_⟩
  · rw [hstream, Incoming.deliver, List.drop_drop]
  · have hlen : (s.stream.take n).length = n := List.length_take_of_le hn
    have hwrite := write_append s.memory bp (s.stream.take n) ((s.stream.drop n).take k)
    rw [hlen, ← List.take_add] at hwrite
    rw [hmemory, ← hwrite]
    rfl

theorem readnLoop_full {cnt : ℤ} (hcnt : ¬0 < cnt) (len : ℕ) (script : List RecvResult) (bp : ℤ)
    (s : Incoming) : readnLoop len script bp cnt s = some (toInt len, s) := by
  cases script with
  | nil => rw [readnLoop, if_neg hcnt]
  | cons r rest => cases r <;> rw [readnLoop, if_neg hcnt]

theorem readnLoop_outcome {len : ℕ} {script : List RecvResult} {bp cnt ret : ℤ} {s s' : Incoming}
    (hcnt : 0 ≤ cnt) (hadm : Admissible script cnt s.stream)
    (h : readnLoop len script bp cnt s = some (ret, s')) :
    ∃ k, Consumed bp k s s' ∧ Outcome len cnt script k s'.stream ret := by
  induction script generalizing bp cnt s with
  | nil =>
    rw [readnLoop] at h
    split_ifs at h with hpos
    cases h
    exact ⟨0, .refl bp _, .full (by omega) (Nat.zero_le _) rfl⟩
  | cons r rest ih =>
    by_cases hpos : 0 < cnt
    · cases r with
      | received n =>
        rw [readnLoop, if_pos hpos] at h
        obtain ⟨⟨_, hn, havailable⟩, hrest⟩ := hadm hpos
        obtain ⟨k, hconsumed, houtcome⟩ := ih (by omega) hrest h
        exact ⟨n + k, hconsumed.after havailable, houtcome.next (r := .received n) rfl⟩
      | closed =>
        rw [readnLoop, if_pos hpos] at h
        have hleft := hadm hpos
        cases h
        refine ⟨0, .refl bp _, .closed hpos (find_end rfl rest) hleft ?_⟩
        rw [Int.natCast_zero, Int.sub_zero]
      | failed errno =>
        rw [readnLoop, if_pos hpos] at h
        split_ifs at h with herrno
        · have hr : ends (.failed errno) = false := by simp [ends, herrno]
          obtain ⟨k, hconsumed, houtcome⟩ := ih hcnt (hadm herrno) h
          have hcount : count (.failed errno) = 0 := rfl
          have hsame : cnt - count (.failed errno) = cnt := Int.sub_zero cnt
          rw [← hsame] at houtcome
          have hnext := houtcome.next hr
          rw [hcount, Nat.zero_add] at hnext
          exact ⟨k, hconsumed, hnext⟩
        · cases h
          have hr : ends (.failed errno) = true := by simp [ends, herrno]
          exact ⟨0, .refl bp _, .failed hpos (delivered_end hr rest) errno (find_end hr rest) rfl⟩
    · rw [readnLoop_full hpos] at h
      cases h
      exact ⟨0, .refl bp _, .full (by omega) (Nat.zero_le _) rfl⟩

def uninterrupted (r : RecvResult) : Bool := r ≠ .failed EINTR

theorem readnLoop_uninterrupted (len : ℕ) (script : List RecvResult) (bp cnt : ℤ)
    (s : Incoming) :
    readnLoop len (script.filter uninterrupted) bp cnt s = readnLoop len script bp cnt s := by
  induction script generalizing bp cnt s with
  | nil => rfl
  | cons r rest ih =>
    by_cases hpos : 0 < cnt
    · cases r with
      | received n =>
        rw [List.filter_cons_of_pos rfl, readnLoop, readnLoop, if_pos hpos, if_pos hpos]
        exact ih _ _ _
      | closed =>
        rw [List.filter_cons_of_pos rfl, readnLoop, readnLoop, if_pos hpos]
      | failed errno =>
        by_cases herrno : errno = EINTR
        · rw [List.filter_cons_of_neg (by simp [uninterrupted, herrno]), readnLoop, if_pos hpos,
            if_pos herrno]
          exact ih _ _ _
        · rw [List.filter_cons_of_pos (by simp [uninterrupted, herrno]), readnLoop, readnLoop,
            if_pos hpos, if_pos hpos, if_neg herrno, if_neg herrno]
    · rw [readnLoop_full hpos, readnLoop_full hpos]

/-- What `readn` owes its caller. A count of `k` stands for the first `k` bytes of the stream,
which are at `bp`, and is `len` unless the stream has ended. An error stands for nothing
consumed. An interrupted call makes no difference. -/
structure Reports (len : ℕ) (script : List RecvResult) (bp : ℤ) (s : Incoming) (ret : ℤ)
    (s' : Incoming) : Prop where
  progress : 0 ≤ ret → ∃ k : ℕ, ret = k ∧ k ≤ s.stream.length ∧ s'.stream = s.stream.drop k ∧
    read s'.memory bp k = s.stream.take k ∧
    (∀ a, a < bp ∨ bp + k ≤ a → s'.memory a = s.memory a) ∧
    (k = len ∨ .closed ∈ script ∧ s'.stream = [])
  interrupted : readn (script.filter uninterrupted) bp len s = some (ret, s')
  failure : ret = -1 → s'.stream = s.stream
  result : ret = -1 ∨ 0 ≤ ret

theorem readn_outcome {len : ℕ} (hlen : len ≤ INT_MAX) {script : List RecvResult} {bp ret : ℤ}
    {s s' : Incoming} (hadm : Admissible script len s.stream)
    (h : readn script bp len s = some (ret, s')) :
    ∃ k, Consumed bp k s s' ∧ Outcome len len script k s'.stream ret := by
  rw [readn, toInt_eq hlen] at h
  exact readnLoop_outcome (Int.natCast_nonneg len) hadm h

theorem readn_interrupted (script : List RecvResult) (bp : ℤ) (len : ℕ) (s : Incoming) :
    readn (script.filter uninterrupted) bp len s = readn script bp len s :=
  readnLoop_uninterrupted _ _ _ _ _

theorem Consumed.progress {bp : ℤ} {k len : ℕ} {script : List RecvResult} {s s' : Incoming}
    (h : Consumed bp k s s') (hend : k = len ∨ .closed ∈ script ∧ s'.stream = []) :
    ∃ j : ℕ, (k : ℤ) = j ∧ j ≤ s.stream.length ∧ s'.stream = s.stream.drop j ∧
      read s'.memory bp j = s.stream.take j ∧
      (∀ a, a < bp ∨ bp + j ≤ a → s'.memory a = s.memory a) ∧
      (j = len ∨ .closed ∈ script ∧ s'.stream = []) := by
  have hlen : (s.stream.take k).length = k := List.length_take_of_le h.available
  refine ⟨k, rfl, h.available, h.stream, ?_, fun a ha => ?_, hend⟩
  · have hread := read_write_same s.memory bp (s.stream.take k)
    rw [hlen] at hread
    rw [h.memory, hread]
  · rw [h.memory]
    exact write_outside _ _ _ (by rwa [hlen])

theorem failed_keeps_iff {bp : ℤ} {k len errno : ℕ} {script : List RecvResult} {s s' : Incoming}
    (h : Consumed bp k s s') (hk : k < len) (hscript : delivered script = k)
    (hfind : script.find? ends = some (.failed errno)) :
    s'.stream = s.stream ↔ LosesNothing len script := by
  constructor
  · intro hkept _ _
    left
    have hsame := congrArg List.length hkept
    have havailable := h.available
    rw [h.stream, List.length_drop] at hsame
    omega
  · intro hloses
    have hnone : k = 0 := by
      have hcases := hloses errno hfind
      omega
    rw [h.stream, hnone, List.drop_zero]

/-- `readn` keeps its promises exactly when no error follows a delivery. -/
theorem readn_reports_iff {len : ℕ} (hpos : 1 ≤ len) (hlen : len ≤ INT_MAX)
    {script : List RecvResult} {bp ret : ℤ} {s s' : Incoming}
    (hadm : Admissible script len s.stream) (hrun : readn script bp len s = some (ret, s')) :
    Reports len script bp s ret s' ↔ LosesNothing len script := by
  obtain ⟨k, hconsumed, houtcome⟩ := readn_outcome hlen hadm hrun
  have hinterrupted := (readn_interrupted script bp len s).trans hrun
  cases houtcome with
  | full hk hscript hret =>
    rw [toInt_eq hlen] at hret
    have hkl : k = len := by omega
    constructor
    · exact fun _ errno _ => .inr (by omega)
    · intro _
      refine ⟨fun _ => ?_, hinterrupted, fun hfail => by omega, .inr (by omega)⟩
      have hend : k = len ∨ .closed ∈ script ∧ s'.stream = [] := .inl hkl
      have hprogress := hconsumed.progress hend
      rwa [hk, ← hret] at hprogress
  | closed hk hfind hleft hret =>
    have hcount : sizeSub len (len - k : ℤ).toNat = k := by
      rw [INT_MAX] at hlen
      rw [sizeSub_eq _ _ (by omega) (by omega)]
      omega
    rw [hcount, toInt_eq (by omega)] at hret
    constructor
    · intro _ errno herr
      rw [hfind] at herr
      cases herr
    · intro _
      refine ⟨fun _ => ?_, hinterrupted, fun hfail => by omega, .inr (by omega)⟩
      have hend : k = len ∨ .closed ∈ script ∧ s'.stream = [] :=
        .inr ⟨List.mem_of_find?_eq_some hfind, hleft⟩
      have hprogress := hconsumed.progress hend
      rwa [← hret] at hprogress
  | failed hk hscript errno hfind hret =>
    have hlt : k < len := by omega
    have hkeeps := failed_keeps_iff hconsumed hlt hscript hfind
    constructor
    · exact fun hreports => hkeeps.mp (hreports.failure hret)
    · intro hloses
      exact ⟨fun hge => by omega, hinterrupted, fun _ => hkeeps.mpr hloses, .inl hret⟩

def framed : Incoming := ⟨fun _ => 0, [0, 0, 0, 5, 0, 0, 0, 1, 104]⟩

theorem readn_reports_iff_interrupted :
    Reports 4 [.failed EINTR, .received 3, .failed EINTR, .received 1] 100 framed 4
        ((framed.deliver 100 3).deliver 103 1) ↔
      LosesNothing 4 [.failed EINTR, .received 3, .failed EINTR, .received 1] :=
  readn_reports_iff (by decide) (by decide)
    (fun _ _ => ⟨by decide, fun _ _ => ⟨by decide, trivial⟩⟩) rfl

theorem readn_forgets :
    Admissible [.received 3, .failed EAGAIN] 8 framed.stream ∧
    readn [.received 3, .failed EAGAIN] 100 8 framed = some (-1, framed.deliver 100 3) ∧
    ¬Reports 8 [.received 3, .failed EAGAIN] 100 framed (-1) (framed.deliver 100 3) := by
  refine ⟨fun _ => ⟨by decide, fun herr => ?_⟩, rfl, fun hreports => ?_⟩
  · exact absurd herr (by decide)
  · exact absurd (hreports.failure rfl) (by decide)

/-- `recv_data` can start over with the header exactly when `readn` has lost nothing of it. -/
theorem recv_data_retries_iff {host : ByteOrder} {script : List RecvResult} {pkg : ℤ}
    {s s' : Incoming} (hadm : Admissible script protoSize s.stream)
    (hrun : recv_data host script pkg s = some (.returned (-1), s')) :
    s'.stream = s.stream ↔ LosesNothing protoSize script := by
  obtain ⟨⟨ret, s₁⟩, hreadn, hret⟩ := Option.map_eq_some_iff.mp hrun
  have hneg : ret < 0 ∧ s₁ = s' := by
    dsimp only at hret
    split_ifs at hret with hsize hlt
    · cases hret
      exact ⟨hlt, rfl⟩
    · cases hret
    · cases hret
  obtain ⟨hneg, rfl⟩ := hneg
  obtain ⟨k, hconsumed, houtcome⟩ := readn_outcome (by decide) hadm hreadn
  cases houtcome with
  | full hk hscript hret =>
    rw [toInt_eq (by decide)] at hret
    omega
  | closed hk hfind hleft hret =>
    have hcount : sizeSub protoSize (protoSize - k : ℤ).toNat = k := by
      rw [sizeSub_eq _ _ (by omega) (by decide)]
      omega
    rw [hcount, toInt_eq (by simp only [INT_MAX, protoSize] at hk ⊢; omega)] at hret
    omega
  | failed hk hscript errno hfind hret =>
    have hlt : k < protoSize := by omega
    exact failed_keeps_iff hconsumed hlt hscript hfind

end NetPrograms.ReadnCount
