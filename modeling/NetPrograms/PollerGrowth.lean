import Mathlib.Tactic.Ring
import NetPrograms.PollerModel
import NetPrograms.RunInvariants

set_option autoImplicit false

namespace NetPrograms.PollerGrowth
open PollerModel RunInvariants ListSegments

structure PollRun where
  reactor : Reactor
  largest : ℕ

def count : WaitResult → ℕ
  | .ready events => events.length
  | .fail _ => 0

def PollStep (s : PollRun) (result : WaitResult) (t : PollRun) : Prop :=
  t = ⟨(Poller.poll result s.reactor []).1, max s.largest (count result)⟩

/-- `epoll_wait` returns at most the `maxevents` it was given, or fails. -/
def KernelMay (s : PollRun) : WaitResult → Prop
  | .ready events => (events.length : ℤ) ≤ Poller.maxevents s.reactor
  | .fail _ => True

def FillsArray (s : PollRun) (result : WaitResult) : Prop :=
  0 < result.numEvents → result.numEvents = s.reactor.events_.length

def Bounded (s : PollRun) : Prop :=
  s.reactor.events_.length ≤ max 16 (2 * s.largest) ∧
    (s.largest < 2 ^ 30 → 0 < Poller.maxevents s.reactor ∧
      Poller.maxevents s.reactor = s.reactor.events_.length)

/-- The length is a power of two up to `2 ^ 31`, and twice the largest poll at least. -/
structure Doubled (s : PollRun) : Prop where
  length : ∃ k ≤ 27, s.reactor.events_.length = 16 * 2 ^ k
  largest : 2 * s.largest ≤ s.reactor.events_.length

theorem fillActiveChannels_events (n : ℕ) (r : Reactor) (active : List Ptr) :
    (Poller.fillActiveChannels n r active).1.events_ = r.events_ := by
  have h : ∀ (es : List EpollEvent) (x : Reactor × List Ptr),
      (es.foldl (fun x e => (Channel.set_revents e.events e.ptr x.1, x.2 ++ [e.ptr])) x).1.events_ =
        x.1.events_ := by
    intro es
    induction es with
    | nil => exact fun _ => rfl
    | cons e es ih =>
      intro x
      rw [List.foldl_cons, ih]
      rfl
  exact h _ _

theorem maxevents_small (r : Reactor) (h : r.events_.length < 2 ^ 31) :
    Poller.maxevents r = r.events_.length := by
  unfold Poller.maxevents
  rw [BitVec.toInt_ofNat', Int.bmod_eq_of_le] <;> omega

theorem maxevents_large (r : Reactor) (h : r.events_.length = 2 ^ 31) :
    Poller.maxevents r = -2 ^ 31 := by
  unfold Poller.maxevents
  rw [h]
  decide

theorem poll_length (result : WaitResult) (r : Reactor) (active : List Ptr)
    (hfit : count result ≤ r.events_.length) (hsize : r.events_.length < 2 ^ 63) :
    (Poller.poll result r active).1.events_.length =
      if 0 < count result then r.events_.length * 2 else r.events_.length := by
  cases result with
  | fail _ => rfl
  | ready events =>
    change events.length ≤ _ at hfit
    have hover : (overwrite r.events_ 0 events).length = r.events_.length :=
      overwrite_length _ _ _ (by omega)
    change _ = if 0 < events.length then _ else _
    by_cases hn : 0 < events.length
    · simp only [Poller.poll, if_pos hn, resized_length, fillActiveChannels_events, hover]
      exact Nat.mod_eq_of_lt (by omega)
    · simp only [Poller.poll, if_neg hn, hover]

theorem nonempty_small {s : PollRun} (h : Doubled s) {result : WaitResult}
    (hmay : KernelMay s result) (hpos : 0 < count result) :
    s.reactor.events_.length < 2 ^ 31 ∧ count result ≤ s.reactor.events_.length := by
  obtain ⟨k, hk, hlen⟩ := h.length
  have hle : 2 ^ k ≤ 2 ^ 27 := Nat.pow_le_pow_right (by decide) hk
  cases result with
  | fail _ => exact absurd hpos (Nat.lt_irrefl 0)
  | ready events =>
    have hn : (0 : ℤ) < events.length := by exact_mod_cast hpos
    change (events.length : ℤ) ≤ Poller.maxevents s.reactor at hmay
    by_cases hfull : s.reactor.events_.length = 2 ^ 31
    · rw [maxevents_large _ hfull] at hmay
      omega
    · have hsmall : s.reactor.events_.length < 2 ^ 31 := by omega
      rw [maxevents_small _ hsmall] at hmay
      exact ⟨hsmall, by exact_mod_cast hmay⟩

theorem numEvents_of_pos {result : WaitResult} (h : 0 < count result) :
    result.numEvents = count result := by
  cases result with
  | ready _ => rfl
  | fail _ => exact absurd h (Nat.lt_irrefl 0)

theorem numEvents_nonpos {result : WaitResult} (h : ¬0 < count result) :
    ¬0 < result.numEvents := by
  cases result with
  | ready events =>
    intro hn
    change (0 : ℤ) < events.length at hn
    exact h (by exact_mod_cast hn)
  | fail _ =>
    change ¬(0 : ℤ) < -1
    decide

theorem Doubled.length_lt {s : PollRun} (h : Doubled s) : s.reactor.events_.length < 2 ^ 63 := by
  obtain ⟨k, hk, hlen⟩ := h.length
  have hle : 2 ^ k ≤ 2 ^ 27 := Nat.pow_le_pow_right (by decide) hk
  omega

theorem nonempty_step {s t : PollRun} {result : WaitResult} (h : Doubled s)
    (hstep : PollStep s result t) (hmay : KernelMay s result) (hpos : 0 < count result) :
    Doubled t ∧ (Bounded t ↔ count result = s.reactor.events_.length) := by
  obtain ⟨hsmall, hfit⟩ := nonempty_small h hmay hpos
  obtain ⟨k, hk, hlen⟩ := h.length
  have hone : 1 ≤ 2 ^ k := Nat.one_le_two_pow
  have hlargest := h.largest
  have htlen : t.reactor.events_.length = s.reactor.events_.length * 2 := by
    rw [hstep, poll_length result s.reactor [] hfit h.length_lt, if_pos hpos]
  have htlargest : t.largest = max s.largest (count result) := by rw [hstep]
  refine ⟨⟨⟨k + 1, ?_, ?_⟩, ?_⟩, ?_, fun hfull => ⟨?_, fun hbelow => ?_⟩⟩
  · have hne : k ≠ 27 := by
      rintro rfl
      omega
    omega
  · rw [htlen, hlen, Nat.pow_succ]
    omega
  · omega
  · rintro ⟨hbound, _⟩
    omega
  · omega
  · have hcast := maxevents_small t.reactor (by omega)
    rw [hcast]
    omega

theorem poll_step (s : PollRun) (result : WaitResult) (t : PollRun) (h : Doubled s)
    (hb : Bounded s) (hstep : PollStep s result t) (hmay : KernelMay s result) :
    Doubled t ∧ (Bounded t ↔ FillsArray s result) := by
  by_cases hpos : 0 < count result
  · obtain ⟨hd, hiff⟩ := nonempty_step h hstep hmay hpos
    have hn := numEvents_of_pos hpos
    refine ⟨hd, hiff.trans ⟨fun hfull _ => ?_, fun hfills => ?_⟩⟩
    · rw [hn, hfull]
    · have hfull := hfills (by rw [hn]; exact_mod_cast hpos)
      rw [hn] at hfull
      exact_mod_cast hfull
  · have hfit : count result ≤ s.reactor.events_.length := by omega
    have htlen : t.reactor.events_.length = s.reactor.events_.length := by
      rw [hstep, poll_length result s.reactor [] hfit h.length_lt, if_neg hpos]
    have htlargest : t.largest = s.largest := by
      rw [hstep]
      change max _ _ = _
      omega
    have hcast : Poller.maxevents t.reactor = Poller.maxevents s.reactor := by
      rw [Poller.maxevents, htlen, Poller.maxevents]
    refine ⟨⟨?_, ?_⟩, ?_⟩
    · rw [htlen]
      exact h.length
    · rw [htlen, htlargest]
      exact h.largest
    · rw [Bounded, htlen, htlargest, hcast]
      exact ⟨fun _ hn => absurd hn (numEvents_nonpos hpos), fun _ => hb⟩

structure Started (s : PollRun) : Prop where
  events_ : s.reactor.events_ = Poller.initialEvents
  largest : s.largest = 0

theorem Started.doubled {s : PollRun} (h : Started s) : Doubled s ∧ Bounded s := by
  have hlen : s.reactor.events_.length = 16 := by
    rw [h.events_]
    exact List.length_replicate
  have hcast := maxevents_small s.reactor (by omega)
  refine ⟨⟨⟨0, by decide, hlen⟩, by rw [h.largest]; omega⟩, by omega, fun _ => ?_⟩
  rw [hcast, hlen]
  decide

/-- The array is bounded by the largest poll, and its length converts safely, in every state
of a run exactly when every non-empty poll of the run fills the array. -/
theorem poll_bounded_iff (s : PollRun) (hs : Started s) (results : List WaitResult)
    (hmay : EachStep PollStep (fun s result _ => KernelMay s result) s results) :
    Always PollStep Bounded s results ↔
      EachStep PollStep (fun s result _ => FillsArray s result) s results :=
  always_iff_eachStep (I := Doubled)
    (fun s result t hd hb hstep hmay => poll_step s result t hd hb hstep hmay) hmay
    hs.doubled.1 hs.doubled.2

def startedPoller : PollRun :=
  ⟨⟨⟨fun _ => none, fun _ => none, 0, [], 0⟩, fun p => Channel.new p, fun _ => none,
    Poller.initialEvents⟩, 0⟩

theorem startedPoller_started : Started startedPoller := ⟨rfl, rfl⟩

theorem startedPoller_maxevents : Poller.maxevents startedPoller.reactor = 16 := by decide

theorem poll_bounded_iff_full :
    Always PollStep Bounded startedPoller [.ready (List.replicate 16 ⟨EPOLLIN, 0⟩)] := by
  refine (poll_bounded_iff startedPoller startedPoller_started _ ?_).mpr ?_
  · refine fun _ _ => ⟨?_, trivial⟩
    change _ ≤ Poller.maxevents startedPoller.reactor
    rw [startedPoller_maxevents]
    decide
  · exact fun _ _ => ⟨fun _ => rfl, trivial⟩

theorem poll_bounded_fails :
    Started startedPoller ∧
    EachStep PollStep (fun s result _ => KernelMay s result) startedPoller
      [.ready [⟨EPOLLIN, 0⟩]] ∧
    ¬Always PollStep Bounded startedPoller [.ready [⟨EPOLLIN, 0⟩]] := by
  refine ⟨startedPoller_started, fun _ _ => ⟨?_, trivial⟩, ?_⟩
  · change _ ≤ Poller.maxevents startedPoller.reactor
    rw [startedPoller_maxevents]
    decide
  · rintro ⟨_, h⟩
    have hlen := (h _ rfl).1
    rw [poll_length _ _ _ (by decide) (by decide)] at hlen
    revert hlen
    decide

end NetPrograms.PollerGrowth
