import NetPrograms.RunInvariants
import NetPrograms.Serv2Model

set_option autoImplicit false

namespace NetPrograms.Serv2Wakeups
open PollerModel EdgePoll Serv2Model RunInvariants

def Expects : Call → Option Mask → Prop
  | .add, interest => interest = none
  | .recv, interest | .modOut, interest => interest = some inMask
  | .write, interest | .modIn, interest => interest = some outMask
  | .close, interest => interest ≠ none

/-- While the server waits, every open connection is watched, and on the list as soon as it has
something to report. The calls work on open connections, requests and replies alternate, and no
`epoll_ctl` fails. -/
structure Sound (s : Server) : Prop where
  waits : s.place = .wait → ∀ fd c, s.poller.file fd = some c → ∃ mask,
    s.poller.interest fd = some mask ∧ (mask = inMask ∨ mask = outMask) ∧
      (due c mask = true → s.poller.listed fd = true)
  works : ∀ c fd rest, s.place = .call c fd rest →
    s.poller.file fd ≠ none ∧ Expects c (s.poller.interest fd)
  stays : s.place ≠ .returned

def restOf : Place → List Event
  | .loop rest | .accept rest | .call _ _ rest => rest
  | .wait | .overrun | .returned | .killed => []

def Holds (place : Place) (fd : ℤ) : Prop :=
  fd ∈ (restOf place).map Event.fd ∨ ∃ c rest, place = .call c fd rest

def Pending (p : Instance ℤ Conn Mask) (e : Event) : Prop :=
  ∃ mask c, p.interest e.fd = some mask ∧ e.events = revents c mask ∧ due c mask = true

structure Inv (listenfd : ℤ) (p : Instance ℤ Conn Mask) (place : Place) : Prop where
  listening : p.file listenfd = none
  watched : ∀ fd, p.interest fd ≠ none → p.file fd ≠ none
  accepted : ∀ fd, p.file fd ≠ none →
    p.interest fd ≠ none ∨ ∃ rest, place = .call .add fd rest
  masks : ∀ fd mask, p.interest fd = some mask → mask = inMask ∨ mask = outMask
  once : ((restOf place).map Event.fd).Nodup
  batch : ∀ e ∈ restOf place, e.fd = listenfd ∨ Pending p e
  current : ∀ c fd rest, place = .call c fd rest →
    p.file fd ≠ none ∧ fd ∉ rest.map Event.fd ∧ Expects c (p.interest fd)
  armed : Armed due (Holds place) p
  stays : place ≠ .returned

theorem Inv.sound {s : Server} (hi : Inv s.listenfd s.poller s.place) : Sound s := by
  refine ⟨fun hwait fd c hc => ?_, fun c fd rest hcall => ?_, hi.stays⟩
  · have hopen : s.poller.file fd ≠ none := by
      rw [hc]
      nofun
    rcases hi.accepted fd hopen with hwatched | ⟨rest, hadd⟩
    · obtain ⟨mask, hmask⟩ := Option.ne_none_iff_exists'.mp hwatched
      refine ⟨mask, hmask, hi.masks fd mask hmask, fun hdue => hi.armed fd c mask hc hmask hdue ?_⟩
      rw [hwait]
      rintro (hmem | ⟨_, _, hcall⟩)
      · cases hmem
      · cases hcall
    · rw [hwait] at hadd
      cases hadd
  · obtain ⟨hopen, _, hexpects⟩ := hi.current c fd rest hcall
    exact ⟨hopen, hexpects⟩

theorem revents_in (c : Conn) : due c inMask = true →
    revents c inMask &&& EPOLLERR ≠ 0 ∨ revents c inMask &&& EPOLLHUP ≠ 0 ∨
      revents c inMask &&& EPOLLIN ≠ 0 := by
  have hbits : ∀ i o u e h : Bool,
      let m := (bit i EPOLLIN ||| bit o EPOLLOUT ||| bit u EPOLLPRI ||| bit e EPOLLERR |||
        bit h EPOLLHUP) &&& (inMask ||| EPOLLERR ||| EPOLLHUP)
      m ≠ 0 → m &&& EPOLLERR ≠ 0 ∨ m &&& EPOLLHUP ≠ 0 ∨ m &&& EPOLLIN ≠ 0 := by decide
  intro hdue
  exact hbits _ _ _ _ _ (of_decide_eq_true hdue)

theorem revents_out (c : Conn) : due c outMask = true →
    revents c outMask &&& EPOLLIN = 0 ∧ (revents c outMask &&& EPOLLERR ≠ 0 ∨
      revents c outMask &&& EPOLLHUP ≠ 0 ∨ revents c outMask &&& EPOLLOUT ≠ 0) := by
  have hbits : ∀ i o u e h : Bool,
      let m := (bit i EPOLLIN ||| bit o EPOLLOUT ||| bit u EPOLLPRI ||| bit e EPOLLERR |||
        bit h EPOLLHUP) &&& (outMask ||| EPOLLERR ||| EPOLLHUP)
      m ≠ 0 → m &&& EPOLLIN = 0 ∧
        (m &&& EPOLLERR ≠ 0 ∨ m &&& EPOLLHUP ≠ 0 ∨ m &&& EPOLLOUT ≠ 0) := by decide
  intro hdue
  exact hbits _ _ _ _ _ (of_decide_eq_true hdue)

theorem dispatch_connection {listenfd : ℤ} {e : Event} (rest : List Event) {c : Conn}
    {mask : Mask} (hne : listenfd ≠ e.fd) (hmask : mask = inMask ∨ mask = outMask)
    (he : e.events = revents c mask) (hdue : due c mask = true) :
    ∃ call, dispatch listenfd e rest = .call call e.fd rest ∧ Expects call (some mask) := by
  have hclose : Expects .close (some mask) := nofun
  unfold dispatch
  rw [if_neg hne, he]
  split_ifs with herr hhup hpri hin hout
  · exact ⟨.close, rfl, hclose⟩
  · exact ⟨.close, rfl, hclose⟩
  · exact ⟨.close, rfl, hclose⟩
  · refine ⟨.recv, rfl, ?_⟩
    rcases hmask with rfl | rfl
    · rfl
    · exact absurd (revents_out c hdue).1 hin
  · refine ⟨.write, rfl, ?_⟩
    rcases hmask with rfl | rfl
    · exact absurd (revents_in c hdue) (by simp only [herr, hhup, hin, or_self, not_false_eq_true])
    · rfl
  · rcases hmask with rfl | rfl
    · exact absurd (revents_in c hdue) (by simp only [herr, hhup, hin, or_self, not_false_eq_true])
    · exact absurd (revents_out c hdue).2
        (by simp only [herr, hhup, hout, or_self, not_false_eq_true])

theorem consumed_due {c : Conn} {n : ℕ} (h : due { c with input := c.input.drop n } inMask = true) :
    due c inMask = true := by
  have hbits : ∀ i' i o u e h : Bool, (i' = true → i = true) →
      (bit i' EPOLLIN ||| bit o EPOLLOUT ||| bit u EPOLLPRI ||| bit e EPOLLERR |||
        bit h EPOLLHUP) &&& (inMask ||| EPOLLERR ||| EPOLLHUP) ≠ 0 →
      (bit i EPOLLIN ||| bit o EPOLLOUT ||| bit u EPOLLPRI ||| bit e EPOLLERR |||
        bit h EPOLLHUP) &&& (inMask ||| EPOLLERR ||| EPOLLHUP) ≠ 0 := by decide
  refine decide_eq_true (hbits _ _ _ _ _ _ (fun hin => ?_) (of_decide_eq_true h))
  rw [Bool.or_eq_true] at hin ⊢
  refine hin.imp_left fun hsome => ?_
  cases hinput : c.input with
  | nil =>
    rw [hinput, List.drop_nil] at hsome
    exact hsome
  | cons b input => rfl

section
variable {l : ℤ} {p p' : Instance ℤ Conn Mask} {place place' : Place}

theorem pending_congr {e : Event} (h : p'.interest e.fd = p.interest e.fd) (he : Pending p e) :
    Pending p' e := by
  obtain ⟨mask, c, hmask, hevents⟩ := he
  exact ⟨mask, c, h.trans hmask, hevents⟩

theorem Pending.open (hi : Inv l p place) {e : Event} (he : Pending p e) :
    p.file e.fd ≠ none := by
  obtain ⟨mask, _, hmask, _⟩ := he
  refine hi.watched e.fd ?_
  rw [hmask]
  nofun

theorem Inv.goes (hi : Inv l p place) (hadd : ∀ fd rest, place ≠ .call .add fd rest)
    (hrest : restOf place' <:+ restOf place)
    (hheld : ∀ fd, p.file fd ≠ none → Holds place fd → Holds place' fd)
    (hcurrent : ∀ c fd rest, place' = .call c fd rest →
      p.file fd ≠ none ∧ fd ∉ rest.map Event.fd ∧ Expects c (p.interest fd))
    (hstays : place' ≠ .returned) : Inv l p place' := by
  refine ⟨hi.listening, hi.watched, fun fd hfd => ?_, hi.masks, ?_, fun e he => ?_, hcurrent,
    fun fd c mask hc hmask hdue hnot => ?_, hstays⟩
  · rcases hi.accepted fd hfd with hwatched | ⟨rest, hcall⟩
    · exact .inl hwatched
    · exact absurd hcall (hadd fd rest)
  · exact (hrest.sublist.map Event.fd).nodup hi.once
  · exact hi.batch e (hrest.mem he)
  · refine hi.armed fd c mask hc hmask hdue fun hold => hnot (hheld fd ?_ hold)
    rw [hc]
    nofun

theorem Inv.calls {d : ℤ} {c : Call} {rest : List Event} (hi : Inv l p (.call c d rest))
    (hrest : restOf place' = rest)
    (hother : ∀ e, e ≠ d → p'.file e = p.file e ∧ p'.interest e = p.interest e)
    (hself : p'.interest d ≠ none ↔ p'.file d ≠ none)
    (hmasks : ∀ mask, p'.interest d = some mask → mask = inMask ∨ mask = outMask)
    (hcurrent : ∀ c' fd rest', place' = .call c' fd rest' →
      fd = d ∧ rest' = rest ∧ p'.file d ≠ none ∧ Expects c' (p'.interest d))
    (harmed : Armed due (Holds place') p') (hstays : place' ≠ .returned) : Inv l p' place' := by
  obtain ⟨hopen, hnew, _⟩ := hi.current c d rest rfl
  have hl : l ≠ d := by
    rintro rfl
    exact hopen hi.listening
  refine ⟨(hother l hl).1.trans hi.listening, fun fd hfd => ?_, fun fd hfd => ?_,
    fun fd mask hfd => ?_, ?_, fun e he => ?_, fun c' fd rest' hcall => ?_, harmed, hstays⟩
  · by_cases he : fd = d
    · rw [he] at hfd ⊢
      exact hself.mp hfd
    · rw [(hother fd he).1]
      rw [(hother fd he).2] at hfd
      exact hi.watched fd hfd
  · by_cases he : fd = d
    · rw [he] at hfd ⊢
      exact .inl (hself.mpr hfd)
    · rw [(hother fd he).1] at hfd
      rw [(hother fd he).2]
      rcases hi.accepted fd hfd with hwatched | ⟨_, hcall⟩
      · exact .inl hwatched
      · cases hcall
        exact absurd rfl he
  · by_cases he : fd = d
    · rw [he] at hfd
      exact hmasks mask hfd
    · rw [(hother fd he).2] at hfd
      exact hi.masks fd mask hfd
  · rw [hrest]
    exact hi.once
  · rw [hrest] at he
    rcases hi.batch e he with hlisten | hpending
    · exact .inl hlisten
    · have hne : e.fd ≠ d := fun heq => hnew (heq ▸ List.mem_map_of_mem he)
      exact .inr (pending_congr (hother e.fd hne).2 hpending)
  · obtain ⟨rfl, rfl, hfile, hexpects⟩ := hcurrent c' fd rest' hcall
    exact ⟨hfile, hnew, hexpects⟩

end

theorem holds_rest {place place' : Place} {d : ℤ} {c : Call} {rest : List Event}
    (hplace : place = .call c d rest) (hrest : restOf place' = rest) :
    ∀ e, e ≠ d → Holds place e → Holds place' e := by
  rintro e hne (hmem | ⟨c', rest', hcall⟩)
  · rw [hplace] at hmem
    exact .inl (hrest ▸ hmem)
  · rw [hplace] at hcall
    cases hcall
    exact absurd rfl hne

theorem holds_same {place place' : Place} {d : ℤ} (hcall : ∀ c fd rest, place ≠ .call c fd rest)
    (hrest : restOf place' = restOf place) (h : Holds place d) : Holds place' d := by
  rcases h with hmem | ⟨c, rest, he⟩
  · exact .inl (hrest ▸ hmem)
  · exact absurd he (hcall c d rest)

theorem changed_inv {l fd : ℤ} {p : Instance ℤ Conn Mask} {place : Place} {c : Conn}
    {wakes : Bool} (hi : Inv l p place) (hopen : p.file fd ≠ none)
    (hwakes : Wakes due p fd c wakes) : Inv l (p.changed fd c wakes) place := by
  have hfile : ∀ e, (p.changed fd c wakes).file e = none ↔ p.file e = none := by
    intro e
    rw [Instance.changed_file]
    by_cases he : e = fd
    · rw [if_pos he, he]
      exact iff_of_false nofun hopen
    · rw [if_neg he]
  refine ⟨(hfile l).mpr hi.listening, fun e he => ?_, fun e he => ?_, hi.masks, hi.once, hi.batch,
    fun c' e rest hcall => ?_, hi.armed.changed hopen hwakes, hi.stays⟩
  · exact mt (hfile e).mp (hi.watched e he)
  · exact hi.accepted e (mt (hfile e).mpr he)
  · obtain ⟨hfd, hnew, hexpects⟩ := hi.current c' e rest hcall
    exact ⟨mt (hfile e).mp hfd, hnew, hexpects⟩

theorem wait_inv {s : Server} {events : List Event} {dropped : List ℤ}
    (hi : Inv s.listenfd s.poller .wait) (hr : Reports s events dropped) :
    Inv s.listenfd (s.poller.taken (events.map Event.fd ++ dropped)) (.loop events) := by
  refine ⟨hi.listening, hi.watched, fun fd hfd => ?_, hi.masks, hr.once, fun e he => ?_,
    fun _ _ _ => nofun, ?_, nofun⟩
  · rcases hi.accepted fd hfd with hwatched | ⟨_, hcall⟩
    · exact .inl hwatched
    · cases hcall
  · rcases hr.ready e he with ⟨hlisten, _⟩ | ⟨c, mask, _, hmask, _, hevents, hdue⟩
    · exact .inl hlisten
    · exact .inr ⟨mask, c, hmask, hevents, hdue⟩
  · refine hi.armed.taken (fun fd hheld => ?_) fun fd hfd => ?_
    · rcases hheld with hmem | ⟨_, _, hcall⟩
      · cases hmem
      · cases hcall
    · rcases List.mem_append.mp hfd with hmem | hmem
      · exact .inl (.inl hmem)
      · exact .inr (hr.idle fd hmem)

theorem accept_inv {l connfd : ℤ} {p : Instance ℤ Conn Mask} {rest : List Event} {c : Conn}
    (hi : Inv l p (.accept rest)) (hl : connfd ≠ l) (hfree : p.file connfd = none) :
    Inv l (p.opened connfd c) (.call .add connfd rest) := by
  have hnew : ∀ e ∈ rest, e.fd ≠ connfd := by
    intro e he heq
    rcases hi.batch e he with hlisten | hpending
    · exact hl (heq.symm.trans hlisten)
    · exact hpending.open hi (heq ▸ hfree)
  refine ⟨?_, fun fd hfd => ?_, fun fd hfd => ?_, fun fd mask hfd => ?_, hi.once, fun e he => ?_,
    fun c' fd rest' hcall => ?_, hi.armed.opened fun e _ hheld => ?_, nofun⟩
  · rw [Instance.opened_file, if_neg hl.symm]
    exact hi.listening
  · rw [Instance.opened_interest] at hfd
    rw [Instance.opened_file]
    split_ifs at hfd ⊢ with he
    · exact absurd rfl hfd
    · exact hi.watched fd hfd
  · rw [Instance.opened_file] at hfd
    rw [Instance.opened_interest]
    split_ifs at hfd ⊢ with he
    · exact .inr ⟨rest, he ▸ rfl⟩
    · rcases hi.accepted fd hfd with hwatched | ⟨_, hcall⟩
      · exact .inl hwatched
      · cases hcall
  · rw [Instance.opened_interest] at hfd
    split_ifs at hfd
    exact hi.masks fd mask hfd
  · rcases hi.batch e he with hlisten | hpending
    · exact .inl hlisten
    · refine .inr (pending_congr ?_ hpending)
      rw [Instance.opened_interest, if_neg (hnew e he)]
  · cases hcall
    refine ⟨?_, fun hmem => ?_, ?_⟩
    · rw [Instance.opened_file, if_pos rfl]
      nofun
    · obtain ⟨e, he, hfd⟩ := List.mem_map.mp hmem
      exact hnew e he hfd
    · rw [Expects, Instance.opened_interest, if_pos rfl]
  · rcases hheld with hmem | ⟨_, _, hcall⟩
    · exact .inl hmem
    · cases hcall

theorem recv_inv {l fd : ℤ} {p : Instance ℤ Conn Mask} {rest : List Event}
    (hi : Inv l p (.call .recv fd rest)) (result : RecvResult) :
    Inv l (consume fd (received result) p) (afterRecv fd rest result) := by
  obtain ⟨hopen, hnew, hexpects⟩ := hi.current _ _ _ rfl
  obtain ⟨c, hc⟩ := Option.ne_none_iff_exists'.mp hopen
  have hafter : ∃ call, afterRecv fd rest result = .call call fd rest ∧
      Expects call (some inMask) := by
    cases result with
    | count n =>
      dsimp only [afterRecv]
      split_ifs
      · exact ⟨.close, rfl, nofun⟩
      · exact ⟨.recv, rfl, rfl⟩
      · exact ⟨.modOut, rfl, rfl⟩
    | fail errno =>
      dsimp only [afterRecv]
      split_ifs
      · exact ⟨.close, rfl, nofun⟩
      · exact ⟨.modOut, rfl, rfl⟩
      · exact ⟨.close, rfl, nofun⟩
  obtain ⟨call, hcall, hnext⟩ := hafter
  have hconsume : consume fd (received result) p =
      p.changed fd { c with input := c.input.drop (received result) } false := by
    rw [consume, hc]
  have hmask : p.interest fd = some inMask := hexpects
  have hwakes : Wakes due p fd { c with input := c.input.drop (received result) } false := by
    intro old mask hold hm hwas hdue
    obtain rfl := Option.some.inj (hc.symm.trans hold)
    obtain rfl := Option.some.inj (hmask.symm.trans hm)
    exact absurd (consumed_due hdue) (by rw [hwas]; nofun)
  have hi' := changed_inv hi hopen hwakes
  rw [hconsume, hcall]
  refine hi'.calls rfl (fun _ _ => ⟨rfl, rfl⟩) ?_ (hi'.masks fd) (fun c' e rest' he => ?_)
    (hi'.armed.mono fun e hheld => ?_) nofun
  · refine iff_of_true ?_ (hi'.current _ _ _ rfl).1
    change p.interest fd ≠ none
    rw [hmask]
    nofun
  · cases he
    refine ⟨rfl, rfl, (hi'.current _ _ _ rfl).1, ?_⟩
    change Expects _ (p.interest fd)
    rw [hmask]
    exact hnext
  · rcases hheld with hmem | ⟨_, _, he⟩
    · exact .inl hmem
    · cases he
      exact .inr ⟨call, rest, rfl⟩

theorem write_inv {l fd : ℤ} {p : Instance ℤ Conn Mask} {rest : List Event}
    (hi : Inv l p (.call .write fd rest)) : Inv l p (.call .modIn fd rest) := by
  refine hi.goes (fun _ _ => nofun) List.suffix_rfl (fun e _ hheld => ?_)
    (fun c' e rest' he => ?_) nofun
  · rcases hheld with hmem | ⟨_, _, he⟩
    · exact .inl hmem
    · cases he
      exact .inr ⟨.modIn, rest, rfl⟩
  · cases he
    obtain ⟨hopen, hnew, hexpects⟩ := hi.current .write fd rest rfl
    exact ⟨hopen, hnew, hexpects⟩

theorem watched_inv {l fd : ℤ} {p : Instance ℤ Conn Mask} {place : Place} {call : Call}
    {rest : List Event} {c : Conn} {mask : Mask} {b : Bool} (hi : Inv l p (.call call fd rest))
    (hc : p.file fd = some c) (hmask : mask = inMask ∨ mask = outMask)
    (hb : due c mask = true → b = true) (hplace : place = .loop rest ∨ place = .accept rest) :
    Inv l (p.watched fd mask b) place := by
  have hrest : restOf place = rest := by
    rcases hplace with rfl | rfl <;> rfl
  refine hi.calls hrest (fun e he => ⟨rfl, ?_⟩) ?_ (fun m hm => ?_) (fun c' e rest' he => ?_)
    (hi.armed.watched hc hb (holds_rest rfl hrest)) ?_
  · rw [Instance.watched_interest, if_neg he]
  · rw [Instance.watched_interest, if_pos rfl]
    refine iff_of_true nofun ?_
    change p.file fd ≠ none
    rw [hc]
    nofun
  · rw [Instance.watched_interest, if_pos rfl] at hm
    obtain rfl := Option.some.inj hm
    exact hmask
  · rcases hplace with rfl | rfl <;> cases he
  · rcases hplace with rfl | rfl <;> nofun

theorem close_inv {l fd : ℤ} {p : Instance ℤ Conn Mask} {rest : List Event}
    (hi : Inv l p (.call .close fd rest)) : Inv l (p.closed fd) (.loop rest) := by
  refine hi.calls rfl (fun e he => ⟨?_, ?_⟩) ?_ (fun m hm => ?_) (fun _ _ _ => nofun)
    (hi.armed.closed (holds_rest rfl rfl)) nofun
  · rw [Instance.closed_file, if_neg he]
  · rw [Instance.closed_interest, if_neg he]
  · rw [Instance.closed_interest, Instance.closed_file, if_pos rfl, if_pos rfl]
    exact iff_of_false (fun h => h rfl) fun h => h rfl
  · rw [Instance.closed_interest, if_pos rfl] at hm
    cases hm

theorem modify_inv {s : Server} {fd : ℤ} {call : Call} {rest : List Event} {mask old : Mask}
    (hi : Inv s.listenfd s.poller (.call call fd rest))
    (hold : s.poller.interest fd = some old) (hmask : mask = inMask ∨ mask = outMask) :
    Inv s.listenfd (ctl (s.poller.modify due fd mask) (.loop rest) s).poller
      (ctl (s.poller.modify due fd mask) (.loop rest) s).place := by
  obtain ⟨c, hc⟩ := Option.ne_none_iff_exists'.mp (hi.current _ _ _ rfl).1
  rw [modify_eq hc hold]
  exact watched_inv hi hc hmask (fun hdue => by rw [hdue, Bool.or_true]) (.inl rfl)

theorem add_inv {s : Server} {fd : ℤ} {rest : List Event} {place : Place}
    (hi : Inv s.listenfd s.poller (.call .add fd rest))
    (hplace : place = .loop rest ∨ place = .accept rest) :
    Inv s.listenfd (ctl (s.poller.add due fd inMask) place s).poller
      (ctl (s.poller.add due fd inMask) place s).place := by
  obtain ⟨hopen, _, hnone⟩ := hi.current _ _ _ rfl
  obtain ⟨c, hc⟩ := Option.ne_none_iff_exists'.mp hopen
  rw [add_eq hc hnone]
  exact watched_inv hi hc (.inl rfl) id hplace

theorem loop_inv {l : ℤ} {p : Instance ℤ Conn Mask} {e : Event} {rest : List Event}
    (hi : Inv l p (.loop (e :: rest))) : Inv l p (dispatch l e rest) := by
  obtain ⟨hfirst, _⟩ := List.nodup_cons.mp hi.once
  by_cases hlisten : l = e.fd
  · have hplace : dispatch l e rest = .accept rest := if_pos hlisten
    rw [hplace]
    refine hi.goes (fun _ _ => nofun) (List.suffix_cons e rest) (fun fd hfd hheld => ?_)
      (fun _ _ _ => nofun) nofun
    rcases hheld with hmem | ⟨_, _, hcall⟩
    · rcases List.mem_cons.mp hmem with rfl | hmem
      · exact absurd (hlisten ▸ hi.listening) hfd
      · exact .inl hmem
    · cases hcall
  · have hpending := (hi.batch e List.mem_cons_self).resolve_left (Ne.symm hlisten)
    have hopen := hpending.open hi
    obtain ⟨mask, c, hmask, hevents, hdue⟩ := hpending
    obtain ⟨call, hplace, hexpects⟩ := dispatch_connection rest hlisten
      (hi.masks e.fd mask hmask) hevents hdue
    rw [hplace]
    refine hi.goes (fun _ _ => nofun) (List.suffix_cons e rest) (fun fd _ hheld => ?_)
      (fun c' fd rest' hcall => ?_) nofun
    · rcases hheld with hmem | ⟨_, _, hcall⟩
      · rcases List.mem_cons.mp hmem with rfl | hmem
        · exact .inr ⟨call, rest, rfl⟩
        · exact .inl hmem
      · cases hcall
    · cases hcall
      exact ⟨hopen, hfirst, hmask ▸ hexpects⟩

/-- Nothing is promised of a process that a signal has ended. -/
def Running (s : Server) : Prop :=
  s.place = .killed ∨ Inv s.listenfd s.poller s.place

theorem Running.sound {s : Server} (h : Running s) : Sound s := by
  rcases h with hkilled | hi
  · refine ⟨fun hwait => ?_, fun _ _ _ hcall => ?_, ?_⟩
    · rw [hkilled] at hwait
      cases hwait
    · rw [hkilled] at hcall
      cases hcall
    · rw [hkilled]
      nofun
  · exact hi.sound

theorem ctl_listenfd (result : Option (Instance ℤ Conn Mask)) (place : Place) (s : Server) :
    (ctl result place s).listenfd = s.listenfd := by
  cases result <;> rfl

theorem run_inv {s t : Server} (hi : Inv s.listenfd s.poller s.place)
    (h : step s .run = some t) : Inv t.listenfd t.poller t.place := by
  obtain ⟨p, l, epollfd, backlog, place⟩ := s
  cases place with
  | wait | accept _ | overrun | returned | killed => cases h
  | loop rest =>
    cases rest with
    | nil =>
      cases h
      exact hi.goes (fun _ _ => nofun) List.suffix_rfl
        (fun fd _ => holds_same (fun _ _ _ => nofun) rfl) (fun _ _ _ => nofun) nofun
    | cons e rest =>
      cases h
      exact loop_inv hi
  | call c fd rest =>
    have hexpects := (hi.current c fd rest rfl).2.2
    cases c with
    | recv | write => cases h
    | close =>
      cases h
      exact close_inv hi
    | add =>
      cases h
      rw [ctl_listenfd]
      refine add_inv hi ?_
      split_ifs
      · exact .inr rfl
      · exact .inl rfl
    | modOut =>
      cases h
      rw [ctl_listenfd]
      exact modify_inv hi hexpects (.inr rfl)
    | modIn =>
      cases h
      rw [ctl_listenfd]
      exact modify_inv hi hexpects (.inl rfl)

theorem steps_running (s : Server) (a : Action) (t : Server) (hs : Running s)
    (h : Steps s a t) : Running t := by
  obtain ⟨hpossible, hstep⟩ := h
  rcases hs with hkilled | hi
  · left
    obtain ⟨p, l, epollfd, backlog, place⟩ := s
    obtain rfl : place = .killed := hkilled
    cases a <;> cases hstep <;> rfl
  · obtain ⟨p, l, epollfd, backlog, place⟩ := s
    cases a with
    | connect =>
      cases hstep
      exact .inr hi
    | change fd c wakes =>
      cases hstep
      exact .inr (changed_inv hi hpossible.1 hpossible.2)
    | epoll_wait events dropped =>
      cases place <;> cases hstep
      exact .inr (wait_inv hi hpossible)
    | interrupted =>
      cases place <;> cases hstep
      exact .inr (hi.goes (fun _ _ => nofun) List.suffix_rfl
        (fun fd _ => holds_same (fun _ _ _ => nofun) rfl) (fun _ _ _ => nofun) nofun)
    | accept result =>
      cases place with
      | accept rest =>
        cases result with
        | none =>
          cases hstep
          exact .inr (hi.goes (fun _ _ => nofun) List.suffix_rfl
            (fun fd _ => holds_same (fun _ _ _ => nofun) rfl) (fun _ _ _ => nofun) nofun)
        | some new =>
          obtain ⟨_, _, hl, _, hfree⟩ := hpossible
          cases hstep
          exact .inr (accept_inv hi hl hfree)
      | wait | loop _ | call _ _ _ | overrun | returned | killed => cases hstep
    | recv result =>
      cases place with
      | call c fd rest =>
        cases c <;> cases hstep
        exact .inr (recv_inv hi result)
      | wait | loop _ | accept _ | overrun | returned | killed => cases hstep
    | write sigpipe =>
      cases place with
      | call c fd rest =>
        cases c <;> cases hstep
        cases sigpipe with
        | true => exact .inl rfl
        | false => exact .inr (write_inv hi)
      | wait | loop _ | accept _ | overrun | returned | killed => cases hstep
    | run => exact .inr (run_inv hi hstep)

/-- In every run, whatever the connections do between two system calls of the server, it never
waits with something to do that it will not be told of. -/
theorem no_lost_wakeup (listenfd epollfd : ℤ) (actions : List Action) :
    Always Steps Sound (Server.start listenfd epollfd) actions := by
  have hstart : Running (Server.start listenfd epollfd) := by
    refine .inr ⟨rfl, fun _ h => absurd rfl h, fun _ h => absurd rfl h, fun _ _ => nofun,
      List.nodup_nil, nofun, fun _ _ _ => nofun, fun _ _ _ => nofun, nofun⟩
  exact (Always.of_invariant Running (fun s a t hs h _ => steps_running s a t hs h)
    (EachStep.of_labels (fun _ _ => trivial) _) hstart).mono fun _ h => h.sound

end NetPrograms.Serv2Wakeups
