import Mathlib.Data.List.TakeWhile
import NetPrograms.HostModel

set_option autoImplicit false

namespace NetPrograms.HostParsing
open BufferModel HostModel

/-- `host_` is `address:port`: an address that `inet_addr` accepts and a number of 16 bits. -/
structure WellFormed (libc : Libc) (host_ address port : List Byte) : Prop where
  shape : host_ = address ++ colon :: port
  address_chars : ∀ c ∈ address, c ≠ colon ∧ c ≠ 0
  accepted : libc.inet_addr address ≠ INADDR_NONE
  nonempty : port ≠ []
  digits : ∀ c ∈ port, isdigit c
  fits : decimal port ≤ 65535

/-- `bind` calls `::bind` for a well-formed string, with its port, and refuses every other. -/
structure ParsesHost (libc : Libc) (host : ByteOrder) (result : ℤ) (host_ : List Byte)
    (acceptor : Acceptor) : Prop where
  sound : ∀ call, (bind libc host result host_ acceptor).called = some call →
    ∃ address port, WellFormed libc host_ address port ∧
      call.addr.sin_port = htons host (BitVec.ofNat 16 (decimal port))
  complete : ∀ address port, WellFormed libc host_ address port →
    (bind libc host result host_ acceptor).called.isSome
  refused : (¬∃ address port, WellFormed libc host_ address port) →
    (bind libc host result host_ acceptor).ret = -1 ∧
      (bind libc host result host_ acceptor).called = none

/-- There is something behind the first colon, and no other colon in it, its end excepted. -/
def TwoParts (host_ : List Byte) : Prop :=
  ∃ address port, host_ = address ++ colon :: port ∧ colon ∉ address ∧ port ≠ [] ∧
    colon ∉ port.dropLast

theorem split_nil (delim : Byte) : split [] delim = [] := by
  unfold split
  rfl

theorem split_cons {s : List Byte} (hs : s ≠ []) (delim : Byte) :
    split s delim =
      s.takeWhile (· ≠ delim) :: split (s.dropWhile (· ≠ delim)).tail delim := by
  have hget : getline s delim =
      some (s.takeWhile (· ≠ delim), (s.dropWhile (· ≠ delim)).tail) := if_neg hs
  rw [split]
  split
  · rename_i h
    rw [hget] at h
    cases h
  · rename_i h
    rw [hget] at h
    cases h
    rfl

theorem split_last {s : List Byte} {delim : Byte} (hs : s ≠ []) (h : delim ∉ s) :
    split s delim = [s] := by
  have hall : ∀ c ∈ s, decide (c ≠ delim) = true := fun c hc =>
    decide_eq_true fun he => h (he ▸ hc)
  rw [split_cons hs, List.takeWhile_eq_self_iff.mpr hall, List.dropWhile_eq_nil_iff.mpr hall,
    List.tail_nil, split_nil]

theorem split_item {item rest : List Byte} {delim : Byte} (h : delim ∉ item) :
    split (item ++ delim :: rest) delim = item :: split rest delim := by
  have hall : ∀ c ∈ item, decide (c ≠ delim) = true := fun c hc =>
    decide_eq_true fun he => h (he ▸ hc)
  rw [split_cons (by simp), List.takeWhile_append_of_pos hall, List.dropWhile_append_of_pos hall,
    List.takeWhile_cons_of_neg (by simp), List.dropWhile_cons_of_neg (by simp), List.append_nil,
    List.tail_cons]

theorem delim_cases (s : List Byte) (delim : Byte) :
    delim ∉ s ∨ ∃ item rest, s = item ++ delim :: rest ∧ delim ∉ item := by
  by_cases h : delim ∈ s
  · obtain ⟨item, rest, hs, hitem⟩ := List.eq_append_cons_of_mem h
    exact .inr ⟨item, rest, hs, hitem⟩
  · exact .inl h

theorem split_eq_nil {s : List Byte} {delim : Byte} : split s delim = [] ↔ s = [] := by
  constructor
  · intro h
    by_contra hs
    rw [split_cons hs] at h
    cases h
  · rintro rfl
    exact split_nil delim

theorem split_length_one {s : List Byte} {delim : Byte} :
    (split s delim).length = 1 ↔ s ≠ [] ∧ delim ∉ s.dropLast := by
  rcases delim_cases s delim with hnone | ⟨item, rest, rfl, hitem⟩
  · by_cases hs : s = []
    · subst hs
      rw [split_nil]
      simp
    · rw [split_last hs hnone]
      exact iff_of_true rfl ⟨hs, fun h => hnone (List.mem_of_mem_dropLast h)⟩
  · rw [split_item hitem, List.length_cons, Nat.add_eq_right, List.length_eq_zero_iff, split_eq_nil]
    constructor
    · rintro rfl
      refine ⟨by simp, ?_⟩
      rwa [List.dropLast_concat]
    · rintro ⟨-, hlast⟩
      by_contra hrest
      rw [List.dropLast_append_of_ne_nil (by simp), List.dropLast_cons_of_ne_nil hrest] at hlast
      exact hlast (List.mem_append_right _ List.mem_cons_self)

theorem split_length_two {s : List Byte} : (split s colon).length = 2 ↔ TwoParts s := by
  constructor
  · intro h
    rcases delim_cases s colon with hnone | ⟨item, rest, rfl, hitem⟩
    · by_cases hs : s = []
      · rw [hs, split_nil] at h
        cases h
      · rw [split_last hs hnone] at h
        cases h
    · rw [split_item hitem, List.length_cons, Nat.succ_inj, split_length_one] at h
      exact ⟨item, rest, rfl, hitem, h⟩
  · rintro ⟨address, port, rfl, haddress, hport⟩
    rw [split_item haddress, List.length_cons, split_length_one.mpr hport]

theorem isdigit_ne {c d : Byte} (hc : isdigit c) (hd : ¬isdigit d) : c ≠ d := by
  rintro rfl
  exact hd hc

theorem isspace_digit {c : Byte} (hc : isdigit c) : isspace c = false := by
  simp only [isdigit, isspace, decide_eq_true_eq, decide_eq_false_iff_not] at hc ⊢
  bv_omega

theorem c_str_eq {s : List Byte} (h : ∀ c ∈ s, c ≠ 0) : c_str s = s :=
  List.takeWhile_eq_self_iff.mpr fun c hc => decide_eq_true (h c hc)

theorem atoi_digits (overflow : ℤ → ℤ) {port : List Byte} (hne : port ≠ [])
    (hdigits : ∀ c ∈ port, isdigit c) (hfits : decimal port ≤ 65535) :
    atoi overflow port = decimal port := by
  obtain ⟨c, rest, rfl⟩ := List.exists_cons_of_ne_nil hne
  have hc := hdigits c List.mem_cons_self
  have hspace : (c :: rest).dropWhile isspace = c :: rest := by
    rw [List.dropWhile_cons_of_neg (by rw [isspace_digit hc]; decide)]
  have hsign : sign (c :: rest) = (false, c :: rest) := by
    rw [sign, if_neg (isdigit_ne hc (by decide)), if_neg (isdigit_ne hc (by decide))]
  have hall : (c :: rest).takeWhile isdigit = c :: rest := List.takeWhile_eq_self_iff.mpr hdigits
  simp only [atoi, hspace, hsign, hall]
  exact if_pos (by omega)

theorem WellFormed.split_eq {libc : Libc} {host_ address port : List Byte}
    (h : WellFormed libc host_ address port) : split host_ colon = [address, port] := by
  have haddress : colon ∉ address := fun hc => (h.address_chars colon hc).1 rfl
  have hport : colon ∉ port := fun hc => absurd (h.digits colon hc) (by decide)
  rw [h.shape, split_item haddress, split_last h.nonempty hport]

theorem bind_refuses (libc : Libc) (host : ByteOrder) (result : ℤ) {host_ : List Byte}
    (acceptor : Acceptor) (h : ¬TwoParts host_) :
    bind libc host result host_ acceptor = ⟨-1, acceptor, none⟩ := by
  rw [← split_length_two] at h
  simp only [HostModel.bind]
  rw [if_pos h]

theorem bind_calls (libc : Libc) (host : ByteOrder) (result : ℤ) {host_ address port : List Byte}
    (acceptor : Acceptor) (h : split host_ colon = [address, port]) :
    (bind libc host result host_ acceptor).called = some ⟨acceptor.fd,
      ⟨AF_INET, htons host (BitVec.ofInt 16 (atoi libc.overflow (c_str port))),
        libc.inet_addr (c_str address), 0⟩, 16⟩ := by
  simp only [HostModel.bind, h]
  rfl

theorem parts_of_two {host_ : List Byte} (h : TwoParts host_) :
    ∃ address port, split host_ colon = [address, port] :=
  List.length_eq_two.mp (split_length_two.mpr h)

theorem WellFormed.port {libc : Libc} {host_ address port : List Byte}
    (h : WellFormed libc host_ address port) (host : ByteOrder) (result : ℤ)
    (acceptor : Acceptor) : ∃ call, (bind libc host result host_ acceptor).called = some call ∧
      call.addr.sin_port = htons host (BitVec.ofNat 16 (decimal port)) := by
  refine ⟨_, bind_calls libc host result acceptor h.split_eq, ?_⟩
  have hstring : c_str port = port :=
    c_str_eq fun c hc => isdigit_ne (h.digits c hc) (by decide)
  simp only [hstring, atoi_digits libc.overflow h.nonempty h.digits h.fits, BitVec.ofInt_natCast]

/-- What `bind` accepts is what it should accept exactly when the string does not split in two,
or is well-formed. -/
theorem parses_host_iff (libc : Libc) (host : ByteOrder) (result : ℤ) (host_ : List Byte)
    (acceptor : Acceptor) : ParsesHost libc host result host_ acceptor ↔
      ¬TwoParts host_ ∨ ∃ address port, WellFormed libc host_ address port := by
  constructor
  · intro h
    by_cases htwo : TwoParts host_
    · right
      obtain ⟨address, port, hsplit⟩ := parts_of_two htwo
      obtain ⟨address', port', hwell, _⟩ := h.sound _ (bind_calls _ _ _ _ hsplit)
      exact ⟨address', port', hwell⟩
    · exact .inl htwo
  · rintro (hnot | ⟨address, port, hwell⟩)
    · have hbind := bind_refuses libc host result acceptor hnot
      refine ⟨fun call hcall => ?_, fun address port hwell => ?_, fun _ => ?_⟩
      · rw [hbind] at hcall
        cases hcall
      · exact absurd (split_length_two.mp (congrArg List.length hwell.split_eq)) hnot
      · rw [hbind]
        exact ⟨rfl, rfl⟩
    · obtain ⟨call, hcall, hport⟩ := hwell.port host result acceptor
      refine ⟨fun call' hcall' => ?_, fun _ _ _ => ?_, fun hnone => ?_⟩
      · rw [hcall] at hcall'
        cases hcall'
        exact ⟨address, port, hwell, hport⟩
      · rw [hcall]
        rfl
      · exact absurd ⟨address, port, hwell⟩ hnone

def loopback : List Byte := [49, 50, 55, 46, 48, 46, 48, 46, 49]

def tooLarge : List Byte := [54, 53, 54, 49, 54]

def loopbackLibc : Libc where
  inet_addr a := if a = loopback then 0x0100007f else INADDR_NONE
  overflow _ := -1

theorem port_truncated :
    (bind loopbackLibc .little 0 (loopback ++ colon :: tooLarge) ⟨3, .zero⟩).called =
      some ⟨3, ⟨AF_INET, htons .little 80, 0x0100007f, 0⟩, 16⟩ ∧
    ¬ParsesHost loopbackLibc .little 0 (loopback ++ colon :: tooLarge) ⟨3, .zero⟩ := by
  have hsplit : split (loopback ++ colon :: tooLarge) colon = [loopback, tooLarge] := by
    rw [split_item (by decide), split_last (by decide) (by decide)]
  have hcall := bind_calls loopbackLibc .little 0 ⟨3, .zero⟩ hsplit
  refine ⟨hcall.trans (by decide), fun h => ?_⟩
  obtain ⟨address, port, hwell, _⟩ := h.sound _ hcall
  have hparts := hsplit.symm.trans hwell.split_eq
  simp only [List.cons.injEq, and_true] at hparts
  have hfits := hwell.fits
  rw [← hparts.2] at hfits
  exact absurd hfits (by decide)

end NetPrograms.HostParsing
