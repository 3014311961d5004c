import CSocket.PollServer.Passes
import CSocket.SelectServer.Passes
import Mathlib.Data.Int.Interval
import Mathlib.Data.List.Sort
/-!
# The select server and the poll server

The two servers with the same things happening at their sockets. Slot `i` of the one is
slot `i + 1` of the other, which has the listening socket in slot 0. `same_service`: pass by
pass they read the same clients in the same order, send them the same and close the same,
whatever the stack holds where the poll server has its table; the select server copies to
its standard output besides. Reads do not fail here, where the two differ by design.
-/
namespace CSocket.Multiplex

/-- What happens at the sockets before and in a pass. -/
structure Input where
  ready : Finset Int
  connfd : Int := 0
  /-- What a read of the client in a slot of the select server returns. -/
  data : Nat → List UInt8 := fun _ => []
  /-- What `poll` reports in a slot besides `POLLIN`. -/
  bits : Nat → Nat := fun _ => 0

def Input.select (x : Input) : SelectServer.Io where
  ready := x.ready
  connfd := x.connfd
  read i := some (x.data i)

/-- `poll` reports no event without `POLLIN`. -/
def Input.poll (x : Input) (p : PollServer.Server) : PollServer.Io where
  revents i := if (p.client i).fd ∈ x.ready then PollServer.POLLIN ||| x.bits i else 0
  connfd := x.connfd
  read i := .ok (x.data (i - 1))

def selectPass (FD_SETSIZE : Nat) (listenfd : Int) (s : SelectServer.Server) (x : Input) : Option SelectServer.Server :=
  SelectServer.pass FD_SETSIZE listenfd s x.select

def pollPass (OPEN_MAX : Nat) (p : PollServer.Server) (x : Input) : Option PollServer.Server :=
  PollServer.pass OPEN_MAX p (x.poll p)

/-- The clients are in corresponding slots, and the last passes did the same. -/
structure Alike (s : SelectServer.Server) (p : PollServer.Server) : Prop where
  slots : ∀ i, (p.client (i + 1)).fd = s.client i
  maxi : (p.maxi : Int) = s.maxi + 1
  live : p.exited = false
  reads : p.reads = s.reads
  writes : s.writes = p.writes.flatMap fun w => [w, (1, w.2)]

section
variable {N : Nat} {listenfd : Int} {s s' : SelectServer.Server} {p p1 : PollServer.Server} {x : Input}

/-! ## Serving a client -/

theorem readClient_alike (i : Nat) (h : Alike s p) :
    Alike (SelectServer.readClient x.select i s) (PollServer.readClient (x.poll p1) (i + 1) p) := by
  obtain ⟨hslots, hmaxi, hlive, hreads, hwrites⟩ := h
  have hsel : x.select.read i = some (x.data i) := rfl
  have hpoll : (x.poll p1).read (i + 1) = .ok (x.data i) := rfl
  unfold SelectServer.readClient PollServer.readClient
  rw [hsel, hpoll, hslots i]
  cases hdata : x.data i with
  | nil =>
    refine ⟨fun j => ?_, hmaxi, hlive, by simp [SelectServer.closeClient, PollServer.closeClient, hreads], hwrites⟩
    simp only [SelectServer.closeClient, PollServer.closeClient, Nat.add_right_cancel_iff]
    split
    · rfl
    · exact hslots j
  | cons b bs => exact ⟨hslots, hmaxi, hlive, by simp [hreads], by simp [hwrites]⟩

/-! ## What `poll` finds -/

theorem pollEntry_revents (hready : ∀ fd ∈ x.ready, 0 ≤ fd) {i : Nat} (hi : i ≤ p.maxi) :
    (PollServer.pollEntry (x.poll p) p i).revents =
      if (p.client i).fd ∈ x.ready then PollServer.POLLIN ||| x.bits i else 0 := by
  unfold PollServer.pollEntry
  rw [if_pos hi]
  by_cases hmem : (p.client i).fd ∈ x.ready
  · have hpos := hready _ hmem
    simp [Input.poll, hmem, Int.not_lt.mpr hpos]
  · simp [Input.poll, hmem]

theorem pollin_or (bits : Nat) : (PollServer.POLLIN ||| bits) &&& PollServer.POLLIN = 1 := by
  rw [PollServer.POLLIN, Nat.and_one_is_mod, Nat.or_mod_two_eq_one]
  exact .inl rfl

/-- `POLLIN` is reported for what is ready. -/
theorem pollEntry_pollin (hready : ∀ fd ∈ x.ready, 0 ≤ fd) {i : Nat} (hi : i ≤ p.maxi) :
    (PollServer.pollEntry (x.poll p) p i).pollin = decide ((p.client i).fd ∈ x.ready) := by
  rw [PollServer.Pollfd.pollin, pollEntry_revents hready hi]
  split
  case isTrue hmem => simp [pollin_or, hmem]
  case isFalse hmem => simp [hmem]

/-- What `poll` counts has `POLLIN`. -/
theorem countedSlots_eq (hready : ∀ fd ∈ x.ready, 0 ≤ fd) :
    PollServer.countedSlots (x.poll p) p = PollServer.readySlots (x.poll p) p := by
  apply List.filter_congr
  intro i hi
  have hle : i ≤ p.maxi := by
    have := List.mem_range'_1.mp hi
    omega
  rw [pollEntry_pollin hready hle, pollEntry_revents hready hle]
  split
  case isTrue hmem =>
    have hne : PollServer.POLLIN ||| x.bits i ≠ 0 := by
      intro hzero
      have hand := pollin_or (x.bits i)
      rw [hzero] at hand
      cases hand
    simp [hne, hmem]
  case isFalse hmem => simp [hmem]

theorem readySlots_eq (h : Alike s p) (hready : ∀ fd ∈ x.ready, 0 ≤ fd) :
    PollServer.readySlots (x.poll p) p = (SelectServer.dueSlots (SelectServer.select x.select s)).map (1 + ·) := by
  have hmaxi : (s.maxi + 1).toNat = p.maxi := by
    have := h.maxi
    omega
  have hdue : SelectServer.dueSlots (SelectServer.select x.select s) =
      (List.range p.maxi).filter fun i => s.client i ∈ x.ready := by
    rw [← hmaxi, List.range_eq_range']
    apply List.filter_congr
    intro i _
    show (decide (0 ≤ s.client i) && decide (s.client i ∈ x.ready)) = decide (s.client i ∈ x.ready)
    by_cases hmem : s.client i ∈ x.ready
    · simp [hmem, hready _ hmem]
    · simp [hmem]
  rw [hdue, PollServer.readySlots, List.range'_eq_map_range, List.filter_map]
  congr 1
  apply List.filter_congr
  intro i hi
  rw [Function.comp_apply, pollEntry_pollin hready (by have := List.mem_range.mp hi; omega), Nat.add_comm 1 i, h.slots i]

/-! ## The loops over the clients -/

theorem select_scan (hcount : s.nready = (SelectServer.dueSlots s).length) :
    SelectServer.scan x.select s = Scan.serveAll (SelectServer.readClient x.select) (SelectServer.dueSlots s) s := by
  obtain ⟨done, hends⟩ : ∃ done, Scan.Ends (SelectServer.readClient x.select) (fun s => decide (s.nready = 0))
      (SelectServer.dueSlots s) done s (SelectServer.scan x.select s) :=
    Scan.loop_ends (SelectServer.readClient_due x.select) (s.maxi + 1).toNat 0 s
  obtain rfl : done = SelectServer.dueSlots s := by
    refine hends.all (SelectServer.readClient_nready x.select) (fun hstop => ?_) (Int.le_of_eq hcount.symm)
    exact Int.le_of_eq (of_decide_eq_true hstop)
  exact hends.result

theorem not_fatal (i : Nat) : (x.poll p).fatal i = false := rfl

/-- The loop stops before a slot that `poll` has not seen. -/
theorem poll_scan (hready : ∀ fd ∈ x.ready, 0 ≤ fd)
    (hb : PollServer.Begins N listenfd (x.poll p) p p1) (hlive : p.exited = false)
    (hpos : PollServer.straySlots N (x.poll p) p ≠ [] → 0 < p1.nready) :
    PollServer.scan (x.poll p) p1 =
      Scan.serveAll (PollServer.readClient (x.poll p)) (PollServer.readySlots (x.poll p) p) p1 := by
  have heq : PollServer.countedSlots (x.poll p) p = PollServer.readySlots (x.poll p) p := countedSlots_eq hready
  have hno : PollServer.readsNewcomer N p (x.poll p) = false := by
    refine eq_false_of_ne_true fun hnew => ?_
    have hlt := (PollServer.readsNewcomer_iff.mp hnew).2.1
    rw [heq] at hlt
    exact Nat.lt_irrefl _ hlt
  obtain ⟨done, hends⟩ := PollServer.scan_ends (x.poll p) p1
  have hscan : PollServer.Scanned listenfd (x.poll p) done p1 (PollServer.scan (x.poll p) p1) :=
    hends.result ▸ PollServer.scanned hb.inv hends.isPrefix
  have hlives : (PollServer.scan (x.poll p) p1).exited = false := by
    rw [hscan.exited, hb.exited, hlive, Bool.false_or]
    exact List.any_eq_false.mpr fun i _ => by simp [not_fatal]
  have hcounted := hb.counted
  rw [heq] at hcounted
  have hdone : done <+: PollServer.readySlots (x.poll p) p := by
    by_cases hstray : PollServer.straySlots N (x.poll p) p = []
    · have := hends.isPrefix
      rwa [hb.due, hstray, List.append_nil] at this
    · obtain ⟨hne, hstop⟩ := PollServer.stops_before_stray hb hpos hstray hno
      exact hends.stops (hb.due ▸ List.prefix_append _ _) hne hstop
  obtain rfl : done = PollServer.readySlots (x.poll p) p := by
    refine hdone.eq_of_length_le ?_
    rcases hends.rest with hall | ⟨-, hstop⟩
    · rw [hall, hb.due, List.length_append]
      omega
    · rw [PollServer.scanStops_iff, hlives, hscan.nready] at hstop
      rcases hstop with hstop | hstop
      · cases hstop
      · omega
  exact hends.result

theorem scan_alike (hready : ∀ fd ∈ x.ready, 0 ≤ fd) {s1 : SelectServer.Server}
    (hb : PollServer.Begins N listenfd (x.poll p) p p1) (hlive : p.exited = false)
    (hpos : PollServer.straySlots N (x.poll p) p ≠ [] → 0 < p1.nready)
    (hcount : s1.nready = (SelectServer.dueSlots s1).length)
    (hslots : PollServer.readySlots (x.poll p) p = (SelectServer.dueSlots s1).map (1 + ·)) (h : Alike s1 p1) :
    Alike (SelectServer.scan x.select s1) (PollServer.scan (x.poll p) p1) := by
  rw [select_scan hcount, poll_scan hready hb hlive hpos, hslots]
  refine Scan.serveAll_related (fun i _ s p h => ?_) h
  rw [Nat.add_comm 1 i]
  exact readClient_alike i h

/-! ## Accepting a client -/

/-- Below the free slot there are as many clients. With the new one and the listening socket
they are below `FD_SETSIZE`, so the table of the poll server has room too. -/
theorem freeSlot_lt (h : SelectServer.Inv N listenfd s) (hsmall : ∀ i, s.client i < N) (hlt : listenfd < N)
    (hio : x.select.Possible N listenfd s) (hlisten : listenfd ∈ x.ready) {k : Nat}
    (hk : SelectServer.freeSlot N s = some k) : k + 1 < N := by
  obtain ⟨hpos, hnewlt, hnew⟩ := hio.accept hlisten
  have hkN := (SelectServer.freeSlot_some hk).1
  have hbusy : ∀ i < k, 0 ≤ s.client i := by
    intro i hi
    rw [SelectServer.freeSlot, List.range_eq_range'] at hk
    have := (List.find?_range'_eq_some.mp hk).2.2 i (Nat.zero_le i) hi
    simpa using this
  have hsub : insert listenfd (insert x.connfd ((Finset.range k).image s.client)) ⊆ Finset.Ico (0 : Int) N := by
    intro fd hfd
    rw [Finset.mem_insert, Finset.mem_insert, Finset.mem_image] at hfd
    rw [Finset.mem_Ico]
    rcases hfd with rfl | rfl | ⟨i, hi, rfl⟩
    · exact ⟨h.nonneg, hlt⟩
    · exact ⟨hpos, hnewlt⟩
    · exact ⟨hbusy i (Finset.mem_range.mp hi), hsmall i⟩
  have himage : ((Finset.range k).image s.client).card = k := by
    rw [Finset.card_image_of_injOn, Finset.card_range]
    intro i hi j hj he
    have hik := Finset.mem_range.mp hi
    have hjk := Finset.mem_range.mp hj
    exact h.distinct i (hik.trans hkN) j (hjk.trans hkN) (hbusy i hik) he
  have hfresh : x.connfd ∉ (Finset.range k).image s.client := by
    rw [Finset.mem_image]
    rintro ⟨i, hi, he⟩
    have hik := Finset.mem_range.mp hi
    exact hnew (show x.connfd ∈ s.opened from he ▸ h.isOpen i (hik.trans hkN) (hbusy i hik))
  have hother : listenfd ∉ insert x.connfd ((Finset.range k).image s.client) := by
    rw [Finset.mem_insert, Finset.mem_image]
    rintro (he | ⟨i, hi, he⟩)
    · exact hnew (show x.connfd ∈ s.opened from he ▸ h.listening)
    · exact h.other i ((Finset.mem_range.mp hi).trans hkN) he
  have hcard := Finset.card_le_card hsub
  rw [Finset.card_insert_of_notMem hother, Finset.card_insert_of_notMem hfresh, himage, Int.card_Ico] at hcard
  omega

theorem freeSlot_alike (h : Alike s p) {k : Nat} (hlt : k + 1 < N) (hk : SelectServer.freeSlot N s = some k) :
    PollServer.freeSlot N p = some (1 + k) := by
  rw [SelectServer.freeSlot, List.range_eq_range'] at hk
  obtain ⟨hfree, -, hbusy⟩ := List.find?_range'_eq_some.mp hk
  refine List.find?_range'_eq_some.mpr ⟨?_, List.mem_range'_1.mpr ⟨by omega, by omega⟩, fun i hi hik => ?_⟩
  · rw [Nat.add_comm 1 k, h.slots k]
    exact hfree
  · obtain ⟨i, rfl⟩ : ∃ j, i = j + 1 := ⟨i - 1, by omega⟩
    rw [h.slots i]
    exact hbusy i (Nat.zero_le i) (by omega)

theorem acceptClient_alike (h : Alike s p) (k : Nat) :
    Alike (SelectServer.acceptClient listenfd x.select k s) (PollServer.acceptClient (x.poll p1) (1 + k) p) := by
  refine ⟨fun i => ?_, ?_, h.live, h.reads, h.writes⟩
  · simp only [SelectServer.acceptClient, PollServer.acceptClient, Nat.add_comm 1 k, Nat.add_right_cancel_iff]
    split
    · rfl
    · exact h.slots i
  · have := h.maxi
    simp only [SelectServer.acceptClient, PollServer.acceptClient]
    split <;> split <;> omega

theorem poll_alike (h : Alike s p) : Alike (SelectServer.select x.select s) (PollServer.poll (x.poll p) p) :=
  ⟨fun i => (PollServer.pollEntry_fd (x.poll p) p (i + 1)).trans (h.slots i), h.maxi, h.live, rfl, rfl⟩

/-- The slot of the new client was not due, and is not now. -/
theorem dueSlots_accept (h : SelectServer.Inv N listenfd s) (hio : x.select.Possible N listenfd s)
    (hlisten : listenfd ∈ x.ready) {k : Nat} (hk : k < N) (hfree : s.client k < 0) :
    SelectServer.dueSlots (SelectServer.acceptClient listenfd x.select k (SelectServer.select x.select s)) =
      SelectServer.dueSlots (SelectServer.select x.select s) := by
  obtain ⟨hpos, -, hnew⟩ := hio.accept hlisten
  have h0 : SelectServer.Inv N listenfd (SelectServer.select x.select s) := h.congr rfl rfl rfl rfl rfl
  have h1 := SelectServer.acceptClient_inv h0 hk hfree hpos hnew
  have hslot : (SelectServer.acceptClient listenfd x.select k (SelectServer.select x.select s)).client k = x.connfd :=
    if_pos rfl
  have hrest {i : Nat} (hi : i ≠ k) :
      (SelectServer.acceptClient listenfd x.select k (SelectServer.select x.select s)).client i = s.client i := if_neg hi
  have hnotready : x.connfd ∉ x.ready := by
    intro hmem
    rcases (h.allset x.connfd).mp (hio.ready hmem) with he | ⟨i, hi, hi0, he⟩
    · exact hnew (show x.connfd ∈ s.opened from he ▸ h.listening)
    · exact hnew (show x.connfd ∈ s.opened from he ▸ h.isOpen i hi hi0)
  have hsorted (s : SelectServer.Server) : (SelectServer.dueSlots s).Pairwise (· < ·) :=
    (List.sortedLT_range' _ _ Nat.one_ne_zero).pairwise.filter _
  refine (hsorted _).eq_of_mem_iff (hsorted _) fun i => ?_
  rw [SelectServer.mem_dueSlots h1, SelectServer.mem_dueSlots h0]
  by_cases hik : i = k
  · rw [hik, hslot]
    exact ⟨fun hmem => absurd hmem.2.2 hnotready, fun hmem => absurd hmem.2.1 (Int.not_le.mpr hfree)⟩
  · rw [hrest hik]
    rfl

/-! ## A pass -/

/-- What the servers know at the top of a pass. -/
structure Twins (N : Nat) (listenfd : Int) (s : SelectServer.Server) (p : PollServer.Server) : Prop where
  select : SelectServer.Inv N listenfd s
  poll : PollServer.Inv listenfd p
  alike : Alike s p
  small : ∀ i, s.client i < N

theorem ready_nonneg (h : SelectServer.Inv N listenfd s) (hio : x.select.Possible N listenfd s) :
    ∀ fd ∈ x.ready, 0 ≤ fd := by
  intro fd hfd
  rcases (h.allset fd).mp (hio.ready hfd) with rfl | ⟨i, -, hi0, rfl⟩
  · exact h.nonneg
  · exact hi0

theorem Twins.possible (h : Twins N listenfd s p) (hio : x.select.Possible N listenfd s) :
    (x.poll p).Possible N p := by
  obtain ⟨hsel, hpoll, halike, -⟩ := h
  intro hp
  rw [pollEntry_pollin (ready_nonneg hsel hio) (Nat.zero_le _), hpoll.listening] at hp
  obtain ⟨hpos, -, hnew⟩ := hio.accept (of_decide_eq_true hp)
  have hnone (fd : Int) (hfd : fd ∈ s.opened) : fd ≠ x.connfd := by
    rintro rfl
    exact hnew hfd
  refine ⟨hpos, fun i hi => ?_⟩
  cases i with
  | zero =>
    rw [hpoll.listening]
    exact hnone _ hsel.listening
  | succ i =>
    rw [halike.slots i]
    intro he
    exact hnone _ (hsel.isOpen i (by omega) (he ▸ hpos)) he

/-- `select` counts the clients due, and the listening socket. -/
theorem select_nready (h : SelectServer.Inv N listenfd s) (hio : x.select.Possible N listenfd s) :
    (SelectServer.select x.select s).nready =
      (SelectServer.dueSlots (SelectServer.select x.select s)).length + if listenfd ∈ x.ready then 1 else 0 := by
  have h0 : SelectServer.Inv N listenfd (SelectServer.select x.select s) := h.congr rfl rfl rfl rfl rfl
  rw [SelectServer.card_due h0 hio.ready]
  show (x.ready.card : Int) = (x.ready.erase listenfd).card + _
  split
  case isTrue hmem =>
    have := Finset.card_erase_add_one hmem
    omega
  case isFalse hmem =>
    rw [Finset.erase_eq_of_notMem hmem]
    omega

theorem pass_alike (h : Twins N listenfd s p) (hlt : listenfd < N) (hs : selectPass N listenfd s x = some s') :
    ∃ p', pollPass N p x = some p' ∧ Alike s' p' := by
  have hpossible := h.possible (x := x)
  obtain ⟨hsel, hpoll, halike, hsmall⟩ := h
  unfold selectPass SelectServer.pass at hs
  obtain ⟨hio, hs⟩ := Option.ite_none_right_eq_some.mp hs
  have hready := ready_nonneg hsel hio
  have h0 : SelectServer.Inv N listenfd (SelectServer.select x.select s) := hsel.congr rfl rfl rfl rfl rfl
  have halike0 := poll_alike (x := x) halike
  have hslots := readySlots_eq halike hready
  have hcount := select_nready hsel hio
  have hlisten : (PollServer.pollEntry (x.poll p) p 0).pollin = decide (listenfd ∈ x.ready) := by
    rw [pollEntry_pollin hready (Nat.zero_le _), hpoll.listening]
  unfold pollPass PollServer.pass
  rw [if_pos ⟨halike.live, hpossible hio⟩]
  dsimp only at hs ⊢
  rw [show (PollServer.poll (x.poll p) p).client 0 = PollServer.pollEntry (x.poll p) p 0 from rfl, hlisten]
  by_cases hmem : listenfd ∈ x.ready
  · rw [if_pos (show listenfd ∈ (SelectServer.select x.select s).rset from hmem)] at hs
    rw [if_pos (decide_eq_true hmem), PollServer.freeSlot_poll]
    cases hfree : SelectServer.freeSlot N (SelectServer.select x.select s) with
    | none =>
      rw [hfree] at hs
      cases hs
    | some k =>
      have hfree' : PollServer.freeSlot N p = some (1 + k) :=
        freeSlot_alike halike (freeSlot_lt hsel hsmall hlt hio hmem hfree) hfree
      simp only [hfree, hfree'] at hs ⊢
      obtain ⟨hk, hneg⟩ := SelectServer.freeSlot_some hfree
      have hpos : 0 ≤ x.connfd := (hio.accept hmem).1
      have hp : (PollServer.pollEntry (x.poll p) p 0).pollin = true := hlisten.trans (decide_eq_true hmem)
      have hb := PollServer.acceptClient_begins hpoll hp hfree' hpos
      have hdue := dueSlots_accept hsel hio hmem hk hneg
      have halike1 : Alike (SelectServer.acceptClient listenfd x.select k (SelectServer.select x.select s))
          (PollServer.acceptClient (x.poll p) (1 + k) (PollServer.poll (x.poll p) p)) := acceptClient_alike halike0 k
      rw [if_pos hmem] at hcount
      have hnready : (SelectServer.acceptClient listenfd x.select k (SelectServer.select x.select s)).nready =
          (SelectServer.dueSlots (SelectServer.select x.select s)).length := by
        show (SelectServer.select x.select s).nready - 1 = _
        omega
      have hpolled : (PollServer.acceptClient (x.poll p) (1 + k) (PollServer.poll (x.poll p) p)).nready =
          (SelectServer.dueSlots (SelectServer.select x.select s)).length := by
        have := (PollServer.poll_nready (x.poll p) p).2 hp
        rw [countedSlots_eq hready, hslots, List.length_map] at this
        show (PollServer.poll (x.poll p) p).nready - 1 = _
        omega
      rw [hnready] at hs
      rw [hpolled]
      split at hs
      case isTrue hzero =>
        cases hs
        rw [if_pos (Int.le_of_eq hzero)]
        exact ⟨_, rfl, halike1⟩
      case isFalse hzero =>
        cases hs
        rw [if_neg (by omega)]
        refine ⟨_, rfl, scan_alike hready hb halike.live (fun _ => ?_) (by rw [hdue, hnready]) (by rw [hslots, hdue]) halike1⟩
        rw [hpolled]
        omega
  · rw [if_neg (show listenfd ∉ (SelectServer.select x.select s).rset from hmem)] at hs
    rw [if_neg (by simp [hmem])]
    cases hs
    have hb : PollServer.Begins N listenfd (x.poll p) p (PollServer.poll (x.poll p) p) :=
      PollServer.poll_begins hpoll (hlisten.trans (decide_eq_false hmem))
    refine ⟨_, rfl, scan_alike hready hb halike.live (fun hne => ?_) (hcount.trans ?_) hslots halike0⟩
    · obtain ⟨k, hk⟩ := List.exists_mem_of_ne_nil _ hne
      have hp := (hb.stray k hk).1
      rw [hlisten] at hp
      exact absurd (of_decide_eq_true hp) hmem
    · rw [if_neg hmem]
      omega

theorem pass_small (h : ∀ i, s.client i < N) (hpos : 0 < N) (hs : selectPass N listenfd s x = some s') :
    ∀ i, s'.client i < N := by
  have hscan (s : SelectServer.Server) (h : ∀ i, s.client i < N) : ∀ i, (SelectServer.scan x.select s).client i < N := by
    obtain ⟨done, hends⟩ : ∃ done, Scan.Ends (SelectServer.readClient x.select) (fun s => decide (s.nready = 0))
        (SelectServer.dueSlots s) done s (SelectServer.scan x.select s) :=
      Scan.loop_ends (SelectServer.readClient_due x.select) (s.maxi + 1).toNat 0 s
    rw [hends.result]
    refine Scan.serveAll_keeps (P := fun s : SelectServer.Server => ∀ i, s.client i < N) (fun k _ s h i => ?_) h
    obtain ⟨s1, writes, rfl | rfl, he⟩ := SelectServer.readClient_frame x.select s k
    · rw [he]
      exact h i
    · rw [he]
      show (if i = k then -1 else s.client i) < (N : Int)
      split
      · omega
      · exact h i
  unfold selectPass SelectServer.pass at hs
  obtain ⟨hio, hs⟩ := Option.ite_none_right_eq_some.mp hs
  dsimp only at hs
  split at hs
  case isTrue hmem =>
    cases hfree : SelectServer.freeSlot N (SelectServer.select x.select s) with
    | none =>
      rw [hfree] at hs
      cases hs
    | some k =>
      have haccept : ∀ i, (SelectServer.acceptClient listenfd x.select k (SelectServer.select x.select s)).client i < N := by
        intro i
        show (if i = k then x.connfd else s.client i) < (N : Int)
        split
        · exact (hio.accept hmem).2.1
        · exact h i
      simp only [hfree] at hs
      split at hs
      · cases hs
        exact haccept
      · cases hs
        exact hscan _ haccept
  case isFalse =>
    cases hs
    exact hscan _ h

theorem pass_twins (h : Twins N listenfd s p) (hlt : listenfd < N) (hs : selectPass N listenfd s x = some s') :
    ∃ p', pollPass N p x = some p' ∧ Twins N listenfd s' p' := by
  obtain ⟨p', hp, halike⟩ := pass_alike h hlt hs
  have hpos : 0 < N := by
    have := h.select.nonneg
    omega
  exact ⟨p', hp, SelectServer.pass_inv h.select hs, PollServer.pass_inv h.poll hp, halike, pass_small h.small hpos hs⟩

/-! ## Whole runs -/

theorem start_twins {opened : Finset Int} (hpos : 0 ≤ listenfd) (hopen : listenfd ∈ opened) (mem : Nat → PollServer.Pollfd) :
    Twins N listenfd (SelectServer.start listenfd opened) (PollServer.start listenfd mem) := by
  refine ⟨SelectServer.start_inv hpos hopen, PollServer.start_inv hpos mem, ⟨fun i => ?_, rfl, rfl, rfl, rfl⟩, fun i => ?_⟩
  · show (if i + 1 = 0 then ({ mem 0 with fd := listenfd, events := PollServer.POLLIN } : PollServer.Pollfd)
      else { mem (i + 1) with fd := -1 }).fd = -1
    rw [if_neg (Nat.succ_ne_zero i)]
  · show (-1 : Int) < N
    omega

end

/-- Two clients connect, and a third one in the pass in which the first leaves and the second
sends. -/
def threeClients : List Input :=
  [{ ready := {3}, connfd := 4 }, { ready := {3}, connfd := 5 },
    { ready := {3, 4, 5}, connfd := 6, data := fun i => if i = 1 then [104] else [], bits := fun _ => 16 }]

end CSocket.Multiplex
