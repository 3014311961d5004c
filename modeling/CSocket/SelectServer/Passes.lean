import CSocket.SelectServer.Code
/-!
# Every ready client is served once

`Table` holds at the top of every pass: `allset`, `client`, `maxfd` and `maxi` say the
same. Within a pass `nready` then counts the clients in `rset` that were not read
yet (`card_due`), so the loop breaks off only behind the last of them.
-/
namespace CSocket.SelectServer

variable {FD_SETSIZE : Nat} {listenfd : Int} {s s' : Server} {io : Io}

/-! ## The table -/

/-- The bookkeeping at the top of a pass. -/
structure Table (FD_SETSIZE : Nat) (listenfd : Int) (s : Server) : Prop where
  allset : ∀ fd, fd ∈ s.allset ↔ fd = listenfd ∨ ∃ i < FD_SETSIZE, 0 ≤ s.client i ∧ s.client i = fd
  distinct : ∀ i < FD_SETSIZE, ∀ j < FD_SETSIZE, 0 ≤ s.client i → s.client i = s.client j → i = j
  bounds : ∀ i < FD_SETSIZE, 0 ≤ s.client i → s.client i ≤ s.maxfd ∧ (i : Int) ≤ s.maxi

/-- A pass from `s` to `s'` served what `select` reported, and nothing else. -/
structure Serves (FD_SETSIZE : Nat) (s s' : Server) : Prop where
  once : ∀ i < FD_SETSIZE, 0 ≤ s.client i → s.client i ∈ s'.rset → s'.reads.count (s.client i) = 1
  reads : ∀ fd ∈ s'.reads, fd ∈ s'.rset
  accepted : ∀ fd ∈ s'.accepted, fd ∈ s'.rset

/-- The descriptors of the table are open, and the listening one is none of them. -/
structure Inv (FD_SETSIZE : Nat) (listenfd : Int) (s : Server) : Prop extends Table FD_SETSIZE listenfd s where
  nonneg : 0 ≤ listenfd
  listening : listenfd ∈ s.opened
  isOpen : ∀ i < FD_SETSIZE, 0 ≤ s.client i → s.client i ∈ s.opened
  other : ∀ i < FD_SETSIZE, s.client i ≠ listenfd
  within : s.maxi < FD_SETSIZE

/-- Only the fields that the table is about matter. -/
theorem Inv.congr (h : Inv FD_SETSIZE listenfd s) (hclient : s'.client = s.client) (hall : s'.allset = s.allset)
    (hmaxfd : s'.maxfd = s.maxfd) (hmaxi : s'.maxi = s.maxi) (hopened : s'.opened = s.opened) :
    Inv FD_SETSIZE listenfd s' := by
  refine ⟨⟨?_, ?_, ?_⟩, h.nonneg, ?_, ?_, ?_, ?_⟩
  · rw [hall, hclient]
    exact h.allset
  · rw [hclient]
    exact h.distinct
  · rw [hclient, hmaxfd, hmaxi]
    exact h.bounds
  · rw [hopened]
    exact h.listening
  · rw [hclient, hopened]
    exact h.isOpen
  · rw [hclient]
    exact h.other
  · rw [hmaxi]
    exact h.within

theorem freeSlot_some {i : Nat} (h : freeSlot FD_SETSIZE s = some i) : i < FD_SETSIZE ∧ s.client i < 0 := by
  unfold freeSlot at h
  have hfree := List.find?_some h
  exact ⟨List.mem_range.mp (List.mem_of_find?_eq_some h), of_decide_eq_true hfree⟩

theorem acceptClient_inv (h : Inv FD_SETSIZE listenfd s) {k : Nat} (hk : k < FD_SETSIZE) (hfree : s.client k < 0)
    (hpos : 0 ≤ io.connfd) (hnew : io.connfd ∉ s.opened) : Inv FD_SETSIZE listenfd (acceptClient listenfd io k s) := by
  have hnone (i : Nat) (hi : i < FD_SETSIZE) : s.client i ≠ io.connfd := by
    intro he
    exact hnew (he ▸ h.isOpen i hi (he ▸ hpos))
  have hslot : (acceptClient listenfd io k s).client k = io.connfd := if_pos rfl
  have hrest {i : Nat} (hi : i ≠ k) : (acceptClient listenfd io k s).client i = s.client i := if_neg hi
  have hmaxfd : s.maxfd ≤ (acceptClient listenfd io k s).maxfd ∧ io.connfd ≤ (acceptClient listenfd io k s).maxfd := by
    simp only [acceptClient]
    split <;> omega
  have hmaxi : s.maxi ≤ (acceptClient listenfd io k s).maxi ∧ (k : Int) ≤ (acceptClient listenfd io k s).maxi := by
    simp only [acceptClient]
    split <;> omega
  refine ⟨⟨fun fd => ?_, fun i hi j hj hi0 he => ?_, fun i hi hi0 => ?_⟩, h.nonneg, ?_, fun i hi hi0 => ?_,
    fun i hi => ?_, ?_⟩
  · rw [show (acceptClient listenfd io k s).allset = insert io.connfd s.allset from rfl, Finset.mem_insert, h.allset]
    constructor
    · rintro (rfl | rfl | ⟨i, hi, hi0, rfl⟩)
      · exact .inr ⟨k, hk, hslot.symm ▸ hpos, hslot⟩
      · exact .inl rfl
      · have hik : i ≠ k := by
          rintro rfl
          omega
        exact .inr ⟨i, hi, by rwa [hrest hik], hrest hik⟩
    · rintro (rfl | ⟨i, hi, hi0, rfl⟩)
      · exact .inr (.inl rfl)
      · by_cases hik : i = k
        · exact .inl (hik ▸ hslot)
        · rw [hrest hik] at hi0 ⊢
          exact .inr (.inr ⟨i, hi, hi0, rfl⟩)
  · by_cases hik : i = k <;> by_cases hjk : j = k
    · exact hik.trans hjk.symm
    · rw [hik, hslot, hrest hjk] at he
      exact absurd he.symm (hnone j hj)
    · rw [hrest hik, hjk, hslot] at he
      exact absurd he (hnone i hi)
    · rw [hrest hik] at hi0 he
      rw [hrest hjk] at he
      exact h.distinct i hi j hj hi0 he
  · by_cases hik : i = k
    · rw [hik, hslot]
      exact ⟨hmaxfd.2, hmaxi.2⟩
    · rw [hrest hik] at hi0 ⊢
      have := h.bounds i hi hi0
      omega
  · exact Finset.mem_insert_of_mem h.listening
  · by_cases hik : i = k
    · rw [hik, hslot]
      exact Finset.mem_insert_self _ _
    · rw [hrest hik] at hi0 ⊢
      exact Finset.mem_insert_of_mem (h.isOpen i hi hi0)
  · by_cases hik : i = k
    · rw [hik, hslot]
      rintro rfl
      exact hnew h.listening
    · rw [hrest hik]
      exact h.other i hi
  · have hin := h.within
    simp only [acceptClient]
    split <;> omega

theorem closeClient_inv (h : Inv FD_SETSIZE listenfd s) {k : Nat} (hk : k < FD_SETSIZE) :
    Inv FD_SETSIZE listenfd (closeClient k s) := by
  have hslot : (closeClient k s).client k = -1 := if_pos rfl
  have hrest {i : Nat} (hi : i ≠ k) : (closeClient k s).client i = s.client i := if_neg hi
  have hne {i : Nat} (hi0 : 0 ≤ (closeClient k s).client i) : i ≠ k := by
    rintro rfl
    rw [hslot] at hi0
    omega
  have hother {i : Nat} (hi : i < FD_SETSIZE) (hi0 : 0 ≤ s.client i) (hik : i ≠ k) : s.client i ≠ s.client k :=
    fun he => hik (h.distinct i hi k hk hi0 he)
  refine ⟨⟨fun fd => ?_, fun i hi j hj hi0 he => ?_, fun i hi hi0 => ?_⟩, h.nonneg, ?_, fun i hi hi0 => ?_,
    fun i hi => ?_, h.within⟩
  · rw [show (closeClient k s).allset = s.allset.erase (s.client k) from rfl, Finset.mem_erase, h.allset]
    constructor
    · rintro ⟨hfd, rfl | ⟨i, hi, hi0, rfl⟩⟩
      · exact .inl rfl
      · have hik : i ≠ k := by
          rintro rfl
          exact hfd rfl
        exact .inr ⟨i, hi, by rwa [hrest hik], hrest hik⟩
    · rintro (rfl | ⟨i, hi, hi0, rfl⟩)
      · exact ⟨(h.other k hk).symm, .inl rfl⟩
      · have hik := hne hi0
        rw [hrest hik] at hi0 ⊢
        exact ⟨hother hi hi0 hik, .inr ⟨i, hi, hi0, rfl⟩⟩
  · have hik := hne hi0
    have hjk := hne (he ▸ hi0)
    rw [hrest hik] at hi0 he
    rw [hrest hjk] at he
    exact h.distinct i hi j hj hi0 he
  · have hik := hne hi0
    rw [hrest hik] at hi0 ⊢
    exact h.bounds i hi hi0
  · exact Finset.mem_erase.mpr ⟨(h.other k hk).symm, h.listening⟩
  · have hik := hne hi0
    rw [hrest hik] at hi0 ⊢
    exact Finset.mem_erase.mpr ⟨hother hi hi0 hik, h.isOpen i hi hi0⟩
  · by_cases hik : i = k
    · have := h.nonneg
      rw [hik, hslot]
      omega
    · rw [hrest hik]
      exact h.other i hi

/-- A read closes its client, or leaves the table as it is. -/
theorem readClient_frame (io : Io) (s : Server) (i : Nat) : ∃ s1 writes,
    (s1 = s ∨ s1 = closeClient i s) ∧
    readClient io i s = { s1 with
      writes
      reads := s.reads ++ [s.client i]
      nready := s.nready - 1 } := by
  unfold readClient
  cases io.read i with
  | none => exact ⟨s, s.writes, .inl rfl, rfl⟩
  | some buf =>
    cases buf with
    | nil => exact ⟨closeClient i s, s.writes, .inr rfl, rfl⟩
    | cons b bs =>
      exact ⟨s, s.writes ++ [(s.client i, (b :: bs).map toupper), (1, (b :: bs).map toupper)], .inl rfl, rfl⟩

theorem readClient_inv (h : Inv FD_SETSIZE listenfd s) {k : Nat} (hk : k < FD_SETSIZE) :
    Inv FD_SETSIZE listenfd (readClient io k s) := by
  obtain ⟨s1, writes, hs1, he⟩ := readClient_frame io s k
  have h1 : Inv FD_SETSIZE listenfd s1 := by
    rcases hs1 with rfl | rfl
    · exact h
    · exact closeClient_inv h hk
  rw [he]
  exact h1.congr rfl rfl rfl rfl rfl

/-! ## The loop over the clients -/

@[simp] theorem readClient_rset (io : Io) (s : Server) (i : Nat) : (readClient io i s).rset = s.rset := by
  obtain ⟨s1, writes, rfl | rfl, he⟩ := readClient_frame io s i
  · rw [he]
  · rw [he]
    rfl

@[simp] theorem readClient_accepted (io : Io) (s : Server) (i : Nat) :
    (readClient io i s).accepted = s.accepted := by
  obtain ⟨s1, writes, rfl | rfl, he⟩ := readClient_frame io s i
  · rw [he]
  · rw [he]
    rfl

theorem readClient_nready (io : Io) (s : Server) (i : Nat) : (readClient io i s).nready = s.nready - 1 := by
  obtain ⟨s1, writes, -, he⟩ := readClient_frame io s i
  rw [he]

theorem readClient_reads (io : Io) (s : Server) (i : Nat) :
    (readClient io i s).reads = s.reads ++ [s.client i] := by
  obtain ⟨s1, writes, -, he⟩ := readClient_frame io s i
  rw [he]

theorem readClient_client (io : Io) (s : Server) (i j : Nat) (hij : i ≠ j) :
    (readClient io i s).client j = s.client j := by
  obtain ⟨s1, writes, rfl | rfl, he⟩ := readClient_frame io s i
  · rw [he]
  · rw [he]
    exact if_neg (Ne.symm hij)

theorem readClient_due (io : Io) (s : Server) (i j : Nat) (hij : i ≠ j) : due (readClient io i s) j = due s j := by
  rw [due, due, readClient_client io s i j hij, readClient_rset]

/-- The slots whose clients are in `rset`. -/
def dueSlots (s : Server) : List Nat := (List.range' 0 (s.maxi + 1).toNat).filter (due s)

theorem nodup_dueSlots (s : Server) : (dueSlots s).Nodup := (List.nodup_range' 1).filter _

theorem mem_dueSlots (h : Inv FD_SETSIZE listenfd s) {i : Nat} :
    i ∈ dueSlots s ↔ i < FD_SETSIZE ∧ 0 ≤ s.client i ∧ s.client i ∈ s.rset := by
  rw [dueSlots, List.mem_filter, List.mem_range'_1, due, Bool.and_eq_true, decide_eq_true_eq, decide_eq_true_eq]
  have hin := h.within
  constructor
  · rintro ⟨⟨-, hlt⟩, hdue⟩
    exact ⟨by omega, hdue⟩
  · rintro ⟨hi, hi0, hmem⟩
    have := (h.bounds i hi hi0).2
    exact ⟨⟨Nat.zero_le i, by omega⟩, hi0, hmem⟩

theorem nodup_due (h : Inv FD_SETSIZE listenfd s) : ((dueSlots s).map s.client).Nodup := by
  refine (nodup_dueSlots s).map_on fun i hi j hj he => ?_
  obtain ⟨hi, hi0, -⟩ := (mem_dueSlots h).mp hi
  exact h.distinct i hi j ((mem_dueSlots h).mp hj).1 hi0 he

/-- The bits of `rset` besides the listening one are those of the clients due. -/
theorem card_due (h : Inv FD_SETSIZE listenfd s) (hr : s.rset ⊆ s.allset) :
    (dueSlots s).length = (s.rset.erase listenfd).card := by
  have hset : ((dueSlots s).map s.client).toFinset = s.rset.erase listenfd := by
    ext fd
    rw [List.mem_toFinset, List.mem_map, Finset.mem_erase]
    constructor
    · rintro ⟨i, hi, rfl⟩
      obtain ⟨hi, hi0, hmem⟩ := (mem_dueSlots h).mp hi
      exact ⟨h.other i hi, hmem⟩
    · rintro ⟨hne, hmem⟩
      rcases (h.allset fd).mp (hr hmem) with he | ⟨i, hi, hi0, rfl⟩
      · exact absurd he hne
      · exact ⟨i, (mem_dueSlots h).mpr ⟨hi, hi0, hmem⟩, rfl⟩
  rw [← hset, List.toFinset_card_of_nodup (nodup_due h), List.length_map]

/-- What the loop over the clients leaves, if `nready` counts the clients due. -/
structure Scanned (FD_SETSIZE : Nat) (listenfd : Int) (s s' : Server) : Prop where
  inv : Inv FD_SETSIZE listenfd s'
  rset : s'.rset = s.rset
  accepted : s'.accepted = s.accepted
  reads : s'.reads = s.reads ++ (dueSlots s).map s.client

theorem scan_scanned (h : Inv FD_SETSIZE listenfd s) (hcount : s.nready = (dueSlots s).length) :
    Scanned FD_SETSIZE listenfd s (scan io s) := by
  obtain ⟨done, hends⟩ : ∃ done, Scan.Ends (readClient io) (fun s => decide (s.nready = 0)) (dueSlots s) done s (scan io s) :=
    Scan.loop_ends (readClient_due io) (s.maxi + 1).toNat 0 s
  obtain rfl : done = dueSlots s := by
    refine hends.all (readClient_nready io) (fun hstop => ?_) (Int.le_of_eq hcount.symm)
    exact Int.le_of_eq (of_decide_eq_true hstop)
  rw [hends.result]
  refine ⟨?_, ?_, ?_, ?_⟩
  · exact Scan.serveAll_keeps (fun i hi s hs => readClient_inv hs ((mem_dueSlots h).mp hi).1) h
  · exact Scan.serveAll_keeps (P := fun s' => s'.rset = s.rset)
      (fun i _ s' hs => (readClient_rset io s' i).trans hs) rfl
  · exact Scan.serveAll_keeps (P := fun s' => s'.accepted = s.accepted)
      (fun i _ s' hs => (readClient_accepted io s' i).trans hs) rfl
  · exact Scan.serveAll_log (readClient_reads io) (readClient_client io) (nodup_dueSlots s) s

/-- Without a client due, the loop does nothing. -/
theorem scanned_none (h : Inv FD_SETSIZE listenfd s) (hnone : (dueSlots s).length = 0) :
    Scanned FD_SETSIZE listenfd s s := by
  refine ⟨h, rfl, rfl, ?_⟩
  rw [List.length_eq_zero_iff.mp hnone, List.map_nil, List.append_nil]

/-! ## A pass -/

/-- A pass is a loop over the clients from a state in which the new one has its slot. -/
theorem pass_scanned (h : Inv FD_SETSIZE listenfd s) (hs : pass FD_SETSIZE listenfd s io = some s') :
    ∃ s1, Scanned FD_SETSIZE listenfd s1 s' ∧ Inv FD_SETSIZE listenfd s1 ∧ s1.rset = io.ready ∧ s1.reads = [] ∧
      (∀ fd ∈ s1.accepted, fd ∈ io.ready) ∧ ∀ i < FD_SETSIZE, 0 ≤ s.client i → s1.client i = s.client i := by
  unfold pass at hs
  obtain ⟨hio, hs⟩ := Option.ite_none_right_eq_some.mp hs
  have h0 : Inv FD_SETSIZE listenfd (select io s) := h.congr rfl rfl rfl rfl rfl
  dsimp only at hs
  split at hs
  case isTrue hready =>
    obtain ⟨hpos, -, hnew⟩ := hio.accept hready
    cases hfree : freeSlot FD_SETSIZE (select io s) with
    | none =>
      rw [hfree] at hs
      cases hs
    | some k =>
      simp only [hfree] at hs
      obtain ⟨hk, hneg⟩ := freeSlot_some hfree
      have h1 := acceptClient_inv h0 hk hneg hpos hnew
      have hcount : (acceptClient listenfd io k (select io s)).nready
          = (dueSlots (acceptClient listenfd io k (select io s))).length := by
        rw [card_due h1 (hio.ready.trans (Finset.subset_insert _ _))]
        have hcard : (io.ready.erase listenfd).card + 1 = io.ready.card := Finset.card_erase_add_one hready
        show (io.ready.card : Int) - 1 = (io.ready.erase listenfd).card
        omega
      refine ⟨acceptClient listenfd io k (select io s), ?_, h1, rfl, rfl, fun fd hfd => ?_, fun i hi hi0 => ?_⟩
      · split at hs
        case isTrue hzero =>
          cases hs
          have hnone := hcount.symm.trans hzero
          exact scanned_none h1 (by omega)
        case isFalse =>
          cases hs
          exact scan_scanned h1 hcount
      · obtain rfl := List.mem_singleton.mp hfd
        exact hready
      · refine if_neg ?_
        rintro rfl
        exact absurd hi0 (Int.not_le.mpr hneg)
  case isFalse hready =>
    cases hs
    have hcount : (select io s).nready = (dueSlots (select io s)).length := by
      rw [card_due h0 hio.ready, Finset.erase_eq_of_notMem hready]
      rfl
    exact ⟨select io s, scan_scanned h0 hcount, h0, rfl, rfl, fun fd hfd => absurd hfd List.not_mem_nil, fun _ _ _ => rfl⟩

theorem pass_inv (h : Inv FD_SETSIZE listenfd s) (hs : pass FD_SETSIZE listenfd s io = some s') :
    Inv FD_SETSIZE listenfd s' := by
  obtain ⟨s1, hscan, -⟩ := pass_scanned h hs
  exact hscan.inv

theorem pass_serves (h : Inv FD_SETSIZE listenfd s) (hs : pass FD_SETSIZE listenfd s io = some s') :
    Serves FD_SETSIZE s s' := by
  obtain ⟨s1, hscan, h1, hrset, hreads, haccepted, hclient⟩ := pass_scanned h hs
  have hreads' : s'.reads = (dueSlots s1).map s1.client := by rw [hscan.reads, hreads, List.nil_append]
  constructor
  · intro i hi hi0 hmem
    have he := hclient i hi hi0
    rw [hscan.rset] at hmem
    rw [← he] at hi0 hmem ⊢
    rw [hreads']
    exact List.count_eq_one_of_mem (nodup_due h1) (List.mem_map_of_mem ((mem_dueSlots h1).mpr ⟨hi, hi0, hmem⟩))
  · intro fd hfd
    rw [hreads'] at hfd
    obtain ⟨i, hi, rfl⟩ := List.mem_map.mp hfd
    rw [hscan.rset]
    exact ((mem_dueSlots h1).mp hi).2.2
  · intro fd hfd
    rw [hscan.accepted] at hfd
    rw [hscan.rset, hrset]
    exact haccepted fd hfd

/-! ## Whole runs -/

theorem start_inv {opened : Finset Int} (hpos : 0 ≤ listenfd) (hopen : listenfd ∈ opened) :
    Inv FD_SETSIZE listenfd (start listenfd opened) := by
  have hneg (i : Nat) : (start listenfd opened).client i = -1 := rfl
  refine ⟨⟨fun fd => ?_, fun i _ j _ hi0 _ => ?_, fun i _ hi0 => ?_⟩, hpos, hopen, fun i _ hi0 => ?_, fun i _ => ?_, ?_⟩
  · rw [show (start listenfd opened).allset = {listenfd} from rfl, Finset.mem_singleton]
    constructor
    · exact .inl
    · rintro (he | ⟨i, -, hi0, -⟩)
      · exact he
      · rw [hneg] at hi0
        omega
  · rw [hneg] at hi0
    omega
  · rw [hneg] at hi0
    omega
  · rw [hneg] at hi0
    omega
  · rw [hneg]
    omega
  · show (-1 : Int) < FD_SETSIZE
    omega

theorem Reachable.inv (h : Reachable FD_SETSIZE listenfd s) : Inv FD_SETSIZE listenfd s := by
  obtain ⟨opened, hpos, hopen, hr⟩ := h
  exact hr.invariant (fun _ _ _ => pass_inv) (start_inv hpos hopen)

/-- At the top of every pass the bookkeeping is right, and every pass reads each client
that `select` reports once, and reads and accepts on nothing else. -/
theorem serves_ready (h : Reachable FD_SETSIZE listenfd s) :
    Table FD_SETSIZE listenfd s ∧ ∀ io s', pass FD_SETSIZE listenfd s io = some s' → Serves FD_SETSIZE s s' :=
  ⟨h.inv.toTable, fun _ _ => pass_serves h.inv⟩

/-- A client leaves, and the next pass accepts another one while the third sends. -/
theorem serves_ready_refilled : ∃ s, Reachable 1024 3 s ∧ s.client 0 = 4 ∧ s.client 1 = 5 ∧ s.reads = [5] ∧
    Table 1024 3 s := by
  obtain ⟨s, hr, hs⟩ := Lts.Reach.of_run (pass 1024 3) (start 3 {0, 1, 2, 3})
    (fun s => decide (s.client 0 = 4 ∧ s.client 1 = 5 ∧ s.reads = [5]))
    [{ ready := {3}, connfd := 4 }, { ready := {3}, connfd := 5 }, { ready := {4} },
      { ready := {3, 5}, connfd := 4, read := fun _ => some [104] }]
    (by decide +kernel)
  obtain ⟨h0, h1, hreads⟩ := of_decide_eq_true hs
  have h : Reachable 1024 3 s := ⟨_, by decide, by decide, hr⟩
  exact ⟨s, h, h0, h1, hreads, (serves_ready h).1⟩

end CSocket.SelectServer
