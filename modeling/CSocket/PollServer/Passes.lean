import CSocket.PollServer.Code
/-!
# When only ready clients are read

The loop over the clients looks at `revents` of the new client too, which `poll`
did not write. If its slot was free in the table that `poll` saw, it is 0. A slot
behind `maxi` has what the stack held, and only the countdown of `nready` keeps the
loop away from it. An entry that `poll` counts without `POLLIN` is not counted down.
-/
namespace CSocket.PollServer

variable {OPEN_MAX : Nat} {listenfd : Int} {s s1 s' : Server} {io : Io}

/-- In the last pass only descriptors that `poll` reported were read, and if the
process lives, each client that it reported. -/
structure ReadsReady (listenfd : Int) (s : Server) : Prop where
  only : ∀ fd ∈ s.reads, fd ∈ s.reported
  all : s.exited = false → ∀ fd ∈ s.reported, fd ≠ listenfd → fd ∈ s.reads

/-- In the pass on `io` the new client gets a slot that `poll` has not seen and in
which the stack held `POLLIN`, another client is reported without it, and no `Read`
of the reported ones ends the process. -/
def readsNewcomer (OPEN_MAX : Nat) (s : Server) (io : Io) : Bool :=
  (pollEntry io s 0).pollin &&
  ((freeSlot OPEN_MAX s).any fun k => s.maxi < k && (s.client k).pollin) &&
  ((List.range' 1 s.maxi).any fun i => (pollEntry io s i).revents ≠ 0 && !(pollEntry io s i).pollin) &&
  ((List.range' 1 s.maxi).all fun i => !((pollEntry io s i).pollin && io.fatal i))

/-! ## The table -/

structure Inv (listenfd : Int) (s : Server) : Prop where
  nonneg : 0 ≤ listenfd
  listening : (s.client 0).fd = listenfd
  free : ∀ i, s.maxi < i → (s.client i).fd < 0

theorem pollEntry_fd (io : Io) (s : Server) (i : Nat) : (pollEntry io s i).fd = (s.client i).fd := by
  unfold pollEntry
  split <;> rfl

theorem pollEntry_revents {i : Nat} (hi : i ≤ s.maxi) (hfd : (s.client i).fd < 0) : (pollEntry io s i).revents = 0 := by
  unfold pollEntry
  rw [if_pos hi]
  exact if_pos hfd

theorem pollEntry_behind {i : Nat} (hi : s.maxi < i) : pollEntry io s i = s.client i := if_neg (Nat.not_le.mpr hi)

/-- What has `POLLIN` is not 0. -/
theorem revents_of_pollin {p : Pollfd} (h : p.pollin = true) : p.revents ≠ 0 := by
  intro hzero
  rw [Pollfd.pollin, hzero] at h
  exact absurd h (by decide)

theorem fd_of_pollin {i : Nat} (hi : i ≤ s.maxi) (h : (pollEntry io s i).pollin = true) : 0 ≤ (s.client i).fd := by
  by_contra hneg
  exact revents_of_pollin h (pollEntry_revents hi (Int.not_le.mp hneg))

theorem freeSlot_poll (io : Io) (s : Server) : freeSlot OPEN_MAX (poll io s) = freeSlot OPEN_MAX s := by
  unfold freeSlot
  congr 1
  funext i
  exact congrArg (fun fd => decide (fd < 0)) (pollEntry_fd io s i)

theorem freeSlot_some {k : Nat} (h : freeSlot OPEN_MAX s = some k) :
    1 ≤ k ∧ k < OPEN_MAX ∧ (s.client k).fd < 0 ∧ ∀ i, 1 ≤ i → i < k → 0 ≤ (s.client i).fd := by
  obtain ⟨hfree, hin, hbusy⟩ := List.find?_range'_eq_some.mp h
  obtain ⟨hpos, hlt⟩ := List.mem_range'_1.mp hin
  refine ⟨hpos, by omega, of_decide_eq_true hfree, fun i hi hik => ?_⟩
  simpa using hbusy i hi hik

/-- The search for a free slot goes no further than one behind `maxi`. -/
theorem freeSlot_le (h : Inv listenfd s) {k : Nat} (hk : freeSlot OPEN_MAX s = some k) : k ≤ s.maxi + 1 := by
  obtain ⟨-, -, -, hbusy⟩ := freeSlot_some hk
  by_contra hlt
  have hfree := h.free (s.maxi + 1) (Nat.lt_succ_self _)
  have := hbusy (s.maxi + 1) (by omega) (by omega)
  omega

theorem poll_inv (h : Inv listenfd s) : Inv listenfd (poll io s) := by
  refine ⟨h.nonneg, (pollEntry_fd io s 0).trans h.listening, fun i hi => ?_⟩
  show (pollEntry io s i).fd < 0
  rw [pollEntry_fd]
  exact h.free i hi

theorem acceptClient_inv (h : Inv listenfd s) {k : Nat} (hk : 1 ≤ k) : Inv listenfd (acceptClient io k s) := by
  refine ⟨h.nonneg, ?_, fun i hi => ?_⟩
  · rw [show (acceptClient io k s).client 0 = s.client 0 from if_neg (by omega)]
    exact h.listening
  · have hle : s.maxi < i ∧ i ≠ k := by
      simp only [acceptClient] at hi
      split at hi <;> omega
    rw [show (acceptClient io k s).client i = s.client i from if_neg hle.2]
    exact h.free i hle.1

theorem closeClient_inv (h : Inv listenfd s) {k : Nat} (hk : 1 ≤ k) : Inv listenfd (closeClient k s) := by
  refine ⟨h.nonneg, ?_, fun i hi => ?_⟩
  · rw [show (closeClient k s).client 0 = s.client 0 from if_neg (by omega)]
    exact h.listening
  · by_cases hik : i = k
    · rw [hik, show (closeClient k s).client k = { s.client k with fd := -1 } from if_pos rfl]
      exact Int.negSucc_lt_zero 0
    · rw [show (closeClient k s).client i = s.client i from if_neg hik]
      exact h.free i hi

/-! ## The loop over the clients -/

/-- A read changes the slot of its client, if at all, and ends the process just if it is
fatal. -/
theorem readClient_frame (io : Io) (s : Server) (i : Nat) : ∃ client writes,
    readClient io i s = { s with
      client, writes
      reads := s.reads ++ [(s.client i).fd]
      exited := s.exited || io.fatal i
      nready := s.nready - 1 } ∧
    (client = s.client ∨ client = (closeClient i s).client) := by
  unfold readClient Io.fatal
  cases io.read i with
  | error e =>
    by_cases he : e = ECONNRESET
    · exact ⟨_, s.writes, by simp [he, closeClient], .inr rfl⟩
    · exact ⟨_, s.writes, by simp [he], .inl rfl⟩
  | ok buf =>
    cases buf with
    | nil => exact ⟨_, s.writes, by simp [closeClient], .inr rfl⟩
    | cons b bs =>
      exact ⟨_, s.writes ++ [((s.client i).fd, (b :: bs).map toupper)], by simp, .inl rfl⟩

@[simp] theorem readClient_reported (io : Io) (s : Server) (i : Nat) : (readClient io i s).reported = s.reported := by
  obtain ⟨client, writes, he, -⟩ := readClient_frame io s i
  rw [he]

theorem readClient_nready (io : Io) (s : Server) (i : Nat) : (readClient io i s).nready = s.nready - 1 := by
  obtain ⟨client, writes, he, -⟩ := readClient_frame io s i
  rw [he]

theorem readClient_exited (io : Io) (s : Server) (i : Nat) :
    (readClient io i s).exited = (s.exited || io.fatal i) := by
  obtain ⟨client, writes, he, -⟩ := readClient_frame io s i
  rw [he]

theorem readClient_reads (io : Io) (s : Server) (i : Nat) :
    (readClient io i s).reads = s.reads ++ [(s.client i).fd] := by
  obtain ⟨client, writes, he, -⟩ := readClient_frame io s i
  rw [he]

theorem readClient_client (io : Io) (s : Server) (i j : Nat) (hij : i ≠ j) :
    (readClient io i s).client j = s.client j := by
  obtain ⟨client, writes, he, rfl | rfl⟩ := readClient_frame io s i
  · rw [he]
  · rw [he]
    exact if_neg (Ne.symm hij)

theorem Inv.congr (h : Inv listenfd s) (hclient : s'.client = s.client) (hmaxi : s'.maxi = s.maxi) :
    Inv listenfd s' := by
  refine ⟨h.nonneg, ?_, ?_⟩
  · rw [hclient]
    exact h.listening
  · rw [hclient, hmaxi]
    exact h.free

theorem readClient_inv (h : Inv listenfd s) {k : Nat} (hk : 1 ≤ k) : Inv listenfd (readClient io k s) := by
  obtain ⟨client, writes, he, rfl | rfl⟩ := readClient_frame io s k
  · rw [he]
    exact h.congr rfl rfl
  · rw [he]
    exact (closeClient_inv h hk).congr rfl rfl

theorem readClient_due (io : Io) (s : Server) (i j : Nat) (hij : i ≠ j) : due (readClient io i s) j = due s j := by
  rw [due, due, readClient_client io s i j hij]

def dueSlots (s : Server) : List Nat := (List.range' 1 s.maxi).filter (due s)

/-- What the loop over the clients leaves when it has read those in `done`. -/
structure Scanned (listenfd : Int) (io : Io) (done : List Nat) (s s' : Server) : Prop where
  inv : Inv listenfd s'
  reported : s'.reported = s.reported
  reads : s'.reads = s.reads ++ done.map fun i => (s.client i).fd
  exited : s'.exited = (s.exited || done.any io.fatal)
  nready : s'.nready = s.nready - done.length

theorem scanned (h : Inv listenfd s) {done : List Nat} (hd : done <+: dueSlots s) :
    Scanned listenfd io done s (Scan.serveAll (readClient io) done s) := by
  have hmem : ∀ i ∈ done, 1 ≤ i := by
    intro i hi
    exact (List.mem_range'_1.mp (List.mem_of_mem_filter (hd.subset hi))).1
  have hnodup : done.Nodup := ((List.nodup_range' 1).filter _).sublist hd.sublist
  refine ⟨?_, ?_, ?_, ?_, ?_⟩
  · exact Scan.serveAll_keeps (fun i hi s hs => readClient_inv hs (hmem i hi)) h
  · exact Scan.serveAll_keeps (P := fun s' => s'.reported = s.reported)
      (fun i _ s' hs => (readClient_reported io s' i).trans hs) rfl
  · refine Scan.serveAll_log (readClient_reads io) (fun s i j hij => ?_) hnodup s
    exact congrArg Pollfd.fd (readClient_client io s i j hij)
  · exact Scan.serveAll_flag (readClient_exited io) done s
  · exact Scan.serveAll_count (readClient_nready io) done s

theorem scan_ends (io : Io) (s : Server) :
    ∃ done, Scan.Ends (readClient io) scanStops (dueSlots s) done s (scan io s) :=
  Scan.loop_ends (readClient_due io) s.maxi 1 s

/-! ## What the loop finds -/

/-- The clients for which `poll` reports `POLLIN`. -/
def readySlots (io : Io) (s : Server) : List Nat := (List.range' 1 s.maxi).filter fun i => (pollEntry io s i).pollin

/-- The slots that `poll` has not seen and the loop takes for ready. -/
def straySlots (OPEN_MAX : Nat) (io : Io) (s : Server) : List Nat :=
  (freeSlot OPEN_MAX s).toList.filter fun k => (pollEntry io s 0).pollin && s.maxi < k && (s.client k).pollin

/-- The clients that `poll` counts. -/
def countedSlots (io : Io) (s : Server) : List Nat :=
  (List.range' 1 s.maxi).filter fun i => (pollEntry io s i).revents ≠ 0

theorem readySlots_eq (io : Io) (s : Server) :
    readySlots io s = (countedSlots io s).filter fun i => (pollEntry io s i).pollin := by
  rw [countedSlots, List.filter_filter, readySlots]
  apply List.filter_congr
  intro i _
  cases hp : (pollEntry io s i).pollin with
  | false => rfl
  | true => simp [revents_of_pollin hp]

theorem ready_le_counted (io : Io) (s : Server) : (readySlots io s).length ≤ (countedSlots io s).length := by
  rw [readySlots_eq]
  exact List.length_filter_le _ _

theorem ready_lt_counted : (readySlots io s).length < (countedSlots io s).length ↔
    ∃ i ∈ List.range' 1 s.maxi, (pollEntry io s i).revents ≠ 0 ∧ (pollEntry io s i).pollin = false := by
  rw [readySlots_eq, List.length_filter_lt_length_iff_exists]
  constructor
  · rintro ⟨i, hi, hno⟩
    obtain ⟨hin, hne⟩ := List.mem_filter.mp hi
    exact ⟨i, hin, of_decide_eq_true hne, eq_false_of_ne_true (by simpa using hno)⟩
  · rintro ⟨i, hin, hne, hno⟩
    exact ⟨i, List.mem_filter.mpr ⟨hin, decide_eq_true hne⟩, by simp [hno]⟩

theorem readsNewcomer_iff : readsNewcomer OPEN_MAX s io = true ↔ straySlots OPEN_MAX io s ≠ [] ∧
    (readySlots io s).length < (countedSlots io s).length ∧ (readySlots io s).any io.fatal = false := by
  rw [ready_lt_counted, readsNewcomer, Bool.and_eq_true, Bool.and_eq_true, Bool.and_eq_true, and_assoc, and_assoc]
  have hslot : ((pollEntry io s 0).pollin = true ∧
      ((freeSlot OPEN_MAX s).any fun k => s.maxi < k && (s.client k).pollin) = true) ↔
      straySlots OPEN_MAX io s ≠ [] := by
    unfold straySlots
    cases freeSlot OPEN_MAX s with
    | none => simp
    | some k => simp [List.filter_cons, and_assoc]
  have hother : ((List.range' 1 s.maxi).any fun i =>
        (pollEntry io s i).revents ≠ 0 && !(pollEntry io s i).pollin) = true ↔
      ∃ i ∈ List.range' 1 s.maxi, (pollEntry io s i).revents ≠ 0 ∧ (pollEntry io s i).pollin = false := by
    simp [List.any_eq_true]
  have hsurvives : ((List.range' 1 s.maxi).all fun i => !((pollEntry io s i).pollin && io.fatal i)) = true ↔
      (readySlots io s).any io.fatal = false := by
    rw [readySlots, List.any_filter, ← List.not_any_eq_all_not, Bool.not_eq_true']
  rw [← hslot, hother, hsurvives, and_assoc]

/-! ## Where the loop begins -/

theorem poll_nready (io : Io) (s : Server) : ((countedSlots io s).length : Int) ≤ (poll io s).nready ∧
    ((pollEntry io s 0).pollin = true → (poll io s).nready = (countedSlots io s).length + 1) := by
  have hrange : List.range (s.maxi + 1) = 0 :: List.range' 1 s.maxi := by
    rw [List.range_eq_range', List.range'_succ]
  have hcount : (poll io s).nready
      = (((0 :: List.range' 1 s.maxi).filter fun i => (pollEntry io s i).revents ≠ 0).length : Int) := by
    rw [← hrange]
    rfl
  rw [hcount, List.filter_cons]
  constructor
  · split
    · rw [List.length_cons]
      exact Int.ofNat_le.mpr (Nat.le_succ _)
    · exact Int.le_refl _
  · intro hp
    rw [if_pos (decide_eq_true (revents_of_pollin hp)), List.length_cons]
    rfl

/-- What the loop has before it. -/
structure Begins (OPEN_MAX : Nat) (listenfd : Int) (io : Io) (s s1 : Server) : Prop where
  inv : Inv listenfd s1
  due : dueSlots s1 = readySlots io s ++ straySlots OPEN_MAX io s
  client : ∀ i ∈ readySlots io s, (s1.client i).fd = (s.client i).fd
  stray : ∀ k ∈ straySlots OPEN_MAX io s, (pollEntry io s 0).pollin = true ∧ (s1.client k).fd = io.connfd
  reported : s1.reported = (poll io s).reported
  reads : s1.reads = []
  exited : s1.exited = s.exited
  counted : ((countedSlots io s).length : Int) ≤ s1.nready
  exact : straySlots OPEN_MAX io s ≠ [] → s1.nready = (countedSlots io s).length

theorem due_poll {i : Nat} (hi : i ≤ s.maxi) : due (poll io s) i = (pollEntry io s i).pollin := by
  show (decide (0 ≤ (pollEntry io s i).fd) && (pollEntry io s i).pollin) = _
  cases hp : (pollEntry io s i).pollin with
  | false => rw [Bool.and_false]
  | true => rw [pollEntry_fd, decide_eq_true (fd_of_pollin hi hp), Bool.and_true]

theorem dueSlots_poll (io : Io) (s : Server) : dueSlots (poll io s) = readySlots io s := by
  apply List.filter_congr
  intro i hi
  obtain ⟨-, hlt⟩ := List.mem_range'_1.mp hi
  exact due_poll (Nat.le_of_lt_succ (by rwa [Nat.add_comm] at hlt))

theorem poll_begins (h : Inv listenfd s) (hp : (pollEntry io s 0).pollin = false) :
    Begins OPEN_MAX listenfd io s (poll io s) := by
  have hnone : straySlots OPEN_MAX io s = [] := by
    unfold straySlots
    rw [hp]
    simp
  refine ⟨poll_inv h, ?_, fun i _ => pollEntry_fd io s i, ?_, rfl, rfl, rfl, (poll_nready io s).1, ?_⟩
  · rw [dueSlots_poll, hnone, List.append_nil]
  · rw [hnone]
    exact fun k hk => absurd hk List.not_mem_nil
  · exact fun hne => absurd hnone hne

theorem acceptClient_begins (h : Inv listenfd s) (hp : (pollEntry io s 0).pollin = true) {k : Nat}
    (hk : freeSlot OPEN_MAX s = some k) (hpos : 0 ≤ io.connfd) :
    Begins OPEN_MAX listenfd io s (acceptClient io k (poll io s)) := by
  obtain ⟨hk1, -, hneg, -⟩ := freeSlot_some hk
  have hslot : (acceptClient io k (poll io s)).client k
      = { pollEntry io s k with fd := io.connfd, events := POLLIN } := if_pos rfl
  have hrest {i : Nat} (hi : i ≠ k) : (acceptClient io k (poll io s)).client i = pollEntry io s i := if_neg hi
  have hnew : due (acceptClient io k (poll io s)) k = (pollEntry io s k).pollin := by
    rw [due, hslot, decide_eq_true hpos, Bool.true_and]
    rfl
  have hdue {i : Nat} (hi : i ≤ s.maxi) : due (acceptClient io k (poll io s)) i = (pollEntry io s i).pollin := by
    by_cases hik : i = k
    · rw [hik, hnew]
    · rw [← due_poll hi, due, due, hrest hik]
      rfl
  have hready : (List.range' 1 s.maxi).filter (due (acceptClient io k (poll io s))) = readySlots io s := by
    apply List.filter_congr
    intro i hi
    have := List.mem_range'_1.mp hi
    exact hdue (by omega)
  have hstray : straySlots OPEN_MAX io s = [k].filter fun k => s.maxi < k && (s.client k).pollin := by
    rw [straySlots, hk, hp]
    rfl
  have hcount : (acceptClient io k (poll io s)).nready = (countedSlots io s).length := by
    have := (poll_nready io s).2 hp
    show (poll io s).nready - 1 = _
    omega
  refine ⟨acceptClient_inv (poll_inv h) hk1, ?_, fun i hi => ?_, fun i hi => ⟨hp, ?_⟩, rfl, rfl, rfl,
    Int.le_of_eq hcount.symm, fun _ => hcount⟩
  · rw [hstray, List.filter_singleton]
    by_cases hlt : s.maxi < k
    · have hmaxi : (acceptClient io k (poll io s)).maxi = s.maxi + 1 :=
        (if_pos hlt).trans (Nat.le_antisymm (freeSlot_le h hk) hlt)
      have hke : k = 1 + s.maxi := by
        have := freeSlot_le h hk
        omega
      rw [dueSlots, hmaxi, List.range'_1_concat, List.filter_append, hready, ← hke, List.filter_singleton, hnew,
        pollEntry_behind hlt, decide_eq_true hlt, Bool.true_and]
    · rw [dueSlots, show (acceptClient io k (poll io s)).maxi = s.maxi from if_neg hlt, hready,
        decide_eq_false hlt, Bool.false_and]
      simp
  · have hin := List.mem_filter.mp hi
    have hfd := fd_of_pollin (by have := List.mem_range'_1.mp hin.1; omega) hin.2
    have hik : i ≠ k := by
      rintro rfl
      omega
    rw [hrest hik, pollEntry_fd]
  · rw [hstray] at hi
    obtain rfl := List.mem_singleton.mp (List.mem_of_mem_filter hi)
    rw [hslot]

/-- The ways through a pass. -/
theorem pass_begins (h : Inv listenfd s) (hs : pass OPEN_MAX s io = some s') :
    s.exited = false ∧ io.Possible OPEN_MAX s ∧ ∃ s1, Begins OPEN_MAX listenfd io s s1 ∧
      (s1.nready ≤ 0 ∧ s' = s1 ∨ (straySlots OPEN_MAX io s ≠ [] → 0 < s1.nready) ∧ s' = scan io s1) := by
  unfold pass at hs
  obtain ⟨⟨hlive, hio⟩, hs⟩ := Option.ite_none_right_eq_some.mp hs
  refine ⟨hlive, hio, ?_⟩
  dsimp only at hs
  split at hs
  case isTrue hp =>
    rw [freeSlot_poll] at hs
    cases hk : freeSlot OPEN_MAX s with
    | none =>
      rw [hk] at hs
      cases hs
    | some k =>
      simp only [hk] at hs
      refine ⟨_, acceptClient_begins h hp hk (hio hp).1, ?_⟩
      split at hs
      case isTrue hle =>
        cases hs
        exact .inl ⟨hle, rfl⟩
      case isFalse hgt =>
        cases hs
        exact .inr ⟨fun _ => Int.not_le.mp hgt, rfl⟩
  case isFalse hp =>
    cases hs
    have hb : Begins OPEN_MAX listenfd io s (poll io s) := poll_begins h (eq_false_of_ne_true hp)
    refine ⟨_, hb, .inr ⟨fun hne => ?_, rfl⟩⟩
    obtain ⟨k, hk⟩ := List.exists_mem_of_ne_nil _ hne
    exact absurd (hb.stray k hk).1 hp

/-! ## Where the loop ends -/

/-- A pass read the clients in `done`. -/
structure Reads (OPEN_MAX : Nat) (io : Io) (s : Server) (done : List Nat) (exited : Bool) : Prop where
  isPrefix : done <+: readySlots io s ++ straySlots OPEN_MAX io s
  ready : readsNewcomer OPEN_MAX s io = false → done <+: readySlots io s ∧ (exited = false → done = readySlots io s)
  newcomer : readsNewcomer OPEN_MAX s io = true → done = readySlots io s ++ straySlots OPEN_MAX io s

theorem scanStops_iff : scanStops s = true ↔ s.exited = true ∨ s.nready ≤ 0 := by
  rw [scanStops, Bool.or_eq_true, decide_eq_true_eq]

theorem skip_reads (hb : Begins OPEN_MAX listenfd io s s1) (hle : s1.nready ≤ 0) (exited : Bool) :
    Reads OPEN_MAX io s [] exited := by
  have hcounted := hb.counted
  have hready := ready_le_counted io s
  refine ⟨List.nil_prefix, fun _ => ⟨List.nil_prefix, fun _ => ?_⟩, fun hnew => ?_⟩
  · exact (List.eq_nil_of_length_eq_zero (by omega)).symm
  · obtain ⟨-, hlt, -⟩ := readsNewcomer_iff.mp hnew
    omega

/-- The countdown, or the end of the process, keeps the loop away from the new client. -/
theorem stops_before_stray (hb : Begins OPEN_MAX listenfd io s s1)
    (hpos : straySlots OPEN_MAX io s ≠ [] → 0 < s1.nready) (hstray : straySlots OPEN_MAX io s ≠ [])
    (hno : readsNewcomer OPEN_MAX s io = false) : readySlots io s ≠ [] ∧
      scanStops (Scan.serveAll (readClient io) (readySlots io s) s1) = true := by
  have hexact := hb.exact hstray
  have hle := ready_le_counted io s
  have hscan : Scanned listenfd io (readySlots io s) s1 _ := scanned hb.inv (hb.due ▸ List.prefix_append _ _)
  rw [scanStops_iff, hscan.exited, hscan.nready]
  by_cases hfatal : (readySlots io s).any io.fatal = true
  · refine ⟨?_, .inl (by rw [hfatal, Bool.or_true])⟩
    rintro hnil
    rw [hnil] at hfatal
    cases hfatal
  · have hlt : ¬ (readySlots io s).length < (countedSlots io s).length := by
      intro hlt
      rw [readsNewcomer_iff.mpr ⟨hstray, hlt, eq_false_of_ne_true hfatal⟩] at hno
      cases hno
    have := hpos hstray
    refine ⟨?_, .inr (by omega)⟩
    rintro hnil
    rw [hnil, List.length_nil] at hlt
    omega

theorem stray_length (OPEN_MAX : Nat) (io : Io) (s : Server) : (straySlots OPEN_MAX io s).length ≤ 1 := by
  unfold straySlots
  refine Nat.le_trans (List.length_filter_le _ _) ?_
  cases freeSlot OPEN_MAX s <;> simp

theorem scan_reads (hb : Begins OPEN_MAX listenfd io s s1) (hlive : s.exited = false)
    (hpos : straySlots OPEN_MAX io s ≠ [] → 0 < s1.nready) :
    ∃ done, Scanned listenfd io done s1 (scan io s1) ∧ Reads OPEN_MAX io s done (scan io s1).exited := by
  obtain ⟨done, hends⟩ := scan_ends io s1
  have hscan : Scanned listenfd io done s1 (scan io s1) := hends.result ▸ scanned hb.inv hends.isPrefix
  have hle := ready_le_counted io s
  have hcounted := hb.counted
  have hexited : (scan io s1).exited = done.any io.fatal := by
    rw [hscan.exited, hb.exited, hlive, Bool.false_or]
  refine ⟨done, hscan, hb.due ▸ hends.isPrefix, fun hno => ?_, fun hnew => ?_⟩
  · have hdone : done <+: readySlots io s := by
      by_cases hstray : straySlots OPEN_MAX io s = []
      · have := hends.isPrefix
        rwa [hb.due, hstray, List.append_nil] at this
      · obtain ⟨hne, hstop⟩ := stops_before_stray hb hpos hstray hno
        exact hends.stops (hb.due ▸ List.prefix_append _ _) hne hstop
    refine ⟨hdone, fun hlives => hdone.eq_of_length_le ?_⟩
    rcases hends.rest with hall | ⟨-, hstop⟩
    · rw [hall, hb.due, List.length_append]
      omega
    · rw [scanStops_iff, hlives, hscan.nready] at hstop
      rcases hstop with hstop | hstop
      · cases hstop
      · omega
  · obtain ⟨hstray, hlt, hsurvives⟩ := readsNewcomer_iff.mp hnew
    have hexact := hb.exact hstray
    rcases hends.rest with hall | ⟨-, hstop⟩
    · rw [hall, hb.due]
    · -- stopped by the count or by a failed `Read`, the loop is past the clients that were reported
      have hlong : (readySlots io s).length < done.length := by
        by_contra hshort
        have hdone : done <+: readySlots io s :=
          List.prefix_of_prefix_length_le hends.isPrefix (hb.due ▸ List.prefix_append _ _) (Nat.le_of_not_lt hshort)
        rw [scanStops_iff, hexited, hscan.nready] at hstop
        rcases hstop with hstop | hstop
        · obtain ⟨i, hi, hfatal⟩ := List.any_eq_true.mp hstop
          exact List.any_eq_false.mp hsurvives i (hdone.subset hi) hfatal
        · omega
      have := stray_length OPEN_MAX io s
      rw [← hb.due]
      apply hends.isPrefix.eq_of_length_le
      rw [hb.due, List.length_append]
      omega

/-! ## A pass -/

theorem mem_reported {fd : Int} :
    fd ∈ (poll io s).reported ↔ ∃ i ≤ s.maxi, (pollEntry io s i).pollin = true ∧ (s.client i).fd = fd := by
  rw [show (poll io s).reported = ((List.range (s.maxi + 1)).filter fun i => (pollEntry io s i).pollin).map
    fun i => (s.client i).fd from rfl, List.mem_map]
  constructor
  · rintro ⟨i, hi, hfd⟩
    obtain ⟨hin, hp⟩ := List.mem_filter.mp hi
    exact ⟨i, Nat.le_of_lt_succ (List.mem_range.mp hin), hp, hfd⟩
  · rintro ⟨i, hi, hp, hfd⟩
    exact ⟨i, List.mem_filter.mpr ⟨List.mem_range.mpr (Nat.lt_succ_of_le hi), hp⟩, hfd⟩

/-- A pass is a loop that read the clients in `done`. -/
theorem pass_reads (h : Inv listenfd s) (hs : pass OPEN_MAX s io = some s') :
    ∃ s1 done, Begins OPEN_MAX listenfd io s s1 ∧ Scanned listenfd io done s1 s' ∧
      Reads OPEN_MAX io s done s'.exited := by
  obtain ⟨hlive, -, s1, hb, ⟨hle, rfl⟩ | ⟨hpos, rfl⟩⟩ := pass_begins h hs
  · exact ⟨s', [], hb, scanned hb.inv List.nil_prefix, skip_reads hb hle _⟩
  · obtain ⟨done, hscan, hreads⟩ := scan_reads hb hlive hpos
    exact ⟨s1, done, hb, hscan, hreads⟩

theorem pass_inv (h : Inv listenfd s) (hs : pass OPEN_MAX s io = some s') : Inv listenfd s' := by
  obtain ⟨_, _, -, hscan, -⟩ := pass_reads h hs
  exact hscan.inv

theorem pass_ready (h : Inv listenfd s) (hno : readsNewcomer OPEN_MAX s io = false)
    (hs : pass OPEN_MAX s io = some s') : ReadsReady listenfd s' := by
  obtain ⟨s1, done, hb, hscan, hreads⟩ := pass_reads h hs
  obtain ⟨hdone, hall⟩ := hreads.ready hno
  have hlog : s'.reads = done.map fun i => (s.client i).fd := by
    rw [hscan.reads, hb.reads, List.nil_append]
    exact List.map_congr_left fun i hi => hb.client i (hdone.subset hi)
  have hreported : s'.reported = (poll io s).reported := hscan.reported.trans hb.reported
  constructor
  · intro fd hfd
    rw [hlog] at hfd
    obtain ⟨i, hi, rfl⟩ := List.mem_map.mp hfd
    obtain ⟨hin, hp⟩ := List.mem_filter.mp (hdone.subset hi)
    rw [hreported, mem_reported]
    exact ⟨i, by have := List.mem_range'_1.mp hin; omega, hp, rfl⟩
  · intro hlives fd hfd hne
    rw [hreported, mem_reported] at hfd
    obtain ⟨i, hle, hp, rfl⟩ := hfd
    have hpos : i ≠ 0 := by
      rintro rfl
      exact hne h.listening
    have hin : i ∈ readySlots io s := List.mem_filter.mpr ⟨List.mem_range'_1.mpr ⟨by omega, by omega⟩, hp⟩
    rw [hlog, hall hlives]
    exact List.mem_map_of_mem hin

theorem pass_newcomer (h : Inv listenfd s) (hnew : readsNewcomer OPEN_MAX s io = true)
    (hs : pass OPEN_MAX s io = some s') : ¬ ReadsReady listenfd s' := by
  intro hready
  obtain ⟨-, hio, -⟩ := pass_begins h hs
  obtain ⟨s1, done, hb, hscan, hreads⟩ := pass_reads h hs
  obtain ⟨k, hk⟩ := List.exists_mem_of_ne_nil _ (readsNewcomer_iff.mp hnew).1
  obtain ⟨hp, hfd⟩ := hb.stray k hk
  have hread : io.connfd ∈ s'.reads := by
    rw [hscan.reads, hb.reads, List.nil_append, hreads.newcomer hnew, ← hfd]
    exact List.mem_map_of_mem (List.mem_append_right _ hk)
  have hreported := hready.only _ hread
  rw [hscan.reported, hb.reported, mem_reported] at hreported
  obtain ⟨i, hi, -, he⟩ := hreported
  obtain ⟨hslot, hstale⟩ := List.mem_filter.mp hk
  obtain ⟨-, hlt, -⟩ := freeSlot_some (Option.mem_toList.mp hslot)
  rw [Bool.and_eq_true, Bool.and_eq_true, decide_eq_true_eq] at hstale
  exact (hio hp).2 i (by omega) he

/-! ## Whole runs -/

theorem start_inv (hpos : 0 ≤ listenfd) (mem : Nat → Pollfd) : Inv listenfd (start listenfd mem) := by
  refine ⟨hpos, rfl, fun i hi => ?_⟩
  rw [show (start listenfd mem).client i = { mem i with fd := -1 } from if_neg (Nat.ne_of_gt hi)]
  exact Int.negSucc_lt_zero 0

theorem start_ready (mem : Nat → Pollfd) : ReadsReady listenfd (start listenfd mem) :=
  ⟨fun _ h => absurd h List.not_mem_nil, fun _ _ h => absurd h List.not_mem_nil⟩

/-- Whatever the stack held, a run reads what is ready in each of its passes if and only
if none of them takes a new client for one that `poll` reported. -/
theorem reads_ready_iff (hpos : 0 ≤ listenfd) (mem : Nat → Pollfd) {ios : List Io}
    (hrun : Lts.run (pass OPEN_MAX) ios (start listenfd mem) = some s) :
    Lts.Always (pass OPEN_MAX) (ReadsReady listenfd) ios (start listenfd mem) ↔
      Lts.Along (pass OPEN_MAX) (fun s io => readsNewcomer OPEN_MAX s io = false) ios (start listenfd mem) := by
  apply Lts.always_iff_along (I := fun s => Inv listenfd s ∧ ReadsReady listenfd s) _ _ _ hrun
    ⟨start_inv hpos mem, start_ready mem⟩
  · exact fun s h => h.2
  · exact fun s io s' h hno hs => ⟨pass_inv h.1 hs, pass_ready h.1 hno hs⟩
  · exact fun s io s' h hnew hs => pass_newcomer h.1 (eq_true_of_ne_false hnew) hs

/-- A stack full of ones. -/
def dirtyStack : Nat → Pollfd := fun _ => { fd := -1, events := 1, revents := 1 }

/-- A client connects, and then a second one while the first has an event: it sends, or
it is reported with `POLLHUP` alone. -/
def twoClients (revents : Nat) : List Io :=
  [{ revents := fun _ => POLLIN, connfd := 4 },
    { revents := fun i => if i = 0 then POLLIN else revents, connfd := 5, read := fun _ => .ok [104] }]

/-- The first client sends: the countdown ends at it. -/
theorem reads_ready_iff_two :
    Lts.Always (pass 1024) (ReadsReady 3) (twoClients POLLIN) (start 3 dirtyStack) := by
  have hsome : (Lts.run (pass 1024) (twoClients POLLIN) (start 3 dirtyStack)).isSome = true := by decide +kernel
  obtain ⟨s, hrun⟩ := Option.isSome_iff_exists.mp hsome
  exact (reads_ready_iff (by decide) dirtyStack hrun).mpr (by decide +kernel)

/-- The first client is only reported with `POLLHUP` (16): the second one is read, and
`poll` did not look at it. -/
theorem newcomer_read : ∃ s, Lts.Reach (pass 1024) (start 3 dirtyStack) s ∧ s.reported = [3] ∧ s.reads = [5] ∧
    ¬ ReadsReady 3 s := by
  obtain ⟨s, hr, hs⟩ := Lts.Reach.of_run (pass 1024) (start 3 dirtyStack)
    (fun s => decide (s.reported = [3] ∧ s.reads = [5])) (twoClients 16) (by decide +kernel)
  obtain ⟨hreported, hreads⟩ := of_decide_eq_true hs
  refine ⟨s, hr, hreported, hreads, fun h => ?_⟩
  have hmem := h.only 5 (hreads ▸ List.mem_singleton_self 5)
  rw [hreported] at hmem
  exact absurd hmem (by decide)

end CSocket.PollServer
