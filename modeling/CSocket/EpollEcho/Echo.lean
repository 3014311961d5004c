import CSocket.EpollEcho.Served
/-!
# What the epoll servers echo

Every byte that a peer sent is unread, in `main`'s buffer, written back in its place, or
one that a `Write` did not take. Whenever a server sleeps, nothing is unread.
-/
namespace CSocket.EpollEcho
open Epoll

/-- What `main` has read from a connection and not written. -/
def Pc.held : Pc → Nat → List UInt8
  | write fd bytes _, fd' => if fd' = fd then bytes else []
  | _, _ => []

@[simp] theorem Pc.held_next (b : List (Reg Nat)) (fd : Nat) : (next b).held fd = [] := by
  cases b <;> rfl

@[simp] theorem Program.held_afterWrite (p : Program) (fd : Nat) (rest : List (Reg Nat)) (fd' : Nat) :
    (p.afterWrite fd rest).held fd' = [] := by
  cases p with
  | epoll => exact Pc.held_next rest fd'
  | epollEt => rfl

/-- The accounts of all connections are sound. -/
structure Accounts (s : Server) : Prop where
  opened : ∀ fd ∈ s.epfd.opened, fd ≠ s.lfd → (s.conns fd).Sound id (s.pc.held fd)
  closed : ∀ c ∈ s.closed, c.Sound id []

section
variable {p : Program} {s s' : Server}

theorem accounts_start (lfd : Nat) : Accounts (start lfd) where
  opened fd _ _ := Account.sound_new id []
  closed c hc := by cases hc

/-- What is done to the one connection keeps its account sound, and the others stay. -/
theorem Accounts.put (h : Accounts s) (fd : Nat) (hlfd : s'.lfd = s.lfd) (hopened : s'.epfd.opened = s.epfd.opened)
    (hclosed : s'.closed = s.closed)
    (hother : ∀ fd' ≠ fd, (s'.conns fd').toAccount = (s.conns fd').toAccount ∧ s'.pc.held fd' = s.pc.held fd')
    (hone : (s.conns fd).Sound id (s.pc.held fd) → (s'.conns fd).Sound id (s'.pc.held fd)) : Accounts s' where
  opened fd' hopen hne := by
    rw [hopened] at hopen
    rw [hlfd] at hne
    by_cases hfd : fd' = fd
    · subst hfd
      exact hone (h.opened fd' hopen hne)
    · obtain ⟨hconn, hheld⟩ := hother fd' hfd
      rw [hconn, hheld]
      exact h.opened fd' hopen hne
  closed := by
    rw [hclosed]
    exact h.closed

/-- The accounts stay, and so does what `main` holds. -/
theorem Accounts.move (h : Accounts s) (hlfd : s'.lfd = s.lfd) (hopened : s'.epfd.opened = s.epfd.opened)
    (hclosed : s'.closed = s.closed) (hconns : ∀ fd, (s'.conns fd).toAccount = (s.conns fd).toAccount)
    (hheld : ∀ fd, s'.pc.held fd = s.pc.held fd) : Accounts s' :=
  h.put 0 hlfd hopened hclosed (fun fd _ => ⟨hconns fd, hheld fd⟩) fun hone => by
    rw [hconns, hheld]
    exact hone

theorem accounts_step (hsets : Sets p s) (hbatch : Batch p s) (h : Accounts s) (hs : Step p s s') : Accounts s' := by
  cases hs with
  | report b hpc hrep =>
    refine h.move rfl rfl rfl (fun fd => ?_) fun fd => ?_
    · show (if fd ∈ b.map Reg.fd then { s.conns fd with edge := false } else s.conns fd : Conn).toAccount = _
      split <;> rfl
    · rw [hpc]
      exact Pc.held_next b fd
  | exit hpc =>
    refine h.move rfl rfl rfl (fun _ => rfl) fun fd => ?_
    rcases hpc with hpc | ⟨e, rest, hpc⟩ <;> rw [hpc] <;> rfl
  | accept e rest fd input eof hpc hdata hback hnew =>
    have hheld : s.pc.held = fun _ => [] := by
      rw [hpc]
      rfl
    refine ⟨fun fd' hopen hne => ?_, h.closed⟩
    by_cases hfd : fd' = fd
    · show Account.Sound id (if fd' = fd then { arrived := input, input, eof } else s.conns fd' : Conn).toAccount []
      rw [if_pos hfd]
      exact Account.sound_new id input
    · have hold := h.opened fd' ((Kernel.mem_openFd_opened.mp hopen).resolve_left hfd) hne
      rw [hheld] at hold
      show Account.Sound id (if fd' = fd then { arrived := input, input, eof } else s.conns fd' : Conn).toAccount []
      rwa [if_neg hfd]
  | serve e rest hpc => exact h.move rfl rfl rfl (fun _ => rfl) fun fd => by rw [hpc]; rfl
  | skip e rest hpc => exact h.move rfl rfl rfl (fun _ => rfl) fun fd => by rw [hpc]; exact Pc.held_next rest fd
  | register fd rest hpc =>
    refine h.move rfl (Kernel.ctl_opened Op.add) rfl (fun fd' => ?_) fun fd' => by rw [hpc]; exact Pc.held_next rest fd'
    show (if fd' = fd then { s.conns fd' with edge := _ } else s.conns fd' : Conn).toAccount = _
    split <;> rfl
  | data fd rest n hpc =>
    have hheld : s.pc.held = fun _ => [] := by
      rw [hpc]
      rfl
    refine h.put fd rfl rfl rfl (fun fd' hne => ⟨congrArg Conn.toAccount (consume_other s hne n), ?_⟩) fun hone => ?_
    · rw [hheld]
      exact if_neg hne
    · rw [hheld] at hone
      show Account.Sound id (if fd = fd then { s.conns fd with toAccount := (s.conns fd).take n } else s.conns fd).toAccount
        (if fd = fd then (s.conns fd).input.take n else [])
      rw [if_pos rfl, if_pos rfl]
      exact hone.take n
  | again fd rest hpc => exact h.move rfl rfl rfl (fun _ => rfl) fun fd' => by rw [hpc]; exact Pc.held_next rest fd'
  | ended fd rest hpc => exact h.move rfl rfl rfl (fun _ => rfl) fun fd' => by rw [hpc]; rfl
  | write fd bytes rest k hpc =>
    refine h.put fd rfl rfl rfl (fun fd' hne => ⟨congrArg Conn.toAccount (if_neg hne), ?_⟩) fun hone => ?_
    · rw [hpc]
      exact (p.held_afterWrite fd rest fd').trans (if_neg hne).symm
    · rw [hpc, Pc.held, if_pos rfl] at hone
      show Account.Sound id
        (if fd = fd then { s.conns fd with toAccount := (s.conns fd).put id bytes k } else s.conns fd).toAccount
        ((p.afterWrite fd rest).held fd)
      rw [if_pos rfl, Program.held_afterWrite]
      exact hone.put k
  | close fd rest hpc =>
    have hheld : s.pc.held = fun _ => [] := by
      rw [hpc]
      rfl
    have hserving : s.pc.serving = some fd := by
      rw [hpc]
      rfl
    have hsound : ∀ fd' ∈ s.epfd.opened, fd' ≠ s.lfd → (s.conns fd').Sound id [] := by
      intro fd' hopen hne
      have hold := h.opened fd' hopen hne
      rwa [hheld] at hold
    constructor
    · intro fd' hopen hne
      rw [Pc.held_next]
      exact hsound fd' (mem_close_opened.mp hopen).1 hne
    · intro c hc
      rcases List.mem_cons.mp hc with rfl | hc
      · exact hsound fd (hbatch.serving fd hserving).1.isOpen (hsets.serving fd hserving)
      · exact h.closed c hc
  | connect => exact h.move rfl rfl rfl (fun _ => rfl) fun _ => rfl
  | arrive fd bytes =>
    refine h.put fd rfl rfl rfl (fun fd' hne => ⟨congrArg Conn.toAccount (if_neg hne), rfl⟩) fun hone => ?_
    show Account.Sound id
      (if fd = fd then { s.conns fd with toAccount := (s.conns fd).arrive bytes, edge := true } else s.conns fd).toAccount
      (s.pc.held fd)
    rw [if_pos rfl]
    exact hone.arrive bytes
  | hangup fd =>
    refine h.move rfl rfl rfl (fun fd' => ?_) fun _ => rfl
    show (if fd' = fd then { s.conns fd' with eof := true, edge := true } else s.conns fd' : Conn).toAccount = _
    split <;> rfl

theorem Reachable.accounts (h : Reachable p s) : Accounts s := by
  obtain ⟨lfd, h⟩ := h
  have hboth := h.invariant (P := fun s => Kept p s ∧ Accounts s) (fun s a s' hk hs => ?_)
    ⟨kept_start p lfd, accounts_start lfd⟩
  · exact hboth.2
  · have hstep := step_cases hs
    exact ⟨hk.1.step hstep, accounts_step hk.1.sets hk.1.batch hk.2 hstep⟩

/-- A peer sends eight bytes, which `epoll_et.c` reads and writes in two pieces. -/
theorem echo_run : ∃ s, Reachable .epollEt s ∧ s.pc = .wait ∧ (∀ r ∈ s.epfd.set, ¬ s.Due r) ∧ 5 ∈ s.epfd.opened ∧
    5 ≠ s.lfd := by
  obtain ⟨s, hr, hs⟩ := Lts.Reach.of_run (step .epollEt) (start 3)
    (fun s => decide (s.pc = .wait ∧ (∀ r ∈ s.epfd.set, ¬ s.Due r) ∧ 5 ∈ s.epfd.opened ∧ 5 ≠ s.lfd))
    [.connect, .wait (some [⟨3, 3, EPOLLIN⟩]), .main (.accept 5 [] false), .main .none,
      .arrive 5 [1, 2, 3, 4, 5, 6, 7, 8], .wait (some [⟨5, 5, EPOLLIN⟩]), .main .none, .main (.count 5),
      .main (.count 5), .main (.count 5), .main (.count 3), .main .none] (by decide +kernel)
  exact ⟨s, ⟨3, hr⟩, of_decide_eq_true hs⟩

/-- What arrived on a connection was written back, byte by byte and in its order, or no
`Write` took it, or it is in `main`'s buffer, or it is unread. -/
theorem echo_accounts (h : Reachable p s) :
    (∀ fd ∈ s.epfd.opened, fd ≠ s.lfd → (s.conns fd).Faithful id (s.pc.held fd)) ∧
    ∀ c ∈ s.closed, c.Faithful id [] :=
  ⟨fun fd hopen hne => (h.accounts.opened fd hopen hne).faithful, fun c hc => (h.accounts.closed c hc).faithful⟩

theorem echo_accounts_run : ∃ s, Reachable .epollEt s ∧
    ((∀ fd ∈ s.epfd.opened, fd ≠ s.lfd → (s.conns fd).Faithful id (s.pc.held fd)) ∧
      ∀ c ∈ s.closed, c.Faithful id []) := by
  obtain ⟨s, hr, -⟩ := echo_run
  exact ⟨s, hr, echo_accounts hr⟩

/-- While a server sleeps, every peer has back what it sent, but for what no `Write`
took. -/
theorem echo_complete (h : Reachable p s) (hwait : s.pc = .wait) (hsleep : ∀ r ∈ s.epfd.set, ¬ s.Due r) {fd : Nat}
    (hopen : fd ∈ s.epfd.opened) (hne : fd ≠ s.lfd) :
    (s.conns fd).written.Sublist (s.conns fd).arrived ∧
    (s.conns fd).arrived.length = (s.conns fd).written.length + (s.conns fd).lost := by
  have hsound := h.accounts.opened fd hopen hne
  rw [hwait] at hsound
  have hinput : (s.conns fd).input = [] := by
    refine Classical.byContradiction fun hinput => ?_
    have hready : s.Readable fd := by
      unfold Server.Readable
      rw [if_neg hne]
      exact .inl hinput
    obtain ⟨r, hr, -, hdue⟩ := wait_due h.kept hwait hopen hready
    exact hsleep r hr hdue
  exact ⟨by simpa using hsound.sublist, hsound.complete hinput⟩

theorem echo_complete_run : ∃ s, Reachable .epollEt s ∧ (s.conns 5).written.Sublist (s.conns 5).arrived ∧
    (s.conns 5).arrived.length = (s.conns 5).written.length + (s.conns 5).lost := by
  obtain ⟨s, hr, hwait, hsleep, hopen, hne⟩ := echo_run
  exact ⟨s, hr, echo_complete hr hwait hsleep hopen hne⟩

end

end CSocket.EpollEcho
