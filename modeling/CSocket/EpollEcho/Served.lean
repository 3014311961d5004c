import CSocket.EpollEcho.Code
/-!
# No connection is left behind

Whenever either server waits, `epoll_wait` reports every descriptor that has something to
read: the level-triggered one by what it registered, the edge-triggered one because it
left a connection only after `EAGAIN` (`Edges`). And between two waits neither blocks.
-/
namespace CSocket.EpollEcho
open Epoll

/-! ## What a step can do -/

/-- The state after one step. -/
inductive Step (p : Program) (s : Server) : Server → Prop
  | report (b) : s.pc = .wait → s.Reports b → Step p s { s.report b with pc := .next b }
  | exit : (s.pc = .wait ∨ ∃ e rest, s.pc = .event e rest) → Step p s { s with pc := .exit }
  | accept (e rest fd input eof) : s.pc = .event e rest → e.data = s.lfd → 0 < s.backlog → fd ∉ s.epfd.opened →
      Step p s { s.accept fd input eof with pc := .ctl fd rest }
  | serve (e rest) : s.pc = .event e rest → e.data ≠ s.lfd → Step p s { s with pc := .read e.data rest }
  | skip (e rest) : s.pc = .event e rest → e.events &&& EPOLLIN = 0 → Step p s { s with pc := .next rest }
  | register (fd rest) : s.pc = .ctl fd rest → Step p s { s.register fd p.events with pc := .next rest }
  | data (fd rest n) : s.pc = .read fd rest → fd ∈ s.epfd.opened → n ≤ (s.conns fd).input.length →
      Step p s { s.consume fd n with pc := .write fd ((s.conns fd).input.take n) rest }
  | again (fd rest) : s.pc = .read fd rest → ¬ (s.conns fd).Readable → Step p s { s with pc := .next rest }
  | ended (fd rest) : s.pc = .read fd rest → Step p s { s with pc := .close fd rest }
  | write (fd bytes rest k) : s.pc = .write fd bytes rest →
      Step p s { s.send fd bytes k with pc := p.afterWrite fd rest }
  | close (fd rest) : s.pc = .close fd rest → Step p s { s.close fd with pc := .next rest }
  | connect : Step p s { s with backlog := s.backlog + 1 }
  | arrive (fd bytes) : fd ∈ s.epfd.opened → fd ≠ s.lfd → Step p s (s.arrive fd bytes)
  | hangup (fd) : fd ∈ s.epfd.opened → fd ≠ s.lfd → Step p s (s.hangup fd)

section
variable {p : Program} {s s' : Server}

theorem readResult_cases (p : Program) (s : Server) (fd : Nat) (io : Io) :
    s.readResult p fd io = .ended ∨ fd ∈ s.epfd.opened ∧
      ((∃ n ≤ (s.conns fd).input.length, s.readResult p fd io = .data ((s.conns fd).input.take n)) ∨
        ¬ (s.conns fd).Readable ∧ s.readResult p fd io = match p with
          | .epoll => .blocks
          | .epollEt => .again) := by
  unfold Server.readResult
  by_cases hover : fd ∉ s.epfd.opened ∨ io = .error
  · exact .inl (if_pos hover)
  rw [if_neg hover]
  have hopen : fd ∈ s.epfd.opened := Classical.not_not.mp (not_or.mp hover).1
  by_cases hinput : (s.conns fd).input ≠ []
  · refine .inr ⟨hopen, .inl ⟨min (min p.bufLen (max 1 io.size)) (s.conns fd).input.length, Nat.min_le_right .., ?_⟩⟩
    rw [if_pos hinput, ← List.take_eq_take_min]
  · rw [if_neg hinput]
    by_cases heof : (s.conns fd).eof = true
    · exact .inl (if_pos heof)
    · rw [if_neg heof]
      exact .inr ⟨hopen, .inr ⟨not_or.mpr ⟨hinput, heof⟩, rfl⟩⟩

theorem main_step {io : Io} (h : mainStep p s io = some s') : Step p s s' := by
  unfold mainStep at h
  cases hpc : s.pc with
  | wait =>
    rw [hpc] at h
    cases h
  | exit =>
    rw [hpc] at h
    cases h
  | event e rest =>
    simp only [hpc] at h
    by_cases hlisten : e.data = s.lfd ∧ e.events &&& EPOLLIN ≠ 0
    · rw [if_pos hlisten] at h
      cases io with
      | none => cases h
      | count n => cases h
      | error =>
        cases h
        exact .exit (.inr ⟨e, rest, hpc⟩)
      | accept fd input eof =>
        obtain ⟨⟨hback, hnew⟩, h⟩ := Option.ite_none_right_eq_some.mp h
        cases h
        exact .accept e rest fd input eof hpc hlisten.1 hback hnew
    · rw [if_neg hlisten] at h
      by_cases hin : e.events &&& EPOLLIN ≠ 0
      · rw [if_pos hin] at h
        cases h
        exact .serve e rest hpc fun hdata => hlisten ⟨hdata, hin⟩
      · rw [if_neg hin] at h
        cases h
        exact .skip e rest hpc (Classical.not_not.mp hin)
  | ctl fd rest =>
    simp only [hpc] at h
    cases h
    exact .register fd rest hpc
  | read fd rest =>
    simp only [hpc] at h
    rcases readResult_cases p s fd io with hres | ⟨hopen, ⟨n, hle, hres⟩ | ⟨hnot, hres⟩⟩
    · rw [hres] at h
      cases h
      exact .ended fd rest hpc
    · rw [hres] at h
      cases h
      have hlen : ((s.conns fd).input.take n).length = n := by
        rw [List.length_take]
        exact Nat.min_eq_left hle
      rw [hlen]
      exact .data fd rest n hpc hopen hle
    · cases p with
      | epoll =>
        rw [hres] at h
        cases h
      | epollEt =>
        rw [hres] at h
        cases h
        exact .again fd rest hpc hnot
  | write fd bytes rest =>
    simp only [hpc] at h
    cases h
    exact .write fd bytes rest io.size hpc
  | close fd rest =>
    simp only [hpc] at h
    cases h
    exact .close fd rest hpc

theorem step_cases {a : Act} (h : step p s a = some s') : Step p s s' := by
  cases a with
  | main io => exact main_step h
  | connect =>
    cases h
    exact .connect
  | arrive fd bytes =>
    obtain ⟨⟨hopen, hne, -⟩, h⟩ := Option.ite_none_right_eq_some.mp h
    cases h
    exact .arrive fd bytes hopen hne
  | hangup fd =>
    obtain ⟨⟨hopen, hne⟩, h⟩ := Option.ite_none_right_eq_some.mp h
    cases h
    exact .hangup fd hopen hne
  | wait events =>
    simp only [step] at h
    split at h
    · rename_i hpc
      cases h
      exact .exit (.inl hpc)
    · rename_i b hpc
      obtain ⟨hrep, h⟩ := Option.ite_none_right_eq_some.mp h
      cases h
      exact .report b hpc hrep
    · cases h

end

/-! ## Positions -/

namespace Pc

/-- The events of the batch that were not looked at. -/
def rest : Pc → List (Reg Nat)
  | wait | exit => []
  | event e rest => e :: rest
  | ctl _ rest | read _ rest | write _ _ rest | close _ rest => rest

/-- The connection that is being served. -/
def serving : Pc → Option Nat
  | read fd _ | write fd _ _ | close fd _ => some fd
  | _ => none

/-- The connection that was accepted and is not in the set yet. -/
def adding : Pc → Option Nat
  | ctl fd _ => some fd
  | _ => none

@[simp] theorem rest_next (b : List (Reg Nat)) : (next b).rest = b := by
  cases b <;> rfl
@[simp] theorem serving_next (b : List (Reg Nat)) : (next b).serving = none := by
  cases b <;> rfl
@[simp] theorem adding_next (b : List (Reg Nat)) : (next b).adding = none := by
  cases b <;> rfl

end Pc

@[simp] theorem Program.rest_afterWrite (p : Program) (fd : Nat) (rest : List (Reg Nat)) :
    (p.afterWrite fd rest).rest = rest := by
  cases p with
  | epoll => exact Pc.rest_next rest
  | epollEt => rfl
@[simp] theorem Program.adding_afterWrite (p : Program) (fd : Nat) (rest : List (Reg Nat)) :
    (p.afterWrite fd rest).adding = none := by
  cases p with
  | epoll => exact Pc.adding_next rest
  | epollEt => rfl

/-! ## The set -/

/-- The descriptor is in the epoll set. -/
def Server.Registered (s : Server) (fd : Nat) : Prop := ∃ r ∈ s.epfd.set, r.fd = fd

/-- Every open descriptor is in the set, as `main` put it there. -/
structure Sets (p : Program) (s : Server) : Prop where
  listen : ⟨s.lfd, s.lfd, EPOLLIN⟩ ∈ s.epfd.set
  data : ∀ r ∈ s.epfd.set, r.data = r.fd
  events : ∀ r ∈ s.epfd.set, r.fd ≠ s.lfd → r.events = p.events
  opened : ∀ fd ∈ s.epfd.opened, s.pc.adding = some fd ∨ s.Registered fd
  adding : ∀ fd, s.pc.adding = some fd → fd ∈ s.epfd.opened ∧ ¬ s.Registered fd
  serving : ∀ fd, s.pc.serving = some fd → fd ≠ s.lfd

section
variable {p : Program} {s s' : Server}

theorem Sets.listening (h : Sets p s) : s.Registered s.lfd := ⟨_, h.listen, rfl⟩

theorem Server.Registered.isOpen {fd : Nat} (h : s.Registered fd) : fd ∈ s.epfd.opened := by
  obtain ⟨r, hr, rfl⟩ := h
  exact s.epfd.isOpen r hr

/-- The set stays as it is. -/
theorem Sets.move (h : Sets p s) (hlfd : s'.lfd = s.lfd) (hepfd : s'.epfd = s.epfd)
    (hadding : s'.pc.adding = s.pc.adding) (hserving : ∀ fd, s'.pc.serving = some fd → fd ≠ s.lfd) : Sets p s' := by
  have hreg : ∀ fd, s'.Registered fd ↔ s.Registered fd := fun fd => by simp only [Server.Registered, hepfd]
  constructor
  · rw [hlfd, hepfd]
    exact h.listen
  · rw [hepfd]
    exact h.data
  · rw [hlfd, hepfd]
    exact h.events
  · simpa only [hepfd, hadding, hreg] using h.opened
  · simpa only [hepfd, hadding, hreg] using h.adding
  · rw [hlfd]
    exact hserving

theorem sets_start (p : Program) (lfd : Nat) : Sets p (start lfd) := by
  have hset : ∀ r, r ∈ (start lfd).epfd.set ↔ r = ⟨lfd, lfd, EPOLLIN⟩ := by
    intro r
    have hadd := Kernel.ctl_add (k := Kernel.empty.openFd lfd) (r := ⟨lfd, lfd, EPOLLIN⟩) (by simp) (by simp [Kernel.empty])
    rw [start, hadd.2.2 r]
    simp [Kernel.empty]
  have hopened : ∀ fd, fd ∈ (start lfd).epfd.opened ↔ fd = lfd := by
    intro fd
    rw [start, Kernel.ctl_opened, Kernel.mem_openFd_opened]
    simp [Kernel.empty]
  constructor
  · exact (hset _).mpr rfl
  · intro r hr
    rw [(hset r).mp hr]
  · intro r hr hne
    rw [(hset r).mp hr] at hne
    exact absurd rfl hne
  · intro fd hfd
    exact .inr ⟨_, (hset _).mpr rfl, ((hopened fd).mp hfd).symm⟩
  · intro fd hfd
    cases hfd
  · intro fd hfd
    cases hfd

theorem mem_close {fd : Nat} (r : Reg Nat) : r ∈ (s.close fd).epfd.set ↔ r ∈ s.epfd.set ∧ r.fd ≠ fd := by
  have hdel := Kernel.ctl_del (k := s.epfd.close fd) (r := ⟨fd, fd, 0⟩)
  rw [Server.close, hdel.2 r, Kernel.mem_close]
  simp

theorem mem_close_opened {fd fd' : Nat} : fd' ∈ (s.close fd).epfd.opened ↔ fd' ∈ s.epfd.opened ∧ fd' ≠ fd := by
  rw [Server.close, Kernel.ctl_opened, Kernel.mem_close_opened]

theorem registered_close {fd fd' : Nat} : (s.close fd).Registered fd' ↔ s.Registered fd' ∧ fd' ≠ fd := by
  constructor
  · rintro ⟨r, hr, rfl⟩
    obtain ⟨hr, hne⟩ := (mem_close r).mp hr
    exact ⟨⟨r, hr, rfl⟩, hne⟩
  · rintro ⟨⟨r, hr, rfl⟩, hne⟩
    exact ⟨r, (mem_close r).mpr ⟨hr, hne⟩, rfl⟩

theorem Sets.mem_register (h : Sets p s) {fd : Nat} (hadding : s.pc.adding = some fd) (events : Nat) (r : Reg Nat) :
    r ∈ (s.register fd events).epfd.set ↔ r = ⟨fd, fd, events⟩ ∨ r ∈ s.epfd.set := by
  obtain ⟨hopen, hreg⟩ := h.adding fd hadding
  exact (Kernel.ctl_add (r := ⟨fd, fd, events⟩) hopen fun r hr hfd => hreg ⟨r, hr, hfd⟩).2.2 r

theorem Sets.registered_register (h : Sets p s) {fd : Nat} (hadding : s.pc.adding = some fd) (events fd' : Nat) :
    (s.register fd events).Registered fd' ↔ fd' = fd ∨ s.Registered fd' := by
  constructor
  · rintro ⟨r, hr, rfl⟩
    rcases (h.mem_register hadding events r).mp hr with rfl | hr
    · exact .inl rfl
    · exact .inr ⟨r, hr, rfl⟩
  · rintro (rfl | ⟨r, hr, rfl⟩)
    · exact ⟨_, (h.mem_register hadding events _).mpr (.inl rfl), rfl⟩
    · exact ⟨r, (h.mem_register hadding events r).mpr (.inr hr), rfl⟩

theorem sets_step (h : Sets p s) (hs : Step p s s') : Sets p s' := by
  have hnone : ∀ {pc : Pc}, pc.serving = none → ∀ fd, pc.serving = some fd → fd ≠ s.lfd := by
    intro pc hpc fd hfd
    rw [hpc] at hfd
    cases hfd
  cases hs with
  | report b hpc hrep => exact h.move rfl rfl (by rw [hpc]; exact Pc.adding_next b) (hnone (Pc.serving_next b))
  | exit hpc =>
    refine h.move rfl rfl ?_ (hnone rfl)
    rcases hpc with hpc | ⟨e, rest, hpc⟩ <;> rw [hpc] <;> rfl
  | serve e rest hpc hne =>
    refine h.move rfl rfl (by rw [hpc]; rfl) fun fd hfd => ?_
    cases hfd
    exact hne
  | skip e rest hpc => exact h.move rfl rfl (by rw [hpc]; exact Pc.adding_next rest) (hnone (Pc.serving_next rest))
  | data fd rest n hpc =>
    refine h.move rfl rfl (by rw [hpc]; rfl) fun fd' hfd => h.serving fd' ?_
    rw [hpc]
    exact hfd
  | again fd rest hpc => exact h.move rfl rfl (by rw [hpc]; exact Pc.adding_next rest) (hnone (Pc.serving_next rest))
  | ended fd rest hpc =>
    refine h.move rfl rfl (by rw [hpc]; rfl) fun fd' hfd => h.serving fd' ?_
    rw [hpc]
    exact hfd
  | write fd bytes rest k hpc =>
    refine h.move rfl rfl (by rw [hpc]; exact p.adding_afterWrite fd rest) fun fd' hfd => h.serving fd' ?_
    rw [hpc]
    cases p with
    | epoll => exact absurd hfd (by simp [Program.afterWrite])
    | epollEt => exact hfd
  | connect => exact h.move rfl rfl rfl h.serving
  | arrive fd bytes => exact h.move rfl rfl rfl h.serving
  | hangup fd => exact h.move rfl rfl rfl h.serving
  | accept e rest fd input eof hpc hdata hback hnew =>
    -- the new descriptor is the only one that is open and not in the set
    constructor
    · exact h.listen
    · exact h.data
    · exact h.events
    · intro fd' hopen
      rcases Kernel.mem_openFd_opened.mp hopen with rfl | hopen
      · exact .inl rfl
      · refine .inr ((h.opened fd' hopen).resolve_left fun hadd => ?_)
        rw [hpc] at hadd
        cases hadd
    · intro fd' hfd
      cases hfd
      exact ⟨Kernel.mem_openFd_opened.mpr (.inl rfl), fun hreg => hnew (Server.Registered.isOpen (s := s) hreg)⟩
    · exact hnone rfl
  | register fd rest hpc =>
    have hadding : s.pc.adding = some fd := by
      rw [hpc]
      rfl
    have hset := h.mem_register hadding p.events
    constructor
    · exact (hset _).mpr (.inr h.listen)
    · intro r hr
      rcases (hset r).mp hr with rfl | hr
      · rfl
      · exact h.data r hr
    · intro r hr hne
      rcases (hset r).mp hr with rfl | hr
      · rfl
      · exact h.events r hr hne
    · intro fd' hopen
      have hmem : fd' ∈ s.epfd.opened := by
        rw [← Kernel.ctl_opened]
        exact hopen
      refine .inr ((h.registered_register hadding p.events fd').mpr ?_)
      refine (h.opened fd' hmem).imp_left fun hadd => ?_
      exact Option.some.inj (hadd.symm.trans hadding)
    · intro fd' hfd'
      exact absurd hfd' (by simp)
    · exact hnone (Pc.serving_next rest)
  | close fd rest hpc =>
    have hserving : s.pc.serving = some fd := by
      rw [hpc]
      rfl
    constructor
    · exact (mem_close _).mpr ⟨h.listen, (h.serving fd hserving).symm⟩
    · exact fun r hr => h.data r ((mem_close r).mp hr).1
    · exact fun r hr => h.events r ((mem_close r).mp hr).1
    · intro fd' hopen
      obtain ⟨hopen, hne⟩ := mem_close_opened.mp hopen
      refine .inr (registered_close.mpr ⟨(h.opened fd' hopen).resolve_left fun hadd => ?_, hne⟩)
      rw [hpc] at hadd
      cases hadd
    · intro fd' hfd'
      exact absurd hfd' (by simp)
    · exact hnone (Pc.serving_next rest)

end

/-! ## The batch -/

/-- The events that `main` has not looked at are those of readable descriptors, and so
is what `epoll.c` is about to read. -/
structure Batch (p : Program) (s : Server) : Prop where
  rest : ∀ e ∈ s.pc.rest, e.data = e.fd ∧ e.events &&& EPOLLIN ≠ 0 ∧ s.Registered e.fd ∧ s.Readable e.fd
  nodup : (s.pc.rest.map Reg.fd).Nodup
  serving : ∀ fd, s.pc.serving = some fd → s.Registered fd ∧ fd ∉ s.pc.rest.map Reg.fd
  reading : p = .epoll → ∀ fd rest, s.pc = .read fd rest → (s.conns fd).Readable

section
variable {p : Program} {s s' : Server}

/-- A part of the batch is left, and its descriptors are as they were. -/
theorem Batch.mono (h : Batch p s) (hrest : s'.pc.rest <:+ s.pc.rest)
    (hreg : ∀ fd ∈ s'.pc.rest.map Reg.fd, s.Registered fd → s'.Registered fd)
    (hread : ∀ fd ∈ s'.pc.rest.map Reg.fd, s.Registered fd → s.Readable fd → s'.Readable fd)
    (hserving : ∀ fd, s'.pc.serving = some fd → s'.Registered fd ∧ fd ∉ s'.pc.rest.map Reg.fd)
    (hreading : p = .epoll → ∀ fd rest, s'.pc = .read fd rest → (s'.conns fd).Readable) : Batch p s' where
  rest e he := by
    obtain ⟨hdata, hin, hr, hreadable⟩ := h.rest e (hrest.subset he)
    have hmem := List.mem_map_of_mem (f := Reg.fd) he
    exact ⟨hdata, hin, hreg _ hmem hr, hread _ hmem hr hreadable⟩
  nodup := h.nodup.sublist (hrest.sublist.map Reg.fd)
  serving := hserving
  reading := hreading

theorem batch_start (p : Program) (lfd : Nat) : Batch p (start lfd) where
  rest e he := by cases he
  nodup := List.nodup_nil
  serving fd hfd := by cases hfd
  reading _ fd rest hpc := by cases hpc

theorem Server.Readable.mono {fd : Nat} (h : s.Readable fd) (hlfd : s'.lfd = s.lfd)
    (hlisten : fd = s.lfd → 0 < s.backlog → 0 < s'.backlog)
    (hconn : (s.conns fd).Readable → (s'.conns fd).Readable) : s'.Readable fd := by
  unfold Server.Readable at h ⊢
  rw [hlfd]
  by_cases hfd : fd = s.lfd
  · rw [if_pos hfd] at h ⊢
    exact hlisten hfd h
  · rw [if_neg hfd] at h ⊢
    exact hconn h

/-! What is done to one connection does not make another less readable, nor this one
unless it is read. -/

section
variable (s) (fd fd' : Nat)

theorem readable_report (b : List (Reg Nat)) : ((s.report b).conns fd).Readable ↔ (s.conns fd).Readable := by
  unfold Server.report
  dsimp only
  split <;> rfl

theorem readable_register (events : Nat) : ((s.register fd events).conns fd').Readable ↔ (s.conns fd').Readable := by
  unfold Server.register
  dsimp only
  rw [Server.modify_conns]
  split <;> rfl

theorem readable_send (bytes : List UInt8) (k : Nat) :
    ((s.send fd bytes k).conns fd').Readable ↔ (s.conns fd').Readable := by
  rw [Server.send, Server.modify_conns]
  split <;> rfl

theorem consume_other {fd fd' : Nat} (h : fd' ≠ fd) (n : Nat) : (s.consume fd n).conns fd' = s.conns fd' := if_neg h

theorem readable_arrive (bytes : List UInt8) (h : (s.conns fd').Readable) :
    ((s.arrive fd bytes).conns fd').Readable := by
  rw [Server.arrive, Server.modify_conns]
  split
  · rcases h with hinput | heof
    · exact .inl (by simp [Account.arrive, hinput])
    · exact .inr heof
  · exact h

theorem readable_hangup (h : (s.conns fd').Readable) : ((s.hangup fd).conns fd').Readable := by
  rw [Server.hangup, Server.modify_conns]
  split
  · exact .inr rfl
  · exact h

end

theorem batch_step (hsets : Sets p s) (h : Batch p s) (hs : Step p s s') : Batch p s' := by
  have hnone : ∀ {pc : Pc} {Q : Nat → Prop}, pc.serving = none → ∀ fd, pc.serving = some fd → Q fd := by
    intro pc Q hpc fd hfd
    rw [hpc] at hfd
    cases hfd
  have hnext : ∀ {Q : Nat → Prop} {b : List (Reg Nat)} fd rest, Pc.next b = .read fd rest → Q fd := by
    intro Q b fd rest hpc
    cases b <;> cases hpc
  cases hs with
  | report b hpc hrep =>
    obtain ⟨⟨hset, hnodup⟩, hdue, -⟩ := hrep
    refine ⟨fun e he => ?_, ?_, hnone (Pc.serving_next b), fun _ => hnext⟩
    · simp only [Pc.rest_next] at he
      obtain ⟨r, hr, hfd, hdata⟩ := hset e he
      obtain ⟨hin, r', -, hfd', hready, -⟩ := hdue e he
      refine ⟨by rw [← hdata, hsets.data r hr, hfd], hin, ⟨r, hr, hfd⟩, ?_⟩
      rw [hfd'] at hready
      exact hready.mono rfl (fun _ hback => hback) (readable_report s e.fd b).mpr
    · simp only [Pc.rest_next]
      exact hnodup
  | exit hpc =>
    exact h.mono List.nil_suffix (fun _ _ hr => hr) (fun _ _ _ hr => hr) (hnone rfl) fun _ fd rest hpc => nomatch hpc
  | accept e rest fd input eof hpc hdata hback hnew =>
    obtain ⟨hefd, -, -, -⟩ := h.rest e (by rw [hpc]; exact List.mem_cons_self)
    have hnodup := h.nodup
    rw [hpc] at hnodup
    obtain ⟨hlisten, -⟩ := List.nodup_cons.mp hnodup
    refine h.mono (by rw [hpc]; exact List.suffix_cons e rest) (fun _ _ hr => hr) (fun fd' hmem hr hready => ?_)
      (hnone rfl) fun _ fd rest hpc => nomatch hpc
    -- the listening descriptor's event is used up, and the new connection is not in the set
    have hlfd : fd' ≠ s.lfd := by
      rintro rfl
      exact hlisten ((hdata.symm.trans hefd) ▸ hmem)
    have hfd : fd' ≠ fd := by
      rintro rfl
      exact hnew hr.isOpen
    refine hready.mono rfl (fun hfd' => absurd hfd' hlfd) fun hconn => ?_
    show (if fd' = fd then { arrived := input, input, eof } else s.conns fd' : Conn).Readable
    rwa [if_neg hfd]
  | serve e rest hpc hne =>
    obtain ⟨hdata, -, hreg, hready⟩ := h.rest e (by rw [hpc]; exact List.mem_cons_self)
    have hnodup := h.nodup
    rw [hpc] at hnodup
    obtain ⟨hfresh, -⟩ := List.nodup_cons.mp hnodup
    refine h.mono (by rw [hpc]; exact List.suffix_cons e rest) (fun _ _ hr => hr) (fun _ _ _ hr => hr) ?_ ?_
    · intro fd hfd
      cases hfd
      rw [hdata]
      exact ⟨hreg, hfresh⟩
    · intro _ fd rest hread
      cases hread
      unfold Server.Readable at hready
      rw [if_neg (hdata ▸ hne)] at hready
      rw [hdata]
      exact hready
  | skip e rest hpc =>
    refine h.mono ?_ (fun _ _ hr => hr) (fun _ _ _ hr => hr) (hnone (Pc.serving_next rest)) fun _ => hnext
    rw [hpc]
    simp only [Pc.rest_next]
    exact List.suffix_cons e rest
  | register fd rest hpc =>
    have hadding : s.pc.adding = some fd := by
      rw [hpc]
      rfl
    refine h.mono ?_ (fun fd' _ hr => ?_) (fun fd' _ _ hr => hr.mono rfl (fun _ hback => hback) (readable_register s fd fd' p.events).mpr)
      (hnone (Pc.serving_next rest)) fun _ => hnext
    · rw [hpc]
      simp only [Pc.rest_next]
      exact List.suffix_refl _
    · exact (hsets.registered_register hadding p.events fd').mpr (.inr hr)
  | data fd rest n hpc hopen hle =>
    have hserving := h.serving fd (by rw [hpc]; rfl)
    rw [hpc] at hserving
    refine h.mono (by rw [hpc]; exact List.suffix_refl _) (fun _ _ hr => hr) (fun fd' hmem _ hr => ?_) ?_
      fun _ fd rest hpc => nomatch hpc
    · have hne : fd' ≠ fd := fun hfd => hserving.2 (hfd ▸ hmem)
      exact hr.mono rfl (fun _ hback => hback) fun hconn => (consume_other s hne n) ▸ hconn
    · intro fd' hfd
      cases hfd
      exact hserving
  | again fd rest hpc =>
    refine h.mono ?_ (fun _ _ hr => hr) (fun _ _ _ hr => hr) (hnone (Pc.serving_next rest)) fun _ => hnext
    rw [hpc]
    simp only [Pc.rest_next]
    exact List.suffix_refl _
  | ended fd rest hpc =>
    have hserving := h.serving fd (by rw [hpc]; rfl)
    rw [hpc] at hserving
    refine h.mono (by rw [hpc]; exact List.suffix_refl _) (fun _ _ hr => hr) (fun _ _ _ hr => hr) ?_
      fun _ fd rest hpc => nomatch hpc
    intro fd' hfd
    cases hfd
    exact hserving
  | write fd bytes rest k hpc =>
    have hserving := h.serving fd (by rw [hpc]; rfl)
    rw [hpc] at hserving
    refine h.mono ?_ (fun _ _ hr => hr) 
      (fun fd' _ _ hr => hr.mono rfl (fun _ hback => hback) (readable_send s fd fd' bytes k).mpr) ?_ ?_
    · rw [hpc]
      simp only [Program.rest_afterWrite]
      exact List.suffix_refl _
    · simp only [Program.rest_afterWrite]
      cases p with
      | epoll => exact hnone (Pc.serving_next rest)
      | epollEt =>
        intro fd' hfd
        cases hfd
        exact hserving
    · rintro rfl
      exact hnext
  | close fd rest hpc =>
    have hserving := h.serving fd (by rw [hpc]; rfl)
    rw [hpc] at hserving
    refine h.mono ?_ (fun fd' hmem hr => registered_close.mpr ⟨hr, ?_⟩) (fun _ _ _ hr => hr)
      (hnone (Pc.serving_next rest)) fun _ => hnext
    · rw [hpc]
      simp only [Pc.rest_next]
      exact List.suffix_refl _
    · rintro rfl
      simp only [Pc.rest_next] at hmem
      exact hserving.2 hmem
  | connect =>
    exact h.mono (List.suffix_refl _) (fun _ _ hr => hr)
      (fun fd _ _ hr => hr.mono rfl (fun _ _ => Nat.succ_pos _) fun hconn => hconn) h.serving h.reading
  | arrive fd bytes hopen hne =>
    exact h.mono (List.suffix_refl _) (fun _ _ hr => hr)
      (fun fd' _ _ hr => hr.mono rfl (fun _ hback => hback) (readable_arrive s fd fd' bytes)) h.serving
      fun hp fd' rest hpc => readable_arrive s fd fd' bytes (h.reading hp fd' rest hpc)
  | hangup fd hopen hne =>
    exact h.mono (List.suffix_refl _) (fun _ _ hr => hr)
      (fun fd' _ _ hr => hr.mono rfl (fun _ hback => hback) (readable_hangup s fd fd')) h.serving
      fun hp fd' rest hpc => readable_hangup s fd fd' (h.reading hp fd' rest hpc)

end

/-! ## The edges -/

/-- There is an edge to report, or `main` is on its way to the connection. -/
def Server.Noticed (s : Server) (fd : Nat) : Prop :=
  (s.conns fd).edge = true ∨ fd ∈ s.pc.rest.map Reg.fd ∨ s.pc.serving = some fd

/-- `main` leaves a connection only when there is nothing more to read. -/
def Edges (s : Server) : Prop :=
  s.pc ≠ .exit → ∀ fd, s.Registered fd → fd ≠ s.lfd → (s.conns fd).Readable → s.Noticed fd

section
variable {s s' : Server}

theorem edges_start (lfd : Nat) : Edges (start lfd) := by
  rintro - fd - - (hinput | heof)
  · exact absurd rfl hinput
  · cases heof

/-- The edge of a connection stays, and `main` gets no further from it. -/
theorem Server.Noticed.mono {fd : Nat} (h : s.Noticed fd) (hedge : (s.conns fd).edge = true → (s'.conns fd).edge = true)
    (hrest : fd ∈ s.pc.rest.map Reg.fd → s'.Noticed fd) (hserving : s.pc.serving = some fd → s'.Noticed fd) :
    s'.Noticed fd := by
  rcases h with h | h | h
  · exact .inl (hedge h)
  · exact hrest h
  · exact hserving h

theorem edges_step (hsets : Sets .epollEt s) (hbatch : Batch .epollEt s) (h : Edges s) (hs : Step .epollEt s s') :
    Edges s' := by
  intro hexit fd hreg hfd hready
  cases hs with
  | report b hpc hrep =>
    have hnow := h (by rw [hpc]; exact Pc.noConfusion) fd hreg hfd ((readable_report s fd b).mp hready)
    by_cases hmem : fd ∈ b.map Reg.fd
    · exact .inr (.inl (by simpa using hmem))
    · refine hnow.mono (fun hedge => ?_) (fun hrest => ?_) fun hserving => ?_
      · show (if fd ∈ b.map Reg.fd then { s.conns fd with edge := false } else s.conns fd : Conn).edge = true
        rwa [if_neg hmem]
      · rw [hpc] at hrest
        cases hrest
      · rw [hpc] at hserving
        cases hserving
  | exit => exact absurd rfl hexit
  | accept e rest fd' input eof hpc hdata hback hnew =>
    obtain ⟨hefd, -, -, -⟩ := hbatch.rest e (by rw [hpc]; exact List.mem_cons_self)
    have hne : fd ≠ fd' := by
      rintro rfl
      exact hnew (Server.Registered.isOpen (s := s) hreg)
    have hconn : ({ s.accept fd' input eof with pc := Pc.ctl fd' rest } : Server).conns fd = s.conns fd := if_neg hne
    rw [hconn] at hready
    refine (h (by rw [hpc]; exact Pc.noConfusion) fd hreg hfd hready).mono (fun hedge => hconn ▸ hedge) (fun hrest => ?_)
      fun hserving => ?_
    · rw [hpc] at hrest
      rcases List.mem_cons.mp hrest with rfl | hrest
      · exact absurd (hefd.symm.trans hdata) hfd
      · exact .inr (.inl hrest)
    · rw [hpc] at hserving
      cases hserving
  | serve e rest hpc hne =>
    obtain ⟨hefd, -, -, -⟩ := hbatch.rest e (by rw [hpc]; exact List.mem_cons_self)
    refine (h (by rw [hpc]; exact Pc.noConfusion) fd hreg hfd hready).mono (fun hedge => hedge) (fun hrest => ?_)
      fun hserving => ?_
    · rw [hpc] at hrest
      rcases List.mem_cons.mp hrest with rfl | hrest
      · exact .inr (.inr (congrArg some hefd))
      · exact .inr (.inl hrest)
    · rw [hpc] at hserving
      cases hserving
  | skip e rest hpc hin =>
    exact absurd hin (hbatch.rest e (by rw [hpc]; exact List.mem_cons_self)).2.1
  | register fd' rest hpc =>
    have hadding : s.pc.adding = some fd' := by
      rw [hpc]
      rfl
    have hold := (readable_register s fd' fd Program.epollEt.events).mp hready
    by_cases hnew : fd = fd'
    · -- what came before the registration is an edge of it
      subst hnew
      left
      show (if fd = fd then { s.conns fd with edge := decide (s.conns fd).Readable } else s.conns fd : Conn).edge = true
      rw [if_pos rfl]
      exact decide_eq_true hold
    · have hreg' := ((hsets.registered_register hadding Program.epollEt.events fd).mp hreg).resolve_left hnew
      refine (h (by rw [hpc]; exact Pc.noConfusion) fd hreg' hfd hold).mono (fun hedge => ?_) (fun hrest => ?_)
        fun hserving => ?_
      · show (if fd = fd' then { s.conns fd with edge := decide (s.conns fd).Readable } else s.conns fd : Conn).edge = true
        rwa [if_neg hnew]
      · rw [hpc] at hrest
        exact .inr (.inl ((Pc.rest_next rest).symm ▸ hrest))
      · rw [hpc] at hserving
        cases hserving
  | data fd' rest n hpc hopen hle =>
    by_cases hsame : fd = fd'
    · exact .inr (.inr (congrArg some hsame.symm))
    · have hconn : (s.consume fd' n).conns fd = s.conns fd := consume_other s hsame n
      have hready' : (s.conns fd).Readable := hconn ▸ hready
      refine (h (by rw [hpc]; exact Pc.noConfusion) fd hreg hfd hready').mono (fun hedge => ?_) (fun hrest => ?_)
        fun hserving => ?_
      · show ((s.consume fd' n).conns fd).edge = true
        rwa [hconn]
      · rw [hpc] at hrest
        exact .inr (.inl hrest)
      · rw [hpc] at hserving
        exact absurd (Option.some.inj hserving).symm hsame
  | again fd' rest hpc hnot =>
    refine (h (by rw [hpc]; exact Pc.noConfusion) fd hreg hfd hready).mono (fun hedge => hedge) (fun hrest => ?_)
      fun hserving => ?_
    · rw [hpc] at hrest
      exact .inr (.inl ((Pc.rest_next rest).symm ▸ hrest))
    · rw [hpc] at hserving
      obtain rfl : fd' = fd := Option.some.inj hserving
      exact absurd hready hnot
  | ended fd' rest hpc =>
    refine (h (by rw [hpc]; exact Pc.noConfusion) fd hreg hfd hready).mono (fun hedge => hedge) (fun hrest => ?_)
      fun hserving => ?_
    · rw [hpc] at hrest
      exact .inr (.inl hrest)
    · rw [hpc] at hserving
      exact .inr (.inr hserving)
  | write fd' bytes rest k hpc =>
    refine (h (by rw [hpc]; exact Pc.noConfusion) fd hreg hfd ((readable_send s fd' fd bytes k).mp hready)).mono
      (fun hedge => ?_) (fun hrest => ?_) fun hserving => ?_
    · show ((s.send fd' bytes k).conns fd).edge = true
      rw [Server.send, Server.modify_conns]
      split <;> exact hedge
    · rw [hpc] at hrest
      exact .inr (.inl hrest)
    · rw [hpc] at hserving
      exact .inr (.inr hserving)
  | close fd' rest hpc =>
    obtain ⟨hreg', hne⟩ := registered_close.mp hreg
    refine (h (by rw [hpc]; exact Pc.noConfusion) fd hreg' hfd hready).mono (fun hedge => hedge) (fun hrest => ?_)
      fun hserving => ?_
    · rw [hpc] at hrest
      exact .inr (.inl ((Pc.rest_next rest).symm ▸ hrest))
    · rw [hpc] at hserving
      exact absurd (Option.some.inj hserving).symm hne
  | connect => exact h hexit fd hreg hfd hready
  | arrive fd' bytes hopen hne =>
    by_cases hsame : fd = fd'
    · left
      show (if fd = fd' then { s.conns fd with toAccount := _, edge := true } else s.conns fd : Conn).edge = true
      rw [if_pos hsame]
    · have hconn : (s.arrive fd' bytes).conns fd = s.conns fd := if_neg hsame
      rw [hconn] at hready
      exact (h hexit fd hreg hfd hready).mono (fun hedge => hconn ▸ hedge) (fun h => .inr (.inl h)) fun h => .inr (.inr h)
  | hangup fd' hopen hne =>
    by_cases hsame : fd = fd'
    · left
      show (if fd = fd' then { s.conns fd with eof := true, edge := true } else s.conns fd : Conn).edge = true
      rw [if_pos hsame]
    · have hconn : (s.hangup fd').conns fd = s.conns fd := if_neg hsame
      rw [hconn] at hready
      exact (h hexit fd hreg hfd hready).mono (fun hedge => hconn ▸ hedge) (fun h => .inr (.inl h)) fun h => .inr (.inr h)

end

/-! ## The results -/

/-- What holds in every state. -/
structure Kept (p : Program) (s : Server) : Prop where
  sets : Sets p s
  batch : Batch p s
  edges : p = .epollEt → Edges s

section
variable {p : Program} {s : Server}

theorem kept_start (p : Program) (lfd : Nat) : Kept p (start lfd) :=
  ⟨sets_start p lfd, batch_start p lfd, fun _ => edges_start lfd⟩

theorem Kept.step {s' : Server} (h : Kept p s) (hs : Step p s s') : Kept p s' := by
  refine ⟨sets_step h.sets hs, batch_step h.sets h.batch hs, ?_⟩
  rintro rfl
  exact edges_step h.sets h.batch (h.edges rfl) hs

theorem Reachable.kept (h : Reachable p s) : Kept p s := by
  obtain ⟨lfd, h⟩ := h
  exact h.invariant (P := Kept p) (fun s a s' hk hs => hk.step (step_cases hs)) (kept_start p lfd)

theorem due_of_edge (hevents : ∀ r ∈ s.epfd.set, r.fd ≠ s.lfd → r.events = p.events)
    (hlisten : ⟨s.lfd, s.lfd, EPOLLIN⟩ ∈ s.epfd.set) {r : Reg Nat} (hr : r ∈ s.epfd.set) (hready : s.Readable r.fd)
    (hedge : p = .epollEt → r.fd ≠ s.lfd → (s.conns r.fd).edge = true) : s.Due r := by
  refine ⟨hready, fun hevent => ?_⟩
  by_cases hfd : r.fd = s.lfd
  · obtain rfl := s.epfd.eq_of_fd hr hlisten hfd
    exact absurd (show EPOLLIN &&& EPOLLET = 0 by decide) hevent
  · rw [hevents r hr hfd] at hevent
    cases p with
    | epoll => exact absurd (show EPOLLIN &&& EPOLLET = 0 by decide) hevent
    | epollEt => exact hedge rfl hfd

theorem wait_due (hk : Kept p s) (hwait : s.pc = .wait) {fd : Nat} (hopen : fd ∈ s.epfd.opened)
    (hready : s.Readable fd) : ∃ r ∈ s.epfd.set, r.fd = fd ∧ s.Due r := by
  obtain ⟨r, hr, rfl⟩ : s.Registered fd := (hk.sets.opened fd hopen).resolve_left fun hadd => by
    rw [hwait] at hadd
    cases hadd
  refine ⟨r, hr, rfl, due_of_edge hk.sets.events hk.sets.listen hr hready fun hp hfd => ?_⟩
  have hconn : (s.conns r.fd).Readable := by
    unfold Server.Readable at hready
    rwa [if_neg hfd] at hready
  rcases hk.edges hp (by rw [hwait]; exact Pc.noConfusion) r.fd ⟨r, hr, rfl⟩ hfd hconn with hedge | hrest | hserving
  · exact hedge
  · rw [hwait] at hrest
    cases hrest
  · rw [hwait] at hserving
    cases hserving

/-- While a server waits, `epoll_wait` reports whatever is readable: a peer in the
backlog, unread bytes, or the end of a stream. -/
theorem wait_reports (h : Reachable p s) (hwait : s.pc = .wait) {fd : Nat} (hopen : fd ∈ s.epfd.opened)
    (hready : s.Readable fd) : ∃ r ∈ s.epfd.set, r.fd = fd ∧ s.Due r :=
  wait_due h.kept hwait hopen hready

/-- A peer connects and sends before it is accepted; the edge is reported. -/
theorem wait_reports_early : ∃ s, Reachable .epollEt s ∧ ∃ r ∈ s.epfd.set, r.fd = 5 ∧ s.Due r := by
  obtain ⟨s, hr, hs⟩ := Lts.Reach.of_run (step .epollEt) (start 3)
    (fun s => decide (s.pc = .wait ∧ 5 ∈ s.epfd.opened ∧ s.Readable 5))
    [.connect, .wait (some [⟨3, 3, EPOLLIN⟩]), .main (.accept 5 [104, 105] false), .main .none] (by decide +kernel)
  obtain ⟨hwait, hopen, hready⟩ := of_decide_eq_true hs
  exact ⟨s, ⟨3, hr⟩, wait_reports ⟨3, hr⟩ hwait hopen hready⟩

end

end CSocket.EpollEcho
