import CSocket.ThreadServer.Code
/-!
# Every connection has one owner

In every interleaving an open connection belongs to `main`, to one thread, or to nobody
because its thread could not be created. Only the owner reads, writes or closes it, and
so its account is sound.
-/
namespace CSocket.ThreadServer

/-! ## What a step can do -/

/-- The state after one step. -/
inductive Step (s : Server) : Server → Prop
  | accept (fd peer input eof) : s.pc = .accept → fd ∉ s.opened → Step s (s.accept fd peer input eof)
  | exit : s.pc = .accept → Step s { s with pc := .exit }
  | alloc (cfd) : s.pc = .alloc cfd → Step s (s.alloc cfd)
  | create (info) : s.pc = .create info → Step s (s.create info)
  | orphan (info) : s.pc = .create info → Step s (s.orphan info)
  | begins (i) : (s.threads i).pc = .start → Step s (s.goto i .read)
  | data (i n) : (s.threads i).pc = .read → n ≤ (s.conns (s.cfd i)).input.length →
      Step s ((s.consume (s.cfd i) n).goto i (.write ((s.conns (s.cfd i)).input.take n)))
  | ended (i) : (s.threads i).pc = .read → Step s (s.goto i .close)
  | write (i bytes k) : (s.threads i).pc = .write bytes → Step s ((s.send (s.cfd i) bytes k).goto i .read)
  | close (i) : (s.threads i).pc = .close → Step s ((s.close (s.cfd i)).goto i .done)
  | connect : Step s { s with backlog := s.backlog + 1 }
  | arrive (fd bytes) : Step s (s.arrive fd bytes)
  | hangup (fd) : Step s (s.hangup fd)

section
variable {s s' : Server}

theorem readResult_cases (s : Server) (fd : Nat) (io : Io) :
    s.readResult fd io = .ended ∨
      (∃ n ≤ (s.conns fd).input.length, s.readResult fd io = .data ((s.conns fd).input.take n)) ∨
      ¬ (s.conns fd).Readable ∧ s.readResult fd io = .blocks := by
  unfold Server.readResult
  by_cases hover : fd ∉ s.opened ∨ io = .error
  · exact .inl (if_pos hover)
  rw [if_neg hover]
  by_cases hinput : (s.conns fd).input ≠ []
  · refine .inr (.inl ⟨min (min 1024 (max 1 io.size)) (s.conns fd).input.length, Nat.min_le_right .., ?_⟩)
    rw [if_pos hinput, ← List.take_eq_take_min]
  · rw [if_neg hinput]
    by_cases heof : (s.conns fd).eof = true
    · exact .inl (if_pos heof)
    · rw [if_neg heof]
      exact .inr (.inr ⟨not_or.mpr ⟨hinput, heof⟩, rfl⟩)

theorem main_step {io : Io} (h : mainStep s io = some s') : Step s s' := by
  unfold mainStep at h
  cases hpc : s.pc with
  | exit =>
    rw [hpc] at h
    cases h
  | accept =>
    simp only [hpc] at h
    cases io with
    | none => cases h
    | count n => cases h
    | error =>
      cases h
      exact .exit hpc
    | accept fd peer input eof =>
      obtain ⟨⟨-, hnew⟩, h⟩ := Option.ite_none_right_eq_some.mp h
      cases h
      exact .accept fd peer input eof hpc hnew
  | alloc cfd =>
    simp only [hpc] at h
    cases h
    exact .alloc cfd hpc
  | create info =>
    simp only [hpc] at h
    cases io with
    | error =>
      cases h
      exact .orphan info hpc
    | _ =>
      cases h
      exact .create info hpc

theorem client_step {i : Nat} {io : Io} (h : clientStep s i io = some s') : Step s s' := by
  unfold clientStep at h
  cases hpc : (s.threads i).pc with
  | done =>
    rw [hpc] at h
    cases h
  | start =>
    simp only [hpc] at h
    cases h
    exact .begins i hpc
  | read =>
    simp only [hpc] at h
    rcases readResult_cases s (s.cfd i) io with hres | ⟨n, hle, hres⟩ | ⟨-, hres⟩
    · rw [hres] at h
      cases h
      exact .ended i hpc
    · rw [hres] at h
      cases h
      have hlen : ((s.conns (s.cfd i)).input.take n).length = n := by
        rw [List.length_take]
        exact Nat.min_eq_left hle
      rw [hlen]
      exact .data i n hpc hle
    · rw [hres] at h
      cases h
  | write bytes =>
    simp only [hpc] at h
    cases h
    exact .write i bytes io.size hpc
  | close =>
    simp only [hpc] at h
    cases h
    exact .close i hpc

theorem step_cases {a : Act} (h : step s a = some s') : Step s s' := by
  cases a with
  | main io => exact main_step h
  | client i io => exact client_step (Option.ite_none_left_eq_some.mp h).2
  | connect =>
    cases h
    exact .connect
  | arrive fd bytes =>
    obtain ⟨-, h⟩ := Option.ite_none_right_eq_some.mp h
    cases h
    exact .arrive fd bytes
  | hangup fd =>
    obtain ⟨-, h⟩ := Option.ite_none_right_eq_some.mp h
    cases h
    exact .hangup fd

end

/-! ## Owners -/

inductive Owner where
  | main
  | thread (i : Nat)
  | nobody
  deriving DecidableEq

/-- `main` has accepted the connection and not given it away; the thread has not ended. -/
def Server.Owns (s : Server) : Owner → Nat → Prop
  | .main, fd => s.pc = .alloc fd ∨ ∃ info, s.pc = .create info ∧ (s.heap info).cfd = fd
  | .thread i, fd => (s.threads i).pc ≠ .done ∧ s.cfd i = fd
  | .nobody, fd => fd ∈ s.orphans

/-- What a thread has read and not written. -/
def ClientPc.held : ClientPc → List UInt8
  | write bytes => bytes
  | _ => []

def Server.held (s : Server) : Owner → List UInt8
  | .thread i => (s.threads i).pc.held
  | _ => []

/-- The address that the owner has for its connection. -/
def Server.Knows (s : Server) : Owner → Nat → Prop
  | .main, addr => match s.pc with
    | .create info => (s.heap info).client = addr
    | _ => s.cliaddr = addr
  | .thread i, addr => (s.heap (s.threads i).info).client = addr
  | .nobody, _ => True

/-- Blocks and threads that are in use are not the next ones. -/
structure Fresh (s : Server) : Prop where
  block : ∀ info, s.pc = .create info → info < s.blocks
  info : ∀ i, (s.threads i).pc ≠ .done → (s.threads i).info < s.blocks
  thread : ∀ i, (s.threads i).pc ≠ .done → i < s.created

structure Owned (s : Server) : Prop where
  fresh : Fresh s
  listen : s.lfd ∈ s.opened
  owner : ∀ fd ∈ s.opened, fd ≠ s.lfd → ∃ o, s.Owns o fd
  unique : ∀ fd o o', s.Owns o fd → s.Owns o' fd → o = o'
  isOpen : ∀ o fd, s.Owns o fd → fd ∈ s.opened ∧ fd ≠ s.lfd
  knows : ∀ o fd, s.Owns o fd → s.Knows o (s.conns fd).peer
  account : ∀ o fd, s.Owns o fd → (s.conns fd).Sound id (s.held o)
  closed : ∀ c ∈ s.closed, c.Sound id []

section
variable {s s' : Server}

theorem owned_start (lfd : Nat) : Owned (start lfd) := by
  have hnone : ∀ o fd, ¬ (start lfd).Owns o fd := by
    rintro o fd hown
    cases o with
    | main =>
      rcases hown with hpc | ⟨info, hpc, -⟩
      · cases hpc
      · cases hpc
    | thread i => exact hown.1 rfl
    | nobody => cases hown
  constructor
  · exact ⟨(fun info hpc => by cases hpc), fun i hi => absurd rfl hi, fun i hi => absurd rfl hi⟩
  · exact List.mem_singleton.mpr rfl
  · intro fd hopen hne
    exact absurd (List.mem_singleton.mp hopen) hne
  · exact fun fd o o' hown => absurd hown (hnone o fd)
  · exact fun o fd hown => absurd hown (hnone o fd)
  · exact fun o fd hown => absurd hown (hnone o fd)
  · exact fun o fd hown => absurd hown (hnone o fd)
  · intro c hc
    cases hc

/-- The owners stay, and what is done to a connection its owner answers for. -/
theorem Owned.keep (h : Owned s) (hfresh : Fresh s') (hlfd : s'.lfd = s.lfd) (hopened : s'.opened = s.opened)
    (hclosed : s'.closed = s.closed) (howns : ∀ o fd, s'.Owns o fd ↔ s.Owns o fd)
    (hpeer : ∀ fd, (s'.conns fd).peer = (s.conns fd).peer)
    (hknows : ∀ o fd, s.Owns o fd → s.Knows o (s.conns fd).peer → s'.Knows o (s.conns fd).peer)
    (haccount : ∀ o fd, s.Owns o fd → (s.conns fd).Sound id (s.held o) → (s'.conns fd).Sound id (s'.held o)) :
    Owned s' := by
  constructor
  · exact hfresh
  · rw [hlfd, hopened]
    exact h.listen
  · simpa only [hlfd, hopened, howns] using h.owner
  · simpa only [howns] using h.unique
  · simpa only [hlfd, hopened, howns] using h.isOpen
  · intro o fd hown
    rw [hpeer]
    exact hknows o fd ((howns o fd).mp hown) (h.knows o fd ((howns o fd).mp hown))
  · intro o fd hown
    exact haccount o fd ((howns o fd).mp hown) (h.account o fd ((howns o fd).mp hown))
  · rw [hclosed]
    exact h.closed

/-! ### A thread's step -/

section
variable {i : Nat} {pc : ClientPc}

theorem goto_threads (s : Server) (i j : Nat) (pc : ClientPc) :
    (s.goto i pc).threads j = if j = i then { s.threads j with pc } else s.threads j := rfl

theorem info_goto (s : Server) (i j : Nat) (pc : ClientPc) : ((s.goto i pc).threads j).info = (s.threads j).info := by
  rw [goto_threads]
  split <;> rfl

/-- A thread that goes on is the one that it was. -/
theorem done_goto (hold : (s.threads i).pc ≠ .done) (hnew : pc ≠ .done) (j : Nat) :
    ((s.goto i pc).threads j).pc ≠ .done ↔ (s.threads j).pc ≠ .done := by
  rw [goto_threads]
  by_cases hj : j = i
  · subst hj
    rw [if_pos rfl]
    exact iff_of_true hnew hold
  · rw [if_neg hj]

theorem owns_goto (hold : (s.threads i).pc ≠ .done) (hnew : pc ≠ .done) (o : Owner) (fd : Nat) :
    (s.goto i pc).Owns o fd ↔ s.Owns o fd := by
  cases o with
  | main => rfl
  | nobody => rfl
  | thread j =>
    show ((s.goto i pc).threads j).pc ≠ .done ∧ (s.heap ((s.goto i pc).threads j).info).cfd = fd ↔ _
    rw [done_goto hold hnew, info_goto]
    rfl

theorem Fresh.goto (h : Fresh s) (hold : (s.threads i).pc ≠ .done) (hnew : pc ≠ .done) : Fresh (s.goto i pc) where
  block := h.block
  info j hj := by
    rw [info_goto]
    exact h.info j ((done_goto hold hnew j).mp hj)
  thread j hj := h.thread j ((done_goto hold hnew j).mp hj)

theorem knows_goto (o : Owner) (addr : Nat) : (s.goto i pc).Knows o addr ↔ s.Knows o addr := by
  cases o with
  | main => rfl
  | nobody => rfl
  | thread j =>
    show (s.heap ((s.goto i pc).threads j).info).client = addr ↔ _
    rw [info_goto]
    rfl

theorem held_goto_self (s : Server) (i : Nat) (pc : ClientPc) : (s.goto i pc).held (.thread i) = pc.held := by
  show ((s.goto i pc).threads i).pc.held = pc.held
  rw [goto_threads, if_pos rfl]

theorem held_goto_other {o : Owner} (s : Server) (pc : ClientPc) (ho : o ≠ .thread i) :
    (s.goto i pc).held o = s.held o := by
  cases o with
  | main => rfl
  | nobody => rfl
  | thread j =>
    show ((s.goto i pc).threads j).pc.held = (s.threads j).pc.held
    rw [goto_threads, if_neg fun hj => ho (congrArg Owner.thread hj)]

/-- Thread `i` goes on, and changes nothing but its own connection. -/
theorem Owned.goto (h : Owned s) (s1 : Server) (hold : (s.threads i).pc ≠ .done) (hnew : pc ≠ .done)
    (hs1 : s1 = { s with conns := s1.conns })
    (hother : ∀ fd ≠ s.cfd i, s1.conns fd = s.conns fd) (hpeer : (s1.conns (s.cfd i)).peer = (s.conns (s.cfd i)).peer)
    (hone : (s.conns (s.cfd i)).Sound id (s.threads i).pc.held → (s1.conns (s.cfd i)).Sound id pc.held) :
    Owned (s1.goto i pc) := by
  generalize s1.conns = conns at hs1 hother hpeer hone
  subst hs1
  have hfresh := h.fresh.goto hold hnew
  refine h.keep ⟨hfresh.block, hfresh.info, hfresh.thread⟩ rfl rfl rfl (owns_goto hold hnew) (fun fd => ?_)
    (fun o fd _ hk => (knows_goto o _).mpr hk) fun o fd hown hsound => ?_
  · by_cases hfd : fd = s.cfd i
    · rw [hfd]
      exact hpeer
    · exact congrArg Conn.peer (hother fd hfd)
  · -- the thread's connection is nobody else's
    by_cases ho : o = .thread i
    · subst ho
      obtain rfl : s.cfd i = fd := hown.2
      rw [held_goto_self]
      exact hone hsound
    · have hfd : fd ≠ s.cfd i := by
        rintro rfl
        exact ho (h.unique _ o (.thread i) hown ⟨hold, rfl⟩)
      rw [held_goto_other _ pc ho]
      show Account.Sound id (conns fd).toAccount (s.held o)
      rw [hother fd hfd]
      exact hsound

end

/-! ### `main`'s steps -/

theorem main_owns_nothing (hpc : s.pc = .accept) (fd : Nat) : ¬ s.Owns .main fd := by
  rintro (h | ⟨info, h, -⟩) <;> rw [hpc] at h <;> cases h

theorem owned_accept (h : Owned s) (hpc : s.pc = .accept) {fd : Nat} (hnew : fd ∉ s.opened) (peer : Nat)
    (input : List UInt8) (eof : Bool) : Owned (s.accept fd peer input eof) := by
  have howns : ∀ o fd', (s.accept fd peer input eof).Owns o fd' ↔ o = .main ∧ fd' = fd ∨ s.Owns o fd' := by
    intro o fd'
    cases o with
    | main =>
      rw [or_iff_left (main_owns_nothing hpc fd')]
      constructor
      · rintro (hfd | ⟨info, hfd, -⟩) <;> cases hfd
        exact ⟨rfl, rfl⟩
      · rintro ⟨-, rfl⟩
        exact .inl rfl
    | thread i => exact (or_iff_right fun h => Owner.noConfusion h.1).symm
    | nobody => exact (or_iff_right fun h => Owner.noConfusion h.1).symm
  have hne : ∀ o fd', s.Owns o fd' → fd' ≠ fd := by
    rintro o fd' hown rfl
    exact hnew (h.isOpen o fd' hown).1
  have hother : ∀ fd' ≠ fd, (s.accept fd peer input eof).conns fd' = s.conns fd' := fun fd' hfd => if_neg hfd
  have hself : (s.accept fd peer input eof).conns fd = { arrived := input, input, eof, peer } := if_pos rfl
  constructor
  · exact ⟨fun info hinfo => MainPc.noConfusion hinfo, h.fresh.info, h.fresh.thread⟩
  · exact List.mem_cons_of_mem fd h.listen
  · intro fd' hopen hlfd
    rcases List.mem_cons.mp hopen with hfd | hopen
    · exact ⟨.main, (howns _ _).mpr (.inl ⟨rfl, hfd⟩)⟩
    · obtain ⟨o, hown⟩ := h.owner fd' hopen hlfd
      exact ⟨o, (howns _ _).mpr (.inr hown)⟩
  · intro fd' o o' hown hown'
    rcases (howns _ _).mp hown with ⟨rfl, rfl⟩ | hown <;> rcases (howns _ _).mp hown' with ⟨rfl, hfd⟩ | hown'
    · rfl
    · exact absurd rfl (hne _ _ hown')
    · exact absurd hfd (hne _ _ hown)
    · exact h.unique fd' o o' hown hown'
  · intro o fd' hown
    rcases (howns _ _).mp hown with ⟨rfl, rfl⟩ | hown
    · exact ⟨List.mem_cons_self, fun hlfd => hnew (hlfd ▸ h.listen)⟩
    · obtain ⟨hopen, hlfd⟩ := h.isOpen o fd' hown
      exact ⟨List.mem_cons_of_mem fd hopen, hlfd⟩
  · intro o fd' hown
    rcases (howns _ _).mp hown with ⟨rfl, rfl⟩ | hown
    · rw [hself]
      rfl
    · rw [hother fd' (hne o fd' hown)]
      cases o with
      | main => exact absurd hown (main_owns_nothing hpc fd')
      | thread i => exact h.knows _ fd' hown
      | nobody => trivial
  · intro o fd' hown
    rcases (howns _ _).mp hown with ⟨rfl, rfl⟩ | hown
    · rw [hself]
      exact Account.sound_new id input
    · rw [hother fd' (hne o fd' hown)]
      cases o with
      | main => exact absurd hown (main_owns_nothing hpc fd')
      | thread i => exact h.account _ fd' hown
      | nobody => exact h.account _ fd' hown
  · exact h.closed

theorem owned_alloc (h : Owned s) {cfd : Nat} (hpc : s.pc = .alloc cfd) : Owned (s.alloc cfd) := by
  have hheap : ∀ info < s.blocks, (s.alloc cfd).heap info = s.heap info := fun info hlt => if_neg (Nat.ne_of_lt hlt)
  have hnew : (s.alloc cfd).heap s.blocks = { cfd, client := s.cliaddr } := if_pos rfl
  refine h.keep ⟨?_, ?_, h.fresh.thread⟩ rfl rfl rfl (fun o fd => ?_) (fun _ => rfl) (fun o fd hown hk => ?_)
    fun o fd hown hsound => ?_
  · intro info hinfo
    cases hinfo
    exact Nat.lt_succ_self _
  · exact fun i hi => Nat.lt_succ_of_lt (h.fresh.info i hi)
  · cases o with
    | main =>
      constructor
      · rintro (hfd | ⟨info, hinfo, hfd⟩)
        · cases hfd
        · cases hinfo
          rw [hnew] at hfd
          exact .inl (hfd ▸ hpc)
      · rintro (hfd | ⟨info, hinfo, -⟩)
        · rw [hpc] at hfd
          cases hfd
          exact .inr ⟨s.blocks, rfl, by rw [hnew]⟩
        · rw [hpc] at hinfo
          cases hinfo
    | nobody => rfl
    | thread i =>
      show (s.threads i).pc ≠ .done ∧ ((s.alloc cfd).heap (s.threads i).info).cfd = fd ↔ _
      refine and_congr_right fun hi => ?_
      rw [hheap _ (h.fresh.info i hi)]
      rfl
  · cases o with
    | main =>
      unfold Server.Knows at hk
      simp only [hpc] at hk
      show ((s.alloc cfd).heap s.blocks).client = _
      rw [hnew]
      exact hk
    | nobody => trivial
    | thread i =>
      show ((s.alloc cfd).heap (s.threads i).info).client = _
      rw [hheap _ (h.fresh.info i hown.1)]
      exact hk
  · cases o with
    | main => exact hsound
    | nobody => exact hsound
    | thread i => exact hsound

/-- `main` gives its connection away. -/
theorem Owned.give (h : Owned s) {r : Owner} {cfd : Nat} (hmain : s.Owns .main cfd) (hnot : r ≠ .main)
    (hfresh : Fresh s') (hlfd : s'.lfd = s.lfd) (hopened : s'.opened = s.opened) (hclosed : s'.closed = s.closed)
    (hconns : s'.conns = s.conns)
    (howns : ∀ o fd, s'.Owns o fd ↔ o = r ∧ fd = cfd ∨ o ≠ .main ∧ s.Owns o fd)
    (hknows : s'.Knows r (s.conns cfd).peer) (hheld : s'.held r = [])
    (hstay : ∀ o fd, o ≠ .main → s.Owns o fd → s'.held o = s.held o ∧ ∀ addr, s.Knows o addr → s'.Knows o addr) :
    Owned s' := by
  constructor
  · exact hfresh
  · rw [hlfd, hopened]
    exact h.listen
  · intro fd hopen hne
    rw [hopened] at hopen
    rw [hlfd] at hne
    obtain ⟨o, hown⟩ := h.owner fd hopen hne
    by_cases ho : o = .main
    · subst ho
      have hfd : fd = cfd := by
        rcases hown with hfd | ⟨info, hinfo, hfd⟩ <;> rcases hmain with hmain | ⟨info', hinfo', hmain⟩
        · exact MainPc.alloc.inj (hfd.symm.trans hmain)
        · exact MainPc.noConfusion (hfd.symm.trans hinfo')
        · exact MainPc.noConfusion (hinfo.symm.trans hmain)
        · rw [← hfd, ← hmain, MainPc.create.inj (hinfo.symm.trans hinfo')]
      exact ⟨r, (howns _ _).mpr (.inl ⟨rfl, hfd⟩)⟩
    · exact ⟨o, (howns _ _).mpr (.inr ⟨ho, hown⟩)⟩
  · intro fd o o' hown hown'
    rcases (howns _ _).mp hown with ⟨rfl, rfl⟩ | ⟨ho, hown⟩ <;>
      rcases (howns _ _).mp hown' with ⟨rfl, hfd⟩ | ⟨ho', hown'⟩
    · rfl
    · exact absurd (h.unique _ _ _ hown' hmain) ho'
    · exact absurd (h.unique _ _ _ hown (hfd ▸ hmain)) ho
    · exact h.unique fd o o' hown hown'
  · intro o fd hown
    rw [hopened, hlfd]
    rcases (howns _ _).mp hown with ⟨rfl, rfl⟩ | ⟨-, hown⟩
    · exact h.isOpen .main fd hmain
    · exact h.isOpen o fd hown
  · intro o fd hown
    rw [hconns]
    rcases (howns _ _).mp hown with ⟨rfl, rfl⟩ | ⟨ho, hown⟩
    · exact hknows
    · exact (hstay o fd ho hown).2 _ (h.knows o fd hown)
  · intro o fd hown
    rw [hconns]
    rcases (howns _ _).mp hown with ⟨rfl, rfl⟩ | ⟨ho, hown⟩
    · rw [hheld]
      exact h.account .main fd hmain
    · rw [(hstay o fd ho hown).1]
      exact h.account o fd hown
  · rw [hclosed]
    exact h.closed

theorem owns_create {info : Nat} (hpc : s.pc = .create info) : s.Owns .main (s.heap info).cfd := .inr ⟨info, hpc, rfl⟩

theorem knows_create (h : Owned s) {info : Nat} (hpc : s.pc = .create info) :
    (s.heap info).client = (s.conns (s.heap info).cfd).peer := by
  have hk := h.knows .main _ (owns_create hpc)
  unfold Server.Knows at hk
  simpa only [hpc] using hk

theorem owned_create (h : Owned s) {info : Nat} (hpc : s.pc = .create info) : Owned (s.create info) := by
  have hnew : (s.create info).threads s.created = { info, pc := .start } := if_pos rfl
  have hother : ∀ j ≠ s.created, (s.create info).threads j = s.threads j := fun j hj => if_neg hj
  -- the new thread's number was not in use
  have hidle : ∀ {fd}, ¬ s.Owns (.thread s.created) fd := fun h' => Nat.lt_irrefl _ (h.fresh.thread _ h'.1)
  refine h.give (owns_create hpc) (r := .thread s.created) Owner.noConfusion ?_ rfl rfl rfl rfl (fun o fd => ?_) ?_ ?_
    fun o fd ho hown => ?_
  · refine ⟨fun info' hinfo => MainPc.noConfusion hinfo, fun j hj => ?_, fun j hj => ?_⟩
    · by_cases hj' : j = s.created
      · rw [hj', hnew]
        exact h.fresh.block info hpc
      · rw [hother j hj'] at hj ⊢
        exact h.fresh.info j hj
    · by_cases hj' : j = s.created
      · rw [hj']
        exact Nat.lt_succ_self _
      · rw [hother j hj'] at hj
        exact Nat.lt_succ_of_lt (h.fresh.thread j hj)
  · cases o with
    | main =>
      refine iff_of_false ?_ ?_
      · rintro (hfd | ⟨info', hinfo, -⟩)
        · cases hfd
        · cases hinfo
      · rintro (⟨ho, -⟩ | ⟨ho, -⟩)
        · cases ho
        · exact ho rfl
    | nobody => exact ⟨fun h => .inr ⟨Owner.noConfusion, h⟩, fun h => h.elim (fun h => Owner.noConfusion h.1) And.right⟩
    | thread j =>
      by_cases hj : j = s.created
      · subst hj
        show ((s.create info).threads s.created).pc ≠ .done ∧
          (s.heap ((s.create info).threads s.created).info).cfd = fd ↔ _
        rw [hnew]
        exact ⟨fun hfd => .inl ⟨rfl, hfd.2.symm⟩,
          fun h' => h'.elim (fun h' => ⟨ClientPc.noConfusion, h'.2.symm⟩) fun h' => absurd h'.2 hidle⟩
      · show ((s.create info).threads j).pc ≠ .done ∧ (s.heap ((s.create info).threads j).info).cfd = fd ↔ _
        rw [hother j hj]
        exact ⟨fun h' => .inr ⟨Owner.noConfusion, h'⟩,
          fun h' => h'.elim (fun h' => absurd (Owner.thread.inj h'.1) hj) And.right⟩
  · show (s.heap ((s.create info).threads s.created).info).client = _
    rw [hnew]
    exact knows_create h hpc
  · show ((s.create info).threads s.created).pc.held = []
    rw [hnew]
    rfl
  · cases o with
    | main => exact absurd rfl ho
    | nobody => exact ⟨rfl, fun _ _ => trivial⟩
    | thread j =>
      have hj : j ≠ s.created := by
        rintro rfl
        exact hidle hown
      refine ⟨?_, fun addr hk => ?_⟩
      · show ((s.create info).threads j).pc.held = (s.threads j).pc.held
        rw [hother j hj]
      · show (s.heap ((s.create info).threads j).info).client = addr
        rw [hother j hj]
        exact hk

theorem owned_orphan (h : Owned s) {info : Nat} (hpc : s.pc = .create info) : Owned (s.orphan info) := by
  refine h.give (owns_create hpc) (r := .nobody) Owner.noConfusion
    ⟨fun info' hinfo => MainPc.noConfusion hinfo, h.fresh.info, h.fresh.thread⟩ rfl rfl rfl rfl (fun o fd => ?_)
    trivial rfl fun o fd ho hown => ?_
  · cases o with
    | main =>
      refine iff_of_false ?_ ?_
      · rintro (hfd | ⟨info', hinfo, -⟩)
        · cases hfd
        · cases hinfo
      · rintro (⟨ho, -⟩ | ⟨ho, -⟩)
        · cases ho
        · exact ho rfl
    | nobody =>
      show fd ∈ (s.heap info).cfd :: s.orphans ↔ _
      rw [List.mem_cons]
      exact or_congr ⟨fun h' => ⟨rfl, h'⟩, And.right⟩ ⟨fun h' => ⟨Owner.noConfusion, h'⟩, And.right⟩
    | thread j =>
      exact ⟨fun h' => .inr ⟨Owner.noConfusion, h'⟩, fun h' => h'.elim (fun h' => Owner.noConfusion h'.1) And.right⟩
  · cases o with
    | main => exact absurd rfl ho
    | nobody => exact ⟨rfl, fun _ _ => trivial⟩
    | thread j => exact ⟨rfl, fun _ hk => hk⟩

/-! ### Closing -/

theorem owned_close (h : Owned s) {i : Nat} (hpc : (s.threads i).pc = .close) :
    Owned ((s.close (s.cfd i)).goto i .done) := by
  have hself : s.Owns (.thread i) (s.cfd i) := ⟨by rw [hpc]; exact ClientPc.noConfusion, rfl⟩
  have hthread : ∀ j ≠ i, ((s.close (s.cfd i)).goto i .done).threads j = s.threads j := fun j hj => if_neg hj
  have hdone : (((s.close (s.cfd i)).goto i .done).threads i).pc = .done := by
    rw [goto_threads, if_pos rfl]
  have howns : ∀ o fd, ((s.close (s.cfd i)).goto i .done).Owns o fd ↔ o ≠ .thread i ∧ s.Owns o fd := by
    intro o fd
    cases o with
    | main => exact ⟨fun h' => ⟨Owner.noConfusion, h'⟩, And.right⟩
    | nobody => exact ⟨fun h' => ⟨Owner.noConfusion, h'⟩, And.right⟩
    | thread j =>
      by_cases hj : j = i
      · subst hj
        exact iff_of_false (fun h' => h'.1 hdone) fun h' => h'.1 rfl
      · show (((s.close (s.cfd i)).goto i .done).threads j).pc ≠ .done ∧
          (s.heap (((s.close (s.cfd i)).goto i .done).threads j).info).cfd = fd ↔ _
        rw [hthread j hj]
        exact ⟨fun h' => ⟨fun ho => hj (Owner.thread.inj ho), h'⟩, And.right⟩
  have hrunning : ∀ j, (((s.close (s.cfd i)).goto i .done).threads j).pc ≠ .done →
      j ≠ i ∧ (s.threads j).pc ≠ .done := by
    intro j hj
    have hne : j ≠ i := by
      rintro rfl
      exact hj hdone
    exact ⟨hne, hthread j hne ▸ hj⟩
  have hmem : ∀ fd, fd ∈ ((s.close (s.cfd i)).goto i .done).opened ↔ fd ∈ s.opened ∧ fd ≠ s.cfd i := by
    intro fd
    show fd ∈ s.opened.filter _ ↔ _
    simp
  constructor
  · refine ⟨h.fresh.block, fun j hj => ?_, fun j hj => ?_⟩
    · rw [hthread j (hrunning j hj).1]
      exact h.fresh.info j (hrunning j hj).2
    · exact h.fresh.thread j (hrunning j hj).2
  · exact (hmem _).mpr ⟨h.listen, (h.isOpen _ _ hself).2.symm⟩
  · intro fd hopen hne
    obtain ⟨hopen, hfd⟩ := (hmem fd).mp hopen
    obtain ⟨o, hown⟩ := h.owner fd hopen hne
    refine ⟨o, (howns o fd).mpr ⟨?_, hown⟩⟩
    rintro rfl
    exact hfd hown.2.symm
  · intro fd o o' hown hown'
    exact h.unique fd o o' ((howns o fd).mp hown).2 ((howns o' fd).mp hown').2
  · intro o fd hown
    obtain ⟨ho, hown⟩ := (howns o fd).mp hown
    obtain ⟨hopen, hne⟩ := h.isOpen o fd hown
    refine ⟨(hmem fd).mpr ⟨hopen, ?_⟩, hne⟩
    rintro rfl
    exact ho (h.unique _ _ _ hown hself)
  · intro o fd hown
    obtain ⟨-, hown⟩ := (howns o fd).mp hown
    exact (knows_goto (s := s.close (s.cfd i)) o _).mpr (h.knows o fd hown)
  · intro o fd hown
    obtain ⟨ho, hown⟩ := (howns o fd).mp hown
    rw [held_goto_other (s.close (s.cfd i)) .done ho]
    exact h.account o fd hown
  · intro c hc
    rcases List.mem_cons.mp hc with rfl | hc
    · have hsound := h.account _ _ hself
      rwa [Server.held, hpc] at hsound
    · exact h.closed c hc

/-! ## Every run -/

theorem owned_step (h : Owned s) (hs : Step s s') : Owned s' := by
  have hput : ∀ (fd : Nat) (f : Conn → Conn), (∀ c, (f c).peer = c.peer) →
      (∀ c held, c.Sound id held → (f c).Sound id held) → Owned (s.modify fd f) := by
    intro fd f hpeer hsound
    refine h.keep ⟨h.fresh.block, h.fresh.info, h.fresh.thread⟩ rfl rfl rfl (fun _ _ => Iff.rfl) (fun fd' => ?_)
      (fun _ _ _ hk => hk) fun o fd' _ hold => ?_
    · rw [Server.modify_conns]
      split
      · exact hpeer _
      · rfl
    · rw [Server.modify_conns]
      split
      · exact hsound _ _ hold
      · exact hold
  cases hs with
  | accept fd peer input eof hpc hnew => exact owned_accept h hpc hnew peer input eof
  | exit hpc =>
    refine h.keep ⟨fun info hinfo => MainPc.noConfusion hinfo, h.fresh.info, h.fresh.thread⟩ rfl rfl rfl
      (fun o fd => ?_) (fun _ => rfl) (fun o fd hown hk => ?_) fun _ _ _ hsound => hsound
    · cases o with
      | main =>
        refine iff_of_false ?_ (main_owns_nothing hpc fd)
        rintro (hfd | ⟨info, hinfo, -⟩)
        · cases hfd
        · cases hinfo
      | nobody => rfl
      | thread i => rfl
    · cases o with
      | main => exact absurd hown (main_owns_nothing hpc fd)
      | nobody => trivial
      | thread i => exact hk
  | alloc cfd hpc => exact owned_alloc h hpc
  | create info hpc => exact owned_create h hpc
  | orphan info hpc => exact owned_orphan h hpc
  | begins i hpc =>
    refine h.goto s (by rw [hpc]; exact ClientPc.noConfusion) ClientPc.noConfusion rfl (fun _ _ => rfl) rfl ?_
    rw [hpc]
    exact fun hone => hone
  | data i n hpc hle =>
    refine h.goto (s.consume (s.cfd i) n) (by rw [hpc]; exact ClientPc.noConfusion) ClientPc.noConfusion rfl
      (fun fd hne => if_neg hne) ?_ fun hone => ?_
    · rw [Server.consume, Server.modify_conns, if_pos rfl]
    · rw [hpc] at hone
      rw [Server.consume, Server.modify_conns, if_pos rfl]
      exact hone.take n
  | ended i hpc =>
    refine h.goto s (by rw [hpc]; exact ClientPc.noConfusion) ClientPc.noConfusion rfl (fun _ _ => rfl) rfl ?_
    rw [hpc]
    exact fun hone => hone
  | write i bytes k hpc =>
    refine h.goto (s.send (s.cfd i) bytes k) (by rw [hpc]; exact ClientPc.noConfusion) ClientPc.noConfusion rfl
      (fun fd hne => if_neg hne) ?_ fun hone => ?_
    · rw [Server.send, Server.modify_conns, if_pos rfl]
    · rw [hpc] at hone
      rw [Server.send, Server.modify_conns, if_pos rfl]
      exact hone.put k
  | close i hpc => exact owned_close h hpc
  | connect =>
    exact h.keep ⟨h.fresh.block, h.fresh.info, h.fresh.thread⟩ rfl rfl rfl (fun o _ => by cases o <;> rfl) (fun _ => rfl)
      (fun o _ _ hk => by cases o <;> exact hk) fun o _ _ hsound => by cases o <;> exact hsound
  | arrive fd bytes => exact hput fd _ (fun _ => rfl) fun _ _ hsound => hsound.arrive bytes
  | hangup fd => exact hput fd _ (fun _ => rfl) fun _ _ hsound => ⟨hsound.split, hsound.echoed⟩

theorem Reachable.owned (h : Reachable s) : Owned s := by
  obtain ⟨lfd, h⟩ := h
  exact h.invariant (P := Owned) (fun s a s' ho hs => owned_step ho (step_cases hs)) (owned_start lfd)

/-- Two threads that run never share a descriptor, theirs is open and not the listening
one, and the address in a thread's block is that of the peer it serves. -/
theorem threads_isolated (h : Reachable s) {i : Nat} (hi : (s.threads i).pc ≠ .done) :
    s.cfd i ∈ s.opened ∧ s.cfd i ≠ s.lfd ∧ (s.heap (s.threads i).info).client = (s.conns (s.cfd i)).peer ∧
    ∀ j ≠ i, (s.threads j).pc ≠ .done → s.cfd j ≠ s.cfd i := by
  have ho := h.owned
  have hself : s.Owns (.thread i) (s.cfd i) := ⟨hi, rfl⟩
  obtain ⟨hopen, hne⟩ := ho.isOpen _ _ hself
  refine ⟨hopen, hne, ho.knows _ _ hself, fun j hj hrun hfd => hj ?_⟩
  exact Owner.thread.inj (ho.unique _ _ _ ⟨hrun, rfl⟩ (hfd ▸ hself))

/-- A peer sends a byte and hangs up, its thread ends, and the next connection gets the
descriptor again. -/
theorem reuse_run : ∃ s, Reachable s ∧ (s.threads 0).pc = .done ∧ (s.threads 1).pc = .read ∧ s.cfd 1 = 5 := by
  obtain ⟨s, hr, hs⟩ := Lts.Reach.of_run step (start 3)
    (fun s => decide ((s.threads 0).pc = .done ∧ (s.threads 1).pc = .read ∧ s.cfd 1 = 5))
    [.connect, .main (.accept 5 1 [7] true), .main .none, .main .none, .client 0 .none, .client 0 (.count 9),
      .connect, .client 0 (.count 9), .client 0 .none, .client 0 .none, .main (.accept 5 2 [] false), .main .none,
      .main .none, .client 1 .none] (by decide +kernel)
  exact ⟨s, ⟨3, hr⟩, of_decide_eq_true hs⟩

theorem threads_isolated_reuse : ∃ s, Reachable s ∧ (s.threads 1).pc = .read ∧
    s.cfd 1 ∈ s.opened ∧ s.cfd 1 ≠ s.lfd ∧ (s.heap (s.threads 1).info).client = (s.conns (s.cfd 1)).peer ∧
    ∀ j ≠ 1, (s.threads j).pc ≠ .done → s.cfd j ≠ s.cfd 1 := by
  obtain ⟨s, hr, -, hpc, -⟩ := reuse_run
  exact ⟨s, hr, hpc, threads_isolated hr (by rw [hpc]; exact ClientPc.noConfusion)⟩

/-- Every open connection is `main`'s for now, or without a thread, or a thread answers
for each byte of it: written back in its place, taken by no `Write`, in the thread's
buffer, or unread. -/
theorem thread_echo (h : Reachable s) :
    (∀ fd ∈ s.opened, fd ≠ s.lfd → s.Owns .main fd ∨ fd ∈ s.orphans ∨
      ∃ i, (s.threads i).pc ≠ .done ∧ s.cfd i = fd ∧ (s.conns fd).Faithful id (s.threads i).pc.held) ∧
    ∀ c ∈ s.closed, c.Faithful id [] := by
  have ho := h.owned
  refine ⟨fun fd hopen hne => ?_, fun c hc => (ho.closed c hc).faithful⟩
  obtain ⟨o, hown⟩ := ho.owner fd hopen hne
  cases o with
  | main => exact .inl hown
  | nobody => exact .inr (.inl hown)
  | thread i => exact .inr (.inr ⟨i, hown.1, hown.2, (ho.account _ _ hown).faithful⟩)

theorem thread_echo_reuse : ∃ s, Reachable s ∧
    ((∀ fd ∈ s.opened, fd ≠ s.lfd → s.Owns .main fd ∨ fd ∈ s.orphans ∨
      ∃ i, (s.threads i).pc ≠ .done ∧ s.cfd i = fd ∧ (s.conns fd).Faithful id (s.threads i).pc.held) ∧
    ∀ c ∈ s.closed, c.Faithful id []) := by
  obtain ⟨s, hr, -⟩ := reuse_run
  exact ⟨s, hr, thread_echo hr⟩

end

end CSocket.ThreadServer
