import CSocket.EpollPool.Ownership
/-!
# Where tasks come from

In every run, careful or not, the queue is a queue as long as its counters are in
the range of an `int`, and a task is stored for a number that `accept` has
returned: `main` queues reported events only.
-/
namespace CSocket.EpollPool
open Pthread SimplePool

/-! ## Assertions -/

/-- The number was given to a connection. -/
def Net.Given (d : Net) (fd : Nat) : Prop := (d.latest fd).isSome = true

/-- The events of the batch that `main` has not handled yet. -/
def MainPc.events : MainPc → List Event
  | .wait => []
  | .event e rest => e :: rest
  | .accept rest | .ctl _ rest => rest
  | .addtask (.lock _ rest) | .addtask (.test _ rest) | .addtask (.wait _ rest) | .addtask (.store _ rest)
  | .addtask (.unlock rest) | .addtask (.signal rest) => rest

/-- The task that `addtask` has not stored yet. -/
def MainPc.arg : MainPc → Option PoolTask
  | .addtask (.lock task _) | .addtask (.test task _) | .addtask (.wait task _) | .addtask (.store task _) => some task
  | _ => none

structure MainPc.Reported (d : Net) (pc : MainPc) : Prop where
  events : ∀ e ∈ pc.events, e.fd = d.lfd ∨ d.Given e.fd
  arg : ∀ task ∈ pc.arg, d.Given task.fd

def Pc.Asserted (d : Shared PoolTask Net) : Pc → Prop
  | .worker pc => pc.Tested id d.pool
  | .main pc => pc.Reported d.env ∧ ∀ add, pc = .addtask add → add.Tested d.pool
  | _ => True

structure Queued (d : Shared PoolTask Net) : Prop where
  fifo : d.pool.Fifo
  given : ∀ task ∈ d.pool.stored, d.env.Given task.fd

/-- Numbers stay given. -/
structure Net.Grows (d d' : Net) : Prop where
  lfd : d'.lfd = d.lfd
  given : ∀ {fd}, d.Given fd → d'.Given fd

namespace Net
variable {d : Net}

theorem Grows.refl (d : Net) : d.Grows d := ⟨rfl, id⟩

theorem access_grows {task : PoolTask} {d' : Net} (h : (d.access task).Grows d') : d.Grows d' := ⟨h.lfd, h.given⟩

theorem modifyFd_grows (fd : Nat) (f : Conn → Conn) : d.Grows (d.modifyFd fd f) := by
  unfold modifyFd
  split <;> exact ⟨rfl, id⟩

theorem close_grows (fd : Nat) : d.Grows (d.close fd) := by
  unfold close
  split <;> exact ⟨rfl, id⟩

theorem accept_grows (fd : Nat) : d.Grows (d.accept fd) := by
  refine ⟨rfl, fun {fd'} h => ?_⟩
  unfold Given accept
  dsimp only
  split
  · rfl
  · exact h

end Net

theorem MainPc.Reported.grows {d d' : Net} {pc : MainPc} (h : pc.Reported d) (hg : d.Grows d') : pc.Reported d' where
  events e he := (h.events e he).imp (fun hl => hl.trans hg.lfd.symm) hg.given
  arg task ht := hg.given (h.arg task ht)

theorem Queued.grows {d d' : Shared PoolTask Net} (h : Queued d) (hs : d.pool.Same d'.pool) (hg : d.env.Grows d'.env) :
    Queued d' := by
  refine ⟨h.fifo.congr hs, fun task ht => ?_⟩
  rw [hs.stored] at ht
  exact hg.given (h.given task ht)

/-! ## The instructions -/

theorem nextEvent_asserted {rest : List Event} {d : Shared PoolTask Net}
    (h : ∀ e ∈ rest, e.fd = d.env.lfd ∨ d.env.Given e.fd) : (nextEvent rest).Asserted d := by
  cases rest with
  | nil => exact ⟨⟨fun _ he => absurd he List.not_mem_nil, nofun⟩, nofun⟩
  | cons e rest => exact ⟨⟨h, nofun⟩, nofun⟩

theorem goes_asserted {pc k : Pc} {d : Shared PoolTask Net} (hg : (code pc).Goes k) (h : pc.Asserted d) :
    k.Asserted d := by
  cases moves hg with
  | lock | wait | quit | unlock => trivial
  | signal task => exact .inl h
  | addSignal rest => exact nextEvent_asserted h.1.events
  | addLock | addWait =>
    refine ⟨⟨h.1.events, h.1.arg⟩, ?_⟩
    rintro add he
    cases he
    trivial
  | addUnlock rest =>
    refine ⟨⟨h.1.events, nofun⟩, ?_⟩
    rintro add he
    cases he
    trivial

section
variable {f : Nat → Input → Shared PoolTask Net → Shared PoolTask Net × Pc} {d : Shared PoolTask Net}

/-- Outside the lock the queue is not touched. -/
theorem task_asserted {pc : TaskPc} (hc : taskCode pc = .data f) (t : Nat) (x : Input) :
    d.pool.Same (f t x d).1.pool ∧ d.env.Grows (f t x d).1.env ∧ (f t x d).2.Asserted (f t x d).1 := by
  cases pc with
  | read task =>
    cases hc
    dsimp only
    split
    · exact ⟨.refl _, Net.access_grows (Net.modifyFd_grows _ _), trivial⟩
    · exact ⟨.refl _, ⟨rfl, id⟩, trivial⟩
    · exact ⟨.refl _, ⟨rfl, id⟩, trivial⟩
    · exact ⟨.refl _, ⟨rfl, id⟩, trivial⟩
  | write task bytes =>
    cases hc
    exact ⟨.refl _, Net.access_grows (Net.modifyFd_grows _ _), trivial⟩
  | close task =>
    cases hc
    exact ⟨.refl _, Net.access_grows (Net.close_grows _), trivial⟩
  | ctl task =>
    cases hc
    dsimp only
    split
    · exact ⟨.refl _, Net.modifyFd_grows _ _, trivial⟩
    · exact ⟨.refl _, .refl _, trivial⟩

theorem main_asserted {pc : MainPc} (hc : mainCode pc = .data f) (hq : Queued d) (h : (Pc.main pc).Asserted d) (t : Nat)
    (x : Input) :
    Queued (f t x d).1 ∧ d.env.Grows (f t x d).1.env ∧ (f t x d).2.Asserted (f t x d).1 ∧
      ((∀ add, pc ≠ .addtask add) → d.pool.Same (f t x d).1.pool) := by
  cases pc with
  | wait =>
    cases hc
    dsimp only
    split
    · split
      case isTrue b hb =>
        refine ⟨hq.grows (.refl _) ⟨rfl, id⟩, ⟨rfl, id⟩, nextEvent_asserted fun e he => ?_, fun _ => .refl _⟩
        refine (hb.1 e he).imp id fun hcur => ?_
        exact Option.isSome_iff_exists.mpr ⟨e.conn, (Net.cur_eq.mp hcur.1).1⟩
      case isFalse => exact ⟨hq, .refl _, h, fun _ => .refl _⟩
    · exact ⟨hq, .refl _, h, fun _ => .refl _⟩
  | event e es =>
    cases hc
    have hes : ∀ e' ∈ es, e'.fd = d.env.lfd ∨ d.env.Given e'.fd := fun e' he' =>
      h.1.events e' (List.mem_cons_of_mem _ he')
    refine ⟨hq, .refl _, ?_, fun _ => .refl _⟩
    dsimp only
    split
    · exact ⟨⟨hes, nofun⟩, nofun⟩
    case isFalse hlfd =>
      split
      case isTrue hin =>
        refine ⟨⟨hes, ?_⟩, ?_⟩
        · rintro task ht
          cases ht
          -- not the listening socket's event, so its number was given out
          exact (h.1.events e List.mem_cons_self).resolve_left fun hl => hlfd ⟨hl, hin⟩
        · rintro add he
          cases he
          trivial
      case isFalse => exact nextEvent_asserted hes
  | accept es =>
    cases hc
    dsimp only
    split
    · split
      · refine ⟨hq.grows (.refl _) (Net.accept_grows _), Net.accept_grows _, ⟨⟨?_, nofun⟩, nofun⟩, fun _ => .refl _⟩
        exact (h.1.grows (Net.accept_grows _)).events
      · exact ⟨hq, .refl _, h, fun _ => .refl _⟩
    · exact ⟨hq, .refl _, h, fun _ => .refl _⟩
  | ctl fd es =>
    cases hc
    have hg : d.env.Grows (d.env.register fd) := Net.modifyFd_grows _ _
    exact ⟨hq.grows (.refl _) hg, hg, nextEvent_asserted (h.1.grows hg).events, fun _ => .refl _⟩
  | addtask pc =>
    have hc : addtask pc = .data f := hc
    obtain ⟨pc', hpc, hstep⟩ := addtask_data hc t x d
    rw [hpc]
    generalize (f t x d).1 = d' at hstep
    cases hstep with
    | full =>
      refine ⟨hq, .refl _, ⟨⟨h.1.events, h.1.arg⟩, ?_⟩, fun hne => absurd rfl (hne _)⟩
      rintro add he
      cases he
      trivial
    | room hlt =>
      refine ⟨hq, .refl _, ⟨⟨h.1.events, h.1.arg⟩, ?_⟩, fun hne => absurd rfl (hne _)⟩
      rintro add he
      cases he
      exact hlt
    | @store task k =>
      refine ⟨⟨hq.fifo.push (h.2 _ rfl) task, ?_⟩, .refl _, ⟨⟨h.1.events, nofun⟩, ?_⟩, fun hne => absurd rfl (hne _)⟩
      · intro task' ht
        rcases List.mem_append.mp ht with ht | ht
        · exact hq.given task' ht
        · obtain rfl := List.mem_singleton.mp ht
          exact h.1.arg _ rfl
      · rintro add he
        cases he
        trivial

theorem net_asserted (hc : netCode = .data f) (t : Nat) (x : Input) :
    d.pool.Same (f t x d).1.pool ∧ d.env.Grows (f t x d).1.env ∧ (f t x d).2.Asserted (f t x d).1 := by
  cases hc
  dsimp only
  split
  · exact ⟨.refl _, ⟨rfl, id⟩, trivial⟩
  · exact ⟨.refl _, ⟨rfl, id⟩, trivial⟩
  · exact ⟨.refl _, .refl _, trivial⟩

end

/-! ## The proof outline -/

def Pc.held : Pc → List Mutex
  | .worker pc => pc.held
  | .main (.addtask pc) => pc.held
  | _ => []

theorem nextEvent_held (rest : List Event) : (nextEvent rest).held = [] := by
  cases rest <;> rfl

theorem discipline : Discipline code (fun _ => false) (holdsIn Pc.held) where
  fresh _ h := nomatch h
  keeps pc := by
    have next (rest : List Event) (m : Mutex) : holdsIn Pc.held (nextEvent rest) m = false := by
      rw [holdsIn, nextEvent_held]
      rfl
    cases pc with
    | worker pc => exact thrRun_keeps Pc.held id .worker (fun task => .task (.read task)) (fun _ => rfl) (fun _ => rfl) pc
    | task pc =>
      cases pc with
      | read task =>
        intro t x d
        dsimp only
        split <;> rfl
      | write | ctl => exact fun t x d => rfl
      | close => exact keeps_assign rfl
    | main pc =>
      cases pc with
      | wait =>
        intro t x d
        funext m
        dsimp only
        split
        · split
          · exact next _ m
          · rfl
        · rfl
      | event e rest =>
        intro t x d
        funext m
        dsimp only
        split
        · rfl
        · split
          · rfl
          · exact next rest m
      | accept rest =>
        intro t x d
        dsimp only
        split
        · split <;> rfl
        · rfl
      | ctl fd rest => exact keeps_assign (nextEvent_held rest)
      | addtask pc => exact addtask_keeps Pc.held (fun add => .main (.addtask add)) nextEvent (fun _ => rfl) nextEvent_held pc
    | net =>
      intro t x d
      dsimp only
      split <;> rfl

section
variable {pc pc' : Pc} {d d' : Shared PoolTask Net}

theorem Pc.Asserted.grows (h : pc.Asserted d) (hs : d.pool.Same d'.pool) (hg : d.env.Grows d'.env) :
    pc.Asserted d' := by
  cases pc with
  | worker pc =>
    exact WorkerPc.Tested.congr h hs
  | main pc =>
    exact ⟨h.1.grows hg, fun add he => (h.2 add he).congr hs⟩
  | task | net => trivial

theorem wait_cases {k : Pc} {c : Cond} {m : Mutex} (h : code pc = .wait c m k) :
    (∃ task, k = .worker (.test task)) ∨ ∃ arg rest, k = .main (.addtask (.test arg rest)) := by
  have hmoves : Moves pc k := moves (by rw [h]; rfl)
  cases hmoves with
  | wait task => exact .inl ⟨task, rfl⟩
  | addWait arg rest => exact .inr ⟨arg, rest, rfl⟩
  | _ => cases h

/-- A thread that another one under the lock does not exclude has tested nothing. -/
theorem Pc.Asserted.apart (h : pc'.Asserted d) (hap : Apart code (holdsIn Pc.held) pc pc')
    (hl : holdsIn Pc.held pc .poolLock = true) (hg : d.env.Grows d'.env) : pc'.Asserted d' := by
  have hunheld : pc'.held = [] ∨ ∃ pc0 c m, code pc0 = .wait c m pc' := unheld_of_apart hap hl
  cases pc' with
  | worker pc' =>
    refine WorkerPc.tested_of_unheld (hunheld.imp_right ?_) _
    rintro ⟨pc0, c, m, hw⟩
    rcases wait_cases hw with ⟨task, he⟩ | ⟨arg, rest, he⟩
    · exact ⟨task, Pc.worker.inj he⟩
    · cases he
  | main pc' =>
    refine ⟨h.1.grows hg, ?_⟩
    rintro add rfl
    refine AddPc.tested_of_unheld (hunheld.imp_right ?_) _
    rintro ⟨pc0, c, m, hw⟩
    rcases wait_cases hw with ⟨task, he⟩ | ⟨arg, rest, he⟩
    · cases he
    · exact ⟨arg, rest, MainPc.addtask.inj (Pc.main.inj he)⟩
  | task | net => trivial

/-- One data instruction: the queue, the numbers given and the next assertion. -/
theorem data_asserted {f : Nat → Input → Shared PoolTask Net → Shared PoolTask Net × Pc} (hc : code pc = .data f)
    (hq : Queued d) (h : pc.Asserted d) (t : Nat) (x : Input) :
    Queued (f t x d).1 ∧ d.env.Grows (f t x d).1.env ∧ (f t x d).2.Asserted (f t x d).1 ∧
      (holdsIn Pc.held pc .poolLock = false → d.pool.Same (f t x d).1.pool) := by
  cases pc with
  | worker pc =>
    obtain ⟨pc', hpc, hstep, henv⟩ := thrRun_data hc t x d
    obtain ⟨hfifo, hstored⟩ := hstep.fifo h hq.fifo
    have hg : d.env.Grows (f t x d).1.env := henv ▸ .refl _
    refine ⟨⟨hfifo, fun task ht => hg.given (hq.given task (hstored ▸ ht))⟩, hg, ?_, fun hl => ?_⟩
    · rw [hpc]
      exact hstep.tested h
    · exact hstep.same fun he => by
        subst he
        cases hl
  | task pc =>
    obtain ⟨hsame, hg, hA⟩ := task_asserted hc t x
    exact ⟨hq.grows hsame hg, hg, hA, fun _ => hsame⟩
  | main pc =>
    obtain ⟨hq', hg, hA, hsame⟩ := main_asserted hc hq h t x
    refine ⟨hq', hg, hA, fun hl => ?_⟩
    by_cases hadd : ∃ add, pc = .addtask add
    · obtain ⟨add, rfl⟩ := hadd
      have hc : addtask add = .data f := hc
      obtain ⟨pc', -, hstep⟩ := addtask_data hc t x d
      generalize (f t x d).1 = d1 at hstep
      cases hstep <;> cases hl
    · exact hsame fun add he => hadd ⟨add, he⟩
  | net =>
    obtain ⟨hsame, hg, hA⟩ := net_asserted hc t x
    exact ⟨hq.grows hsame hg, hg, hA, fun _ => hsame⟩

end

theorem outline : Outline code (fun _ => false) (holdsIn Pc.held) (fun _ => Queued) (fun _ pc d => pc.Asserted d) where
  discipline := discipline
  move := goes_asserted
  data {t x pc f n d} hc _ hq h := by
    obtain ⟨hq', -, hA, -⟩ := data_asserted hc hq h t x
    exact ⟨hq', hA⟩
  create hc := absurd hc not_create
  arrive h := nomatch h
  stable {t u x pc pc' f n d} hc _ hap hq h h' := by
    obtain ⟨-, hg, -, hsame⟩ := data_asserted hc hq h t x
    cases hl : holdsIn Pc.held pc .poolLock with
    | true => exact h'.apart hap hl hg
    | false => exact h'.grows (hsame hl) hg
  stableCreate hc := absurd hc not_create

end CSocket.EpollPool
