import CSocket.TaskPool.Code
/-!
# Exactly once, in order, from a private copy

The ring is a queue (`ThreadPool.Sound`), and the tasks in it are numbered in the
order of their `addtask`s. A worker runs the tasks it took, each once, from its
copy: what it took is what it ran and the one task it carries (`Pc.carried`). That
`arg` points to the copy is what makes the callback independent of the slot.
-/
namespace CSocket.TaskPool
open Pthread SimplePool

/-! ## History -/

/-- The numbers of the tasks that worker `t` took. -/
def Data.takenBy (d : Data) (t : Nat) : List Int := (d.pool.taken.filter (·.1 = t)).map fun x => x.2.tasknum

/-- The numbers that `taskRun` saw in worker `t`. -/
def Data.ranBy (d : Data) (t : Nat) : List Int := (d.env.ran.filter (·.1 = t)).map Prod.snd

/-- The task a worker has taken and not begun to run. -/
def Pc.carried : Pc → List Int
  | .worker (.signal job) | .worker (.shutdown job) | .worker (.unlock job) | .task (.start job) => [job.tasknum]
  | _ => []

def Pc.Tested (d : Data) : Pc → Prop
  | .worker pc => pc.Tested copyTask d.pool
  | .task (.start job) => ∃ x ∈ d.pool.taken, job = copyTask x.2
  | .add pc => pc.Tested d.pool
  | _ => True

structure Local (t : Nat) (pc : Pc) (d : Data) : Prop where
  tested : pc.Tested d
  carried : d.pool.shutdown = false → d.takenBy t = d.ranBy t ++ pc.carried

/-- The `k`-th task added has number 1000 + k. -/
structure Numbered (d : Data) : Prop where
  begin : d.env.beginnum = 1000 + d.pool.stored.length
  num : ∀ (k : Nat) (x : PoolTask), d.pool.stored[k]? = some x → x.tasknum = 1000 + k

structure Queue (maxtasknum n : Nat) (d : Data) : Prop where
  fifo : d.pool.Fifo
  max : d.pool.maxJobNum = maxtasknum
  numbered : d.pool.stored.length < 2 ^ 31 - 1000 → Numbered d
  taken : ∀ x ∈ d.pool.taken, x.1 < n
  ran : ∀ x ∈ d.env.ran, x.1 < n

section
variable {d d' : Data} {t u n maxtasknum : Nat}

/-! ## One step and the thread that takes it -/

theorem takenBy_append (d : Data) (t : Nat) (u : Nat) (job : PoolTask) :
    Data.takenBy { d with pool := { d.pool with taken := d.pool.taken ++ [(t, job)] } } u =
      d.takenBy u ++ if t = u then [job.tasknum] else [] := by
  simp only [Data.takenBy, List.filter_append, List.map_append]
  by_cases h : t = u <;> simp [h]

theorem ranBy_append (d : Data) (t u : Nat) (num : Int) :
    Data.ranBy { d with env := { d.env with ran := d.env.ran ++ [(t, num)] } } u =
      d.ranBy u ++ if t = u then [num] else [] := by
  simp only [Data.ranBy, List.filter_append, List.map_append]
  by_cases h : t = u <;> simp [h]

theorem goes_local {pc k : Pc} (hg : (code pc).Goes k) (h : Local t pc d) : Local t k d := by
  cases moves hg with
  | signal job => exact ⟨.inl h.tested, h.carried⟩
  | unlock job => exact ⟨h.tested, h.carried⟩
  | _ => exact ⟨trivial, h.carried⟩

theorem worker_local {pc pc' : WorkerPc PoolTask} {pool : ThreadPool PoolTask}
    (hs : WorkerStep copyTask t d.pool pc pc' pool) (h : Local t (.worker pc) d) :
    Local t (.worker pc') { d with pool } := by
  refine ⟨hs.tested h.tested, ?_⟩
  cases hs with
  | sleep | awake | some | stay | exit => exact h.carried
  | take =>
    intro hdown
    refine (takenBy_append d t t d.pool.front).trans ?_
    rw [if_pos rfl, h.carried hdown]
    simp [Pc.carried, Data.ranBy, copyTask]
  | none hc =>
    intro hdown
    rcases h.tested with hpos | hshut
    · omega
    · rw [hdown] at hshut
      cases hshut
  | quit hc =>
    intro hdown
    rw [hc] at hdown
    cases hdown

theorem data_local {pc pc' : Pc} (hs : DataStep t d pc pc' d') (h : Local t pc d) : Local t pc' d' := by
  cases hs with
  | worker hs => exact worker_local hs h
  | add hs =>
    cases hs with
    | full hc => exact ⟨hc, h.carried⟩
    | room hc => exact ⟨hc, h.carried⟩
    | store => exact ⟨trivial, h.carried⟩
  | @run job =>
    refine ⟨trivial, fun hdown => ?_⟩
    obtain ⟨x, hx, rfl⟩ := h.tested
    -- `arg` is the copy, whatever is in the slot by now
    have hnum : d.deref (copyTask x.2) = copyTask x.2 := rfl
    have hran := ranBy_append d t t (copyTask x.2).tasknum
    rw [if_pos rfl] at hran
    rw [hnum, hran]
    exact (h.carried hdown).trans (List.append_nil _).symm
  | done => exact ⟨trivial, h.carried⟩
  | call => exact ⟨trivial, fun hdown => nomatch hdown⟩
  | joined | joining | alone | free => exact ⟨trivial, h.carried⟩

/-! ## One step and the queue -/

theorem Queue.store (h : Queue maxtasknum n d) (hlt : d.pool.jobNum < d.pool.maxJobNum) :
    Queue maxtasknum n ⟨d.pool.push (fill d).1, (fill d).2⟩ := by
  refine ⟨h.fifo.push hlt _, h.max, fun hrange => ?_, h.taken, h.ran⟩
  have hlen : d.pool.stored.length + 1 < 2 ^ 31 - 1000 := by simpa [ThreadPool.push] using hrange
  obtain ⟨hbegin, hnum⟩ := h.numbered (by omega)
  constructor
  · show wrap32 (d.env.beginnum + 1) = 1000 + ((d.pool.stored ++ [_]).length : Nat)
    rw [ThreadPool.wrap32_eq (by omega) (by omega), hbegin, List.length_append]
    simp
    omega
  · intro k x hx
    have hx : (d.pool.stored ++ [(fill d).1])[k]? = some x := hx
    rcases Nat.lt_trichotomy k d.pool.stored.length with hk | hk | hk
    · rw [List.getElem?_append_left hk] at hx
      exact hnum k x hx
    · subst hk
      rw [List.getElem?_append_right (Nat.le_refl _), Nat.sub_self] at hx
      cases hx
      exact hbegin
    · rw [List.getElem?_eq_none (by simp; omega)] at hx
      cases hx

/-- The next thread has no history. -/
theorem Queue.fresh (h : Queue maxtasknum n d) : d.takenBy n = [] ∧ d.ranBy n = [] := by
  constructor
  · refine List.map_eq_nil_iff.mpr (List.filter_eq_nil_iff.mpr fun x hx he => ?_)
    exact Nat.ne_of_lt (h.taken x hx) (of_decide_eq_true he)
  · refine List.map_eq_nil_iff.mpr (List.filter_eq_nil_iff.mpr fun x hx he => ?_)
    exact Nat.ne_of_lt (h.ran x hx) (of_decide_eq_true he)

theorem data_queue {pc pc' : Pc} (hs : DataStep t d pc pc' d') (ht : t < n) (h : Queue maxtasknum n d)
    (hpc : pc.Tested d) : Queue maxtasknum n d' := by
  cases hs with
  | @worker pc pc' pool hs =>
    obtain ⟨hfifo, hstored⟩ := hs.fifo hpc h.fifo
    refine ⟨hfifo, ?_, fun hrange => ?_, ?_, h.ran⟩
    · cases hs <;> exact h.max
    · rw [hstored] at hrange
      obtain ⟨hbegin, hnum⟩ := h.numbered hrange
      exact ⟨hstored.symm ▸ hbegin, hstored.symm ▸ hnum⟩
    · cases hs with
      | take =>
        intro x hx
        rcases List.mem_append.mp hx with hx | hx
        · exact h.taken x hx
        · obtain rfl := List.mem_singleton.mp hx
          exact ht
      | _ => exact h.taken
  | add hs =>
    cases hs with
    | full | room => exact h
    | store => exact h.store hpc
  | run =>
    refine ⟨h.fifo, h.max, fun hr => ⟨(h.numbered hr).begin, (h.numbered hr).num⟩, h.taken, fun x hx => ?_⟩
    rcases List.mem_append.mp hx with hx | hx
    · exact h.ran x hx
    · obtain rfl := List.mem_singleton.mp hx
      exact ht
  | done | joined | joining | alone => exact h
  | call =>
    refine ⟨h.fifo.congr ⟨rfl, rfl, rfl, rfl, rfl, rfl, rfl, fun _ => rfl⟩, h.max, fun hr => ?_, h.taken, h.ran⟩
    exact ⟨(h.numbered hr).begin, (h.numbered hr).num⟩
  | free =>
    exact ⟨h.fifo, h.max, fun hr => ⟨(h.numbered hr).begin, (h.numbered hr).num⟩, h.taken, h.ran⟩

/-! ## One step and the other threads -/

/-- What a step of thread `t` leaves to others. -/
structure Leaves (t : Nat) (d d' : Data) : Prop where
  taken : ∀ u, t ≠ u → d'.takenBy u = d.takenBy u
  ran : ∀ u, t ≠ u → d'.ranBy u = d.ranBy u
  kept : ∀ x ∈ d.pool.taken, x ∈ d'.pool.taken
  shutdown : d.pool.shutdown = true → d'.pool.shutdown = true

theorem data_leaves {pc pc' : Pc} (hs : DataStep t d pc pc' d') : Leaves t d d' := by
  cases hs with
  | worker hs =>
    cases hs with
    | take =>
      refine ⟨fun u hu => ?_, fun u _ => rfl, fun x hx => List.mem_append_left _ hx, id⟩
      refine (takenBy_append d t u d.pool.front).trans ?_
      rw [if_neg hu, List.append_nil]
    | _ => exact ⟨fun _ _ => rfl, fun _ _ => rfl, fun _ hx => hx, id⟩
  | add hs => cases hs <;> exact ⟨fun _ _ => rfl, fun _ _ => rfl, fun _ hx => hx, id⟩
  | run =>
    refine ⟨fun u _ => rfl, fun u hu => ?_, fun _ hx => hx, id⟩
    rw [ranBy_append, if_neg hu, List.append_nil]
  | call => exact ⟨fun _ _ => rfl, fun _ _ => rfl, fun _ hx => hx, fun _ => rfl⟩
  | done | joined | joining | alone | free => exact ⟨fun _ _ => rfl, fun _ _ => rfl, fun _ hx => hx, id⟩

/-- Only what is under the lock changes the queue. -/
theorem data_same {pc pc' : Pc} (hs : DataStep t d pc pc' d') (hl : holdsIn Pc.held pc .poolLock = false) :
    d.pool.Same d'.pool := by
  cases hs with
  | worker hs =>
    refine hs.same ?_
    rintro rfl
    cases hl
  | add hs => cases hs <;> cases hl
  | call => exact ⟨rfl, rfl, rfl, rfl, rfl, rfl, rfl, fun _ => rfl⟩
  | run | done | joined | joining | alone | free => exact .refl _

theorem Pc.Tested.other {pc pc' k : Pc} (h : pc'.Tested d) (hap : Apart code (holdsIn Pc.held) pc pc')
    (hs : DataStep t d pc k d') : pc'.Tested d' := by
  cases hl : holdsIn Pc.held pc .poolLock with
  | false =>
    have hsame := data_same hs hl
    cases pc' with
    | worker pc' => exact WorkerPc.Tested.congr h hsame
    | task pc' =>
      cases pc' with
      | start job =>
        obtain ⟨x, hx, he⟩ := h
        exact ⟨x, (data_leaves hs).kept x hx, he⟩
      | sleep => trivial
    | add pc' => exact AddPc.Tested.congr h hsame
    | returned | destroy => trivial
  | true =>
    have hunheld : pc'.held = [] ∨ ∃ pc0 c m, code pc0 = .wait c m pc' := unheld_of_apart hap hl
    cases pc' with
    | worker pc' =>
      refine WorkerPc.tested_of_unheld (hunheld.imp_right ?_) _
      rintro ⟨pc0, c, m, hw⟩
      rcases wait_cases hw with ⟨task, -, -, he⟩ | ⟨arg, k', -, -, he⟩
      · exact ⟨task, Pc.worker.inj he⟩
      · cases he
    | task pc' =>
      cases pc' with
      | start job =>
        obtain ⟨x, hx, he⟩ := h
        exact ⟨x, (data_leaves hs).kept x hx, he⟩
      | sleep => trivial
    | add pc' =>
      refine AddPc.tested_of_unheld (hunheld.imp_right ?_) _
      rintro ⟨pc0, c, m, hw⟩
      rcases wait_cases hw with ⟨task, -, -, he⟩ | ⟨arg, k', -, -, he⟩
      · cases he
      · exact ⟨arg, k', Pc.add.inj he⟩
    | returned | destroy => trivial

/-! ## The proof outline -/

theorem outline (maxtasknum : Nat) : Outline code start (holdsIn Pc.held) (Queue maxtasknum) Local where
  discipline := discipline
  move := goes_local
  data {t x pc f n d} hc ht hq h := by
    have hs := data_step hc t x d
    exact ⟨data_queue hs ht hq h.tested, data_local hs h⟩
  create hc := absurd hc not_create
  arrive {pc n d} hpc hq := by
    cases pc with
    | add pc =>
      cases pc with
      | lock arg k =>
        refine ⟨⟨hq.fifo, hq.max, hq.numbered, fun x hx => Nat.lt_succ_of_lt (hq.taken x hx),
          fun x hx => Nat.lt_succ_of_lt (hq.ran x hx)⟩, trivial, fun _ => ?_⟩
        obtain ⟨htaken, hran⟩ := hq.fresh
        rw [htaken, hran]
        rfl
      | _ => cases hpc
    | _ => cases hpc
  stable {t u x pc pc' f n d} hc hne hap _ _ h := by
    have hs := data_step hc t x d
    obtain ⟨h1, h2, -, h4⟩ := data_leaves hs
    refine ⟨h.tested.other hap hs, fun hdown => ?_⟩
    rw [h1 u hne, h2 u hne]
    refine h.carried (Bool.eq_false_iff.mpr fun hd => ?_)
    rw [h4 hd] at hdown
    cases hdown
  stableCreate hc := absurd hc not_create

end

section
variable {thrnum maxtasknum : Nat} {raw copy : Nat → PoolTask} {s : PoolState}

theorem create_queue :
    Asserted code (holdsIn Pc.held) (Queue maxtasknum) Local (create thrnum maxtasknum raw copy) where
  exclusive := create_exclusive
  global := by
    refine ⟨fun _ => ⟨?_, rfl, rfl, rfl, Int.le_refl _, Int.natCast_nonneg _, rfl⟩, rfl,
      fun _ => ⟨rfl, fun k x hx => ?_⟩, fun x hx => absurd hx List.not_mem_nil, fun x hx => absurd hx List.not_mem_nil⟩
    · simp [create]
    · cases hx
  atPc t pc ht := by
    rcases create_pcs (List.mem_of_getElem? ht) with ⟨task, rfl⟩ | rfl <;> exact ⟨trivial, fun _ => rfl⟩

theorem Reachable.asserted (h : Reachable thrnum maxtasknum s) :
    Asserted code (holdsIn Pc.held) (Queue maxtasknum) Local s := by
  obtain ⟨raw, copy, hr⟩ := h
  exact (outline maxtasknum).reach create_queue hr

/-- The tasks that were not taken are in their slots. -/
theorem slot_of_pending {p : ThreadPool PoolTask} (h : p.Sound) {k : Nat} (hk : p.taken.length ≤ k)
    (hlt : k < p.stored.length) : p.tasks[k % p.maxJobNum.toNat]? = p.stored[k]? := by
  have hpush := h.push
  have hpop := h.pop
  have hnum := h.num
  have hle := h.le
  have hsize : k - p.taken.length < p.jobNum.toNat := by omega
  have hcell : k % p.maxJobNum.toNat < p.tasks.length := by
    rw [h.cells]
    exact Nat.mod_lt _ (by omega)
  have hindex : p.jobPop.toNat + (k - p.taken.length) = k := by omega
  rw [← h.fifo, List.getElem?_append_right (by simpa using hk), List.length_map, ThreadPool.pending,
    Ring.getElem?_contents _ _ _ hsize, hindex]
  simp [List.getD_eq_getElem?_getD, hcell]

/-- While the pool is up: the queue's counters, its slots, the numbers of the tasks
taken, and what each worker ran. -/
theorem fifo_copies (h : Reachable thrnum maxtasknum s) (hdown : s.shared.pool.shutdown = false)
    (hfew : s.shared.pool.stored.length < 2 ^ 31 - 1000) :
    (0 ≤ s.shared.pool.jobNum ∧ s.shared.pool.jobNum ≤ maxtasknum) ∧
    s.shared.pool.jobPush - s.shared.pool.jobPop = s.shared.pool.jobNum ∧
    (∀ k, s.shared.pool.taken.length ≤ k → k < s.shared.pool.stored.length →
      s.shared.pool.tasks[k % maxtasknum]? = s.shared.pool.stored[k]?) ∧
    (∀ (k : Nat) x, s.shared.pool.taken[k]? = some x → x.2.tasknum = 1000 + k) ∧
    ∀ (t : Nat) (pc : Pc), s.pcs[t]? = some pc →
      s.shared.takenBy t = s.shared.ranBy t ++ pc.carried := by
  obtain ⟨-, hq, hlocal⟩ := h.asserted
  have hsound := hq.fifo (by omega)
  have hmax := hq.max
  have hle := hsound.le
  have hnum := hsound.num
  refine ⟨⟨hsound.nonneg, hmax ▸ hle⟩, by omega, fun k hk hlt => ?_, fun k x hx => ?_, fun t pc ht => ?_⟩
  · rw [← slot_of_pending hsound hk hlt, hmax, Int.toNat_natCast]
  · apply (hq.numbered hfew).num
    rw [← hsound.fifo, List.getElem?_append_left]
    · rw [List.getElem?_map, hx]
      rfl
    · rw [List.length_map]
      exact (List.getElem?_eq_some_iff.mp hx).1
  · exact (hlocal t pc ht).carried hdown

/-- The slot holds the next task before the callback of the first one begins. -/
theorem fifo_copies_reused : ∃ s : PoolState, Reachable 2 1 s ∧
    s.shared.pool.tasks.map PoolTask.tasknum = [1001] ∧ s.shared.env.ran = [(0, 1000)] ∧
    ∀ (t : Nat) (pc : Pc), s.pcs[t]? = some pc → s.shared.takenBy t = s.shared.ranBy t ++ pc.carried := by
  obtain ⟨s, hr, hs⟩ := Lts.Reach.of_run poolStep (create 2 1 (fun _ => {}) fun _ => {})
    (fun s => s.shared.pool.shutdown = false ∧ s.shared.pool.stored.length < 2 ^ 31 - 1000 ∧
      s.shared.pool.tasks.map PoolTask.tasknum = [1001] ∧ s.shared.env.ran = [(0, 1000)])
    (arrives :: steps 3 5 ++ steps 0 7 ++ arrives :: steps 4 5 ++ steps 0 1) (by decide +kernel)
  obtain ⟨hdown, hfew, htasks, hran⟩ := of_decide_eq_true hs
  have hreach : Reachable 2 1 s := ⟨_, _, hr⟩
  obtain ⟨-, -, -, -, hall⟩ := fifo_copies hreach hdown hfew
  exact ⟨s, hreach, htasks, hran, hall⟩

end
end CSocket.TaskPool
