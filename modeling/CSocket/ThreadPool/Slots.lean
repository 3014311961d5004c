import CSocket.ThreadPool.Accounting
/-!
# The slots of the threads

What `adjust_thread` finds in `threads`: every running worker has one slot, and the slot
of a worker that has ended keeps its number until the growth loop fills it again
(`Slots`).
-/
namespace CSocket.ThreadPool
open Pthread

/-! ## Roles -/

/-- What a thread is to the slots. -/
inductive Role where
  | running
  | terminated
  | manager
  | other
  deriving DecidableEq

def Pc.role : Pc → Role
  | .worker .gone | .worker .ended => .terminated
  | .worker _ => .running
  | .adjust _ => .manager
  | _ => .other

def Role.isWorker : Role → Bool
  | .running | .terminated => true
  | _ => false

def roles (s : PoolState) : List Role := s.pcs.map Pc.role

def slot (s : PoolState) (i : Nat) : Nat := s.shared.threads.getD i 0

/-! ## The probe -/

/-- `is_thread_alive` of thread `t`: the threads from number `min` on were created
joinable. -/
def isThreadAlive (min : Nat) (s : PoolState) (t : Nat) : Bool :=
  (roles s)[t]? ≠ some .terminated || min ≤ t

/-- The thread that the action probes, and the answer. -/
def probe (s : PoolState) : PoolAct → Option (Nat × Bool)
  | .run t alive _ => match s.threads[t]? with
    | some (.running (.adjust (.grow i _ _ _))) => match slot s i with
      | 0 => none
      | t + 1 => some (t, alive)
    | _ => none
  | _ => none

/-- A worker that is past its last instruction may still be found running. -/
def Sound (min : Nat) (s : PoolState) (a : PoolAct) : Prop :=
  ∀ p ∈ probe s a, p.2 = false → isThreadAlive min s p.1 = false

/-- By now it has terminated. -/
def Exact (min : Nat) (s : PoolState) (a : PoolAct) : Prop :=
  ∀ p ∈ probe s a, p.2 = isThreadAlive min s p.1

instance (min : Nat) (s : PoolState) (a : PoolAct) : Decidable (Sound min s a) := by
  unfold Sound
  infer_instance

instance (min : Nat) (s : PoolState) (a : PoolAct) : Decidable (Exact min s a) := by
  unfold Exact
  infer_instance

theorem Exact.sound {min : Nat} {s : PoolState} {a : PoolAct} (h : Exact min s a) : Sound min s a :=
  fun p hp hf => (h p hp).symm.trans hf

abbrev probedStep (min : Nat) : PoolState → PoolAct → Option PoolState := Lts.guarded poolStep (Sound min)

/-- The slot belongs to no running worker. -/
def Vacant (s : PoolState) (i : Nat) : Prop := ∀ t, slot s i = t + 1 → (roles s)[t]? = some .terminated

/-- In the growth loop. -/
def Pc.growing : Pc → Bool
  | .adjust (.grow _ _ _ _) | .adjust (.create _ _ _ _) | .adjust (.created _ _ _ _) => true
  | _ => false

/-! ## What a step does to the roles -/

/-- A worker ends under `lock`, and nothing else changes a role. -/
theorem goes_role {pc k : Pc} (h : (code pc).Goes k) :
    k.role = pc.role ∨ pc.role = .running ∧ k.role = .terminated ∧ pc.holds .lock = true := by
  cases moves h with
  | leave | quit => exact .inr ⟨rfl, rfl, rfl⟩
  | _ => exact .inl rfl

/-- What a data instruction does to its thread's role and to the slots. `create` is
entered by the loop's test only. -/
structure RoleOf (pc : Pc) (x : Bool) (d : Threadpool) (r : Threadpool × Pc) : Prop where
  role : r.2.role = pc.role
  threads : r.1.threads = d.threads
  create : ∀ i add l b, r.2 = .adjust (.create i add l b) → pc = .adjust (.grow i add l b) ∧ (i : Int) < d.maxThrNum ∧
    (d.threads.getD i 0 = 0 ∨ x = false)

theorem RoleOf.mk' {pc k : Pc} {x : Bool} {d d' : Threadpool} (hr : k.role = pc.role) (ht : d'.threads = d.threads)
    (hk : k.growing = false) : RoleOf pc x d (d', k) := by
  refine ⟨hr, ht, fun i add l b he => ?_⟩
  obtain rfl : k = .adjust (.create i add l b) := he
  cases hk

theorem data_role {pc : Pc} {f : Nat → Bool → Threadpool → Threadpool × Pc} (h : code pc = .data f) (t : Nat)
    (x : Bool) (d : Threadpool) : RoleOf pc x d (f t x d) := by
  have hr := runs h t x d
  generalize f t x d = r at hr ⊢
  cases hr with
  | store task =>
    obtain ⟨taskQueue, hstore⟩ := store_frame d task.function task.arg
    rw [hstore]
    exact .mk' rfl rfl rfl
  | free i add l b hi hadd hlive hfree =>
    refine ⟨rfl, rfl, fun i' add' l' b' he => ?_⟩
    cases he
    exact ⟨rfl, hi, hfree⟩
  | taken | created =>
    -- still in the loop, but not at its body
    refine ⟨rfl, rfl, fun i' add' l' b' he => ?_⟩
    cases he
  | _ => exact .mk' rfl rfl rfl

section
variable {min max : Nat} {s s' : PoolState} {t i : Nat}

theorem roles_getElem? {pc : Pc} (h : s.pcs[t]? = some pc) : (roles s)[t]? = some pc.role := by
  rw [roles, List.getElem?_map, h]
  rfl

@[simp] theorem length_roles (s : PoolState) : (roles s).length = s.threads.length := by simp [roles]

/-- A thread that moves and keeps its role. -/
theorem roles_set {pc k : Pc} (ht : s.pcs[t]? = some pc) (hk : k.role = pc.role) :
    (s.pcs.set t k).map Pc.role = roles s := by
  rw [List.map_set, hk, roles]
  apply List.ext_getElem?
  intro u
  rw [List.getElem?_set]
  split
  case isTrue hu =>
    subst hu
    have hlt : t < s.pcs.length := (List.getElem?_eq_some_iff.mp ht).1
    rw [if_pos (by simpa using hlt), List.getElem?_map, ht]
    rfl
  case isFalse => rfl

/-- What a step does to the roles and to the slots. -/
inductive Turn (s s' : PoolState) : PoolAct → Prop
  | same {a} : roles s' = roles s → s'.shared.threads = s.shared.threads → Turn s s' a
  | ends {t x w pc} : s.threads[t]? = some (.running pc) → pc.role = .running → pc.holds .lock = true →
      roles s' = (roles s).set t .terminated → s'.shared.threads = s.shared.threads → Turn s s' (.run t x w)
  | create {t x w i add l b} : s.threads[t]? = some (.running (.adjust (.create i add l b))) →
      roles s' = roles s ++ [.running] → s'.shared.threads = s.shared.threads.set i (s.threads.length + 1) →
      s'.pcs[t]? = some (.adjust (.created i add l b)) → Turn s s' (.run t x w)
  | arrive {a} : roles s' = roles s ++ [.other] → s'.shared.threads = s.shared.threads → Turn s s' a

theorem turn {a : PoolAct} (hs : Step code start s a s') : Turn s s' a := by
  cases hs.effect with
  | quiet hpcs hd => exact .same (by rw [roles, hpcs]; rfl) (by rw [hd])
  | @move t x w pc k ha ht hg hpcs hd =>
    subst ha
    have htpc := State.pcs_getElem? ht
    rcases goes_role hg with hk | ⟨hr, hk, hl⟩
    · exact .same (by rw [roles, hpcs, roles_set htpc hk]) (by rw [hd])
    · exact .ends ht hr hl (by rw [roles, hpcs, List.map_set, hk]; rfl) (by rw [hd])
  | @data t x w pc f ha ht hc hpcs hd =>
    have hrole := data_role hc t x s.shared
    exact .same (by rw [roles, hpcs, roles_set (State.pcs_getElem? ht) hrole.role]) (by rw [hd, hrole.threads])
  | @create t x w pc f child k ha ht hc hpcs hd =>
    subst ha
    obtain ⟨i, add, l, b, rfl, rfl, rfl, rfl⟩ := creates hc
    have htpc : s.pcs[t]? = some (.adjust (.create i add l b)) := State.pcs_getElem? ht
    have hlt : t < s.pcs.length := (List.getElem?_eq_some_iff.mp htpc).1
    refine .create ht ?_ (by rw [hd]) ?_
    · rw [roles, hpcs, List.map_append, roles_set (k := .adjust (.created i add l b)) htpc rfl]
      rfl
    · rw [hpcs, List.getElem?_append_left (by simpa using hlt), List.getElem?_set_self hlt]
  | @arrive pc hp hpcs hd =>
    cases pc with
    | add pc => exact .arrive (by rw [roles, hpcs, List.map_append]; rfl) (by rw [hd])
    | _ => cases hp

theorem goes_create {pc k : Pc} (h : (code pc).Goes k) {i add : Nat} {l b : Int} : k ≠ .adjust (.create i add l b) := by
  rintro rfl
  cases moves h

/-- The thread has just found slot `i` free. -/
def Entered (s : PoolState) (a : PoolAct) (t i add : Nat) (l b : Int) : Prop :=
  ∃ x w, a = .run t x w ∧ s.threads[t]? = some (.running (.adjust (.grow i add l b))) ∧
    (i : Int) < s.shared.maxThrNum ∧ (slot s i = 0 ∨ x = false)

/-- `pthread_create` comes after the test. -/
theorem create_entered {a : PoolAct} (hs : Step code start s a s') {add : Nat} {l b : Int}
    (h : s'.pcs[t]? = some (.adjust (.create i add l b))) :
    s.pcs[t]? = some (.adjust (.create i add l b)) ∨ Entered s a t i add l b := by
  let A (u : Nat) (pc : Pc) : Prop := pc = .adjust (.create i add l b) →
    s.pcs[u]? = some (.adjust (.create i add l b)) ∨ Entered s a u i add l b
  have hold (u : Nat) (pc : Pc) (hu : s.pcs[u]? = some pc) : A u pc := fun hpc => .inl (hpc ▸ hu)
  suffices hA : ∀ u pc, s'.pcs[u]? = some pc → A u pc from hA t _ h rfl
  cases hs.effect with
  | quiet hpcs hd =>
    rw [hpcs]
    exact hold
  | @move u x w pc k ha ht hg hpcs hd =>
    rw [hpcs]
    exact forall_set (fun hk => absurd hk (goes_create hg)) fun u pc _ => hold u pc
  | @data u x w pc f ha ht hc hpcs hd =>
    rw [hpcs]
    refine forall_set (fun hk => ?_) fun u pc _ => hold u pc
    obtain ⟨rfl, hlt, hfree⟩ := (data_role hc u x s.shared).create i add l b hk
    exact .inr ⟨x, w, ha, ht, hlt, hfree⟩
  | @create u x w pc f child k ha ht hc hpcs hd =>
    obtain ⟨⟨i', add', l', b', rfl, rfl⟩, rfl, -⟩ := creation hc
    rw [hpcs]
    exact forall_append (fun hk => by cases hk) (forall_set (fun hk => by cases hk) fun u pc _ => hold u pc)
  | @arrive pc hp hpcs hd =>
    rw [hpcs]
    refine forall_append (fun hk => ?_) hold
    rw [hk] at hp
    cases hp

/-! ## The slots -/

/-- Every running worker has one slot, and the others are vacant. -/
structure Slots (min max : Nat) (s : PoolState) : Prop where
  length : s.shared.threads.length = max
  inj : ∀ i j t, slot s i = t + 1 → slot s j = t + 1 → i = j
  worker : ∀ i t, slot s i = t + 1 → (roles s)[t]? = some .running ∨ (roles s)[t]? = some .terminated
  running : ∀ t, (roles s)[t]? = some .running → ∃ i, slot s i = t + 1
  manager : ∀ t, (roles s)[t]? = some .manager → t = min
  create : ∀ i add l b, s.pcs[min]? = some (.adjust (.create i add l b)) → i < max ∧ Vacant s i

theorem slot_set {threads : List Nat} {j x : Nat} (hi : i < threads.length) :
    (threads.set i x).getD j 0 = if j = i then x else threads.getD j 0 := by
  rw [List.getD_eq_getElem?_getD, List.getD_eq_getElem?_getD, List.getElem?_set]
  by_cases hj : j = i
  · subst hj
    simp [hi]
  · simp [hj, Ne.symm hj]

/-- A thread is one of before, or the new one. -/
theorem append_cases {l : List Role} {x r : Role} {u : Nat} (h : (l ++ [x])[u]? = some r) :
    l[u]? = some r ∨ u = l.length ∧ r = x :=
  forall_append (A := fun u r => l[u]? = some r ∨ u = l.length ∧ r = x) (.inr ⟨rfl, rfl⟩) (fun _ _ h => .inl h) u r h

theorem slot_congr (h : s'.shared.threads = s.shared.threads) (i : Nat) : slot s' i = slot s i := by rw [slot, slot, h]

/-- A thread number that is taken. -/
theorem Slots.lt (h : Slots min max s) (hi : slot s i = t + 1) : t < s.threads.length := by
  rw [← length_roles]
  rcases h.worker i t hi with hr | hr <;> exact (List.getElem?_eq_some_iff.mp hr).1

/-- The slots stay, and so does who has terminated. -/
theorem Slots.congr (h : Slots min max s) (hslot : s'.shared.threads = s.shared.threads)
    (hold : ∀ (t : Nat) r, (roles s)[t]? = some r → (roles s')[t]? = some r ∨
      r = .running ∧ (roles s')[t]? = some .terminated)
    (hnew : ∀ (t : Nat) r, (roles s')[t]? = some r → r = .running ∨ r = .manager → (roles s)[t]? = some r)
    (hcreate : ∀ i add l b, s'.pcs[min]? = some (.adjust (.create i add l b)) → i < max ∧ Vacant s i) :
    Slots min max s' := by
  have hs := slot_congr hslot
  refine ⟨hslot ▸ h.length, fun i j t hi hj => ?_, fun i t hi => ?_, fun t hr => ?_, fun t hr => ?_,
    fun i add l b hpc => ?_⟩
  · rw [hs] at hi hj
    exact h.inj i j t hi hj
  · rw [hs] at hi
    rcases h.worker i t hi with hr | hr
    · exact (hold t _ hr).imp id And.right
    · rcases hold t _ hr with hr' | ⟨he, -⟩
      · exact .inr hr'
      · cases he
  · obtain ⟨i, hi⟩ := h.running t (hnew t _ hr (.inl rfl))
    exact ⟨i, (hs i).trans hi⟩
  · exact h.manager t (hnew t _ hr (.inr rfl))
  · obtain ⟨hlt, hv⟩ := hcreate i add l b hpc
    refine ⟨hlt, fun t hi => ?_⟩
    rw [hs] at hi
    rcases hold t _ (hv t hi) with hr | ⟨he, -⟩
    · exact hr
    · cases he

/-- A vacant slot gets a new worker. -/
theorem Slots.store (h : Slots min max s) (hi : i < max) (hv : Vacant s i) (hr : roles s' = roles s ++ [.running])
    (hslot : s'.shared.threads = s.shared.threads.set i (s.threads.length + 1))
    (hcreate : ∀ i add l b, s'.pcs[min]? = some (.adjust (.create i add l b)) → i < max ∧ Vacant s' i) :
    Slots min max s' := by
  have hset (j : Nat) : slot s' j = if j = i then s.threads.length + 1 else slot s j := by
    rw [slot, hslot]
    exact slot_set (h.length.symm ▸ hi)
  have hnew : (roles s')[s.threads.length]? = some .running := by
    rw [hr, List.getElem?_append_right (by simp), length_roles, Nat.sub_self]
    rfl
  have hold (u : Nat) (hu : u < s.threads.length) : (roles s')[u]? = (roles s)[u]? := by
    rw [hr, List.getElem?_append_left (by simpa using hu)]
  have hcases (u : Nat) (r : Role) (hu : (roles s')[u]? = some r) :
      (roles s)[u]? = some r ∨ u = s.threads.length ∧ r = .running := by
    rw [hr] at hu
    rw [← length_roles]
    exact append_cases hu
  constructor
  · rw [hslot, List.length_set]
    exact h.length
  · intro j j' u hj hj'
    rw [hset] at hj hj'
    split at hj <;> split at hj'
    case isTrue.isTrue he he' => exact he.trans he'.symm
    -- no slot of before has the number of the new thread
    case isTrue.isFalse => exact absurd (h.lt hj') (by omega)
    case isFalse.isTrue => exact absurd (h.lt hj) (by omega)
    case isFalse.isFalse => exact h.inj j j' u hj hj'
  · intro j u hj
    rw [hset] at hj
    split at hj
    · obtain rfl : s.threads.length = u := Nat.succ.inj hj
      exact .inl hnew
    · rw [hold u (h.lt hj)]
      exact h.worker j u hj
  · intro u hu
    rcases hcases u _ hu with hu | ⟨rfl, -⟩
    · obtain ⟨j, hj⟩ := h.running u hu
      have hne : j ≠ i := by
        rintro rfl
        rw [hv u hj] at hu
        cases hu
      exact ⟨j, by rw [hset, if_neg hne, hj]⟩
    · exact ⟨i, by rw [hset, if_pos rfl]⟩
  · intro u hu
    rcases hcases u _ hu with hu | ⟨-, he⟩
    · exact h.manager u hu
    · cases he
  · exact hcreate

theorem Slots.step (h : Slots min max s) {a : PoolAct} (hmax : s.shared.maxThrNum = max) (hok : Sound min s a)
    (hs : Step code start s a s') : Slots min max s' := by
  have hcreate (i add l b) (hpc : s'.pcs[min]? = some (.adjust (.create i add l b))) : i < max ∧ Vacant s i := by
    rcases create_entered hs hpc with hpc | ⟨x, w, rfl, ht, hlt, hfree⟩
    · exact h.create i add l b hpc
    · refine ⟨by rw [hmax] at hlt; exact Int.ofNat_lt.mp hlt, fun t hi => ?_⟩
      rcases hfree with h0 | rfl
      · rw [hi] at h0
        cases h0
      · -- a sound probe reports dead only a thread that has terminated
        have halive := hok (t, false) (by simp [probe, ht, hi]) rfl
        simp only [isThreadAlive, Bool.or_eq_false_iff, decide_eq_false_iff_not, not_not] at halive
        exact halive.1
  cases turn hs with
  | same hr hslot =>
    refine h.congr hslot (fun t r ht => .inl (hr ▸ ht)) (fun t r ht _ => hr ▸ ht) hcreate
  | @ends t x w pc ht hrun hl hr hslot =>
    have hrt : (roles s)[t]? = some .running := hrun ▸ roles_getElem? (State.pcs_getElem? ht)
    have hlt : t < (roles s).length := (List.getElem?_eq_some_iff.mp hrt).1
    refine h.congr hslot (fun u r hu => ?_) (fun u r hu hne => ?_) hcreate
    · by_cases hut : t = u
      · subst hut
        right
        rw [hr, List.getElem?_set_self hlt]
        exact ⟨Option.some.inj (hu.symm.trans hrt), rfl⟩
      · left
        rwa [hr, List.getElem?_set_ne hut]
    · by_cases hut : t = u
      · subst hut
        rw [hr, List.getElem?_set_self hlt] at hu
        cases hu
        rcases hne with he | he <;> cases he
      · rwa [hr, List.getElem?_set_ne hut] at hu
  | @create t x w i add l b ht hr hslot hpc' =>
    have htpc : s.pcs[t]? = some (.adjust (.create i add l b)) := State.pcs_getElem? ht
    obtain rfl : t = min := h.manager t (roles_getElem? htpc)
    obtain ⟨hi, hv⟩ := h.create i add l b htpc
    refine h.store hi hv hr hslot fun i' add' l' b' hpc => ?_
    rw [hpc'] at hpc
    cases hpc
  | arrive hr hslot =>
    refine h.congr hslot (fun u r hu => .inl ?_) (fun u r hu hne => ?_) hcreate
    · rw [hr, List.getElem?_append_left (List.getElem?_eq_some_iff.mp hu).1]
      exact hu
    · rw [hr] at hu
      rcases append_cases hu with hu | ⟨-, rfl⟩
      · exact hu
      · rcases hne with he | he <;> cases he

theorem slots_start {qmax : Nat} {raw : Nat → ThreadpoolTask} (hle : min ≤ max) :
    Slots min max (ThreadPool.create min max qmax raw) := by
  have hslot (i : Nat) : slot (ThreadPool.create min max qmax raw) i = if i < min then i + 1 else 0 := by
    by_cases hi : i < max
    · simp [slot, ThreadPool.create, hi]
    · have hmin : ¬ i < min := fun h => hi (Nat.lt_of_lt_of_le h hle)
      simp [slot, ThreadPool.create, hi, hmin]
  have hroles : roles (ThreadPool.create min max qmax raw) = List.replicate min .running ++ [.manager, .other] := by
    simp [roles, State.pcs, ThreadPool.create, Pc.role]
  have hcases (t : Nat) (r : Role) (ht : (roles (ThreadPool.create min max qmax raw))[t]? = some r) :
      t < min ∧ r = .running ∨ t = min ∧ r = .manager ∨ r = .other := by
    rw [hroles, List.append_cons] at ht
    rcases append_cases ht with ht | ⟨-, rfl⟩
    · rcases append_cases ht with ht | ⟨rfl, rfl⟩
      · rw [List.getElem?_replicate] at ht
        split at ht
        case isTrue hlt =>
          cases ht
          exact .inl ⟨hlt, rfl⟩
        case isFalse => cases ht
      · exact .inr (.inl ⟨List.length_replicate .., rfl⟩)
    · exact .inr (.inr rfl)
  constructor
  · simp [ThreadPool.create]
  · intro i j t hi hj
    rw [hslot] at hi hj
    split at hi <;> split at hj <;> omega
  · intro i t hi
    rw [hslot] at hi
    split at hi
    case isTrue hlt =>
      obtain rfl : i = t := Nat.succ.inj hi
      rw [hroles, List.getElem?_append_left (by simpa using hlt), List.getElem?_replicate, if_pos hlt]
      exact .inl rfl
    case isFalse => cases hi
  · intro t ht
    rcases hcases t _ ht with ⟨hlt, -⟩ | ⟨-, he⟩ | he
    · exact ⟨t, by rw [hslot, if_pos hlt]⟩
    · cases he
    · cases he
  · intro t ht
    rcases hcases t _ ht with ⟨-, he⟩ | ⟨he, -⟩ | he
    · cases he
    · exact he
    · cases he
  · intro i add l b hpc
    rcases create_pcs (List.mem_of_getElem? hpc) with he | he | he <;> cases he

theorem slots {qmax : Nat} {raw : Nat → ThreadpoolTask} (hle : min ≤ max)
    (hr : Lts.Reach (probedStep min) (ThreadPool.create min max qmax raw) s) :
    Slots min max s ∧ Asserted code Pc.holds (Bounded min max) (fun _ pc d => pc.Room d) s := by
  apply hr.invariant _ ⟨slots_start hle, bounded_start hle raw⟩
  rintro s a s' ⟨hslots, ha⟩ hs
  obtain ⟨hok, hs⟩ := Option.ite_none_right_eq_some.mp hs
  have hstep := step_cases hs
  exact ⟨hslots.step ha.global.maxEq hok hstep, (bounded_outline min max).asserted ha hstep⟩

end

end CSocket.ThreadPool
